import Datamodel.Summary.Document
import Mathlib.Data.List.Forall2

/-!
# What a summary looks at

Every section of a summary but the parameters is read off the elements that six paths lead to, three
of them from the root and three from elements on the way, and of such an element only the attributes
and the text are looked at. So a relation between elements that keeps these, and along which the six
paths can be followed side by side, does not show in the sections. Whoever wants to know that some
change to a tree does not matter has to look at paths only.
-/

namespace Datamodel

open Xml (Element)

/-- The paths that the sections of a summary follow. -/
def sectionPaths : List (List String) :=
  [["classes", "class"], ["fields", "field"], ["menus", "menu"],
    ["user_rights", "profiles", "profile"],
    ["groups", "group", "actions", "action"], ["module_designs", "module_design"]]

/-- A summary without what it says of parameters. -/
def Summary.withoutParameters (summary : Summary) : Summary :=
  { summary with parameters := [] }

/-- Elements of which the same is said themselves, whatever they hold. -/
structure SameFront (one other : Element) : Prop where
  name : one.name = other.name
  attributes : one.attributes = other.attributes
  text : one.text = other.text

/-- A relation between elements that the sections of a summary do not show. -/
structure Unseen (r : Element → Element → Prop) : Prop where
  front {one other : Element} : r one other → SameFront one other
  select {one other : Element} {path : List String} : r one other → path ∈ sectionPaths →
    List.Forall₂ r (one.select path) (other.select path)

theorem SameFront.refl (element : Element) : SameFront element element :=
  ⟨rfl, rfl, rfl⟩

theorem SameFront.trans {one middle other : Element} (h : SameFront one middle)
    (hnext : SameFront middle other) : SameFront one other :=
  ⟨h.name.trans hnext.name, h.attributes.trans hnext.attributes, h.text.trans hnext.text⟩

theorem SameFront.id_eq {one other : Element} (h : SameFront one other) : one.id = other.id := by
  rw [Element.id, Element.id, Element.attribute?, Element.attribute?, h.attributes]

theorem SameFront.kind_eq {one other : Element} (h : SameFront one other) :
    one.kind = other.kind := by
  rw [Element.kind, Element.kind, Element.attribute?, Element.attribute?, Element.localAttribute?,
    Element.localAttribute?, h.attributes]

theorem SameFront.actionRight_eq {one other : Element} (h : SameFront one other) :
    actionRight one = actionRight other := by
  rw [actionRight, actionRight, h.id_eq, h.text]

theorem map_eq_of_forall₂ {α β : Type} {r : α → α → Prop} {f : α → β} {elements others : List α}
    (h : List.Forall₂ r elements others) (hsame : ∀ {one other}, r one other → f one = f other) :
    elements.map f = others.map f := by
  rw [← List.forall₂_eq_eq_eq, List.forall₂_map_left_iff, List.forall₂_map_right_iff]
  exact h.imp fun _ _ => hsame

namespace Unseen

variable {r : Element → Element → Prop} {one other : Element}

theorem fieldSummaries_eq (hr : Unseen r) (h : r one other) :
    fieldSummaries one = fieldSummaries other := by
  refine map_eq_of_forall₂ (hr.select h (by simp [sectionPaths])) fun hfield => ?_
  rw [(hr.front hfield).id_eq, (hr.front hfield).kind_eq]

theorem classSummaries_eq (hr : Unseen r) (h : r one other) :
    classSummaries one = classSummaries other := by
  refine map_eq_of_forall₂ (hr.select h (by simp [sectionPaths])) fun hclass => ?_
  rw [(hr.front hclass).id_eq, hr.fieldSummaries_eq hclass]

theorem menuSummaries_eq (hr : Unseen r) (h : r one other) :
    menuSummaries one = menuSummaries other := by
  refine map_eq_of_forall₂ (hr.select h (by simp [sectionPaths])) fun hmenu => ?_
  rw [(hr.front hmenu).id_eq, (hr.front hmenu).kind_eq]

theorem profileRights_eq (hr : Unseen r) (h : r one other) :
    profileRights one = profileRights other := by
  have hactions : (one.select ["groups", "group", "actions", "action"]).map actionRight =
      (other.select ["groups", "group", "actions", "action"]).map actionRight :=
    map_eq_of_forall₂ (hr.select h (by simp [sectionPaths])) fun haction =>
      (hr.front haction).actionRight_eq
  rw [profileRights, profileRights, (hr.front h).id_eq, hactions]

theorem profileSummaries_eq (hr : Unseen r) (h : r one other) :
    profileSummaries one = profileSummaries other :=
  map_eq_of_forall₂ (hr.select h (by simp [sectionPaths])) hr.profileRights_eq

theorem designSummaries_eq (hr : Unseen r) (h : r one other) :
    designSummaries one = designSummaries other := by
  refine map_eq_of_forall₂ (hr.select h (by simp [sectionPaths])) fun hdesign => ?_
  rw [(hr.front hdesign).id_eq]

/-- The sections of a summary do not show the relation. -/
theorem withoutParameters_eq (hr : Unseen r) (h : r one other) (descriptor : ModuleDescriptor) :
    (Summary.ofDocument one descriptor).withoutParameters =
      (Summary.ofDocument other descriptor).withoutParameters := by
  rw [Summary.ofDocument, Summary.ofDocument, (hr.front h).name]
  split
  · rw [Summary.withoutParameters, Summary.withoutParameters, hr.classSummaries_eq h,
      hr.menuSummaries_eq h, hr.profileSummaries_eq h, hr.designSummaries_eq h]
  · rfl

end Unseen

end Datamodel
