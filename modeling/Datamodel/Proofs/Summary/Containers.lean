import Datamodel.Proofs.Summary.Sections
import Datamodel.Proofs.Xml.Children
import Mathlib

/-!
# Members and their containers

On the way to what it lists, a summary passes containers, which are there only to hold members:
classes, fields, menus, rights, profiles, groups, actions and designs are all gathered from whatever
containers hold them. So some containers in a row can give way to others that hold the same members
in the same order, and containers without members can come and go. One such replacement is a step
between trees, and any number of steps is a redistribution.

Every path that a section follows goes through a container only on to its members. This is what
makes a step invisible: beyond the place of the replacement a path meets the same members again, and
before it, related elements.
-/

namespace Datamodel

open Xml (Element Siblings)

/-- The name of the members of a container with this name. -/
def memberName? : String → Option String
  | "classes" => some "class"
  | "fields" => some "field"
  | "menus" => some "menu"
  | "user_rights" => some "profiles"
  | "profiles" => some "profile"
  | "groups" => some "group"
  | "group" => some "actions"
  | "actions" => some "action"
  | "module_designs" => some "module_design"
  | _ => none

/-- Elements that differ at most in their children of one name. -/
structure AlikeBut (name : String) (one other : Element) : Prop where
  front : SameFront one other
  named : ∀ kept, kept ≠ name → one.named kept = other.named kept

/-- Some containers, side by side anywhere in a tree, are replaced by others. Either side may have
none. -/
inductive Regrouped : Element → Element → Prop where
  | here {one other : Element} {container member : String} (before old new after : List Element)
      (hcontainer : memberName? container = some member) (hbut : AlikeBut container one other)
      (hone : one.named container = before ++ old ++ after)
      (hother : other.named container = before ++ new ++ after)
      (hmembers : old.flatMap (·.named member) = new.flatMap (·.named member)) : Regrouped one other
  | inside {one other child changed : Element} {name : String} (before after : List Element)
      (hbut : AlikeBut name one other) (hone : one.named name = before ++ child :: after)
      (hother : other.named name = before ++ changed :: after) (hchild : Regrouped child changed) :
      Regrouped one other

/-- Containers are replaced any number of times. -/
def Redistributed : Element → Element → Prop :=
  Relation.ReflTransGen Regrouped

/-- A path that goes through a container only on to its members. -/
def Gathers : List String → Prop
  | [] => True
  | name :: path => (∀ member ∈ memberName? name, path.head? = some member) ∧ Gathers path

theorem gathers_sectionPaths : ∀ path ∈ sectionPaths, Gathers path := by
  simp [sectionPaths, Gathers, memberName?]

namespace Redistributed

theorem refl (element : Element) : Redistributed element element :=
  Relation.ReflTransGen.refl

theorem forall₂_refl (elements : List Element) : List.Forall₂ Redistributed elements elements :=
  List.forall₂_same.2 fun element _ => refl element

theorem forall₂_trans {elements middle others : List Element}
    (h : List.Forall₂ Redistributed elements middle)
    (hnext : List.Forall₂ Redistributed middle others) :
    List.Forall₂ Redistributed elements others := by
  induction h generalizing others with
  | nil => exact hnext
  | cons hfirst _ ih =>
    cases hnext with
    | cons hsecond hrest => exact .cons (Relation.ReflTransGen.trans hfirst hsecond) (ih hrest)

end Redistributed

namespace Regrouped

variable {one other : Element}

theorem front (h : Regrouped one other) : SameFront one other := by
  cases h with
  | here _ _ _ _ _ hbut => exact hbut.front
  | inside _ _ hbut => exact hbut.front

theorem select_eq_of_members {old new : List Element} {member : String} {path : List String}
    (hmembers : old.flatMap (·.named member) = new.flatMap (·.named member)) :
    old.flatMap (Element.select (member :: path)) =
      new.flatMap (Element.select (member :: path)) := by
  have hfollow : ∀ elements : List Element, elements.flatMap (Element.select (member :: path)) =
      (elements.flatMap (·.named member)).flatMap (Element.select path) := by
    intro elements
    rw [List.flatMap_assoc]
    congr 1
    funext element
    exact Element.select_cons member path element
  rw [hfollow, hfollow, hmembers]

/-- What a path leads to is the same again, or it is where the replacement goes on. -/
theorem select (h : Regrouped one other) {path : List String} (hpath : Gathers path) :
    List.Forall₂ Redistributed (one.select path) (other.select path) := by
  induction path generalizing one other with
  | nil => exact .cons (.single h) .nil
  | cons name path ih =>
    obtain ⟨hnext, hrest⟩ := hpath
    rw [Element.select_cons, Element.select_cons]
    cases h with
    | @here _ _ container member before old new after hcontainer hbut hone hother hmembers =>
      by_cases hname : name = container
      · subst hname
        obtain ⟨path, rfl⟩ : ∃ rest, path = member :: rest :=
          List.head?_eq_some_iff.1 (hnext member hcontainer)
        rw [hone, hother, List.flatMap_append, List.flatMap_append, List.flatMap_append,
          List.flatMap_append, select_eq_of_members hmembers]
        exact Redistributed.forall₂_refl _
      · rw [hbut.named name hname]
        exact Redistributed.forall₂_refl _
    | @inside _ _ child changed key before after hbut hone hother hchild =>
      by_cases hname : name = key
      · subst hname
        rw [hone, hother, List.flatMap_append, List.flatMap_append, List.flatMap_cons,
          List.flatMap_cons]
        exact List.rel_append (Redistributed.forall₂_refl _)
          (List.rel_append (ih hchild hrest) (Redistributed.forall₂_refl _))
      · rw [hbut.named name hname]
        exact Redistributed.forall₂_refl _

end Regrouped

theorem Redistributed.front {one other : Element} (h : Redistributed one other) :
    SameFront one other := by
  induction h with
  | refl => exact .refl one
  | tail _ hstep ih => exact ih.trans hstep.front

theorem Redistributed.select {one other : Element} (h : Redistributed one other)
    {path : List String} (hpath : Gathers path) :
    List.Forall₂ Redistributed (one.select path) (other.select path) := by
  induction h with
  | refl => exact Redistributed.forall₂_refl _
  | tail _ hstep ih => exact Redistributed.forall₂_trans ih (hstep.select hpath)

theorem Redistributed.unseen : Unseen Redistributed :=
  ⟨Redistributed.front, fun h hpath => h.select (gathers_sectionPaths _ hpath)⟩

/-! ### Containers in document order -/

section document

variable {one other child changed : Element} {container member : String}
    (before after : List Element)

/-- Containers of one name that stand in a row give way to others of that name. -/
theorem Regrouped.of_grouped {old new : List Element}
    (hcontainer : memberName? container = some member) (hfront : SameFront one other)
    (hone : one.children = Element.grouped (before ++ old ++ after))
    (hother : other.children = Element.grouped (before ++ new ++ after))
    (hold : ∀ element ∈ old, element.name = container)
    (hnew : ∀ element ∈ new, element.name = container)
    (hmembers : old.flatMap (·.named member) = new.flatMap (·.named member)) :
    Regrouped one other := by
  have hall : ∀ elements : List Element, (∀ element ∈ elements, element.name = container) →
      Element.withName elements container = elements := by
    intro elements helements
    exact List.filter_eq_self.2 fun element helement => beq_iff_eq.2 (helements element helement)
  have hnone : ∀ kept, kept ≠ container → ∀ elements : List Element,
      (∀ element ∈ elements, element.name = container) → Element.withName elements kept = [] := by
    intro kept hkept elements helements
    refine List.filter_eq_nil_iff.2 fun element helement hname => hkept ?_
    rw [← helements element helement, beq_iff_eq.1 hname]
  refine .here (Element.withName before container) old new (Element.withName after container)
    hcontainer ⟨hfront, fun kept hkept => ?_⟩ ?_ ?_ hmembers
  · rw [Element.named_of_grouped hone, Element.named_of_grouped hother]
    simp only [Element.withName_append, hnone kept hkept old hold, hnone kept hkept new hnew]
  · rw [Element.named_of_grouped hone, Element.withName_append, Element.withName_append,
      hall old hold]
  · rw [Element.named_of_grouped hother, Element.withName_append, Element.withName_append,
      hall new hnew]

theorem Regrouped.inside_grouped (hchild : Regrouped child changed) (hfront : SameFront one other)
    (hone : one.children = Element.grouped (before ++ child :: after))
    (hother : other.children = Element.grouped (before ++ changed :: after)) :
    Regrouped one other := by
  have hname : changed.name = child.name := hchild.front.name.symm
  have hbut : AlikeBut child.name one other := by
    refine ⟨hfront, fun kept hkept => ?_⟩
    have hskip : ∀ element : Element, element.name = child.name →
        Element.withName (element :: after) kept = Element.withName after kept := by
      intro element helement
      refine List.filter_cons_of_neg ?_
      rw [helement, beq_iff_eq]
      exact Ne.symm hkept
    rw [Element.named_of_grouped hone, Element.named_of_grouped hother, Element.withName_append,
      Element.withName_append, hskip child rfl, hskip changed hname]
  refine .inside (Element.withName before child.name) (Element.withName after child.name) hbut
    ?_ ?_ hchild
  · rw [Element.named_of_grouped hone, Element.withName_append]
    congr 1
    exact List.filter_cons_of_pos (beq_iff_eq.2 rfl)
  · rw [Element.named_of_grouped hother, Element.withName_append]
    congr 1
    exact List.filter_cons_of_pos (beq_iff_eq.2 hname)

end document

/-! ### Every distribution of the same members -/

/-- An element with given children of one name in front of its other groups. -/
def holding (element : Element) (name : String) (members : List Element) : Element :=
  { element with children := (name, .many members) :: element.children }

theorem named_holding (element : Element) (name : String) (members : List Element) :
    (holding element name members).named name = members := by
  simp [holding, Element.named, Element.group?, Siblings.toList]

theorem alikeBut_holding (element : Element) (name : String) (members : List Element) :
    AlikeBut name element (holding element name members) := by
  refine ⟨⟨rfl, rfl, rfl⟩, fun kept hkept => ?_⟩
  have hskip : (name == kept) = false := by simpa using Ne.symm hkept
  simp [holding, Element.named, Element.group?, hskip]

theorem AlikeBut.symm {name : String} {one other : Element} (h : AlikeBut name one other) :
    AlikeBut name other one :=
  ⟨⟨h.front.name.symm, h.front.attributes.symm, h.front.text.symm⟩, fun kept hkept =>
    (h.named kept hkept).symm⟩

theorem AlikeBut.trans {name : String} {one middle other : Element} (h : AlikeBut name one middle)
    (hnext : AlikeBut name middle other) : AlikeBut name one other :=
  ⟨h.front.trans hnext.front, fun kept hkept => (h.named kept hkept).trans (hnext.named kept hkept)⟩

/-- A path on which every element holds the next as its members. -/
def Nested : List String → Prop
  | container :: member :: path => memberName? container = some member ∧ Nested (member :: path)
  | _ => True

/-- However the same members are spread over containers of containers, one distribution leads to the
other. -/
theorem Redistributed.of_select_eq {path : List String} {container member : String}
    {one other : Element} (hpath : Nested (container :: member :: path))
    (hbut : AlikeBut container one other)
    (hselect : one.select (container :: member :: path) =
      other.select (container :: member :: path)) :
    Redistributed one other := by
  obtain ⟨hcontainer, hrest⟩ := hpath
  induction path generalizing container member one other with
  | nil =>
    have hnamed : ∀ element : Element, element.select [container, member] =
        (element.named container).flatMap (·.named member) := by
      intro element
      rw [Element.select_cons]
      congr 1
      funext holder
      exact (Element.select_cons member [] holder).trans (List.flatMap_singleton' _)
    rw [hnamed, hnamed] at hselect
    exact .single
      (.here [] (one.named container) (other.named container) [] hcontainer hbut (by simp)
        (by simp) hselect)
  | cons next path ih =>
    -- All containers are first replaced by one that holds what they hold together.
    let holder (element : Element) : Element :=
      holding { name := container } member ((element.named container).flatMap (·.named member))
    have hholder (element : Element) : (holder element).select (member :: next :: path) =
        element.select (container :: member :: next :: path) := by
      rw [Element.select_cons, named_holding, Element.select_cons, List.flatMap_assoc]
      congr 1
      funext inner
      exact (Element.select_cons member (next :: path) inner).symm
    have hinside : Redistributed (holder one) (holder other) := by
      refine ih ((alikeBut_holding _ _ _).symm.trans (alikeBut_holding _ _ _)) ?_ hrest.1 hrest.2
      rw [hholder, hholder, hselect]
    have hfirst : Regrouped one (holding one container [holder one]) := by
      refine .here [] (one.named container) [holder one] [] hcontainer
        (alikeBut_holding one container _) (by simp) ?_ ?_
      · rw [named_holding, List.nil_append, List.append_nil]
      · rw [List.flatMap_singleton, named_holding]
    have hmiddle : Redistributed (holding one container [holder one])
        (holding one container [holder other]) := by
      refine Relation.ReflTransGen.lift (fun changed => holding one container [changed]) ?_
        _ _ hinside
      intro child changed hstep
      refine .inside [] [] ?_ (named_holding one container [child])
        (named_holding one container [changed]) hstep
      exact (alikeBut_holding one container [child]).symm.trans
        (alikeBut_holding one container [changed])
    have hlast : Regrouped (holding one container [holder other]) other := by
      refine .here [] [holder other] (other.named container) [] hcontainer
        ((alikeBut_holding one container _).symm.trans hbut) ?_ (by simp) ?_
      · rw [named_holding, List.nil_append, List.append_nil]
      · rw [List.flatMap_singleton, named_holding]
    exact (Relation.ReflTransGen.head hfirst hmiddle).tail hlast

/-- How members are distributed over containers does not show in the sections of a summary. So it
does not matter over which groups, blocks of actions and blocks of groups the actions of a profile
are spread. Containers that stand in a row give way to others, or to none, wherever both hold the
same members in the same order. -/
theorem Redistributed.sections_eq :
    (∀ (root other : Element) (descriptor : ModuleDescriptor), Redistributed root other →
      (Summary.ofDocument root descriptor).withoutParameters =
        (Summary.ofDocument other descriptor).withoutParameters) ∧
      (∀ profile other : Element, AlikeBut "groups" profile other →
        profile.select ["groups", "group", "actions", "action"] =
          other.select ["groups", "group", "actions", "action"] →
        Redistributed profile other ∧ profileRights profile = profileRights other) ∧
      ∀ (one other : Element) (container member : String) (before old new after : List Element),
        memberName? container = some member → SameFront one other →
        one.children = Element.grouped (before ++ old ++ after) →
        other.children = Element.grouped (before ++ new ++ after) →
        (∀ element ∈ old, element.name = container) → (∀ element ∈ new, element.name = container) →
        old.flatMap (·.named member) = new.flatMap (·.named member) → Redistributed one other := by
  refine ⟨fun root other descriptor h => unseen.withoutParameters_eq h descriptor,
    fun profile other hbut hselect => ?_,
    fun one other container member before old new after hcontainer hfront hone hother hold hnew
        hmembers =>
      .single (.of_grouped before after hcontainer hfront hone hother hold hnew hmembers)⟩
  have h : Redistributed profile other := of_select_eq (by simp [Nested, memberName?]) hbut hselect
  exact ⟨h, unseen.profileRights_eq h⟩

/-- A block of groups with one group, which has a block for each list of actions. -/
def groupsBlock (blocks : List (List Element)) : Element :=
  .ofContent "groups" [] [.ofContent "group" [("id", "Server")]
    (blocks.map (.ofContent "actions" []))]

def readAction : Element :=
  { name := "action", attributes := [("id", "action:read")], text := "allow" }

def deleteAction : Element :=
  { name := "action", attributes := [("id", "delete")], text := "deny" }

def gatheredProfile : Element :=
  .ofContent "profile" [("id", "Administrator")] [groupsBlock [[readAction, deleteAction]]]

def spreadProfile : Element :=
  .ofContent "profile" [("id", "Administrator")] [groupsBlock [[readAction], []],
    groupsBlock [[deleteAction]]]

/-- A design that grants the rights of a profile. -/
def grantingDesign (profile : Element) : Element :=
  .ofContent "itop_design" [] [.ofContent "user_rights" [] [.ofContent "profiles" [] [profile]]]

theorem Regrouped.grantingDesign {profile other : Element} (h : Regrouped profile other) :
    Regrouped (grantingDesign profile) (Datamodel.grantingDesign other) := by
  have hprofiles : Regrouped (.ofContent "profiles" [] [profile])
      (.ofContent "profiles" [] [other]) :=
    h.inside_grouped [] [] ⟨rfl, rfl, rfl⟩ rfl rfl
  have hsection : Regrouped (.ofContent "user_rights" [] [.ofContent "profiles" [] [profile]])
      (.ofContent "user_rights" [] [.ofContent "profiles" [] [other]]) :=
    hprofiles.inside_grouped [] [] ⟨rfl, rfl, rfl⟩ rfl rfl
  exact hsection.inside_grouped [] [] ⟨rfl, rfl, rfl⟩ rfl rfl

theorem sections_eq_spread :
    Redistributed (grantingDesign gatheredProfile) (grantingDesign spreadProfile) ∧
      (Summary.ofDocument (grantingDesign gatheredProfile) .unknown).withoutParameters =
        (Summary.ofDocument (grantingDesign spreadProfile) .unknown).withoutParameters ∧
      profileRights gatheredProfile = profileRights spreadProfile ∧
      profileRights spreadProfile = ⟨"Administrator", [⟨"read", true⟩, ⟨"delete", false⟩]⟩ := by
  have hbut : AlikeBut "groups" gatheredProfile spreadProfile := by
    refine ⟨⟨rfl, rfl, rfl⟩, fun kept hkept => ?_⟩
    rw [gatheredProfile, spreadProfile, Element.named_ofContent, Element.named_ofContent]
    simp [groupsBlock, Element.ofContent, Element.withName, Ne.symm hkept]
  obtain ⟨hprofile, hrights⟩ :=
    Redistributed.sections_eq.2.1 gatheredProfile spreadProfile hbut (by cbv)
  have hdesign : Redistributed (grantingDesign gatheredProfile) (grantingDesign spreadProfile) :=
    Relation.ReflTransGen.lift grantingDesign (fun _ _ => Regrouped.grantingDesign) _ _ hprofile
  exact ⟨hdesign, Redistributed.sections_eq.1 _ _ .unknown hdesign, hrights, by cbv⟩

end Datamodel
