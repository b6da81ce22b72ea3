import Datamodel.Proofs.Summary.Sections
import Datamodel.Proofs.Xml.Children
import Mathlib

/-!
# One child or a list of one

A tree can hold a single child as itself or as a list of one, and nobody who follows paths may
notice. Two trees that differ in nothing else, at however many places and however deep, are related
here by going through both at once. Paths lead to related elements in the same order, so the
sections of a summary are the same. The parameters are the one place where a group is looked at as
it is held, and there the names still agree, though a leaf is shown as its text in one form and as
an array in the other.
-/

namespace Datamodel

namespace Xml

/-- Groups of one name whose members are related in order, each of the two held as one element or as
many. -/
inductive Siblings.Match {α : Type} (r : α → α → Prop) :
    String × Siblings α → String × Siblings α → Prop where
  | intro {name : String} {group other : Siblings α}
      (members : List.Forall₂ r group.toList other.toList) : Match r (name, group) (name, other)

namespace Element

/-- Trees that differ at most in how groups are held. -/
inductive SameMembers : Element → Element → Prop where
  | intro {name text : String} {attributes : List (String × String)}
      {children others : List (String × Siblings Element)}
      (groups : List.Forall₂ (Siblings.Match SameMembers) children others) :
      SameMembers ⟨name, attributes, text, children⟩ ⟨name, attributes, text, others⟩

namespace SameMembers

variable {one other : Element}

theorem front (h : one.SameMembers other) : SameFront one other := by
  cases h
  exact ⟨rfl, rfl, rfl⟩

theorem children_match (h : one.SameMembers other) :
    List.Forall₂ (Siblings.Match SameMembers) one.children other.children := by
  cases h with
  | intro groups => exact groups

theorem groupNames_eq (h : one.SameMembers other) :
    one.children.map (·.1) = other.children.map (·.1) := by
  refine map_eq_of_forall₂ h.children_match fun hgroup => ?_
  cases hgroup
  rfl

theorem named (h : one.SameMembers other) (name : String) :
    List.Forall₂ SameMembers (one.named name) (other.named name) := by
  rw [Element.named, Element.named, group?, group?]
  have hgroups := h.children_match
  generalize one.children = children at hgroups
  generalize other.children = others at hgroups
  induction hgroups with
  | nil => exact .nil
  | @cons group other children others hfirst _ ih =>
    obtain @⟨key, _, _, members⟩ := hfirst
    cases hkey : key == name with
    | true =>
      simp only [List.find?_cons, hkey]
      exact members
    | false =>
      simp only [List.find?_cons, hkey]
      exact ih

/-- A path leads to related elements in the same order. -/
theorem select (h : one.SameMembers other) (path : List String) :
    List.Forall₂ SameMembers (one.select path) (other.select path) := by
  induction path generalizing one other with
  | nil => exact .cons h .nil
  | cons name path ih =>
    rw [select_cons, select_cons]
    exact List.rel_flatMap (h.named name) fun _ _ hchild => ih hchild

theorem unseen : Unseen SameMembers :=
  ⟨front, fun h _ => h.select _⟩

end SameMembers

end Element

end Xml

open Xml (Element Siblings)

theorem parameterIds_eq {root other : Element} (h : root.SameMembers other) :
    (parameterSummaries root).map (·.id) = (parameterSummaries other).map (·.id) := by
  have hids : ∀ root : Element, (parameterSummaries root).map (·.id) =
      (root.select ["module_parameters", "parameters"]).flatMap fun element =>
        element.children.map (·.1) := by
    intro root
    rw [parameterSummaries, List.map_flatMap]
    simp only [List.map_map]
    rfl
  rw [hids, hids, List.flatMap_def, List.flatMap_def]
  congr 1
  exact map_eq_of_forall₂ (h.select _) fun helement => helement.groupNames_eq

/-- How groups are held changes neither what paths lead to nor a summary, but for the values of
parameters. -/
theorem Summary.ofDocument_sameMembers {root other : Element} (h : root.SameMembers other)
    (descriptor : ModuleDescriptor) :
    (∀ path, List.Forall₂ Element.SameMembers (root.select path) (other.select path)) ∧
      (ofDocument root descriptor).withoutParameters =
        (ofDocument other descriptor).withoutParameters ∧
      (ofDocument root descriptor).parameters.map (·.id) =
        (ofDocument other descriptor).parameters.map (·.id) := by
  refine ⟨h.select, Element.SameMembers.unseen.withoutParameters_eq h descriptor, ?_⟩
  rw [ofDocument, ofDocument, h.front.name]
  split
  · exact parameterIds_eq h
  · rfl

/-- A design with one class and one parameter, its sections and what they contain held in given
ways. -/
def smallDesign (outer inner : Element → Siblings Element) : Element where
  name := "itop_design"
  children :=
    [("classes", outer
        { name := "classes"
          children := [("class", inner { name := "class", attributes := [("id", "Server")] })] }),
      ("module_parameters", outer
        { name := "module_parameters"
          children := [("parameters", inner
            { name := "parameters"
              children := [("limit", inner { name := "limit", text := "10" })] })] })]

theorem ofDocument_sameMembers_small :
    ∃ root other : Element, root.SameMembers other ∧
      parameterSummaries root = [⟨"limit", "[\"10\"]"⟩] ∧
      parameterSummaries other = [⟨"limit", "10"⟩] ∧
      (∀ path, List.Forall₂ Element.SameMembers (root.select path) (other.select path)) ∧
      (Summary.ofDocument root .unknown).withoutParameters =
        (Summary.ofDocument other .unknown).withoutParameters ∧
      (Summary.ofDocument root .unknown).parameters.map (·.id) =
        (Summary.ofDocument other .unknown).parameters.map (·.id) := by
  have hleaf (element : Element) (h : element.children = []) : element.SameMembers element := by
    cases element
    cases h
    exact .intro .nil
  have h : (smallDesign .one fun element => .many [element]).SameMembers
      (smallDesign (fun element => .many [element]) .one) := by
    refine .intro (.cons (.intro (.cons (.intro (.cons (.intro (.cons ?_ .nil)) .nil)) .nil))
      (.cons (.intro
        (.cons (.intro
          (.cons (.intro (.cons (.intro (.cons (.intro (.cons ?_ .nil)) .nil)) .nil)) .nil))
        .nil)) .nil))
    · exact hleaf _ rfl
    · exact hleaf _ rfl
  exact ⟨_, _, h, by cbv, by cbv, Summary.ofDocument_sameMembers h .unknown⟩

end Datamodel
