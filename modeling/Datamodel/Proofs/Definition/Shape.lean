import Datamodel.Proofs.Definition.Nodes
import Datamodel.Proofs.Markup.Unambiguous

/-!
# The form of a document

At its place in a document a tag always stands for the same form of node. One tag can stand for
different forms at different places: an action of a transition is an element, an action of a profile
a text.
-/

namespace Datamodel

open Markup (Node Shape)

/-! ### Forms -/

def Markup.Shape.each (shape : Shape) : Shape :=
  .element fun _ => shape

def Markup.Shape.texts : Shape :=
  .each .text

def fieldShape : Shape :=
  .element fun tag => if tag = "values" then .texts else .text

def stateShape : Shape :=
  .element fun tag => if tag = "flags" then .texts else .text

def transitionShape : Shape :=
  .element fun tag => if tag = "actions" then .each .texts else .text

def lifecycleShape : Shape :=
  .element fun tag =>
    if tag = "states" then .each stateShape else if tag = "transitions" then .each transitionShape
      else .text

def methodShape : Shape :=
  .element fun tag => if tag = "code" then .literal else .text

def indexShape : Shape :=
  .each (.each .empty)

def relationShape : Shape :=
  .each (.each .texts)

def profileShape : Shape :=
  .each (.each (.each .texts))

def classShape : Shape :=
  .element fun tag =>
    if tag = "properties" then .texts
    else if tag = "fields" then .each fieldShape
    else if tag = "lifecycle" then lifecycleShape
    else if tag = "methods" then .each methodShape
    else if tag = "indexes" then .each indexShape
    else if tag = "relations" then .each relationShape
    else .text

def documentShape : Shape :=
  .element fun tag =>
    if tag = "classes" then .each classShape
    else if tag = "menus" then .each .texts
    else if tag = "user_rights" then .each (.each profileShape)
    else .texts

/-! ### Every section has its form -/

theorem fits_element (tag : String) (attributes : Markup.Attributes) {shapes : String → Shape}
    {content : List Node} (h : ∀ node ∈ content, Node.Fits (shapes node.tag) node) :
    Node.Fits (.element shapes) (.element tag attributes content) :=
  Node.allFit_iff.2 h

theorem fits_each (tag : String) (attributes : Markup.Attributes) {shape : Shape}
    {content : List Node} (h : ∀ node ∈ content, Node.Fits shape node) :
    Node.Fits (.each shape) (.element tag attributes content) :=
  fits_element tag attributes h

theorem fits_each_map {α : Type} (tag : String) (attributes : Markup.Attributes) {shape : Shape}
    {node : α → Node} (h : ∀ item, Node.Fits shape (node item)) (items : List α) :
    Node.Fits (.each shape) (.element tag attributes (items.map node)) := by
  refine fits_each tag attributes fun found hfound => ?_
  obtain ⟨item, -, rfl⟩ := List.mem_map.1 hfound
  exact h item

/-- Texts in an element that holds nothing else. -/
theorem fits_texts_map {α : Type} (tag : String) (attributes : Markup.Attributes)
    (name : α → String) (named : α → Markup.Attributes) (value : α → String) (items : List α) :
    Node.Fits .texts
      (.element tag attributes (items.map fun item =>
        .leaf (.text (name item) (named item) (value item)))) :=
  fits_each_map tag attributes (by intro item; trivial) items

theorem Field.node_fits (field : Field) : Node.Fits fieldShape field.node := by
  refine fits_element _ _ ?_
  simp only [List.forall_mem_append, List.forall_mem_cons]
  refine ⟨⟨trivial, trivial, trivial, by simp⟩, ?_⟩
  intro node hnode
  obtain ⟨values, -, rfl⟩ | ⟨target, -, rfl⟩ := FieldKind.eq_of_mem_nodes hnode
  · exact fits_texts_map _ _ _ _ _ _
  · trivial

theorem State.node_fits (state : State) : Node.Fits stateShape state.node := by
  refine fits_element _ _ ?_
  simp only [List.forall_mem_cons]
  exact ⟨fits_texts_map _ _ _ _ _ _, trivial, by simp⟩

theorem Transition.node_fits (transition : Transition) :
    Node.Fits transitionShape transition.node := by
  refine fits_element _ _ ?_
  simp only [List.forall_mem_cons]
  refine ⟨trivial, fits_each_map _ _ (fun verb => ?_) _, by simp⟩
  exact fits_texts_map "action" [] (fun _ => "verb") (fun _ => []) id [verb]

theorem Lifecycle.node_fits (lifecycle : Lifecycle) : Node.Fits lifecycleShape lifecycle.node := by
  refine fits_element _ _ ?_
  simp only [List.forall_mem_cons]
  exact ⟨trivial, fits_each_map _ _ State.node_fits _,
    fits_each_map _ _ Transition.node_fits _, by simp⟩

theorem Method.node_fits (method : Method) : Node.Fits methodShape method.node := by
  refine fits_element _ _ ?_
  simp only [List.forall_mem_cons]
  exact ⟨trivial, trivial, trivial, trivial, by simp⟩

theorem Index.node_fits (index : Index) : Node.Fits indexShape index.node := by
  refine fits_each _ _ ?_
  rw [List.forall_mem_singleton]
  exact fits_each_map _ _ (by intro field; trivial) _

theorem Relation.node_fits (relation : Relation) : Node.Fits relationShape relation.node := by
  refine fits_each _ _ ?_
  rw [List.forall_mem_singleton]
  refine fits_each _ _ ?_
  rw [List.forall_mem_singleton]
  refine fits_each _ _ ?_
  simp only [List.forall_mem_cons]
  exact ⟨trivial, trivial, by simp⟩

theorem MenuEntry.node_fits (menu : MenuEntry) (id : String) : Node.Fits .texts (menu.node id) := by
  refine fits_each _ _ ?_
  simp only [List.forall_mem_append, List.forall_mem_cons]
  refine ⟨⟨trivial, trivial, by simp⟩, ?_⟩
  intro node hnode
  obtain ⟨-, rfl⟩ := MenuEntry.eq_of_mem_query hnode
  trivial

theorem Profile.node_fits (profile : Profile) (className : String) :
    Node.Fits profileShape (profile.node className) := by
  refine fits_each _ _ ?_
  rw [List.forall_mem_singleton]
  refine fits_each _ _ ?_
  rw [List.forall_mem_singleton]
  refine fits_each _ _ ?_
  rw [List.forall_mem_singleton]
  exact fits_texts_map _ _ _ _ _ _

theorem Branding.node_fits (branding : Branding) : Node.Fits .texts branding.node := by
  refine fits_each _ _ ?_
  simp only [List.forall_mem_cons]
  exact ⟨trivial, trivial, trivial, by simp⟩

namespace ClassDefinition

theorem classNode_fits (definition : ClassDefinition) :
    Node.Fits classShape definition.classNode := by
  refine fits_element _ _ ?_
  simp only [List.forall_mem_append, List.forall_mem_cons]
  refine ⟨⟨⟨⟨⟨trivial, ?_, ?_, by simp⟩, ?_⟩, ?_⟩, ?_⟩, ?_⟩
  · exact fits_texts_map _ _ _ _ _ _
  · exact fits_each_map _ _ Field.node_fits _
  · intro node hnode
    obtain ⟨lifecycle, -, rfl⟩ := exists_of_mem_toList hnode
    exact lifecycle.node_fits
  · intro node hnode
    obtain rfl := eq_of_mem_elementIf hnode
    exact fits_each_map _ _ Method.node_fits _
  · intro node hnode
    obtain rfl := eq_of_mem_elementIf hnode
    exact fits_each_map _ _ Index.node_fits _
  · intro node hnode
    obtain rfl := eq_of_mem_elementIf hnode
    exact fits_each_map _ _ Relation.node_fits _

/-- Every document has the form of a document. -/
theorem rootNode_fits (definition : ClassDefinition) :
    Node.Fits documentShape definition.rootNode := by
  refine fits_element _ _ ?_
  simp only [List.forall_mem_append, List.forall_mem_singleton]
  refine ⟨⟨⟨?_, ?_⟩, ?_⟩, ?_⟩
  · refine fits_each _ _ ?_
    rw [List.forall_mem_singleton]
    exact definition.classNode_fits
  · intro node hnode
    obtain ⟨menu, -, rfl⟩ := eq_of_mem_menuNodes hnode
    refine fits_each _ _ ?_
    rw [List.forall_mem_singleton]
    exact menu.node_fits _
  · intro node hnode
    obtain rfl := eq_of_mem_elementIf hnode
    refine fits_each _ _ ?_
    rw [List.forall_mem_singleton]
    exact fits_each_map _ _ (fun profile => profile.node_fits definition.name) _
  · intro node hnode
    obtain ⟨branding, -, rfl⟩ := exists_of_mem_toList hnode
    exact branding.node_fits

end ClassDefinition

end Datamodel
