import Datamodel.Definition.Document
import Datamodel.Proofs.Markup.Frame

/-!
# Where an entry of a definition stands in its document

A definition has seven series of entries that its document holds one after the other. For each of
them the document is made of frames around the entries of that series, and the frames tell nothing
of these. So the lines of an entry are where its place among the others is, they depend on the
entry, and the lines before and behind it are those that the document has without it.
-/

namespace Datamodel

open Markup (Node Style Frame)

/-- A list of a definition whose entries its document holds one after the other. -/
inductive Series where
  | fields
  | states
  | transitions
  | methods
  | indexes
  | relations
  | profiles
  deriving DecidableEq, Repr

namespace Series

abbrev Entry : Series → Type
  | .fields => Field
  | .states => State
  | .transitions => Transition
  | .methods => Method
  | .indexes => Index
  | .relations => Relation
  | .profiles => Profile

def tag : Series → String
  | .fields => "fields"
  | .states => "states"
  | .transitions => "transitions"
  | .methods => "methods"
  | .indexes => "indexes"
  | .relations => "relations"
  | .profiles => "profiles"

def depth : Series → Nat
  | .fields | .methods | .indexes | .relations => 3
  | .states | .transitions => 4
  | .profiles => 2

def node (className : String) : (series : Series) → series.Entry → Node
  | .fields, field => field.node
  | .states, state => state.node
  | .transitions, transition => transition.node
  | .methods, method => method.node
  | .indexes, index => index.node
  | .relations, relation => relation.node
  | .profiles, profile => profile.node className

def lines (style : Style) (className : String) (series : Series) (entry : series.Entry) :
    List Char :=
  (series.node className entry).render style (series.depth + 1)

end Series

namespace ClassDefinition

def entries (definition : ClassDefinition) : (series : Series) → List series.Entry
  | .fields => definition.fields
  | .states => definition.lifecycle.elim [] (·.states)
  | .transitions => definition.lifecycle.elim [] (·.transitions)
  | .methods => definition.methods
  | .indexes => definition.indexes
  | .relations => definition.relations
  | .profiles => definition.profiles

def withEntries (definition : ClassDefinition) :
    (series : Series) → List series.Entry → ClassDefinition
  | .fields, fields => { definition with fields }
  | .states, states => { definition with lifecycle := definition.lifecycle.map ({ · with states }) }
  | .transitions, transitions =>
    { definition with lifecycle := definition.lifecycle.map ({ · with transitions }) }
  | .methods, methods => { definition with methods }
  | .indexes, indexes => { definition with indexes }
  | .relations, relations => { definition with relations }
  | .profiles, profiles => { definition with profiles }

/-- Inserts an entry in front of the one at a place, or behind all where there is none. -/
def insert (definition : ClassDefinition) (series : Series) (place : Nat) (entry : series.Entry) :
    ClassDefinition :=
  definition.withEntries series
    ((definition.entries series).take place ++ entry :: (definition.entries series).drop place)

/-- Whether the document has the element around the entries of a series. -/
def Emits (definition : ClassDefinition) : Series → Prop
  | .fields => True
  | .states | .transitions => definition.activeLifecycle.isSome = true
  | .methods => definition.methods ≠ []
  | .indexes => definition.indexes ≠ []
  | .relations => definition.relations ≠ []
  | .profiles => definition.profiles ≠ []

/-! ### The frames of a series -/

section frames

variable (definition : ClassDefinition)

def classFrames (before after : List Node) : List Frame :=
  [{ tag := "itop_design"
     attributes := [("xmlns:xsi", "http://www.w3.org/2001/XMLSchema-instance"), ("version", "3.0")]
     after := definition.menuNodes ++ definition.profileNodes ++
       (definition.activeBranding.map Branding.node).toList },
    { tag := "classes" },
    { tag := "class", attributes := [("id", definition.name)], before, after }]

def profileFrames : List Frame :=
  [{ tag := "itop_design"
     attributes := [("xmlns:xsi", "http://www.w3.org/2001/XMLSchema-instance"), ("version", "3.0")]
     before := .element "classes" [] [definition.classNode] :: definition.menuNodes
     after := (definition.activeBranding.map Branding.node).toList },
    { tag := "user_rights" }]

def headNodes : List Node :=
  [textNode "parent" definition.parent, definition.properties.node]

def fieldsNode : Node :=
  .element "fields" [] (definition.fields.map Field.node)

def lifecycleNodes : List Node :=
  (definition.activeLifecycle.map Lifecycle.node).toList

def methodNodes : List Node :=
  elementIf (!definition.methods.isEmpty) "methods" (definition.methods.map Method.node)

def indexNodes : List Node :=
  elementIf (!definition.indexes.isEmpty) "indexes" (definition.indexes.map Index.node)

def relationNodes : List Node :=
  elementIf (!definition.relations.isEmpty) "relations" (definition.relations.map Relation.node)

def lifecycleFrames (before after : Lifecycle → List Node) : List Frame :=
  definition.classFrames (definition.headNodes ++ [definition.fieldsNode])
      (definition.methodNodes ++ definition.indexNodes ++ definition.relationNodes) ++
    definition.activeLifecycle.toList.map fun lifecycle =>
      { tag := "lifecycle", before := before lifecycle, after := after lifecycle }

def outerFrames : Series → List Frame
  | .fields => definition.classFrames definition.headNodes
      (definition.lifecycleNodes ++ definition.methodNodes ++ definition.indexNodes ++
        definition.relationNodes)
  | .states => definition.lifecycleFrames (fun lifecycle => [textNode "attribute" lifecycle.driver])
      fun lifecycle => [.element "transitions" [] (lifecycle.transitions.map Transition.node)]
  | .transitions => definition.lifecycleFrames
      (fun lifecycle => [textNode "attribute" lifecycle.driver,
        .element "states" [] (lifecycle.states.map State.node)]) fun _ => []
  | .methods => definition.classFrames
      (definition.headNodes ++ [definition.fieldsNode] ++ definition.lifecycleNodes)
      (definition.indexNodes ++ definition.relationNodes)
  | .indexes => definition.classFrames
      (definition.headNodes ++ [definition.fieldsNode] ++ definition.lifecycleNodes ++
        definition.methodNodes) definition.relationNodes
  | .relations => definition.classFrames
      (definition.headNodes ++ [definition.fieldsNode] ++ definition.lifecycleNodes ++
        definition.methodNodes ++ definition.indexNodes) []
  | .profiles => definition.profileFrames

end frames

variable {definition : ClassDefinition} {series : Series}

theorem elementIf_of_ne_nil {α : Type} {items : List α} (h : items ≠ []) (tag : String)
    (content : List Node) : elementIf (!items.isEmpty) tag content = [.element tag [] content] := by
  rw [elementIf, if_pos]
  simpa using h

theorem fillAll_classFrames {before nodes after : List Node}
    (h : before ++ nodes ++ after = definition.headNodes ++ [definition.fieldsNode] ++
      definition.lifecycleNodes ++ definition.methodNodes ++ definition.indexNodes ++
      definition.relationNodes) :
    Frame.fillAll (definition.classFrames before after) nodes = [definition.rootNode] := by
  have hclass : definition.classNode =
      .element "class" [("id", definition.name)] (before ++ nodes ++ after) := by
    rw [h]
    rfl
  simp only [classFrames, Frame.fillAll, Frame.fill, rootNode, hclass, List.append_assoc]
  rfl

theorem exists_lifecycle (h : definition.activeLifecycle.isSome = true) :
    ∃ lifecycle, definition.activeLifecycle = some lifecycle ∧
      definition.lifecycle = some lifecycle := by
  obtain ⟨lifecycle, hactive⟩ := Option.isSome_iff_exists.1 h
  exact ⟨lifecycle, hactive, (Option.filter_eq_some_iff.1 hactive).1⟩

theorem fillAll_lifecycleFrames {lifecycle : Lifecycle}
    (hactive : definition.activeLifecycle = some lifecycle) {before after : Lifecycle → List Node}
    {nodes : List Node}
    (h : .element "lifecycle" [] (before lifecycle ++ nodes ++ after lifecycle) = lifecycle.node) :
    Frame.fillAll (definition.lifecycleFrames before after) nodes = [definition.rootNode] := by
  rw [lifecycleFrames, Frame.fillAll_append, hactive]
  refine fillAll_classFrames ?_
  rw [lifecycleNodes, hactive, Option.toList_some, List.map_singleton, Frame.fillAll, Frame.fillAll,
    Frame.fill, h]
  simp only [Option.map_some, Option.toList_some, List.append_assoc]

/-- The document is made of the frames of an emitted series and its entries. -/
theorem fillAll_outerFrames (h : definition.Emits series) :
    Frame.fillAll (definition.outerFrames series ++ [{ tag := series.tag }])
      ((definition.entries series).map (series.node definition.name)) = [definition.rootNode] := by
  rw [Frame.fillAll_append, Frame.fillAll_plain]
  cases series with
  | fields =>
    refine fillAll_classFrames ?_
    simp only [List.append_assoc]
    rfl
  | states | transitions =>
    obtain ⟨lifecycle, hactive, hgiven⟩ := exists_lifecycle h
    refine fillAll_lifecycleFrames hactive ?_
    rw [entries, hgiven]
    rfl
  | methods =>
    refine fillAll_classFrames ?_
    rw [methodNodes, elementIf_of_ne_nil h]
    simp only [List.append_assoc]
    rfl
  | indexes =>
    refine fillAll_classFrames ?_
    rw [indexNodes, elementIf_of_ne_nil h]
    rfl
  | relations =>
    refine fillAll_classFrames ?_
    rw [relationNodes, elementIf_of_ne_nil h, List.append_nil]
    rfl
  | profiles =>
    simp only [outerFrames, profileFrames, Frame.fillAll, Frame.fill, rootNode, profileNodes,
      elementIf_of_ne_nil h, List.append_assoc]
    rfl

theorem activeLifecycle_withStates (states : List State) :
    (definition.withEntries .states states).activeLifecycle =
      definition.activeLifecycle.map ({ · with states }) :=
  Option.filter_map

theorem activeLifecycle_withTransitions (transitions : List Transition) :
    (definition.withEntries .transitions transitions).activeLifecycle =
      definition.activeLifecycle.map ({ · with transitions }) :=
  Option.filter_map

theorem emits_insert (h : definition.Emits series) (place : Nat) (entry : series.Entry) :
    (definition.insert series place entry).Emits series := by
  cases series with
  | fields => trivial
  | states =>
    rw [insert, Emits, activeLifecycle_withStates, Option.isSome_map]
    exact h
  | transitions =>
    rw [insert, Emits, activeLifecycle_withTransitions, Option.isSome_map]
    exact h
  | methods | indexes | relations | profiles => simp [insert, withEntries, Emits]

theorem outerFrames_withEntries (definition : ClassDefinition) (series : Series)
    (entries : List series.Entry) :
    (definition.withEntries series entries).outerFrames series = definition.outerFrames series := by
  cases series with
  | states =>
    rw [outerFrames, lifecycleFrames, activeLifecycle_withStates, Option.toList_map, List.map_map]
    rfl
  | transitions =>
    rw [outerFrames, lifecycleFrames, activeLifecycle_withTransitions, Option.toList_map,
      List.map_map]
    rfl
  | fields | methods | indexes | relations | profiles => rfl

theorem name_withEntries (definition : ClassDefinition) (series : Series)
    (entries : List series.Entry) :
    (definition.withEntries series entries).name = definition.name := by
  cases series <;> rfl

/-! ### The lines around an entry -/

section lines

variable (definition : ClassDefinition) (style : Style) (series : Series) (place : Nat)

def opening : List Char :=
  style.line 0 declaration ++ Frame.fronts style 0 (definition.outerFrames series) ++
    style.line series.depth (style.startTag series.tag [])

def closing : List Char :=
  style.line series.depth (Style.endTag series.tag) ++
    Frame.backs style 0 (definition.outerFrames series)

def linesBefore : List Char :=
  definition.opening style series ++
    ((definition.entries series).take place).flatMap (series.lines style definition.name)

def linesAfter : List Char :=
  ((definition.entries series).drop place).flatMap (series.lines style definition.name) ++
    definition.closing style series

theorem opening_withEntries (entries : List series.Entry) :
    (definition.withEntries series entries).opening style series =
      definition.opening style series := by
  rw [opening, outerFrames_withEntries, opening]

theorem closing_withEntries (entries : List series.Entry) :
    (definition.withEntries series entries).closing style series =
      definition.closing style series := by
  rw [closing, outerFrames_withEntries, closing]

theorem endsLine_linesBefore : ['\n'] <:+ definition.linesBefore style series place := by
  rw [linesBefore]
  obtain hnone | ⟨front, entry, htake⟩ := ((definition.entries series).take place).eq_nil_or_concat
  · rw [hnone, List.flatMap_nil, List.append_nil]
    exact (style.endsLine_line series.depth _).trans (List.suffix_append _ _)
  · rw [htake, List.concat_eq_append, List.flatMap_append, List.flatMap_singleton,
      ← List.append_assoc]
    exact (Node.endsLine_render style (series.depth + 1) _).trans (List.suffix_append _ _)

end lines

theorem length_outerFrames (h : definition.Emits series) :
    (definition.outerFrames series).length = series.depth := by
  cases series with
  | states | transitions =>
    obtain ⟨lifecycle, hactive, -⟩ := exists_lifecycle h
    rw [outerFrames, lifecycleFrames, hactive]
    rfl
  | fields | methods | indexes | relations | profiles => rfl

theorem documentChars_eq (h : definition.Emits series) (style : Style) :
    definition.documentChars style = definition.opening style series ++
      (definition.entries series).flatMap (series.lines style definition.name) ++
        definition.closing style series := by
  have hroot : definition.rootNode.render style 0 = Node.renderAll style 0 [definition.rootNode] :=
    (List.append_nil _).symm
  rw [documentChars, hroot, ← fillAll_outerFrames h, Frame.renderAll_fillAll, Frame.fronts_append,
    Frame.backs_append, Frame.fronts_plain, Frame.backs_plain, List.length_append,
    length_outerFrames h, Node.renderAll_map, Nat.zero_add, Nat.zero_add, opening, closing]
  simp only [List.append_assoc]
  rfl

theorem entries_insert (h : definition.Emits series) (place : Nat) (entry : series.Entry) :
    (definition.insert series place entry).entries series =
      (definition.entries series).take place ++
        entry :: (definition.entries series).drop place := by
  cases series with
  | states | transitions =>
    obtain ⟨lifecycle, -, hgiven⟩ := exists_lifecycle h
    simp only [insert, withEntries, entries, hgiven]
    rfl
  | fields | methods | indexes | relations | profiles => rfl

/-- Inserting an entry adds its lines at its place among the others and changes nothing else in the
document. The lines follow whole lines and are whole lines themselves, and only those of a profile
tell the name of the class. -/
theorem document_insert (h : definition.Emits series) (style : Style) (place : Nat)
    (entry : series.Entry) :
    definition.document style =
        String.ofList (definition.linesBefore style series place ++
          definition.linesAfter style series place) ∧
      (definition.insert series place entry).document style =
        String.ofList (definition.linesBefore style series place ++
          series.lines style definition.name entry ++ definition.linesAfter style series place) ∧
      ['\n'] <:+ definition.linesBefore style series place ∧
      ['\n'] <:+ series.lines style definition.name entry ∧
      (series ≠ .profiles → ∀ name, series.lines style name entry =
        series.lines style definition.name entry) := by
  refine ⟨?_, ?_, definition.endsLine_linesBefore style series place,
    Node.endsLine_render style _ _, ?_⟩
  · rw [document, documentChars_eq h, ← List.take_append_drop place (definition.entries series),
      List.flatMap_append]
    simp only [linesBefore, linesAfter, List.append_assoc]
  · rw [document, documentChars_eq (emits_insert h place entry), entries_insert h,
      List.flatMap_append, List.flatMap_cons, insert, opening_withEntries, closing_withEntries,
      name_withEntries]
    simp only [linesBefore, linesAfter, List.append_assoc]
  · intro hseries name
    cases series with
    | profiles => contradiction
    | fields | states | transitions | methods | indexes | relations => rfl

def staged : ClassDefinition where
  name := "Server"
  lifecycle := some { driver := "status", states := [{ name := "live" }] }
  profiles := [{ name := "Owner" }]

theorem document_insert_staged :
    staged.Emits .states ∧ staged.Emits .profiles ∧
      (staged.insert .states 0 { name := "new" }).document {} =
        String.ofList (staged.linesBefore {} .states 0 ++
          Series.lines {} "Server" .states { name := "new" } ++ staged.linesAfter {} .states 0) ∧
      Series.lines {} "Rack" .states { name := "new" } =
        Series.lines {} "Server" .states { name := "new" } ∧
      (staged.insert .profiles 1 { name := "Guest" }).document {} =
        String.ofList (staged.linesBefore {} .profiles 1 ++
          Series.lines {} "Server" .profiles { name := "Guest" } ++
          staged.linesAfter {} .profiles 1) := by
  have hstates : staged.Emits .states := rfl
  have hprofiles : staged.Emits .profiles := List.cons_ne_nil _ _
  obtain ⟨-, hstate, -, -, hname⟩ := document_insert hstates {} 0 { name := "new" }
  obtain ⟨-, hprofile, -⟩ := document_insert hprofiles {} 1 { name := "Guest" }
  exact ⟨hstates, hprofiles, hstate, hname (by decide) "Rack", hprofile⟩

/-! ### Step by step -/

/-- A builder that is told to write the nodes of a document one after the other ends with that
document. -/
theorem document_eq_build (definition : ClassDefinition) (style : Style) :
    definition.document style =
      (definition.rootNode.script.run (({ style } : Markup.Builder).line declaration)).build := by
  rw [Node.run_script, Markup.Builder.build, document]
  exact congrArg String.ofList (List.append_nil _).symm

/-- Writing an entry inside the element of its series adds its lines and leaves the same elements
open. -/
theorem run_entry (series : Series) (className : String) (entry : series.Entry) {b : Markup.Builder}
    (h : b.opened.length = series.depth + 1) :
    (series.node className entry).script.run b =
      { b with written := b.written ++ series.lines b.style className entry } := by
  rw [Node.run_script, h]
  rfl

end ClassDefinition

end Datamodel
