import Datamodel.Proofs.Definition.Document
import Datamodel.Proofs.Definition.Words
import Datamodel.Proofs.Markup.Growth
import Datamodel.Proofs.Text.Space
import Mathlib.Data.List.Enum

/-!
# What the markup lint reports

The lint goes through the values that a document holds and looks for the same four characters in all
texts and attribute values, whereas escaping replaces three characters in a text and five in an
attribute value. Here each value of the list is given the place where the document holds it. So it
is said value by value how a report compares with what escaping changes, and that the documents
written with and without escaping differ just where a value does.
-/

namespace Datamodel

open Markup (Node Held Attributes Indent)

/-- A value that the lint looks at, with what a report names it by, and where the document holds
it. -/
inductive EmbeddedValue where
  | text (location value : String)
  /-- As text, without the white space around it. -/
  | item (location value : String)
  | quoted (location value : String)
  /-- Between quotes, behind the mark of an action. -/
  | action (location value : String)
  | code (method value : String)
  deriving DecidableEq

namespace EmbeddedValue

@[simp] def slot : EmbeddedValue → Slot
  | .text _ _ | .item _ _ => .text
  | .quoted _ _ | .action _ _ => .quoted
  | .code _ _ => .literal

def value : EmbeddedValue → String
  | .text _ value | .item _ value | .quoted _ value | .action _ value | .code _ value => value

/-- What the document holds for the value. -/
@[simp] def written : EmbeddedValue → String
  | .item _ value => Text.trimmed value
  | .action _ value => "action:" ++ value
  | .text _ value | .quoted _ value | .code _ value => value

/-- Whether escaping makes a difference to what the document holds. -/
def Changes (embedding : EmbeddedValue) : Prop :=
  embedding.slot.Changes embedding.written.toList

instance (embedding : EmbeddedValue) : Decidable embedding.Changes :=
  inferInstanceAs (Decidable (Slot.Changes _ _))

def isReported : EmbeddedValue → Bool
  | .text _ value | .item _ value | .quoted _ value | .action _ value => value.toList.any isReserved
  | .code _ value => Text.contains Escaping.literalClose value.toList

def report (escaping : Escaping) : EmbeddedValue → Issue
  | .text location _ | .item location _ | .quoted location _ | .action location _ =>
      .reserved escaping location
  | .code method _ => .closingMark escaping method

def located : EmbeddedValue → Located
  | .text name value | .item name value | .quoted name value | .action name value
      | .code name value => (name, value)

end EmbeddedValue

/-! ### The listed values and their places -/

def Properties.embeddings (properties : Properties) : List EmbeddedValue :=
  properties.embedded.map fun located => .text located.1 located.2

def FieldKind.embeddings (location : String) : FieldKind → List EmbeddedValue
  | .enumeration values => values.map (.item (location ++ ".values"))
  | .externalKey target => [.text (location ++ ".target_class") target]
  | _ => []

def Field.embeddings (field : Field) : List EmbeddedValue :=
  let location := "fields." ++ field.name
  [.quoted (location ++ ".name") field.name, .text (location ++ ".sql") field.column,
    .text (location ++ ".default_value") field.defaultValue] ++ field.kind.embeddings location

def State.embeddings (state : State) : List EmbeddedValue :=
  let location := "lifecycle.states." ++ state.name
  [.quoted location state.name, .text (location ++ ".highlight") state.highlight]

def Transition.embeddings (transition : Transition) : List EmbeddedValue :=
  let location := "lifecycle.transitions." ++ transition.stimulus
  [.quoted location transition.stimulus, .text (location ++ ".target") transition.target] ++
    transition.actions.map (.text (location ++ ".actions"))

def Lifecycle.embeddings (lifecycle : Lifecycle) : List EmbeddedValue :=
  .text "lifecycle.attribute" lifecycle.driver ::
    lifecycle.states.flatMap State.embeddings ++ lifecycle.transitions.flatMap Transition.embeddings

def Method.embeddings (method : Method) : List EmbeddedValue :=
  [.quoted ("methods." ++ method.name) method.name]

def Index.embeddings (index : Index) : List EmbeddedValue :=
  let location := "indexes." ++ index.name
  .quoted location index.name :: index.fields.map (.quoted (location ++ ".fields"))

def Relation.embeddings (relation : Relation) : List EmbeddedValue :=
  let location := "relations." ++ relation.neighbour
  [.quoted location relation.neighbour, .text (location ++ ".query_down") relation.queryDown,
    .text (location ++ ".query_up") relation.queryUp]

def MenuEntry.embeddings (menu : MenuEntry) : List EmbeddedValue :=
  .text "menu.parent" menu.parent :: if menu.hasQuery then [.text "menu.oql" menu.query] else []

def Profile.embeddings (profile : Profile) : List EmbeddedValue :=
  let location := "user_rights." ++ profile.name
  .quoted location profile.name :: profile.rights.map fun right =>
    .action (location ++ ".rights") right.1

def Branding.embeddings (branding : Branding) : List EmbeddedValue :=
  branding.embedded.map fun located => .text located.1 located.2

def Method.codeEmbedding (method : Method) : EmbeddedValue :=
  .code method.name method.code

namespace ClassDefinition

/-- The texts and attribute values, as the lint lists them. -/
def textEmbeddings (definition : ClassDefinition) : List EmbeddedValue :=
  [.quoted "name" definition.name, .text "parent" definition.parent] ++
    definition.properties.embeddings ++
    definition.fields.flatMap Field.embeddings ++
    definition.activeLifecycle.toList.flatMap Lifecycle.embeddings ++
    definition.methods.flatMap Method.embeddings ++
    definition.indexes.flatMap Index.embeddings ++
    definition.relations.flatMap Relation.embeddings ++
    definition.menu.toList.flatMap MenuEntry.embeddings ++
    definition.profiles.flatMap Profile.embeddings ++
    definition.activeBranding.toList.flatMap Branding.embeddings

def embeddings (definition : ClassDefinition) : List EmbeddedValue :=
  definition.textEmbeddings ++ definition.methods.map Method.codeEmbedding

end ClassDefinition

/-! ### The lint goes through them -/

section listed

open EmbeddedValue (located)

theorem Properties.located_embeddings (properties : Properties) :
    properties.embeddings.map located = properties.embedded :=
  rfl

theorem FieldKind.located_embeddings (location : String) (kind : FieldKind) :
    (kind.embeddings location).map located = kind.embedded location := by
  cases kind with
  | enumeration values => exact List.map_map
  | string | integer | externalKey | linkedSet | tagSet | customFields => rfl

theorem Field.located_embeddings (field : Field) :
    field.embeddings.map located = field.embedded := by
  rw [embeddings, List.map_append, FieldKind.located_embeddings]
  rfl

theorem Transition.located_embeddings (transition : Transition) :
    transition.embeddings.map located = transition.embedded := by
  rw [embeddings, List.map_append, List.map_map]
  rfl

theorem Lifecycle.located_embeddings (lifecycle : Lifecycle) :
    lifecycle.embeddings.map located = lifecycle.embedded := by
  rw [embeddings, List.map_append, List.map_cons, List.map_flatMap, List.map_flatMap,
    funext Transition.located_embeddings]
  rfl

theorem Index.located_embeddings (index : Index) :
    index.embeddings.map located = index.embedded := by
  rw [embeddings, List.map_cons, List.map_map]
  rfl

theorem MenuEntry.located_embeddings (menu : MenuEntry) :
    menu.embeddings.map located = menu.embedded := by
  rw [embeddings, embedded]
  cases menu.hasQuery <;> rfl

theorem Profile.located_embeddings (profile : Profile) :
    profile.embeddings.map located = profile.embedded := by
  rw [embeddings, List.map_cons, List.map_map]
  rfl

theorem ClassDefinition.located_embeddings (definition : ClassDefinition) :
    definition.textEmbeddings.map located = definition.embedded := by
  simp only [textEmbeddings, List.map_append, List.map_flatMap, Properties.located_embeddings,
    Field.located_embeddings, Lifecycle.located_embeddings, Index.located_embeddings,
    MenuEntry.located_embeddings, Profile.located_embeddings]
  rfl

end listed

/-! ### Fixed words and numbers -/

theorem kept_text_of_plain {value : String} (h : Escaping.Plain value.toList) :
    Held.Kept (.text, value) := by
  rw [Held.Kept, Slot.changes_text_iff]
  rintro ⟨c, hc, hreserved⟩
  obtain ⟨hamp, hlt, hgt, -⟩ := h c hc
  simp [hamp, hlt, hgt] at hreserved

theorem kept_quoted_of_plain {value : String} (h : Escaping.Plain value.toList)
    (hnone : '\'' ∉ value.toList) : Held.Kept (.quoted, value) := by
  rw [Held.Kept, Slot.changes_quoted_iff]
  rintro ⟨c, hc, hreserved⟩
  obtain ⟨hamp, hlt, hgt, hquote⟩ := h c hc
  have hapostrophe : c ≠ '\'' := ne_of_mem_of_not_mem hc hnone
  simp [hamp, hlt, hgt, hquote, hapostrophe] at hreserved

@[simp] theorem kept_empty : Held.Kept (.text, "") :=
  kept_text_of_plain (by simp [Escaping.Plain])

@[simp] theorem kept_boolText (value : Bool) : Held.Kept (.text, boolText value) :=
  kept_text_of_plain (plain_boolText value)

@[simp] theorem kept_int (i : Int) : Held.Kept (.text, toString i) :=
  kept_text_of_plain (plain_int i)

@[simp] theorem kept_nat (n : Nat) : Held.Kept (.quoted, toString n) :=
  kept_quoted_of_plain (plain_nat n) fun h => ne_of_isNumberChar (isNumberChar_of_mem_nat h) rfl rfl

@[simp] theorem FieldType.kept_name (type : FieldType) : Held.Kept (.quoted, type.name) := by
  cases type <;> decide

@[simp] theorem MethodKind.kept_name (kind : MethodKind) : Held.Kept (.text, kind.name) :=
  kept_text_of_plain kind.plain_name

@[simp] theorem RelationKind.kept_name (kind : RelationKind) : Held.Kept (.quoted, kind.name) := by
  cases kind <;> decide

@[simp] theorem MenuKind.kept_name (kind : MenuKind) : Held.Kept (.quoted, kind.name) := by
  cases kind <;> decide

@[simp] theorem Right.kept_name (right : Right) : Held.Kept (.text, right.name) :=
  kept_text_of_plain right.plain_name

theorem kept_quoted_append {front back : String} :
    Held.Kept (.quoted, front ++ back) ↔ Held.Kept (.quoted, front) ∧
    Held.Kept (.quoted, back) := by
  simp only [Held.Kept, Slot.changes_quoted_iff, String.toList_append, List.mem_append,
    or_and_right, exists_or, not_or]

/-! ### Sections -/

theorem kept_textNode {tag value : String} :
    (textNode tag value).Kept ↔ Held.Kept (.text, value) := by
  simp [textNode, Node.kept_text]

theorem kept_elementIf {condition : Bool} {tag : String} {content : List Node} :
    (∀ node ∈ elementIf condition tag content, node.Kept) ↔
    (condition = true → ∀ node ∈ content, node.Kept) := by
  cases condition with
  | true => simp [elementIf, Node.kept_element]
  | false => simp [elementIf]

/-- Whether escaping makes no difference to any of some values. -/
def AllKept (embeddings : List EmbeddedValue) : Prop :=
  ∀ embedding ∈ embeddings, ¬embedding.Changes

theorem allKept_append {front back : List EmbeddedValue} :
    AllKept (front ++ back) ↔ AllKept front ∧ AllKept back :=
  List.forall_mem_append

theorem allKept_cons {embedding : EmbeddedValue} {embeddings : List EmbeddedValue} :
    AllKept (embedding :: embeddings) ↔ Held.Kept (embedding.slot, embedding.written) ∧
    AllKept embeddings :=
  List.forall_mem_cons

theorem allKept_nil : AllKept [] := by
  simp [AllKept]

theorem allKept_map {α : Type} {items : List α} {embedding : α → EmbeddedValue} :
    AllKept (items.map embedding) ↔
    ∀ item ∈ items, Held.Kept ((embedding item).slot, (embedding item).written) :=
  List.forall_mem_map

theorem allKept_flatMap {α : Type} {items : List α} {embeddings : α → List EmbeddedValue} :
    AllKept (items.flatMap embeddings) ↔ ∀ item ∈ items, AllKept (embeddings item) := by
  simp only [AllKept, List.mem_flatMap]
  grind

theorem Properties.kept_node {properties : Properties} :
    properties.node.Kept ↔ AllKept properties.embeddings := by
  have hnonEmpty : (∀ entry ∈ properties.nonEmpty, Held.Kept (.text, entry.2)) ↔
      ∀ entry ∈ properties.entries, Held.Kept (.text, entry.2) := by
    simp only [nonEmpty, List.mem_filter, and_imp, Bool.not_eq_true', String.isEmpty_eq_false_iff]
    refine forall₂_congr fun entry _ => ⟨fun h => ?_, fun h _ => h⟩
    by_cases hempty : entry.2 = ""
    · rw [hempty]
      exact kept_empty
    · exact h hempty
  simp only [node, Node.kept_element, List.forall_mem_map, kept_textNode]
  rw [and_iff_right (by simp), hnonEmpty]
  simp [entries, embeddings, embedded, allKept_cons, allKept_nil]

theorem FieldKind.kept_nodes (location : String) {kind : FieldKind} :
    (∀ node ∈ kind.nodes, node.Kept) ↔ AllKept (kind.embeddings location) := by
  cases kind with
  | enumeration values =>
    rw [nodes, kept_elementIf, List.forall_mem_map, embeddings, allKept_map]
    simp only [Node.kept_text, List.forall_mem_singleton, kept_nat, true_and]
    have hplaces : (∀ entry ∈ values.zipIdx, Held.Kept (.text, Text.trimmed entry.1)) ↔
        ∀ value ∈ values, Held.Kept (.text, Text.trimmed value) := by
      rw [← List.forall_mem_map (f := Prod.fst) (P := fun value =>
        Held.Kept (.text, Text.trimmed value)), List.zipIdx_map_fst]
    rw [hplaces]
    cases values with
    | nil => simp
    | cons value values => simp
  | externalKey target =>
    rw [nodes, embeddings, allKept_cons, and_iff_left allKept_nil]
    split
    · rename_i hempty
      rw [String.isEmpty_iff.1 hempty]
      simp
    · exact List.forall_mem_singleton.trans kept_textNode
  | string | integer | linkedSet | tagSet | customFields => simp [nodes, embeddings, allKept_nil]

theorem Field.kept_node {field : Field} : field.node.Kept ↔ AllKept field.embeddings := by
  rw [node, Node.kept_element, List.forall_mem_append,
    FieldKind.kept_nodes ("fields." ++ field.name), embeddings, allKept_append, ← and_assoc]
  simp [kept_textNode, allKept_cons, allKept_nil, and_assoc]

theorem State.kept_node {state : State} : state.node.Kept ↔ AllKept state.embeddings := by
  simp only [node, Node.kept_element, List.forall_mem_cons, List.forall_mem_map, kept_textNode,
    kept_boolText]
  simp [embeddings, allKept_cons, allKept_nil]

theorem Transition.kept_node {transition : Transition} :
    transition.node.Kept ↔ AllKept transition.embeddings := by
  simp only [node, Node.kept_element, List.forall_mem_cons, List.forall_mem_map, kept_textNode]
  simp [embeddings, allKept_cons, allKept_map]

theorem Lifecycle.kept_node {lifecycle : Lifecycle} :
    lifecycle.node.Kept ↔ AllKept lifecycle.embeddings := by
  simp only [node, Node.kept_element, List.forall_mem_cons, List.forall_mem_map, kept_textNode,
    State.kept_node, Transition.kept_node]
  simp [embeddings, allKept_cons, allKept_append, allKept_flatMap]

/-- A method is written alike where its name and its code are. -/
theorem Method.kept_node {method : Method} :
    method.node.Kept ↔ AllKept method.embeddings ∧ ¬method.codeEmbedding.Changes := by
  have hwords : Held.Kept (.text, "false") ∧ Held.Kept (.text, "public") := by decide
  have hcode : ¬method.codeEmbedding.Changes ↔ Held.Kept (.literal, method.code) := Iff.rfl
  simp only [node, Node.kept_element, List.forall_mem_cons, kept_textNode, Node.kept_literal,
    hwords, hcode]
  simp [embeddings, allKept_cons, allKept_nil]

theorem Index.kept_node {index : Index} : index.node.Kept ↔ AllKept index.embeddings := by
  simp only [node, Node.kept_element, List.forall_mem_cons, List.forall_mem_map, Node.kept_empty]
  simp [embeddings, allKept_cons, allKept_map]

theorem Relation.kept_node {relation : Relation} :
    relation.node.Kept ↔ AllKept relation.embeddings := by
  simp [node, embeddings, Node.kept_element, kept_textNode, allKept_cons, allKept_nil]

theorem MenuEntry.kept_node {menu : MenuEntry} {id : String} :
    (menu.node id).Kept ↔ Held.Kept (.quoted, id) ∧ AllKept menu.embeddings := by
  simp only [node, Node.kept_element, List.forall_mem_cons, List.forall_mem_append,
    kept_textNode, kept_int, MenuKind.kept_name]
  rw [embeddings, allKept_cons]
  split
  · simp [kept_textNode, allKept_cons, allKept_nil]
  · simp [allKept_nil]

theorem Profile.kept_node {profile : Profile} {className : String} :
    (profile.node className).Kept ↔ Held.Kept (.quoted, className) ∧
    AllKept profile.embeddings := by
  simp only [node, Node.kept_element, List.forall_mem_cons, List.forall_mem_map, Node.kept_text,
    Right.kept_name]
  simp [embeddings, allKept_cons, allKept_map, and_left_comm]

theorem Branding.kept_node {branding : Branding} :
    branding.node.Kept ↔ AllKept branding.embeddings := by
  simp [node, embeddings, embedded, Node.kept_element, kept_textNode, allKept_cons, allKept_nil]

/-! ### The document -/

namespace ClassDefinition

variable {definition : ClassDefinition}

theorem kept_section {α : Type} {items : List α} {tag : String} {node : α → Node} :
    (∀ found ∈ elementIf (!items.isEmpty) tag (items.map node), found.Kept) ↔
    ∀ item ∈ items, (node item).Kept := by
  rw [kept_elementIf, List.forall_mem_map]
  cases items with
  | nil => simp
  | cons item items => simp

theorem kept_given {α : Type} {given : Option α} {node : α → Node} :
    (∀ found ∈ (given.map node).toList, found.Kept) ↔ ∀ item ∈ given.toList, (node item).Kept := by
  rw [Option.toList_map, List.forall_mem_map]

theorem kept_menuNodes : (∀ node ∈ definition.menuNodes, node.Kept) ↔
    ∀ menu ∈ definition.menu.toList, Held.Kept (.quoted, definition.name) ∧
      AllKept menu.embeddings := by
  have hmark : Held.Kept (.quoted, "_menu") := by decide
  rw [menuNodes]
  split
  · rename_i hnone
    simp [hnone]
  · rename_i menu hsome
    simp [hsome, Node.kept_element, MenuEntry.kept_node, menuId, kept_quoted_append, hmark]

theorem kept_profileNodes : (∀ node ∈ definition.profileNodes, node.Kept) ↔
    ∀ profile ∈ definition.profiles, Held.Kept (.quoted, definition.name) ∧
      AllKept profile.embeddings := by
  rw [profileNodes, kept_elementIf]
  simp only [List.forall_mem_singleton, Node.kept_element, List.forall_mem_map, Profile.kept_node]
  cases definition.profiles with
  | nil => simp
  | cons profile profiles => simp

theorem kept_codes {methods : List Method} :
    AllKept (methods.map Method.codeEmbedding) ↔
    ∀ method ∈ methods, ¬method.codeEmbedding.Changes :=
  List.forall_mem_map

/-- The tree of a document is written alike where the values that the lint looks at are. -/
theorem kept_rootNode : definition.rootNode.Kept ↔ AllKept definition.embeddings := by
  have hroot : Held.Kept (.quoted, "http://www.w3.org/2001/XMLSchema-instance") ∧
      Held.Kept (.quoted, "3.0") := by
    decide
  simp only [rootNode, classNode, Node.kept_element, List.forall_mem_append, List.forall_mem_cons,
    List.forall_mem_map, List.not_mem_nil, IsEmpty.forall_iff, implies_true, and_true, true_and,
    kept_textNode, kept_section, kept_given, kept_menuNodes, kept_profileNodes, hroot,
    Properties.kept_node, Field.kept_node, Lifecycle.kept_node, Method.kept_node, Index.kept_node,
    Relation.kept_node, Branding.kept_node, forall_and]
  simp only [embeddings, textEmbeddings, allKept_append, allKept_cons, allKept_flatMap, allKept_nil,
    kept_codes, EmbeddedValue.slot, EmbeddedValue.written]
  grind

end ClassDefinition

/-! ### The report and the documents -/

namespace EmbeddedValue

/-- What is done to a value on its way into the document leaves the characters alone that escaping
is about. -/
theorem mem_written_iff (embedding : EmbeddedValue) {c : Char} (hspace : Text.isSpace c = false)
    (hmark : c ∉ "action:".toList) : c ∈ embedding.written.toList ↔ c ∈ embedding.value.toList := by
  cases embedding with
  | text | quoted | code => rfl
  | item location value =>
    obtain ⟨front, back, hvalue, hfront, hback⟩ := Text.exists_padding Text.isSpace value.toList
    have hends : c ∉ front ∧ c ∉ back := by
      constructor
      · intro hc
        simp [hfront c hc] at hspace
      · intro hc
        simp [hback c hc] at hspace
    rw [written, EmbeddedValue.value, Text.trimmed, String.toList_ofList]
    conv_rhs => rw [hvalue]
    simp [hends, Text.trim]
  | action location value =>
    rw [written, EmbeddedValue.value, String.toList_append, List.mem_append, or_iff_right hmark]

theorem any_isReserved_iff {value : List Char} :
    value.any isReserved = true ↔ (∃ c ∈ value, c = '&' ∨ c = '<' ∨ c = '>') ∨ '"' ∈ value := by
  simp only [List.any_eq_true, isReserved, Bool.or_eq_true, beq_iff_eq, and_or_left, exists_or,
    exists_eq_right, or_assoc]

/-- Escaping makes the same difference to what is written as to the value itself. -/
theorem changes_iff (embedding : EmbeddedValue) :
    embedding.Changes ↔ embedding.slot.Changes embedding.value.toList := by
  have hmem (c : Char) (hspace : Text.isSpace c = false) (hmark : c ∉ "action:".toList) :=
    embedding.mem_written_iff hspace hmark
  cases embedding with
  | text | quoted | code => rfl
  | item location value =>
    rw [Changes, slot, Slot.changes_text_iff, Slot.changes_text_iff]
    simp only [and_or_left, exists_or, exists_eq_right]
    rw [hmem '&' rfl (by decide), hmem '<' rfl (by decide), hmem '>' rfl (by decide)]
  | action location value =>
    rw [Changes, slot, Slot.changes_quoted_iff, Slot.changes_quoted_iff]
    simp only [and_or_left, exists_or, exists_eq_right]
    rw [hmem '&' rfl (by decide), hmem '<' rfl (by decide), hmem '>' rfl (by decide),
      hmem '"' rfl (by decide), hmem '\'' rfl (by decide)]

theorem isReported_of_slot {embedding : EmbeddedValue} (h : embedding.slot ≠ .literal) :
    embedding.isReported = true ↔
      (∃ c ∈ embedding.value.toList, c = '&' ∨ c = '<' ∨ c = '>') ∨
      '"' ∈ embedding.value.toList := by
  rw [← any_isReserved_iff]
  cases embedding with
  | code => contradiction
  | text | item | quoted | action => rfl

theorem isReported_of_literal {embedding : EmbeddedValue} (h : embedding.slot = .literal) :
    embedding.isReported = true ↔ embedding.Changes := by
  cases embedding with
  | code method value => exact Slot.changes_literal_iff.symm
  | text | item | quoted | action => contradiction

/-- A text is reported where escaping changes it, and where it holds a double quote. -/
theorem isReported_of_text {embedding : EmbeddedValue} (h : embedding.slot = .text) :
    embedding.isReported = true ↔ embedding.Changes ∨ '"' ∈ embedding.value.toList := by
  rw [isReported_of_slot (ne_of_eq_of_ne h (by decide)), changes_iff, h, Slot.changes_text_iff]

/-- Escaping changes an attribute value where it is reported, and where it holds an apostrophe. -/
theorem changes_of_quoted {embedding : EmbeddedValue} (h : embedding.slot = .quoted) :
    embedding.Changes ↔ embedding.isReported = true ∨ '\'' ∈ embedding.value.toList := by
  rw [isReported_of_slot (ne_of_eq_of_ne h (by decide)), changes_iff, h, Slot.changes_quoted_iff]
  simp only [and_or_left, exists_or, exists_eq_right, or_assoc]

end EmbeddedValue

namespace ClassDefinition

/-- A code is not listed with the texts. -/
theorem slot_ne_literal (definition : ClassDefinition) :
    ∀ embedding ∈ definition.textEmbeddings, embedding.slot ≠ .literal := by
  have hkind (location : String) (kind : FieldKind) : ∀ embedding ∈ kind.embeddings location,
      embedding.slot ≠ .literal := by
    cases kind <;> simp [FieldKind.embeddings]
  have hmenu (menu : MenuEntry) : ∀ embedding ∈ menu.embeddings, embedding.slot ≠ .literal := by
    cases hquery : menu.hasQuery <;> simp [MenuEntry.embeddings, hquery]
  simp only [textEmbeddings, Properties.embeddings, Field.embeddings, Lifecycle.embeddings,
    State.embeddings, Transition.embeddings, Method.embeddings, Index.embeddings,
    Relation.embeddings, Profile.embeddings, Branding.embeddings, List.forall_mem_append,
    List.forall_mem_cons, List.forall_mem_flatMap, List.forall_mem_map, List.not_mem_nil,
    IsEmpty.forall_iff, implies_true, and_true, true_and, EmbeddedValue.slot, ne_eq, reduceCtorEq,
    not_false_eq_true]
  exact ⟨fun field _ => hkind _ field.kind, fun menu _ => hmenu menu⟩

theorem markupIssues_eq (escaping : Escaping) (definition : ClassDefinition) :
    definition.markupIssues escaping =
      (definition.embeddings.filter EmbeddedValue.isReported).map
        (EmbeddedValue.report escaping) := by
  have hone : ∀ embedding ∈ definition.textEmbeddings,
      embedding.isReported = embedding.located.2.toList.any isReserved ∧
        embedding.report escaping = .reserved escaping embedding.located.1 := by
    intro embedding h
    have hplace := slot_ne_literal definition embedding h
    cases embedding with
    | code => contradiction
    | text | item | quoted | action => exact ⟨rfl, rfl⟩
  have htexts : (definition.embedded.filter fun located => located.2.toList.any isReserved).map
        (fun located => .reserved escaping located.1) =
      (definition.textEmbeddings.filter EmbeddedValue.isReported).map
        (EmbeddedValue.report escaping) := by
    rw [← located_embeddings, List.filter_map, List.map_map,
      List.filter_congr fun embedding h => (hone embedding h).1]
    exact List.map_congr_left fun embedding h => (hone embedding (List.mem_of_mem_filter h)).2.symm
  rw [markupIssues, embeddings, List.filter_append, List.map_append, htexts, List.filter_map,
    List.map_map]
  rfl

theorem document_eq_iff_allKept (definition : ClassDefinition) (indent : Indent) :
    definition.document ⟨.markup, indent⟩ = definition.document ⟨.verbatim, indent⟩ ↔
      ∀ embedding ∈ definition.embeddings, ¬embedding.Changes := by
  have hchars : definition.document ⟨.markup, indent⟩ = definition.document ⟨.verbatim, indent⟩ ↔
      definition.rootNode.render ⟨.markup, indent⟩ 0 =
        definition.rootNode.render ⟨.verbatim, indent⟩ 0 := by
    rw [document, document, String.ofList_inj, documentChars, documentChars]
    exact List.append_right_inj _
  rw [hchars, Node.render_eq_iff]
  exact kept_rootNode

theorem markupIssues_eq_nil {escaping : Escaping} {definition : ClassDefinition} :
    definition.markupIssues escaping = [] ↔
    ∀ embedding ∈ definition.embeddings, ¬embedding.isReported = true := by
  rw [markupIssues_eq, List.map_eq_nil_iff, List.filter_eq_nil_iff]

/-- The lint reports the values that it lists one by one. A text is reported where escaping changes
it, and also where it holds a double quote, which no text has to have escaped. Escaping changes an
attribute value where it is reported, and also where it holds an apostrophe, which the lint does not
look for. A code is reported exactly where escaping changes it. The documents with and without
escaping are the same exactly where no value is changed, and so, apart from the two quotes, exactly
where nothing is reported. -/
theorem markup_reports (definition : ClassDefinition) :
    Lint.issues .markup definition .markup =
        (definition.embeddings.filter EmbeddedValue.isReported).map (EmbeddedValue.report .markup) ∧
      (∀ embedding ∈ definition.embeddings,
        (embedding.slot = .text →
          (embedding.isReported = true ↔ embedding.Changes ∨ '"' ∈ embedding.value.toList)) ∧
        (embedding.slot = .quoted →
          (embedding.Changes ↔ embedding.isReported = true ∨ '\'' ∈ embedding.value.toList)) ∧
        (embedding.slot = .literal → (embedding.isReported = true ↔ embedding.Changes))) ∧
      (∀ indent, definition.document ⟨.markup, indent⟩ = definition.document ⟨.verbatim, indent⟩ ↔
        ∀ embedding ∈ definition.embeddings, ¬embedding.Changes) ∧
      ((∀ embedding ∈ definition.embeddings,
          (embedding.slot = .text → '"' ∉ embedding.value.toList) ∧
          (embedding.slot = .quoted → '\'' ∉ embedding.value.toList)) →
        ∀ indent, Lint.issues .markup definition .markup = [] ↔
          definition.document ⟨.markup, indent⟩ = definition.document ⟨.verbatim, indent⟩) := by
  refine ⟨markupIssues_eq .markup definition, fun embedding _ => ⟨?_, ?_, ?_⟩,
    document_eq_iff_allKept definition, fun hquotes indent => ?_⟩
  · exact EmbeddedValue.isReported_of_text
  · exact EmbeddedValue.changes_of_quoted
  · exact EmbeddedValue.isReported_of_literal
  · rw [document_eq_iff_allKept]
    refine markupIssues_eq_nil.trans (forall₂_congr fun embedding hmem => not_congr ?_)
    obtain ⟨htext, hquoted⟩ := hquotes embedding hmem
    cases hslot : embedding.slot with
    | text => rw [EmbeddedValue.isReported_of_text hslot, or_iff_left (htext hslot)]
    | quoted => rw [EmbeddedValue.changes_of_quoted hslot, or_iff_left (hquoted hslot)]
    | literal => exact EmbeddedValue.isReported_of_literal hslot

end ClassDefinition

/-- A class with double quotes in a text, and with an apostrophe in the name of a profile. -/
def quotations : ClassDefinition where
  name := "Server"
  parent := "\"Base\""
  methods := [{ name := "count", code := "return $a[$b[0]]>1;" }]
  profiles := [{ name := "Owner's" }]

def unquoted : ClassDefinition where
  name := "Server"

theorem markup_reports_quotations :
    (EmbeddedValue.text "parent" "\"Base\"").isReported = true ∧
      (EmbeddedValue.quoted "user_rights.Owner's" "Owner's").Changes ∧
      (EmbeddedValue.code "count" "return $a[$b[0]]>1;").Changes ∧
      ∀ indent, unquoted.document ⟨.markup, indent⟩ = unquoted.document ⟨.verbatim, indent⟩ := by
  obtain ⟨-, hvalues, -, -⟩ := ClassDefinition.markup_reports quotations
  obtain ⟨-, -, -, hunquoted⟩ := ClassDefinition.markup_reports unquoted
  refine ⟨?_, ?_, ?_, fun indent => ?_⟩
  · exact ((hvalues (.text "parent" "\"Base\"") (by decide)).1 rfl).2 (Or.inr (by decide))
  · exact ((hvalues (.quoted "user_rights.Owner's" "Owner's") (by decide)).2.1 rfl).2
      (Or.inr (by decide))
  · exact ((hvalues (.code "count" "return $a[$b[0]]>1;") (by decide)).2.2 rfl).1 (by decide)
  · exact (hunquoted (by decide) indent).1 (by decide)

/-- A class whose only quote is an apostrophe in the name of a profile. -/
def ownersClass : ClassDefinition where
  name := "Server"
  profiles := [{ name := "Owner's" }]

/-- A class whose only quotes are double quotes in a text. -/
def quotedParent : ClassDefinition where
  name := "Server"
  parent := "\"Base\""

/-- An apostrophe in an attribute value is escaped and not reported, and a double quote in a text is
reported and not escaped. -/
theorem markupIssues_quotes :
    Lint.issues .markup ownersClass .markup = [] ∧
      ownersClass.document ⟨.markup, .standard⟩ ≠ ownersClass.document ⟨.verbatim, .standard⟩ ∧
      Lint.issues .markup quotedParent .markup = [.reserved .markup "parent"] ∧
      quotedParent.document ⟨.markup, .standard⟩ =
        quotedParent.document ⟨.verbatim, .standard⟩ := by
  rw [ne_eq, ClassDefinition.document_eq_iff_allKept, ClassDefinition.document_eq_iff_allKept]
  decide

end Datamodel
