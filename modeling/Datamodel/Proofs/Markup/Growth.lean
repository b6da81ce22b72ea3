import Datamodel.Markup.Node
import Datamodel.Proofs.Markup.Escaping
import Datamodel.Proofs.Markup.Literal

/-!
# What escaping changes in a document

A value stands in a document as text, as an attribute value or in a literal block, and each place
reserves characters of its own. Escaping never makes a value shorter. So where one tree is written
with and without escaping, no part of one document can make up for a part of the other: the
documents agree only if every value is written alike.
-/

namespace Datamodel

open Xml (Spells)

/-! ### Values -/

/-- Where a value can stand in a document. -/
inductive Slot where
  | text
  /-- Between the quotes of an attribute. -/
  | quoted
  | literal
  deriving DecidableEq, Repr

namespace Slot

def write (escaping : Escaping) : Slot → List Char → List Char
  | .text => escaping.inText
  | .quoted => escaping.inAttribute
  | .literal => escaping.inLiteral

/-- Whether escaping makes a difference to what is written for a value. -/
def Changes (slot : Slot) (value : List Char) : Prop :=
  slot.write .markup value ≠ slot.write .verbatim value

instance (slot : Slot) (value : List Char) : Decidable (slot.Changes value) :=
  inferInstanceAs (Decidable (_ ≠ _))

end Slot

namespace Escaping

theorem length_pos_of_spells {piece : List Char} {c : Char} (h : Spells piece c) :
    1 ≤ piece.length := by
  obtain ⟨rfl, -⟩ | ⟨name, -, rfl⟩ := h
  · exact Nat.le_refl 1
  · exact Nat.succ_le_succ (Nat.zero_le _)

section spelled

variable {spell : Char → List Char} (h : ∀ c, Spells (spell c) c)

include h

theorem length_le_flatMap (value : List Char) : value.length ≤ (value.flatMap spell).length := by
  induction value with
  | nil => exact Nat.le_refl 0
  | cons c value ih =>
    have hfirst := length_pos_of_spells (h c)
    rw [List.flatMap_cons, List.length_append, List.length_cons]
    omega

theorem flatMap_eq_self_iff {value : List Char} :
    value.flatMap spell = value ↔ ∀ c ∈ value, spell c = [c] := by
  induction value with
  | nil => simp
  | cons c value ih =>
    rw [List.flatMap_cons, List.forall_mem_cons, ← ih]
    constructor
    · intro heq
      have hlength := congrArg List.length heq
      rw [List.length_append, List.length_cons] at hlength
      have hfirst := length_pos_of_spells (h c)
      have hrest := length_le_flatMap h value
      have hone : (spell c).length = [c].length := by
        show (spell c).length = 1
        omega
      exact List.append_inj heq hone
    · rintro ⟨hfirst, hrest⟩
      rw [hfirst, hrest, List.singleton_append]

end spelled

theorem textChar_eq_iff {c : Char} : textChar c = [c] ↔ ¬(c = '&' ∨ c = '<' ∨ c = '>') := by
  unfold textChar
  split <;> simp_all

theorem attributeChar_eq_iff {c : Char} :
    attributeChar c = [c] ↔ ¬((c = '&' ∨ c = '<' ∨ c = '>') ∨ c = '"' ∨ c = '\'') := by
  unfold attributeChar
  split
  · simp
  · simp
  · rename_i hapostrophe hquote
    rw [textChar_eq_iff, not_or (p := _ ∨ _), not_or (p := c = '"')]
    exact ⟨fun htext => ⟨htext, hquote, hapostrophe⟩, And.left⟩

/-- Where a block is closed and another one opened, twelve characters are added. -/
private theorem length_cut (s : List Char) :
    ("]]".toList ++ literalClose ++ literalOpen ++ '>' :: s).length = s.length + 15 := by
  rw [List.length_append, List.length_cons]
  show 14 + (s.length + 1) = s.length + 15
  omega

theorem length_le_splitClose (value : List Char) : value.length ≤ (splitClose value).length := by
  fun_induction splitClose value with
  | case1 s ih =>
    rw [length_cut, List.length_cons, List.length_cons, List.length_cons]
    omega
  | case2 c s _ ih => exact Nat.succ_le_succ ih
  | case3 => exact Nat.le_refl 0

theorem splitClose_eq_self_iff {value : List Char} :
    splitClose value = value ↔ Text.contains literalClose value = false := by
  constructor
  · intro heq
    fun_induction splitClose value with
    | case1 s ih =>
      have hlength := congrArg List.length heq
      have hrest := length_le_splitClose s
      rw [length_cut, List.length_cons, List.length_cons, List.length_cons] at hlength
      omega
    | case2 c s hne ih =>
      rw [Text.contains_cons, ih (List.cons.inj heq).2, Bool.or_false, Bool.eq_false_iff]
      intro hmark
      obtain ⟨rest, hrest⟩ := List.isPrefixOf_iff_prefix.1 hmark
      rw [literalClose_eq] at hrest
      obtain ⟨rfl, rfl⟩ := List.cons.inj hrest
      exact hne rest rfl rfl
    | case3 => rfl
  · intro hnone
    rw [splitClose_eq_sections, sections_of_not_contains hnone, List.flatMap_nil, List.append_nil]

end Escaping

namespace Slot

variable {value : List Char}

theorem length_write_le (slot : Slot) (value : List Char) :
    (slot.write .verbatim value).length ≤ (slot.write .markup value).length := by
  cases slot with
  | text => exact Escaping.length_le_flatMap Escaping.spells_textChar value
  | quoted => exact Escaping.length_le_flatMap Escaping.spells_attributeChar value
  | literal =>
    have hbody := Escaping.length_le_splitClose value
    simp only [write, Escaping.inLiteral, Escaping.literalBody, List.length_append]
    omega

theorem changes_text_iff : text.Changes value ↔ ∃ c ∈ value, c = '&' ∨ c = '<' ∨ c = '>' := by
  refine (not_congr (Escaping.flatMap_eq_self_iff Escaping.spells_textChar)).trans ?_
  simp only [Escaping.textChar_eq_iff, not_forall, not_not, exists_prop]

theorem changes_quoted_iff :
    quoted.Changes value ↔ ∃ c ∈ value, (c = '&' ∨ c = '<' ∨ c = '>') ∨ c = '"' ∨ c = '\'' := by
  refine (not_congr (Escaping.flatMap_eq_self_iff Escaping.spells_attributeChar)).trans ?_
  simp only [Escaping.attributeChar_eq_iff, not_forall, not_not, exists_prop]

theorem changes_literal_iff :
    literal.Changes value ↔ Text.contains Escaping.literalClose value = true := by
  have hbody : literal.Changes value ↔ Escaping.splitClose value ≠ value := by
    show Escaping.literalOpen ++ Escaping.splitClose value ++ Escaping.literalClose ≠
      Escaping.literalOpen ++ value ++ Escaping.literalClose ↔ _
    rw [ne_eq, List.append_left_inj, List.append_right_inj]
  rw [hbody, ne_eq, Escaping.splitClose_eq_self_iff, Bool.not_eq_false]

end Slot

/-! ### Parts of a document -/

/-- A text written with escaping and without it: it does not get shorter, and it is the same exactly
where `kept`. -/
structure Grows (plain escaped : List Char) (kept : Prop) : Prop where
  length_le : plain.length ≤ escaped.length
  eq_iff : escaped = plain ↔ kept

namespace Grows

variable {plain escaped plain' escaped' : List Char} {kept kept' : Prop}

theorem refl (s : List Char) : Grows s s True :=
  ⟨Nat.le_refl _, iff_of_true rfl trivial⟩

theorem of_iff (h : Grows plain escaped kept) (hkept : kept ↔ kept') : Grows plain escaped kept' :=
  ⟨h.length_le, h.eq_iff.trans hkept⟩

theorem value (slot : Slot) (s : List Char) :
    Grows (slot.write .verbatim s) (slot.write .markup s) (¬slot.Changes s) :=
  ⟨slot.length_write_le s, not_not.symm⟩

theorem append (h : Grows plain escaped kept) (h' : Grows plain' escaped' kept') :
    Grows (plain ++ plain') (escaped ++ escaped') (kept ∧ kept') where
  length_le := by
    rw [List.length_append, List.length_append]
    exact Nat.add_le_add h.length_le h'.length_le
  eq_iff := by
    rw [← h.eq_iff, ← h'.eq_iff]
    constructor
    · intro heq
      have hlength := congrArg List.length heq
      rw [List.length_append, List.length_append] at hlength
      have hfront := h.length_le
      have hback := h'.length_le
      exact List.append_inj heq (by omega)
    · rintro ⟨rfl, rfl⟩
      rfl

theorem append_left (s : List Char) (h : Grows plain escaped kept) :
    Grows (s ++ plain) (s ++ escaped) kept :=
  ((refl s).append h).of_iff (iff_of_eq (true_and kept))

theorem append_right (h : Grows plain escaped kept) (s : List Char) :
    Grows (plain ++ s) (escaped ++ s) kept :=
  (h.append (refl s)).of_iff (iff_of_eq (and_true kept))

theorem flatMap {α : Type} {items : List α} {plain escaped : α → List Char} {kept : α → Prop}
    (h : ∀ item, Grows (plain item) (escaped item) (kept item)) :
    Grows (items.flatMap plain) (items.flatMap escaped) (∀ item ∈ items, kept item) := by
  induction items with
  | nil => exact (refl []).of_iff (by simp)
  | cons item items ih =>
    rw [List.flatMap_cons, List.flatMap_cons]
    exact ((h item).append ih).of_iff List.forall_mem_cons.symm

end Grows

namespace Markup

abbrev Held := Slot × String

/-- Whether a value is written alike with and without escaping. -/
def Held.Kept (held : Held) : Prop :=
  ¬held.1.Changes held.2.toList

instance (held : Held) : Decidable held.Kept :=
  inferInstanceAs (Decidable (¬Slot.Changes _ _))

def Attributes.held (attributes : Attributes) : List Held :=
  attributes.map fun named => (.quoted, named.2)

def Leaf.held : Leaf → List Held
  | .text _ attributes value => Attributes.held attributes ++ [(.text, value)]
  | .literal _ value => [(.literal, value)]
  | .empty _ attributes => Attributes.held attributes

namespace Node

mutual

def held : Node → List Held
  | .leaf row => row.held
  | .element _ attributes content => Attributes.held attributes ++ allHeld content

def allHeld : List Node → List Held
  | [] => []
  | node :: nodes => held node ++ allHeld nodes

end

def Kept (node : Node) : Prop :=
  ∀ held ∈ node.held, held.Kept

theorem kept_text {tag : String} {attributes : Attributes} {value : String} :
    (Node.leaf (.text tag attributes value)).Kept ↔
      (∀ named ∈ attributes, Held.Kept (.quoted, named.2)) ∧ Held.Kept (.text, value) := by
  rw [Kept, held, Leaf.held, List.forall_mem_append, Attributes.held, List.forall_mem_map,
    List.forall_mem_singleton]

theorem kept_literal {tag value : String} :
    (Node.leaf (.literal tag value)).Kept ↔ Held.Kept (.literal, value) :=
  List.forall_mem_singleton

theorem kept_empty {tag : String} {attributes : Attributes} :
    (Node.leaf (.empty tag attributes)).Kept ↔ ∀ named ∈ attributes, Held.Kept (.quoted, named.2) :=
  List.forall_mem_map

theorem allKept_iff {nodes : List Node} : (∀ held ∈ allHeld nodes, held.Kept) ↔
    ∀ node ∈ nodes, node.Kept := by
  induction nodes with
  | nil => simp [allHeld]
  | cons node nodes ih => rw [allHeld, List.forall_mem_append, List.forall_mem_cons, ih, Kept]

theorem kept_element {tag : String} {attributes : Attributes} {content : List Node} :
    (Node.element tag attributes content).Kept ↔
      (∀ named ∈ attributes, Held.Kept (.quoted, named.2)) ∧ ∀ node ∈ content, node.Kept := by
  rw [Kept, held, List.forall_mem_append, Attributes.held, List.forall_mem_map, allKept_iff]

end Node

/-! ### Documents -/

variable (indent : Indent)

theorem grows_line (depth : Nat) {plain escaped : List Char} {kept : Prop}
    (h : Grows plain escaped kept) :
    Grows (Style.line ⟨.verbatim, indent⟩ depth plain)
      (Style.line ⟨.markup, indent⟩ depth escaped) kept :=
  (h.append_left (indent.margin depth)).append_right ['\n']

theorem grows_tagHead (tag : String) (attributes : Attributes) :
    Grows (Style.tagHead ⟨.verbatim, indent⟩ tag attributes)
      (Style.tagHead ⟨.markup, indent⟩ tag attributes) (∀ held ∈ attributes.held, held.Kept) := by
  refine (Grows.append_left ('<' :: tag.toList) (Grows.flatMap fun named => ?_)).of_iff
    List.forall_mem_map.symm
  exact ((Grows.value .quoted named.2.toList).append_left _).append_right ['"']

theorem grows_startTag (tag : String) (attributes : Attributes) :
    Grows (Style.startTag ⟨.verbatim, indent⟩ tag attributes)
      (Style.startTag ⟨.markup, indent⟩ tag attributes) (∀ held ∈ attributes.held, held.Kept) :=
  (grows_tagHead indent tag attributes).append_right ['>']

theorem grows_leaf (row : Leaf) :
    Grows (Style.leaf ⟨.verbatim, indent⟩ row) (Style.leaf ⟨.markup, indent⟩ row)
      (∀ held ∈ row.held, held.Kept) := by
  cases row with
  | text tag attributes value =>
    rw [Leaf.held, List.forall_mem_append, List.forall_mem_singleton]
    exact ((grows_startTag indent tag attributes).append
      (Grows.value .text value.toList)).append_right _
  | literal tag value =>
    rw [Leaf.held, List.forall_mem_singleton]
    exact ((Grows.value .literal value.toList).append_left _).append_right _
  | empty tag attributes => exact (grows_tagHead indent tag attributes).append_right _

namespace Node

mutual

theorem grows_render (depth : Nat) (node : Node) :
    Grows (node.render ⟨.verbatim, indent⟩ depth) (node.render ⟨.markup, indent⟩ depth)
      (∀ held ∈ node.held, held.Kept) := by
  cases node with
  | leaf row => exact grows_line indent depth (grows_leaf indent row)
  | element tag attributes content =>
    rw [held, List.forall_mem_append]
    exact ((grows_line indent depth (grows_startTag indent tag attributes)).append
      (grows_renderAll (depth + 1) content)).append_right _

theorem grows_renderAll (depth : Nat) (nodes : List Node) :
    Grows (renderAll ⟨.verbatim, indent⟩ depth nodes) (renderAll ⟨.markup, indent⟩ depth nodes)
      (∀ held ∈ allHeld nodes, held.Kept) := by
  cases nodes with
  | nil => exact (Grows.refl []).of_iff (by simp [allHeld])
  | cons node nodes =>
    rw [allHeld, List.forall_mem_append]
    exact (grows_render depth node).append (grows_renderAll depth nodes)

end

/-- A node is written alike with and without escaping exactly where all its values are. -/
theorem render_eq_iff (depth : Nat) (node : Node) :
    node.render ⟨.markup, indent⟩ depth = node.render ⟨.verbatim, indent⟩ depth ↔ node.Kept :=
  (grows_render indent depth node).eq_iff

end Node

end Markup

end Datamodel
