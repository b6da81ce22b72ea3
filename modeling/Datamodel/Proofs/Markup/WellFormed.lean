import Datamodel.Markup.Node
import Datamodel.Proofs.Markup.Escaping

/-!
# Nodes that can be written and read back

A node is well formed where its tags are tags, and where the attributes of one start tag have names
that can stand there and differ from each other. Values are free. Whether a document carries them
unharmed is a matter of the escaping: a node is carried where its texts and attribute values are,
and where no code holds a closing mark that is not split.
-/

namespace Datamodel.Markup

/-- What names are made of. -/
def isTagChar (c : Char) : Bool :=
  c.isAlphanum || c == '_' || c == '-' || c == '.' || c == ':'

/-- Whether a text can be the name of an attribute. -/
def isAttributeName (name : String) : Bool :=
  !name.toList.isEmpty && name.toList.all isTagChar

/-- Names that can stand in one start tag. -/
structure Attributes.WellFormed (attributes : Attributes) : Prop where
  areNames : ∀ named ∈ attributes, isAttributeName named.1 = true
  distinct : (attributes.map (·.1)).Nodup

def Leaf.WellFormed : Leaf → Prop
  | .text tag attributes _ => isTagName tag = true ∧ Attributes.WellFormed attributes
  | .literal tag _ => isTagName tag = true
  | .empty tag attributes => isTagName tag = true ∧ Attributes.WellFormed attributes

instance (attributes : Attributes) : Decidable (Attributes.WellFormed attributes) :=
  decidable_of_iff ((∀ named ∈ attributes, isAttributeName named.1 = true) ∧
    (attributes.map (·.1)).Nodup)
    ⟨fun h => ⟨h.1, h.2⟩, fun h => ⟨h.areNames, h.distinct⟩⟩

instance : (row : Leaf) → Decidable row.WellFormed
  | .text tag attributes _ =>
      inferInstanceAs (Decidable (isTagName tag = true ∧ Attributes.WellFormed attributes))
  | .literal tag _ => inferInstanceAs (Decidable (isTagName tag = true))
  | .empty tag attributes =>
    inferInstanceAs (Decidable (isTagName tag = true ∧ Attributes.WellFormed attributes))

def Attributes.Carried (escaping : Escaping) (attributes : Attributes) : Prop :=
  ∀ named ∈ attributes, escaping.Carries named.2.toList

def Leaf.Carried (escaping : Escaping) : Leaf → Prop
  | .text _ attributes value =>
      Attributes.Carried escaping attributes ∧ escaping.Carries value.toList
  | .literal _ value =>
    escaping = .markup ∨ Text.contains Escaping.literalClose value.toList = false
  | .empty _ attributes => Attributes.Carried escaping attributes

namespace Node

mutual

def WellFormed : Node → Prop
  | .leaf row => row.WellFormed
  | .element tag attributes content =>
    isTagName tag = true ∧ Attributes.WellFormed attributes ∧ AllWellFormed content

def AllWellFormed : List Node → Prop
  | [] => True
  | node :: nodes => WellFormed node ∧ AllWellFormed nodes

end

mutual

def Carried (escaping : Escaping) : Node → Prop
  | .leaf row => row.Carried escaping
  | .element _ attributes content =>
    Attributes.Carried escaping attributes ∧ AllCarried escaping content

def AllCarried (escaping : Escaping) : List Node → Prop
  | [] => True
  | node :: nodes => Carried escaping node ∧ AllCarried escaping nodes

end

theorem allWellFormed_iff {nodes : List Node} :
    AllWellFormed nodes ↔ ∀ node ∈ nodes, node.WellFormed := by
  induction nodes with
  | nil => simp [AllWellFormed]
  | cons node nodes ih => simp [AllWellFormed, ih]

theorem allCarried_iff {escaping : Escaping} {nodes : List Node} :
    AllCarried escaping nodes ↔ ∀ node ∈ nodes, node.Carried escaping := by
  induction nodes with
  | nil => simp [AllCarried]
  | cons node nodes ih => simp [AllCarried, ih]

mutual

/-- Escaping carries every value. -/
theorem carried_markup (node : Node) : node.Carried .markup := by
  cases node with
  | leaf row => cases row <;> simp [Carried, Leaf.Carried, Attributes.Carried, Escaping.Carries]
  | element tag attributes content => exact ⟨fun _ _ => .inl rfl, allCarried_markup content⟩

theorem allCarried_markup (nodes : List Node) : AllCarried .markup nodes := by
  cases nodes with
  | nil => trivial
  | cons node nodes => exact ⟨carried_markup node, allCarried_markup nodes⟩

end

end Node

/-! ### Names -/

/-- Characters that a reader takes for names and for nothing else. -/
def IsName (name : List Char) : Prop :=
  name ≠ [] ∧ ∀ c ∈ name, isTagChar c = true

theorem ne_of_isTagChar {c d : Char} (hc : isTagChar c = true) (hd : isTagChar d = false) :
    c ≠ d := by
  rintro rfl
  rw [hc] at hd
  contradiction

theorem isBlank_of_isTagChar {c : Char} (hc : isTagChar c = true) : Xml.isBlank c = false := by
  have hspace := ne_of_isTagChar (d := ' ') hc rfl
  have htab := ne_of_isTagChar (d := '\t') hc rfl
  have hreturn := ne_of_isTagChar (d := '\r') hc rfl
  have hfeed := ne_of_isTagChar (d := '\n') hc rfl
  simp [Xml.isBlank, hspace, htab, hreturn, hfeed]

theorem isName_of_isTagName {tag : String} (h : isTagName tag = true) : IsName tag.toList := by
  unfold isTagName at h
  split at h
  · contradiction
  · rename_i c s hchars
    rw [hchars]
    simp only [Bool.and_eq_true, List.all_eq_true, Bool.or_eq_true] at h
    refine ⟨List.cons_ne_nil c s, ?_⟩
    intro d hd
    rw [List.mem_cons] at hd
    simp only [isTagChar, Char.isAlphanum, Bool.or_eq_true]
    obtain rfl | hd := hd
    · obtain hletter | hunderscore := h.1
      · exact .inl (.inl (.inl (.inl (.inl hletter))))
      · exact .inl (.inl (.inl (.inr hunderscore)))
    · have hrest := h.2 d hd
      simp only [Char.isAlphanum, Bool.or_eq_true] at hrest
      exact .inl hrest

theorem isName_of_isAttributeName {name : String} (h : isAttributeName name = true) :
    IsName name.toList := by
  rw [isAttributeName, Bool.and_eq_true, List.all_eq_true] at h
  refine ⟨?_, h.2⟩
  intro hempty
  rw [hempty] at h
  simp at h

end Datamodel.Markup
