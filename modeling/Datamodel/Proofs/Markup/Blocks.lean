import Datamodel.Proofs.Markup.Tokens
import Datamodel.Proofs.Text.Pattern

/-!
# Values as rows of literal blocks

What is written for a code is read from its front: an opening mark, a body up to the first closing
mark behind it, and then the next block. There is only one way to read a text so. A code is cut in
the middle of each closing mark in it and nowhere else, so no body holds one, and the bodies
together are the code.
-/

namespace Datamodel.Escaping

/-- A text that is one literal block after the other with nothing between them or behind the last,
and their bodies: each block ends with the first closing mark behind its opening mark. -/
inductive Blocks : List Char → List (List Char) → Prop where
  | nil : Blocks [] []
  | cons {body rest : List Char} {bodies : List (List Char)}
      (first : ∀ front back, body ++ literalClose ++ rest = front ++ literalClose ++ back →
        body.length ≤ front.length)
      (others : Blocks rest bodies) :
      Blocks (literalOpen ++ (body ++ literalClose ++ rest)) (body :: bodies)

/-- Whether a closing mark has its brackets at the end of one text and ends at the front of the next
one. -/
def Halved (body next : List Char) : Prop :=
  [']', ']'] <:+ body ∧ ['>'] <+: next

variable {s : List Char} {bodies others : List (List Char)}

theorem Blocks.unique (h : Blocks s bodies) (h' : Blocks s others) : bodies = others := by
  induction h generalizing others with
  | nil =>
    generalize hs : [] = s at h'
    cases h' with
    | nil => rfl
    | cons => simp [literalOpen_eq] at hs
  | @cons body rest bodies first _ ih =>
    generalize hs : literalOpen ++ (body ++ literalClose ++ rest) = s at h'
    cases h' with
    | nil => simp [literalOpen_eq] at hs
    | @cons other rest' others' first' others =>
      have hbehind := List.append_cancel_left hs
      have hlength := Nat.le_antisymm (first _ _ hbehind) (first' _ _ hbehind.symm)
      rw [List.append_assoc, List.append_assoc] at hbehind
      obtain ⟨rfl, hrest⟩ := List.append_inj hbehind hlength
      obtain rfl := List.append_cancel_left hrest
      rw [ih others]

theorem blocks_flatMap (h : ∀ body ∈ bodies, Text.contains literalClose body = false) :
    Blocks (bodies.flatMap block) bodies := by
  induction bodies with
  | nil => exact .nil
  | cons body bodies ih =>
    rw [List.forall_mem_cons] at h
    have hfirst := (Text.cutAt_eq_some_iff.1 (cutAt_literalClose h.1 (bodies.flatMap block))).2
    rw [← List.append_assoc] at hfirst
    rw [List.flatMap_cons, block, List.append_assoc, List.append_assoc, ← List.append_assoc body]
    exact .cons hfirst (ih h.2)

theorem blocks_inLiteral (value : List Char) :
    Blocks (Escaping.markup.inLiteral value) ((sections value).1 :: (sections value).2) := by
  rw [inLiteral_eq_blocks]
  exact blocks_flatMap (not_contains_sections value)

theorem isChain_halved_cons {body : List Char} (c : Char)
    (h : List.IsChain Halved (body :: bodies)) : List.IsChain Halved ((c :: body) :: bodies) := by
  cases bodies with
  | nil => exact .singleton _
  | cons next bodies =>
    rw [List.isChain_cons_cons] at h ⊢
    exact ⟨⟨h.1.1.trans (List.suffix_cons c body), h.1.2⟩, h.2⟩

/-- A value is cut in the middle of closing marks only. -/
theorem isChain_sections (value : List Char) :
    List.IsChain Halved ((sections value).1 :: (sections value).2) := by
  fun_induction sections value with
  | case1 s ih => exact .cons_cons ⟨List.suffix_rfl, ⟨_, rfl⟩⟩ (isChain_halved_cons '>' ih)
  | case2 c s _ ih => exact isChain_halved_cons c ih
  | case3 => exact .singleton _

/-- What is written for a value as a code is one or more complete literal blocks and nothing else,
in one way only. The bodies put together are the value, which is cut nowhere but in the middle of a
closing mark, and a reader that comes to the blocks finds these bodies and goes on with what
follows. -/
theorem inLiteral_blocks (value : String) :
    ∃ bodies, bodies ≠ [] ∧ Blocks (Escaping.markup.inLiteral value.toList) bodies ∧
      bodies.flatten = value.toList ∧
      (∀ others, Blocks (Escaping.markup.inLiteral value.toList) others → others = bodies) ∧
      List.IsChain Halved bodies ∧
      ∀ opened rest, Xml.streamFrom opened (Escaping.markup.inLiteral value.toList ++ rest) =
        (Xml.streamFrom opened rest).prepend (bodies.map .literal) := by
  have hblocks := blocks_inLiteral value.toList
  refine ⟨_, List.cons_ne_nil _ _, hblocks, flatten_sections value.toList, fun others hothers =>
    hothers.unique hblocks, isChain_sections value.toList, fun opened rest => ?_⟩
  rw [inLiteral_eq_blocks]
  exact Markup.streamFrom_blocks (not_contains_sections value.toList) opened rest

example : sections "]]]]><![CDATA[>".toList = ("]]]]".toList, ["><![CDATA[>".toList]) := by
  decide

end Datamodel.Escaping
