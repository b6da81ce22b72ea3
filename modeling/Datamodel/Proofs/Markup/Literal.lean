import Datamodel.Markup.Escaping

/-!
# Literal blocks cannot be closed early

A value with closing marks in it is written as several literal blocks. The bodies of those blocks
put together are the value, and none of them holds the closing mark, so each block ends at the first
closing mark after its opening. A bracket at the end of a body does no harm: the mark ends with an
angle bracket, which no bracket of the body can supply.
-/

namespace Datamodel.Text

theorem contains_cons (part : List Char) (c : Char) (s : List Char) :
    contains part (c :: s) = (part.isPrefixOf (c :: s) || contains part s) := by
  rw [contains, contains, cutAt]
  split
  · simp_all
  · simp_all

end Datamodel.Text

namespace Datamodel.Escaping

theorem literalClose_eq : literalClose = [']', ']', '>'] :=
  rfl

theorem literalOpen_eq : literalOpen = ['<', '!', '[', 'C', 'D', 'A', 'T', 'A', '['] :=
  rfl

/-- The bodies of the literal blocks that a value is written as: the first one and the others. -/
def sections : List Char → List Char × List (List Char)
  | ']' :: ']' :: '>' :: s => ([']', ']'], ('>' :: (sections s).1) :: (sections s).2)
  | c :: s => (c :: (sections s).1, (sections s).2)
  | [] => ([], [])

def block (body : List Char) : List Char :=
  literalOpen ++ body ++ literalClose

theorem splitClose_eq_sections (value : List Char) :
    splitClose value =
      (sections value).1 ++ (sections value).2.flatMap fun body => literalClose ++ literalOpen ++
        body := by
  fun_induction splitClose value with
  | case1 s ih => simp [sections, ih]
  | case2 c s hne ih => rw [sections, ih, List.cons_append]; exact hne
  | case3 => rfl

/-- A literal block of a value is the blocks of its sections, one right after the other. -/
theorem inLiteral_eq_blocks (value : List Char) :
    Escaping.markup.inLiteral value = ((sections value).1 :: (sections value).2).flatMap block := by
  have hjoin : ∀ (first : List Char) (others : List (List Char)),
      literalOpen ++ (first ++ others.flatMap fun body => literalClose ++ literalOpen ++ body) ++
        literalClose = (first :: others).flatMap block := by
    intro first others
    induction others generalizing first with
    | nil => simp [block]
    | cons body others ih =>
      change _ = block first ++ (body :: others).flatMap block
      rw [← ih body]
      simp [block]
  rw [inLiteral, literalBody, splitClose_eq_sections, hjoin]

/-- The sections of a value make up the value. -/
theorem flatten_sections (value : List Char) :
    (sections value).1 ++ (sections value).2.flatten = value := by
  fun_induction sections value with
  | case1 s ih => simp [ih]
  | case2 c s _ ih => simp [ih]
  | case3 => rfl

theorem sections_isPrefix (value : List Char) : (sections value).1 <+: value :=
  ⟨_, flatten_sections value⟩

theorem not_contains_sections (value : List Char) :
    ∀ body ∈ (sections value).1 :: (sections value).2, Text.contains literalClose body = false := by
  fun_induction sections value with
  | case1 s ih =>
    intro body hbody
    simp only [List.mem_cons] at hbody
    obtain rfl | rfl | hrest := hbody
    · decide
    · rw [Text.contains_cons, ih _ List.mem_cons_self]
      rfl
    · exact ih body (List.mem_cons_of_mem _ hrest)
  | case2 c s hne ih =>
    intro body hbody
    rw [List.mem_cons] at hbody
    obtain rfl | hrest := hbody
    · rw [Text.contains_cons, ih _ List.mem_cons_self, Bool.or_false, Bool.eq_false_iff]
      intro hmark
      obtain ⟨rest, hrest⟩ := (List.isPrefixOf_iff_prefix.1 hmark).trans
        (List.cons_prefix_cons.2 ⟨rfl, sections_isPrefix s⟩)
      rw [literalClose_eq] at hrest
      obtain ⟨rfl, rfl⟩ := List.cons.inj hrest
      exact hne rest rfl rfl
    · exact ih body (List.mem_cons_of_mem _ hrest)
  | case3 => simp [Text.contains, Text.cutAt, literalClose]

/-- A body without the closing mark is cut off at the mark written after it. -/
theorem cutAt_literalClose {body : List Char} (h : Text.contains literalClose body = false)
    (rest : List Char) :
    Text.cutAt literalClose (body ++ (literalClose ++ rest)) = some (body, rest) := by
  induction body with
  | nil => rfl
  | cons c body ih =>
    rw [Text.contains_cons, Bool.or_eq_false_iff] at h
    have hmark : literalClose.isPrefixOf (c :: (body ++ (literalClose ++ rest))) = false := by
      rcases body with _ | ⟨d, _ | ⟨e, body⟩⟩
      · simp [literalClose_eq, List.isPrefixOf]
      · simp [literalClose_eq, List.isPrefixOf]
      · simpa [literalClose_eq, List.isPrefixOf] using h.1
    rw [List.cons_append, Text.cutAt, if_neg (by simp [hmark]), ih h.2]
    rfl

/-- A value without the closing mark is written as one block that holds it. -/
theorem sections_of_not_contains {value : List Char}
    (h : Text.contains literalClose value = false) : sections value = (value, []) := by
  induction value with
  | nil => rfl
  | cons c value ih =>
    rw [Text.contains_cons, Bool.or_eq_false_iff] at h
    rw [sections, ih h.2]
    rintro rest rfl rfl
    exact absurd h.1 (by simp [literalClose_eq, List.isPrefixOf])

/-- Where a code is carried, it is written as under escaping. -/
theorem inLiteral_eq_markup {escaping : Escaping} {value : List Char}
    (h : escaping = .markup ∨ Text.contains literalClose value = false) :
    escaping.inLiteral value = Escaping.markup.inLiteral value := by
  obtain rfl | hnone := h
  · rfl
  · have hwhole : splitClose value = value := by
      rw [splitClose_eq_sections, sections_of_not_contains hnone, List.flatMap_nil, List.append_nil]
    cases escaping with
    | markup => rfl
    | verbatim => rw [inLiteral, inLiteral, literalBody, literalBody, hwhole]

end Datamodel.Escaping
