/-!
# Text as characters

Formats are read and written as lists of characters, and places in a source are counted in bytes of
its UTF-8 form. This module holds the byte measure and the cuts that every reader shares: a cut at
the first occurrence of a mark, and runs of characters of one class. Their lemmas say that a cut
loses nothing, which is what makes a reader's remaining input shorter.
-/

namespace Datamodel.Text

/-- The number of bytes of a text in UTF-8. -/
def size : List Char → Nat
  | [] => 0
  | c :: s => c.utf8Size + size s

@[simp] theorem size_nil : size [] = 0 := rfl

@[simp] theorem size_cons (c : Char) (s : List Char) : size (c :: s) = c.utf8Size + size s := rfl

@[simp] theorem size_append (s t : List Char) : size (s ++ t) = size s + size t := by
  induction s with
  | nil => simp
  | cons c s ih => rw [List.cons_append, size_cons, size_cons, ih, Nat.add_assoc]

/-- The text before the first occurrence of `mark` and the text after that occurrence. -/
def cutAt (mark : List Char) : List Char → Option (List Char × List Char)
  | [] => if mark = [] then some ([], []) else none
  | c :: s =>
    if mark.isPrefixOf (c :: s) then
      some ([], (c :: s).drop mark.length)
    else
      (cutAt mark s).map fun cut => (c :: cut.1, cut.2)

/-- A cut splits the text into what stands before the mark, the mark and what follows it. -/
theorem eq_append_of_cutAt {mark s before after : List Char}
    (h : cutAt mark s = some (before, after)) : s = before ++ mark ++ after := by
  induction s generalizing before with
  | nil =>
    rw [cutAt] at h
    split at h <;> simp_all
  | cons c s ih =>
    rw [cutAt] at h
    split at h
    · rename_i hmark
      obtain ⟨rest, hrest⟩ := List.isPrefixOf_iff_prefix.1 hmark
      obtain ⟨rfl, rfl⟩ := Prod.mk.inj (Option.some.inj h)
      rw [← hrest]
      simp
    · obtain ⟨cut, hcut, heq⟩ := Option.map_eq_some_iff.1 h
      obtain ⟨rfl, rfl⟩ := Prod.mk.inj heq
      simp [ih hcut]

theorem length_of_cutAt {mark s before after : List Char}
    (h : cutAt mark s = some (before, after)) : after.length + mark.length ≤ s.length := by
  rw [eq_append_of_cutAt h]
  simp
  omega

def contains (part s : List Char) : Bool :=
  (cutAt part s).isSome

/-- The text with the characters that satisfy `p` removed from its end. -/
def dropEndWhile (p : Char → Bool) (s : List Char) : List Char :=
  (s.reverse.dropWhile p).reverse

theorem length_dropWhile_le (p : Char → Bool) (s : List Char) :
    (s.dropWhile p).length ≤ s.length :=
  (List.dropWhile_suffix p).length_le

/-- The pieces of a text between the occurrences of a separator, at least one. -/
def splitOn (separator : Char) : List Char → List (List Char)
  | [] => [[]]
  | c :: s =>
    if c = separator then
      [] :: splitOn separator s
    else
      match splitOn separator s with
      | [] => [[c]]
      | piece :: pieces => (c :: piece) :: pieces

end Datamodel.Text
