import Datamodel.Text.Space
import Mathlib.Data.List.DropRight

/-!
# White space around a text

What is removed at the ends of a text is white space. So white space can be put around a text, or a
part of the white space around it removed, and the trimmed text is the same.
-/

namespace Datamodel.Text

theorem exists_padding (p : Char → Bool) (s : List Char) :
    ∃ front back, s = front ++ dropEndWhile p (s.dropWhile p) ++ back ∧ (∀ c ∈ front, p c = true) ∧
      ∀ c ∈ back, p c = true := by
  refine ⟨s.takeWhile p, (s.dropWhile p).rtakeWhile p, ?_, ?_, ?_⟩
  · have hend : dropEndWhile p (s.dropWhile p) ++ (s.dropWhile p).rtakeWhile p = s.dropWhile p :=
      List.rdropWhile_append_rtakeWhile
    rw [List.append_assoc, hend, List.takeWhile_append_dropWhile]
  · exact fun c hc => List.mem_takeWhile_imp hc
  · exact fun c hc => List.mem_rtakeWhile_imp hc

theorem dropEndWhile_append {p : Char → Bool} (s : List Char) {back : List Char}
    (h : ∀ c ∈ back, p c = true) : dropEndWhile p (s ++ back) = dropEndWhile p s := by
  rw [dropEndWhile, dropEndWhile, List.reverse_append, List.dropWhile_append_of_pos]
  exact fun c hc => h c (List.mem_reverse.1 hc)

theorem trim_padded {front back : List Char} (hfront : ∀ c ∈ front, isSpace c = true)
    (hback : ∀ c ∈ back, isSpace c = true) (s : List Char) :
    trim (front ++ s ++ back) = trim s := by
  rw [trim, List.append_assoc, List.dropWhile_append_of_pos hfront, List.dropWhile_append, trim]
  split
  · rename_i hspaces
    rw [List.isEmpty_iff.1 hspaces, List.dropWhile_eq_nil_iff.2 hback]
  · exact dropEndWhile_append _ hback

theorem trim_eq_nil_iff {s : List Char} : trim s = [] ↔ ∀ c ∈ s, isSpace c = true := by
  constructor
  · intro h
    obtain ⟨front, back, hs, hfront, hback⟩ := exists_padding isSpace s
    have hnothing : dropEndWhile isSpace (s.dropWhile isSpace) = [] := h
    rw [hs, hnothing, List.append_nil, List.forall_mem_append]
    exact ⟨hfront, hback⟩
  · intro h
    rw [trim, List.dropWhile_eq_nil_iff.2 h]
    rfl

end Datamodel.Text
