import Datamodel.Bundle.Descriptor
import Mathlib.Data.List.TakeWhile

/-!
# Marks and patterns

A pattern is a row of parts: marks, which stand as they are, and runs of characters of one class. A
run does not fix its length. What is tried first is the shortest run or the longest, and whenever
the parts behind it cannot be matched, the next length is tried. So the ways to match a pattern at
the front of a text come in an order, and the match that counts is the first way at the first place
of the text where there is one.

Two parts can be told without trying. A long run in front of a mark that cannot begin inside it
takes all the characters of its class, and the ways with a short run are those without it and,
behind these, those in which the run goes on.
-/

namespace Datamodel.Text

/-! ### Marks -/

theorem afterMark?_append (mark s : List Char) : afterMark? mark (mark ++ s) = some s := by
  rw [afterMark?, if_pos (List.isPrefixOf_iff_prefix.2 (List.prefix_append mark s)), List.drop_left]

theorem afterMark?_eq_some_iff {mark s rest : List Char} :
    afterMark? mark s = some rest ↔ s = mark ++ rest := by
  constructor
  · intro h
    rw [afterMark?] at h
    split at h
    · rename_i hmark
      obtain ⟨back, rfl⟩ := List.isPrefixOf_iff_prefix.1 hmark
      rw [List.drop_left] at h
      rw [Option.some.inj h]
    · contradiction
  · rintro rfl
    exact afterMark?_append mark rest

/-- A mark behind a run, if it does not begin inside the run. -/
theorem afterMark?_dropWhile_eq_some_iff {p : Char → Bool} {m : Char} (hm : p m = false)
    {text s rest : List Char} :
    afterMark? (m :: text) (s.dropWhile p) = some rest ↔
      ∃ run, (∀ c ∈ run, p c = true) ∧ s = run ++ m :: text ++ rest := by
  rw [afterMark?_eq_some_iff]
  constructor
  · intro h
    refine ⟨s.takeWhile p, fun c hc => List.mem_takeWhile_imp hc, ?_⟩
    rw [List.append_assoc, ← h, List.takeWhile_append_dropWhile]
  · rintro ⟨run, hrun, rfl⟩
    rw [List.append_assoc, List.dropWhile_append_of_pos hrun, List.cons_append,
      List.dropWhile_cons_of_neg (by rw [hm]; exact Bool.false_ne_true)]

theorem cutAt_cons (mark : List Char) (c : Char) (s : List Char) :
    cutAt mark (c :: s) = ((afterMark? mark (c :: s)).map fun rest => ([], rest)).or
      ((cutAt mark s).map fun cut => (c :: cut.1, cut.2)) := by
  rw [cutAt, afterMark?]
  split
  · rfl
  · rfl

theorem exists_cutAt (mark front back : List Char) :
    ∃ cut, cutAt mark (front ++ mark ++ back) = some cut ∧ cut.1.length ≤ front.length := by
  induction front with
  | nil =>
    rw [List.nil_append]
    cases hs : mark ++ back with
    | nil =>
      obtain ⟨rfl, -⟩ := List.append_eq_nil_iff.1 hs
      exact ⟨([], []), rfl, Nat.zero_le _⟩
    | cons c s =>
      rw [cutAt_cons, ← hs, afterMark?_append]
      exact ⟨([], back), rfl, Nat.zero_le _⟩
  | cons c front ih =>
    obtain ⟨cut, hcut, hlength⟩ := ih
    rw [List.cons_append, List.cons_append, cutAt_cons, hcut]
    cases afterMark? mark (c :: (front ++ mark ++ back)) with
    | none => exact ⟨(c :: cut.1, cut.2), rfl, Nat.succ_le_succ hlength⟩
    | some rest => exact ⟨([], rest), rfl, Nat.zero_le _⟩

/-- A text is cut at the first occurrence of the mark. -/
theorem cutAt_eq_some_iff {mark s before after : List Char} :
    cutAt mark s = some (before, after) ↔
      s = before ++ mark ++ after ∧ ∀ front back, s = front ++ mark ++ back →
      before.length ≤ front.length := by
  constructor
  · intro h
    refine ⟨eq_append_of_cutAt h, ?_⟩
    rintro front back rfl
    obtain ⟨cut, hcut, hlength⟩ := exists_cutAt mark front back
    rw [h] at hcut
    rwa [← Option.some.inj hcut] at hlength
  · rintro ⟨rfl, hfirst⟩
    obtain ⟨cut, hcut, hlength⟩ := exists_cutAt mark before after
    have hsame := eq_append_of_cutAt hcut
    have hback := hfirst cut.1 cut.2 hsame
    rw [List.append_assoc, List.append_assoc] at hsame
    obtain ⟨hbefore, hafter⟩ := List.append_inj hsame (Nat.le_antisymm hback hlength)
    rw [hcut, hbefore, List.append_cancel_left hafter]

/-! ### Patterns -/

/-- A part of a pattern: a mark, or a run of characters of a class. -/
inductive Part where
  | mark (text : List Char)
  | longRun (p : Char → Bool)
  | shortRun (p : Char → Bool)
  /-- A short run that is given back. -/
  | capture (p : Char → Bool)

/-- The runs of a class at the front of a text with what follows them, the shortest first. -/
def runs (p : Char → Bool) : List Char → List (List Char × List Char)
  | [] => [([], [])]
  | c :: s => ([], c :: s) :: if p c then (runs p s).map fun run => (c :: run.1, run.2) else []

/-- What is captured in each way to match parts at the front of a text, the way that is tried first
in front. -/
def ways : List Part → List Char → List (List (List Char))
  | [], _ => [[]]
  | .mark text :: parts, s => (afterMark? text s).toList.flatMap (ways parts)
  | .longRun p :: parts, s => (runs p s).reverse.flatMap fun run => ways parts run.2
  | .shortRun p :: parts, s => (runs p s).flatMap fun run => ways parts run.2
  | .capture p :: parts, s => (runs p s).flatMap fun run => (ways parts run.2).map (run.1 :: ·)

/-- What the match in a text captures: that of the first way at the first place where there is
one. -/
def captures? (parts : List Part) : List Char → Option (List (List Char))
  | [] => (ways parts []).head?
  | c :: s => (ways parts (c :: s)).head?.or (captures? parts s)

variable (p : Char → Bool) (parts : List Part)

theorem head?_ways_mark (text s : List Char) :
    (ways (.mark text :: parts) s).head? = (afterMark? text s).bind fun rest =>
      (ways parts rest).head? := by
  rw [ways]
  cases afterMark? text s with
  | none => rfl
  | some rest => rw [Option.toList_some, List.flatMap_singleton, Option.bind_some]

theorem head?_ways_shortRun (c : Char) (s : List Char) :
    (ways (.shortRun p :: parts) (c :: s)).head? =
      (ways parts (c :: s)).head?.or (if p c then (ways (.shortRun p :: parts) s).head?
        else none) := by
  rw [ways, runs, List.flatMap_cons, List.head?_append]
  congr 1
  split
  · rw [List.flatMap_map, ways]
  · rfl

theorem head?_ways_capture (c : Char) (s : List Char) :
    (ways (.capture p :: parts) (c :: s)).head? =
      ((ways parts (c :: s)).head?.map ([] :: ·)).or
        (if p c then (ways (.capture p :: parts) s).head?.map (List.modifyHead (c :: ·))
          else none) := by
  have hlonger (run : List Char × List Char) : (ways parts run.2).map ((c :: run.1) :: ·) =
      ((ways parts run.2).map (run.1 :: ·)).map (List.modifyHead (c :: ·)) := by
    rw [List.map_map]
    rfl
  rw [ways, runs, List.flatMap_cons, List.head?_append, List.head?_map]
  congr 1
  split
  · rw [List.flatMap_map, ways, ← List.head?_map, List.map_flatMap]
    simp only [hlonger]
  · rfl

theorem ways_longRun (s : List Char) :
    ways (.longRun p :: parts) s = (runs p s).reverse.flatMap fun run => ways parts run.2 := by
  rw [ways]

/-- A long run in front of a mark ends where its class does, if the mark does not begin inside the
class. -/
theorem ways_longRun_mark {p : Char → Bool} {m : Char} (hm : p m = false) (text : List Char)
    (parts : List Part) (s : List Char) :
    ways (.longRun p :: .mark (m :: text) :: parts) s =
      ways (.mark (m :: text) :: parts) (s.dropWhile p) := by
  induction s with
  | nil => rw [ways_longRun, runs, List.reverse_singleton, List.flatMap_singleton,
    List.dropWhile_nil]
  | cons c s ih =>
    by_cases hc : p c = true
    · have hnot : ways (.mark (m :: text) :: parts) (c :: s) = [] := by
        have hmark : afterMark? (m :: text) (c :: s) = none := by
          rw [Option.eq_none_iff_forall_ne_some]
          intro rest hrest
          obtain ⟨rfl, -⟩ := List.cons.inj (afterMark?_eq_some_iff.1 hrest)
          rw [hm] at hc
          contradiction
        rw [ways, hmark]
        rfl
      rw [ways_longRun, runs, if_pos hc, List.reverse_cons, List.flatMap_append,
        List.flatMap_singleton, hnot, List.append_nil, ← List.map_reverse, List.flatMap_map,
        List.dropWhile_cons_of_pos hc, ← ih, ways_longRun]
    · rw [ways_longRun, runs, if_neg hc, List.reverse_singleton, List.flatMap_singleton,
        List.dropWhile_cons_of_neg hc]

end Datamodel.Text
