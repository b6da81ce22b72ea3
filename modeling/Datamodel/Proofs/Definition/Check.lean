import Datamodel.Definition.Error
import Mathlib.Data.List.Basic
import Mathlib.Tactic.Tauto

/-!
# Checks in order

What something has to comply with can be given as a list of checks, each with the error about it.
The first check that does not hold is the one that is reported. A function that checks something
decides its part of such a list, and parts are put together where functions are run one after the
other, so that nothing has to be said about the order in which a whole program checks but what its
list says.
-/

namespace Datamodel

/-- A thing to comply with, and the error where it is not. -/
structure Check where
  Holds : Prop
  error : DefinitionError

def FirstViolated (checks : List Check) (error : DefinitionError) : Prop :=
  ∃ before check after, checks = before ++ check :: after ∧ (∀ earlier ∈ before, earlier.Holds) ∧
    ¬check.Holds ∧ check.error = error

/-- Whether an outcome is what checks lead to: a result where all hold, or else the first error. -/
structure Decides {α : Type} (checks : List Check) (outcome : Except DefinitionError α)
    (result : α) : Prop where
  accepts : (∀ check ∈ checks, check.Holds) → outcome = .ok result
  refuses : ∀ error, FirstViolated checks error → outcome = .error error

variable {check : Check} {checks front back : List Check} {error : DefinitionError}

theorem not_firstViolated_nil : ¬FirstViolated [] error := by
  rintro ⟨before, check, after, hsplit, -⟩
  cases before <;> contradiction

theorem firstViolated_cons :
    FirstViolated (check :: checks) error ↔
      ¬check.Holds ∧ check.error = error ∨ check.Holds ∧ FirstViolated checks error := by
  constructor
  · rintro ⟨before, violated, after, hsplit, hbefore, hviolated, herror⟩
    cases before with
    | nil =>
      obtain ⟨rfl, rfl⟩ := List.cons.inj hsplit
      exact .inl ⟨hviolated, herror⟩
    | cons first before =>
      obtain ⟨rfl, rfl⟩ := List.cons.inj hsplit
      rw [List.forall_mem_cons] at hbefore
      exact .inr ⟨hbefore.1, before, violated, after, rfl, hbefore.2, hviolated, herror⟩
  · rintro (⟨hviolated, herror⟩ | ⟨hholds, before, violated, after, rfl, hbefore,
      hviolated, herror⟩)
    · exact ⟨[], check, checks, rfl, by simp, hviolated, herror⟩
    · exact ⟨check :: before, violated, after, rfl, List.forall_mem_cons.2 ⟨hholds, hbefore⟩,
        hviolated, herror⟩

theorem firstViolated_append :
    FirstViolated (front ++ back) error ↔
      FirstViolated front error ∨ (∀ check ∈ front, check.Holds) ∧ FirstViolated back error := by
  induction front with
  | nil => simp [not_firstViolated_nil]
  | cons first front ih =>
    rw [List.cons_append, firstViolated_cons, firstViolated_cons, ih, List.forall_mem_cons]
    tauto

theorem holds_or_firstViolated (checks : List Check) :
    (∀ check ∈ checks, check.Holds) ∨ ∃ error, FirstViolated checks error := by
  induction checks with
  | nil => exact .inl (by simp)
  | cons check checks ih =>
    by_cases h : check.Holds
    · rcases ih with hall | ⟨error, herror⟩
      · exact .inl (List.forall_mem_cons.2 ⟨h, hall⟩)
      · exact .inr ⟨error, firstViolated_cons.2 (.inr ⟨h, herror⟩)⟩
    · exact .inr ⟨check.error, firstViolated_cons.2 (.inl ⟨h, rfl⟩)⟩

namespace Decides

variable {α β : Type} {outcome : Except DefinitionError α} {result : α}

theorem ok_iff (h : Decides checks outcome result) :
    outcome = .ok result ↔ ∀ check ∈ checks, check.Holds := by
  refine ⟨fun hok => ?_, h.accepts⟩
  rcases holds_or_firstViolated checks with hall | ⟨error, herror⟩
  · exact hall
  · rw [h.refuses error herror] at hok
    contradiction

theorem error_iff (h : Decides checks outcome result) :
    outcome = .error error ↔ FirstViolated checks error := by
  refine ⟨fun hrefused => ?_, h.refuses error⟩
  rcases holds_or_firstViolated checks with hall | ⟨first, hfirst⟩
  · rw [h.accepts hall] at hrefused
    contradiction
  · rw [h.refuses first hfirst] at hrefused
    rwa [← Except.error.inj hrefused]

theorem eq_of_ok (h : Decides checks outcome result) {other : α} (hok : outcome = .ok other) :
    other = result := by
  rcases holds_or_firstViolated checks with hall | ⟨error, herror⟩
  · rw [h.accepts hall] at hok
    exact (Except.ok.inj hok).symm
  · rw [h.refuses error herror] at hok
    contradiction

theorem pure (result : α) : Decides [] (.ok result) result where
  accepts _ := rfl
  refuses _ h := (not_firstViolated_nil h).elim

/-- What is run after a check has the checks that come after it. -/
theorem bind (h : Decides front outcome result) {next : α → Except DefinitionError β} {last : β}
    (hnext : Decides back (next result) last) :
    Decides (front ++ back) (outcome >>= next) last where
  accepts hall := by
    rw [List.forall_mem_append] at hall
    rw [h.accepts hall.1]
    exact hnext.accepts hall.2
  refuses error herror := by
    rcases firstViolated_append.1 herror with hfirst | ⟨hall, hback⟩
    · rw [h.refuses error hfirst]
      rfl
    · rw [h.accepts hall]
      exact hnext.refuses error hback

/-- A branch with an error is a check. -/
theorem ite {condition : Prop} [Decidable condition] (hcheck : condition ↔ ¬check.Holds)
    (h : Decides checks outcome result) :
    Decides (check :: checks) (if condition then .error check.error else outcome) result where
  accepts hall := by
    rw [List.forall_mem_cons] at hall
    rw [if_neg fun hcondition => hcheck.1 hcondition hall.1]
    exact h.accepts hall.2
  refuses error herror := by
    rcases firstViolated_cons.1 herror with ⟨hviolated, rfl⟩ | ⟨hholds, hrest⟩
    · rw [if_pos (hcheck.2 hviolated)]
    · rw [if_neg fun hcondition => hcheck.1 hcondition hholds]
      exact h.refuses error hrest

end Decides

end Datamodel
