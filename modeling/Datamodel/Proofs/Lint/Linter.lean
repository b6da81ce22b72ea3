import Datamodel.Lint.Linter

/-!
# What the linter reports

A report orders the issues of its lints by severity and keeps all of them. Each lint has issues of
its own.
-/

namespace Datamodel

variable {definition : ClassDefinition} {escaping : Escaping} {lint : Lint} {issue : Issue}

theorem Lint.mem_run {lints : List Lint} :
    issue ∈ Lint.run lints escaping definition ↔
    ∃ lint ∈ lints, issue ∈ lint.issues escaping definition := by
  simp only [Lint.run, List.mem_append, List.mem_filter, List.mem_flatMap, beq_iff_eq,
    ← and_or_left]
  refine and_iff_left_iff_imp.2 fun _ => ?_
  cases issue.severity with
  | error => exact .inl (.inl rfl)
  | warning => exact .inl (.inr rfl)
  | info => exact .inr rfl

theorem Lint.mem_standard (lint : Lint) : lint ∈ Lint.standard := by
  cases lint
  all_goals decide

theorem ClassDefinition.mem_lint :
    issue ∈ definition.lint escaping ↔ ∃ lint : Lint, issue ∈ lint.issues escaping definition := by
  rw [lint, Lint.mem_run]
  simp only [Lint.mem_standard, true_and]

/-! ### The issues of a lint -/

theorem State.lint_of_mem_issues {state : State} (h : issue ∈ state.issues) :
    issue.lint = .lifecycle := by
  obtain ⟨flag, -, rfl⟩ := List.mem_map.1 h
  rfl

theorem Lifecycle.lint_of_mem_targetIssues {lifecycle : Lifecycle}
    (h : issue ∈ lifecycle.targetIssues) : issue.lint = .lifecycle := by
  obtain ⟨transition, -, rfl⟩ := List.mem_map.1 h
  rfl

theorem Field.lint_of_mem_valueIssues {field : Field} {values : List String}
    (h : issue ∈ field.valueIssues values) : issue.lint = .fields := by
  rcases List.mem_append.1 h with h | h
  · obtain ⟨entry, -, rfl⟩ := List.mem_map.1 h
    rfl
  · obtain rfl := List.mem_singleton.1 (List.mem_ite_nil_left.1 h).2
    rfl

theorem Field.lint_of_mem_issues {field : Field} (h : issue ∈ field.issues) :
    issue.lint = .fields := by
  rw [Field.issues] at h
  split at h
  · split at h
    · obtain rfl := List.mem_singleton.1 h
      rfl
    · exact lint_of_mem_valueIssues h
  · obtain rfl := List.mem_singleton.1 (List.mem_ite_nil_right.1 h).2
    rfl
  · contradiction

namespace ClassDefinition

theorem lint_of_mem_lifecycleIssues (h : issue ∈ definition.lifecycleIssues) :
    issue.lint = .lifecycle := by
  rw [lifecycleIssues] at h
  split at h
  · contradiction
  · split at h
    · rcases List.mem_append.1 h with h | h
      · rcases List.mem_append.1 h with h | h
        · obtain rfl := List.mem_singleton.1 (List.mem_ite_nil_left.1 h).2
          rfl
        · obtain ⟨state, -, hissue⟩ := List.mem_flatMap.1 h
          exact state.lint_of_mem_issues hissue
      · exact Lifecycle.lint_of_mem_targetIssues h
    · obtain rfl := List.mem_singleton.1 (List.mem_ite_nil_left.1 h).2
      rfl

theorem lint_of_mem_menuIssues (h : issue ∈ definition.menuIssues) : issue.lint = .menu := by
  rw [menuIssues] at h
  split at h
  · contradiction
  · split at h
    · obtain rfl := List.mem_singleton.1 (List.mem_ite_nil_right.1 h).2
      rfl
    · obtain rfl := List.mem_singleton.1 (List.mem_ite_nil_left.1 h).2
      rfl

theorem lint_of_mem_markupIssues (h : issue ∈ definition.markupIssues escaping) :
    issue.lint = .markup := by
  rcases List.mem_append.1 h with h | h
  · obtain ⟨located, -, rfl⟩ := List.mem_map.1 h
    rfl
  · obtain ⟨method, -, rfl⟩ := List.mem_map.1 h
    rfl

end ClassDefinition

theorem Lint.lint_of_mem_issues (h : issue ∈ lint.issues escaping definition) :
    issue.lint = lint := by
  cases lint with
  | lifecycle => exact ClassDefinition.lint_of_mem_lifecycleIssues h
  | fields =>
    obtain ⟨field, -, hissue⟩ := List.mem_flatMap.1 h
    exact Field.lint_of_mem_issues hissue
  | menu => exact ClassDefinition.lint_of_mem_menuIssues h
  | markup => exact ClassDefinition.lint_of_mem_markupIssues h

end Datamodel
