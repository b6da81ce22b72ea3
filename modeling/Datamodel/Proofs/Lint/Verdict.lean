import Datamodel.Command.Running
import Datamodel.Proofs.Definition.Places
import Datamodel.Proofs.Definition.Recovery
import Datamodel.Proofs.Lint.Linter

/-!
# What makes a definition invalid

Three kinds of issues are errors. Two of them tell that the writer leaves something out which the
platform asks for, the target of an external key and a flag of a state, and the third one tells that
a transition leads nowhere. So the errors can be told from the document. They do not depend on the
escaping, and every report keeps all of them.

What stands in a document is said for whatever it is made of: the nodes that are written out, or the
elements that are read from it.
-/

namespace Datamodel

open Markup (Node)
open Xml (Element)

/-! ### Flaws of a document -/

section flaws

-- What a path of names leads to.
variable {α : Type} (inside : List String → α → List α)

/-- Whether an external key is written without its target. -/
def ClassDefinition.LacksTarget (definition : ClassDefinition) (root : α) : Prop :=
  ∃ field part, (field, part) ∈ definition.fields.zip
    (inside ["classes", "class", "fields", "field"] root) ∧
    field.type = .externalKey ∧ inside ["target_class"] part = []

/-- Whether a flag of a state is not written. -/
def Lifecycle.LacksFlag (lifecycle : Lifecycle) (part : α) : Prop :=
  ∃ state inner, (state, inner) ∈ lifecycle.states.zip (inside ["states", "state"] part) ∧
    ∃ flag ∈ state.flags, inside ["flags", flag.1] inner = []

/-- Whether a transition leads to a name that is no state's. -/
def Lifecycle.LeadsNowhere (lifecycle : Lifecycle) : Prop :=
  ∃ transition ∈ lifecycle.transitions, ∀ state ∈ lifecycle.states, state.name ≠ transition.target

/-- Whether a document of a definition is one that the platform refuses. -/
def ClassDefinition.FlawedIn (definition : ClassDefinition) (root : α) : Prop :=
  definition.LacksTarget inside root ∨
    ∃ lifecycle part, definition.lifecycle = some lifecycle ∧
      part ∈ inside ["classes", "class", "lifecycle"] root ∧
      (lifecycle.LacksFlag inside part ∨ lifecycle.LeadsNowhere)

/-- Whether every field and every state has a part of its own in a document. -/
def ClassDefinition.AlignedIn (definition : ClassDefinition) (root : α) : Prop :=
  (inside ["classes", "class", "fields", "field"] root).length = definition.fields.length ∧
    ∀ lifecycle, definition.lifecycle = some lifecycle →
      ∀ part ∈ inside ["classes", "class", "lifecycle"] root,
      (inside ["states", "state"] part).length = lifecycle.states.length

/-- How a document shows the parts of a definition that can be flawed. -/
structure ClassDefinition.LaidOutIn (definition : ClassDefinition) (root : α) (ofField : Field → α)
    (ofLifecycle : Lifecycle → α) (ofState : State → α) : Prop where
  fields : inside ["classes", "class", "fields", "field"] root = definition.fields.map ofField
  targets : ∀ field, inside ["target_class"] (ofField field) = [] ↔ field.kind.target = ""
  lifecycle : inside ["classes", "class", "lifecycle"] root =
    definition.writtenLifecycle.map ofLifecycle
  states : ∀ lifecycle, inside ["states", "state"] (ofLifecycle lifecycle) =
    lifecycle.states.map ofState
  flags : ∀ state, ∀ flag ∈ state.flags, inside ["flags", flag.1] (ofState state) = [] ↔
    Markup.isTagName flag.1 = false

end flaws

/-! ### Errors -/

theorem hasErrors_append (front back : List Issue) :
    hasErrors (front ++ back) = (hasErrors front || hasErrors back) :=
  List.any_append

theorem hasErrors_flatMap {β : Type} (items : List β) (issues : β → List Issue) :
    hasErrors (items.flatMap issues) = items.any fun item => hasErrors (issues item) :=
  List.any_flatMap

theorem hasErrors_ite {condition : Prop} [Decidable condition] {front back : List Issue}
    (hfront : hasErrors front = false) (hback : hasErrors back = false) :
    hasErrors (if condition then front else back) = false := by
  split
  · exact hfront
  · exact hback

theorem hasErrors_eq_false_iff {issues : List Issue} :
    hasErrors issues = false ↔ issues.filter (·.severity == .error) = [] := by
  rw [hasErrors, List.any_eq_false, List.filter_eq_nil_iff]

theorem hasErrors_congr {front back : List Issue}
    (h : front.filter (·.severity == .error) = back.filter (·.severity == .error)) :
    hasErrors front = hasErrors back := by
  rw [Bool.eq_iff_iff, ← not_iff_not, Bool.not_eq_true, Bool.not_eq_true, hasErrors_eq_false_iff,
    hasErrors_eq_false_iff, h]

theorem Field.hasErrors_issues_iff {field : Field} :
    hasErrors field.issues = true ↔ field.type = .externalKey ∧ field.kind.target = "" := by
  rw [issues, type]
  cases field.kind with
  | enumeration values =>
    have hvalues : hasErrors (field.valueIssues values) = false := by
      rw [valueIssues, hasErrors_append, hasErrors_ite rfl rfl, Bool.or_false]
      simp [hasErrors, Issue.severity]
    refine iff_of_false ?_ (by simp [FieldKind.type])
    dsimp only
    rw [hasErrors_ite rfl hvalues]
    exact Bool.false_ne_true
  | externalKey target =>
    by_cases htarget : target = ""
    · simp [htarget, FieldKind.type, FieldKind.target, hasErrors, Issue.severity]
    · simp [htarget, FieldKind.target, hasErrors]
  | string | integer | linkedSet | tagSet | customFields => simp [FieldKind.type, hasErrors]

theorem State.hasErrors_issues_iff {state : State} :
    hasErrors state.issues = true ↔ ∃ flag ∈ state.flags, Markup.isTagName flag.1 = false := by
  simp [issues, hasErrors, Issue.severity]

theorem Lifecycle.hasErrors_targetIssues_iff {lifecycle : Lifecycle} :
    hasErrors lifecycle.targetIssues = true ↔ lifecycle.LeadsNowhere := by
  simp [targetIssues, LeadsNowhere, declares, hasErrors, Issue.severity]

namespace ClassDefinition

variable {definition : ClassDefinition} {escaping : Escaping}

theorem mem_writtenLifecycle {lifecycle : Lifecycle} :
    lifecycle ∈ definition.writtenLifecycle ↔ definition.lifecycle = some lifecycle ∧
    lifecycle.isActive = true := by
  simp [writtenLifecycle, Lifecycle.isActive]

theorem hasErrors_lifecycleIssues_iff :
    hasErrors definition.lifecycleIssues = true ↔
      ∃ lifecycle ∈ definition.writtenLifecycle,
        (∃ state ∈ lifecycle.states, ∃ flag ∈ state.flags, Markup.isTagName flag.1 = false) ∨
          lifecycle.LeadsNowhere := by
  simp only [mem_writtenLifecycle, lifecycleIssues]
  cases definition.lifecycle with
  | none => simp [hasErrors]
  | some lifecycle =>
    dsimp only
    by_cases hactive : lifecycle.isActive = true
    · rw [if_pos hactive, hasErrors_append, hasErrors_append, hasErrors_ite rfl rfl, Bool.false_or,
        Bool.or_eq_true, hasErrors_flatMap, List.any_eq_true, Lifecycle.hasErrors_targetIssues_iff]
      simp only [State.hasErrors_issues_iff, Option.some.injEq, and_assoc, exists_eq_left']
      exact (and_iff_right hactive).symm
    · rw [if_neg hactive, hasErrors_ite rfl rfl]
      simp [hactive]

theorem hasErrors_fieldIssues_iff :
    hasErrors definition.fieldIssues = true ↔
      ∃ field ∈ definition.fields, field.type = .externalKey ∧ field.kind.target = "" := by
  rw [fieldIssues, hasErrors_flatMap, List.any_eq_true]
  simp only [Field.hasErrors_issues_iff]

theorem hasErrors_menuIssues (definition : ClassDefinition) :
    hasErrors definition.menuIssues = false := by
  rw [menuIssues]
  split
  · rfl
  · exact hasErrors_ite (hasErrors_ite rfl rfl) (hasErrors_ite rfl rfl)

theorem severity_of_mem_markupIssues {issue : Issue}
    (h : issue ∈ definition.markupIssues escaping) :
    issue.severity = Issue.embeddingSeverity escaping := by
  rcases List.mem_append.1 h with h | h
  · obtain ⟨located, -, rfl⟩ := List.mem_map.1 h
    rfl
  · obtain ⟨method, -, rfl⟩ := List.mem_map.1 h
    rfl

theorem hasErrors_markupIssues (escaping : Escaping) (definition : ClassDefinition) :
    hasErrors (definition.markupIssues escaping) = false := by
  rw [hasErrors, List.any_eq_false]
  intro issue hissue
  rw [severity_of_mem_markupIssues hissue]
  cases escaping
  all_goals exact Bool.false_ne_true

def errors (definition : ClassDefinition) : List Issue :=
  (definition.lifecycleIssues ++ definition.fieldIssues).filter (·.severity == .error)

end ClassDefinition

theorem filter_error_of_severity {severity : Severity} (h : severity ≠ .error)
    (issues : List Issue) :
    (issues.filter (·.severity == severity)).filter (·.severity == .error) = [] := by
  refine List.filter_eq_nil_iff.2 fun issue hissue => ?_
  have hseverity : issue.severity = severity := beq_iff_eq.1 (List.mem_filter.1 hissue).2
  rw [hseverity, beq_iff_eq]
  exact h

theorem Lint.filter_error_run (lints : List Lint) (escaping : Escaping)
    (definition : ClassDefinition) :
    (Lint.run lints escaping definition).filter (·.severity == .error) =
      (lints.flatMap (Lint.issues escaping definition)).filter (·.severity == .error) := by
  have hwarning : Severity.warning ≠ .error := by decide
  have hinfo : Severity.info ≠ .error := by decide
  rw [run, List.filter_append, List.filter_append, filter_error_of_severity hwarning,
    filter_error_of_severity hinfo, List.append_nil, List.append_nil, List.filter_filter]
  simp only [Bool.and_self]

namespace ClassDefinition

variable {definition : ClassDefinition} {escaping : Escaping}

/-- The errors do not depend on the escaping. -/
theorem filter_error_lint (escaping : Escaping) (definition : ClassDefinition) :
    (definition.lint escaping).filter (·.severity == .error) = definition.errors := by
  have hmenu := hasErrors_eq_false_iff.1 definition.hasErrors_menuIssues
  have hmarkup := hasErrors_eq_false_iff.1 (hasErrors_markupIssues escaping definition)
  have hfound : Lint.standard.flatMap (Lint.issues escaping definition) =
      definition.lifecycleIssues ++ (definition.fieldIssues ++ (definition.menuIssues ++
        (definition.markupIssues escaping ++ []))) :=
    rfl
  rw [lint, Lint.filter_error_run, hfound, errors]
  simp only [List.filter_append, hmenu, hmarkup, List.append_nil]

theorem hasErrors_lint_eq (escaping : Escaping) (definition : ClassDefinition) :
    hasErrors (definition.lint escaping) =
      hasErrors (definition.lifecycleIssues ++ definition.fieldIssues) :=
  hasErrors_congr (definition.filter_error_lint escaping)

theorem hasErrors_lint_iff :
    hasErrors (definition.lint escaping) = true ↔
      (∃ field ∈ definition.fields, field.type = .externalKey ∧ field.kind.target = "") ∨
        ∃ lifecycle ∈ definition.writtenLifecycle,
          (∃ state ∈ lifecycle.states, ∃ flag ∈ state.flags, Markup.isTagName flag.1 = false) ∨
            lifecycle.LeadsNowhere := by
  rw [hasErrors_lint_eq, hasErrors_append, Bool.or_eq_true, hasErrors_lifecycleIssues_iff,
    hasErrors_fieldIssues_iff, or_comm]

end ClassDefinition

/-! ### Errors as flaws of the document -/

theorem mem_zip_map_iff {β γ : Type} {items : List β} {image : β → γ} {item : β} {shown : γ} :
    (item, shown) ∈ items.zip (items.map image) ↔ item ∈ items ∧ image item = shown := by
  rw [← List.map_prod_left_eq_zip, List.mem_map]
  simp

namespace ClassDefinition.LaidOutIn

variable {α : Type} {inside : List String → α → List α} {definition : ClassDefinition} {root : α}
  {ofField : Field → α} {ofLifecycle : Lifecycle → α} {ofState : State → α}

theorem lacksTarget_iff (h : definition.LaidOutIn inside root ofField ofLifecycle ofState) :
    definition.LacksTarget inside root ↔
      ∃ field ∈ definition.fields, field.type = .externalKey ∧ field.kind.target = "" := by
  simp only [LacksTarget, h.fields, mem_zip_map_iff, and_assoc, exists_and_left, exists_eq_left',
    h.targets]

theorem lacksFlag_iff (h : definition.LaidOutIn inside root ofField ofLifecycle ofState)
    {lifecycle : Lifecycle} :
    lifecycle.LacksFlag inside (ofLifecycle lifecycle) ↔
      ∃ state ∈ lifecycle.states, ∃ flag ∈ state.flags, Markup.isTagName flag.1 = false := by
  simp only [Lifecycle.LacksFlag, h.states, mem_zip_map_iff, and_assoc, exists_and_left,
    exists_eq_left']
  refine exists_congr fun state => and_congr_right fun _ => exists_congr fun flag =>
    and_congr_right fun hflag => ?_
  exact h.flags state flag hflag

theorem lifecycle_iff (h : definition.LaidOutIn inside root ofField ofLifecycle ofState)
    {lifecycle : Lifecycle} {part : α} :
    definition.lifecycle = some lifecycle ∧ part ∈ inside ["classes", "class", "lifecycle"] root ↔
      lifecycle ∈ definition.writtenLifecycle ∧ ofLifecycle lifecycle = part := by
  rw [h.lifecycle, List.mem_map]
  constructor
  · rintro ⟨hgiven, written, hwritten, rfl⟩
    obtain rfl : written = lifecycle :=
      Option.some.inj ((mem_writtenLifecycle.1 hwritten).1.symm.trans hgiven)
    exact ⟨hwritten, rfl⟩
  · rintro ⟨hwritten, rfl⟩
    exact ⟨(mem_writtenLifecycle.1 hwritten).1, lifecycle, hwritten, rfl⟩

theorem aligned (h : definition.LaidOutIn inside root ofField ofLifecycle ofState) :
    definition.AlignedIn inside root := by
  refine ⟨by rw [h.fields, List.length_map], fun lifecycle hgiven part hpart => ?_⟩
  obtain ⟨-, rfl⟩ := h.lifecycle_iff.1 ⟨hgiven, hpart⟩
  rw [h.states, List.length_map]

theorem hasErrors_iff (h : definition.LaidOutIn inside root ofField ofLifecycle ofState)
    (escaping : Escaping) :
    hasErrors (definition.lint escaping) = true ↔ definition.FlawedIn inside root := by
  rw [hasErrors_lint_iff, FlawedIn, h.lacksTarget_iff]
  refine or_congr_right (exists_congr fun lifecycle => ?_)
  rw [← h.lacksFlag_iff]
  constructor
  · rintro ⟨hwritten, hflawed⟩
    obtain ⟨hgiven, hpart⟩ := h.lifecycle_iff.2 ⟨hwritten, rfl⟩
    exact ⟨ofLifecycle lifecycle, hgiven, hpart, hflawed⟩
  · rintro ⟨part, hgiven, hpart, hflawed⟩
    obtain ⟨hwritten, rfl⟩ := h.lifecycle_iff.1 ⟨hgiven, hpart⟩
    exact ⟨hwritten, hflawed⟩

end ClassDefinition.LaidOutIn

namespace ClassDefinition

variable (definition : ClassDefinition)

theorem rootNode_laidOut :
    definition.LaidOutIn Node.reach definition.rootNode Field.node Lifecycle.node State.node where
  fields := by rw [reach_class, reach_fields]
  targets := by
    intro field
    cases hkind : field.kind with
    | externalKey target =>
      by_cases htarget : target = ""
      · simp [Field.node, hkind, FieldKind.nodes, FieldKind.target, htarget]
      · simp [Field.node, hkind, FieldKind.nodes, FieldKind.target, htarget]
    | _ => simp [Field.node, hkind, FieldKind.nodes, FieldKind.target]
  lifecycle := by
    rw [reach_class, reach_lifecycle, activeLifecycle_eq, Option.toList_map, Option.toList_filter]
    rfl
  states := by
    intro lifecycle
    simp [Lifecycle.node]
  flags := by
    intro state flag hflag
    let written := state.flags.filter fun flag => Markup.isTagName flag.1
    have hreach : state.node.reach ["flags", flag.1] =
        Node.tagged (written.map fun flag => textNode flag.1 (boolText flag.2)) flag.1 := by
      simp [State.node, written]
    rw [hreach]
    cases htag : Markup.isTagName flag.1 with
    | true =>
      have hwritten : flag ∈ written := List.mem_filter.2 ⟨hflag, htag⟩
      exact iff_of_false (List.ne_nil_of_mem (mem_tagged_entries boolText hwritten))
        Bool.false_ne_true.symm
    | false =>
      refine iff_of_true (List.filter_eq_nil_iff.2
        (List.forall_mem_map.2 fun other hother hname => ?_)) rfl
      have hsame : other.1 = flag.1 := of_decide_eq_true hname
      rw [← hsame, (List.mem_filter.1 hother).2] at htag
      contradiction

theorem tree_laidOut :
    definition.LaidOutIn Element.select definition.tree Field.tree Lifecycle.tree State.tree where
  fields := by simp [tree, menuTrees, profileTrees, classTree]
  targets := by
    intro field
    have htexts := field.tree_shows.target
    rw [Element.textsAt] at htexts
    by_cases htarget : field.kind.target = ""
    · rw [if_pos htarget, List.map_eq_nil_iff] at htexts
      exact iff_of_true htexts htarget
    · rw [if_neg htarget] at htexts
      refine iff_of_false (fun hnone => ?_) htarget
      rw [hnone] at htexts
      contradiction
  lifecycle := by simp [tree, menuTrees, profileTrees, classTree]
  states := by
    intro lifecycle
    simp [Lifecycle.tree]
  flags := by
    intro state flag hflag
    have htexts := state.tree_shows.flags flag.1
    rw [Element.textsAt] at htexts
    cases htag : Markup.isTagName flag.1 with
    | true =>
      have hsome : state.flags.filter (·.1 = flag.1) ≠ [] :=
        List.ne_nil_of_mem (List.mem_filter.2 ⟨hflag, decide_eq_true rfl⟩)
      rw [if_pos htag] at htexts
      refine iff_of_false (fun hnone => hsome ?_) Bool.false_ne_true.symm
      rw [hnone, List.map_nil] at htexts
      exact List.map_eq_nil_iff.1 htexts.symm
    | false =>
      rw [htag, if_neg Bool.false_ne_true, List.map_eq_nil_iff] at htexts
      exact iff_of_true htexts rfl

end ClassDefinition

/-! ### Reports -/

def Report.errorTexts (report : Report) : List String :=
  report.filterMap fun
    | .error text => some text
    | _ => none

theorem errorTexts_append (front back : Report) :
    (front ++ back).errorTexts = front.errorTexts ++ back.errorTexts :=
  List.filterMap_append

theorem errorTexts_issues (issues : List Issue) :
    Report.errorTexts (issues.map Issue.line) =
      (issues.filter (·.severity == .error)).map Issue.text := by
  induction issues with
  | nil => rfl
  | cons issue issues ih =>
    rw [List.map_cons, ← List.singleton_append, errorTexts_append, ih, List.filter_cons, Issue.line]
    cases issue.severity with
    | error | warning | info => rfl

theorem errorTexts_countLine (name : String) (count : Nat) :
    (countLine name count).errorTexts = [] := by
  rw [countLine]
  split
  all_goals rfl

namespace ClassDefinition

variable {definition : ClassDefinition}

theorem errorTexts_overview (definition : ClassDefinition) :
    Report.errorTexts definition.overview = [] := by
  have hlifecycle (lifecycle : Option Lifecycle) :
      Report.errorTexts (lifecycle.map Lifecycle.overview).toList = [] := by
    cases lifecycle <;> rfl
  have hmenu (menu : Option MenuEntry) :
      Report.errorTexts (menu.map fun menu => ReportLine.entry "menu" menu.kind.name).toList =
        [] := by
    cases menu <;> rfl
  have hprofiles : Report.errorTexts (if definition.profiles.isEmpty then []
      else [.entry "profiles" (commaJoined (definition.profiles.map (·.name)))]) = [] := by
    split
    all_goals rfl
  have hfields : Report.errorTexts (definition.fields.map fun field =>
      ReportLine.item (field.name ++ " (" ++ field.type.name ++ ")")) = [] := by
    rw [Report.errorTexts, List.filterMap_map]
    exact List.filterMap_eq_nil_iff.2 fun _ _ => rfl
  rw [overview]
  simp only [errorTexts_append, errorTexts_countLine, hlifecycle, hmenu, hprofiles, hfields,
    List.append_nil]
  rfl

theorem errorTexts_checkReport (definition : ClassDefinition) (path : String) :
    (definition.checkReport path).errorTexts = definition.errors.map Issue.text := by
  have hblank : Report.errorTexts (if definition.checkIssues.isEmpty then []
      else [.blank]) = [] := by
    split
    all_goals rfl
  have hverdict : Report.errorTexts (if definition.isValid then
      .plain ("✓ " ++ path ++ " is valid") :: .blank :: definition.overview
      else [.plain ("✗ " ++ path ++ " has " ++ counted (countOf .error definition.checkIssues)
        "error")]) = [] := by
    split
    · exact definition.errorTexts_overview
    · rfl
  rw [checkReport, errorTexts_append, errorTexts_append, hblank, hverdict, List.append_nil,
    List.append_nil, errorTexts_issues, checkIssues, filter_error_lint]

theorem filter_error_generationIssues (escaping : Escaping) (definition : ClassDefinition) :
    (definition.generationIssues escaping).filter (·.severity == .error) = definition.errors := by
  rw [generationIssues, List.filter_filter, ← definition.filter_error_lint escaping]
  refine List.filter_congr fun issue _ => ?_
  cases issue.severity with
  | error | warning | info => rfl

theorem issues_of_generate {options : GenerationOptions} {storage : Storage}
    {generation : Generation}
    (h : (definition.generate Storage.access options storage).1 = .ok generation) :
    generation.issues = definition.generationIssues options.escaping := by
  cases houtput : options.output with
  | none =>
    simp only [generate, houtput] at h
    obtain rfl := Except.ok.inj h
    rfl
  | some path =>
    simp only [generate, houtput] at h
    cases hwrite : (definition.outputFile options path).write Storage.access storage with
    | mk result after =>
      simp only [bind, StateT.bind, hwrite] at h
      cases result with
      | written =>
        obtain rfl := Except.ok.inj h
        rfl
      | skipped | failed => contradiction

theorem errorTexts_generation {options : GenerationOptions} {storage : Storage}
    {generation : Generation}
    (h : (definition.generate Storage.access options storage).1 = .ok generation) :
    generation.report.errorTexts = definition.errors.map Issue.text := by
  have hdestination : Report.errorTexts [generation.destination.line generation.className] =
      [] := by
    cases generation.destination <;> rfl
  rw [Generation.report, errorTexts_append, hdestination, List.append_nil, errorTexts_issues,
    issues_of_generate h, filter_error_generationIssues]

/-- What `check` exits with for a file that holds a definition. -/
theorem status_check {storage : Storage} {config : String} {file : DefinitionFile}
    (h : DefinitionFile.ofContent config (storage.read config) = .ok file) (verbose : Bool) :
    (Request.run Storage.access ⟨.check config, verbose⟩ storage).1.status = 0 ↔
    file.definition.isValid = true := by
  have hload : DefinitionFile.load Storage.access config storage = (.ok file, storage) := by
    rw [← h]
    rfl
  have hrun : Request.run Storage.access ⟨.check config, verbose⟩ storage =
      (checkOutcome verbose file, storage) := by
    simp only [Request.run, bind, StateT.bind, hload]
    rfl
  rw [hrun, checkOutcome, Outcome.status]
  cases file.definition.isValid with
  | false | true => decide

theorem isValid_eq (escaping : Escaping) (definition : ClassDefinition) :
    definition.isValid = !hasErrors (definition.lint escaping) := by
  rw [isValid, checkIssues, hasErrors_lint_eq, hasErrors_lint_eq]

theorem isValid_iff : definition.isValid = true ↔ definition.errors = [] := by
  rw [isValid, Bool.not_eq_true', checkIssues, hasErrors_eq_false_iff, filter_error_lint]

/-- A definition is invalid exactly where its document lacks the target of an external key or, in a
lifecycle that it has, a flag of a state, or where a transition of that lifecycle leads nowhere.
This is seen in the nodes of every document and in what is read from an escaped one. Each escaping,
the check and the generation come to that one verdict, and all that the escaping changes is how
serious the issues of the markup lint are. -/
theorem verdict (definition : ClassDefinition) :
    (∀ style, (definition.document style).toList =
      style.line 0 declaration ++ definition.rootNode.render style 0) ∧
    (definition.AlignedIn Node.reach definition.rootNode ∧
      ∀ escaping, hasErrors (definition.lint escaping) = true ↔
        definition.FlawedIn Node.reach definition.rootNode) ∧
    (∀ indent, ∃ root, Xml.parse (definition.document ⟨.markup, indent⟩).toList = .ok root ∧
      definition.AlignedIn Element.select root ∧
      ∀ escaping, hasErrors (definition.lint escaping) = true ↔
        definition.FlawedIn Element.select root) ∧
    (∀ escaping, definition.isValid = !hasErrors (definition.lint escaping)) ∧
    (∀ (storage : Storage) config file verbose,
      DefinitionFile.ofContent config (storage.read config) = .ok file →
        file.definition = definition →
        ((Request.run Storage.access ⟨.check config, verbose⟩ storage).1.status = 0 ↔
          definition.isValid = true)) ∧
    (∀ path, (definition.checkReport path).errorTexts = [] ↔ definition.isValid = true) ∧
    (∀ (storage : Storage) options generation,
      (definition.generate Storage.access options storage).1 = .ok generation →
        (generation.issues.filter (·.severity == .error) = [] ↔ definition.isValid = true) ∧
        ∀ path, generation.report.errorTexts = (definition.checkReport path).errorTexts) ∧
    ∀ escaping, ∀ issue ∈ definition.markupIssues escaping,
      issue.severity = Issue.embeddingSeverity escaping := by
  refine ⟨fun style => toList_document style definition,
    ⟨definition.rootNode_laidOut.aligned, definition.rootNode_laidOut.hasErrors_iff⟩, ?_,
    fun escaping => isValid_eq escaping definition, ?_, ?_, ?_,
    fun _ _ => severity_of_mem_markupIssues⟩
  · intro indent
    exact ⟨definition.tree, definition.parse_escaped indent, definition.tree_laidOut.aligned,
      definition.tree_laidOut.hasErrors_iff⟩
  · rintro storage config file verbose hfile rfl
    exact status_check hfile verbose
  · intro path
    rw [errorTexts_checkReport, List.map_eq_nil_iff, isValid_iff]
  · intro storage options generation hgenerated
    refine ⟨?_, fun path => ?_⟩
    · rw [issues_of_generate hgenerated, filter_error_generationIssues, isValid_iff]
    · rw [errorTexts_generation hgenerated, errorTexts_checkReport]

end ClassDefinition

end Datamodel
