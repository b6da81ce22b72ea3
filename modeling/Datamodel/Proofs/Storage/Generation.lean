import Datamodel.Report.Generation
import Datamodel.Proofs.Markup.Frame
import Datamodel.Proofs.Storage.Writing

/-!
# Where generated documents go

A document goes to standard output or into a file, and it is the same text in both cases. A call
without an output leaves the files alone, and a call with one changes at most the file at the place
of its path. What can happen to a file is told by one call, so it is told by any number of them: it
stays as it is unless a call may replace it, or a path reaches it only by way of a directory that is
made for the purpose.
-/

namespace Datamodel

/-! ### Printing -/

theorem foldl_printed (start : Printed) (parts : List Printed) :
    parts.foldl Printed.append start =
      { output := start.output ++ String.join (parts.map (·.output))
        errors := start.errors ++ String.join (parts.map (·.errors)) } := by
  induction parts generalizing start with
  | nil => simp
  | cons part parts ih =>
    rw [List.foldl_cons, ih, List.map_cons, List.map_cons, String.join_cons, String.join_cons,
      Printed.append]
    simp only [String.append_assoc]

theorem Report.print_eq (report : Report) :
    report.print =
      { output := String.join (report.map (·.print.output))
        errors := String.join (report.map (·.print.errors)) } := by
  rw [print, foldl_printed, List.map_map, List.map_map, String.empty_append, String.empty_append]
  rfl

theorem Issue.output_line {issue : Issue} (h : issue.severity ≠ .info) :
    issue.line.print.output = "" := by
  rw [line]
  cases hseverity : issue.severity with
  | error | warning => rfl
  | info => contradiction

theorem output_issues {issues : List Issue} (h : ∀ issue ∈ issues, issue.severity ≠ .info) :
    String.join (issues.map (·.line.print.output)) = "" := by
  induction issues with
  | nil => rfl
  | cons issue issues ih =>
    rw [List.forall_mem_cons] at h
    rw [List.map_cons, String.join_cons, Issue.output_line h.1, ih h.2]
    rfl

theorem ClassDefinition.endsLine_document (definition : ClassDefinition) (style : Markup.Style) :
    ['\n'] <:+ (definition.document style).toList := by
  rw [document, String.toList_ofList]
  exact (Markup.Node.endsLine_render style 0 definition.rootNode).trans (List.suffix_append _ _)

/-- A text that ends its last line is printed as it is. -/
theorem withoutFinalLineFeed_append {text : String} (h : ['\n'] <:+ text.toList) :
    withoutFinalLineFeed text ++ "\n" = text := by
  obtain ⟨front, hfront⟩ := h
  rw [withoutFinalLineFeed, ← hfront, List.getLast?_concat, if_pos rfl, List.dropLast_concat]
  apply String.toList_inj.1
  rw [String.toList_append, String.toList_ofList, ← hfront]
  rfl

/-- The report on a document that goes to standard output: the document is there as it is, and what
is told of the issues goes beside it. -/
theorem Generation.print_report {generation : Generation} {document : String}
    (hdestination : generation.destination = .printed document) (hend : ['\n'] <:+ document.toList)
    (hissues : ∀ issue ∈ generation.issues, issue.severity ≠ .info) :
    generation.report.print =
      { output := document
        errors := String.join (generation.issues.map (·.line.print.errors)) } := by
  have houtput : String.join (generation.report.map (·.print.output)) = document := by
    rw [report, hdestination, List.map_append, List.map_map, String.join_append, List.map_singleton,
      String.join_cons, String.join_nil, String.append_empty]
    show String.join (generation.issues.map (·.line.print.output)) ++
      (withoutFinalLineFeed document ++ "\n") = _
    rw [output_issues hissues, withoutFinalLineFeed_append hend, String.empty_append]
  have herrors : String.join (generation.report.map (·.print.errors)) =
      String.join (generation.issues.map (·.line.print.errors)) := by
    rw [report, hdestination, List.map_append, List.map_map, String.join_append]
    exact String.append_empty
  rw [Report.print_eq, houtput, herrors]

/-! ### One call -/

namespace OutputFile

variable {file : OutputFile} {storage : Storage}

theorem write_of_contains (hrule : file.overwrite = .ifMissing)
    (hthere : storage.contains file.path) :
    (file.write Storage.access).run storage = (.skipped, storage) := by
  rw [write, hrule]
  show (if storage.contains file.path then pure .skipped else file.replace Storage.access :
    StateM Storage WriteResult) storage = _
  rw [if_pos hthere]
  rfl

theorem write_of_free (h : file.overwrite = .always ∨ storage.contains file.path = false) :
    (file.write Storage.access).run storage =
      (if (storage.write file.path file.content.toUTF8).1 then .written else .failed,
        (storage.write file.path file.content.toUTF8).2) := by
  rw [write]
  cases hrule : file.overwrite with
  | always => rfl
  | ifMissing =>
    have hmissing := h.resolve_left (by simp [hrule])
    show (if storage.contains file.path then pure .skipped else file.replace Storage.access :
      StateM Storage WriteResult) storage = _
    rw [if_neg (by simp [hmissing])]
    rfl

end OutputFile

/-- A definition whose document is asked for. -/
structure GenerationCall where
  definition : ClassDefinition
  options : GenerationOptions := {}

namespace GenerationCall

def document (call : GenerationCall) : String :=
  call.definition.standardDocument call.options.escaping

def answer (call : GenerationCall) (destination : Destination) : Generation where
  className := call.definition.name
  issues := call.definition.generationIssues call.options.escaping
  destination

def answerAt (call : GenerationCall) (path : String) :
    WriteResult → Except GenerationError Generation
  | .written => .ok (call.answer (.written path))
  | .skipped => .error (.occupied path)
  | .failed => .error (.unwritable path)

def run (storage : Storage) (call : GenerationCall) : Except GenerationError Generation × Storage :=
  (call.definition.generate Storage.access call.options).run storage

def runAll (storage : Storage) (calls : List GenerationCall) : Storage :=
  calls.foldl (fun storage call => (call.run storage).2) storage

/-- The same call where a file may be replaced. -/
def forced (call : GenerationCall) : GenerationCall :=
  { call with options := { call.options with force := true } }

/-- Whether a call can put its document in the place of what stands at a position: its path has that
place, and either it may do so or the path goes back out of a missing directory. -/
def CanReplace (call : GenerationCall) (storage : Storage) (position : Position) : Prop :=
  ∃ path, call.options.output = some path ∧ storage.place path = position ∧
    (call.options.force = true ∨ storage.Detours path)

variable {call : GenerationCall} {storage after : Storage} {position : Position} {path : String}
    {content : ByteArray}

theorem run_of_none (h : call.options.output = none) (storage : Storage) :
    call.run storage = (.ok (call.answer (.printed call.document)), storage) := by
  rw [run, ClassDefinition.generate, h]
  rfl

theorem run_of_some (h : call.options.output = some path) {result : WriteResult}
    (hwrite : ((call.definition.outputFile call.options path).write Storage.access).run storage =
      (result, after)) : call.run storage = (call.answerAt path result, after) := by
  rw [run, ClassDefinition.generate, h]
  dsimp only
  rw [StateT.run_bind, hwrite]
  cases result <;> rfl

theorem run_of_contains (h : call.options.output = some path) (hforce : call.options.force = false)
    (hthere : storage.contains path) : call.run storage = (.error (.occupied path), storage) := by
  have hrule : (call.definition.outputFile call.options path).overwrite = .ifMissing := by
    rw [ClassDefinition.outputFile, hforce]
    rfl
  exact run_of_some h (OutputFile.write_of_contains hrule hthere)

theorem run_of_free (h : call.options.output = some path)
    (hfree : call.options.force = true ∨ storage.contains path = false) :
    call.run storage =
      (call.answerAt path (if (storage.write path call.document.toUTF8).1 then .written
        else .failed), (storage.write path call.document.toUTF8).2) := by
  have hrule : (call.definition.outputFile call.options path).overwrite = .always ∨
      storage.contains path = false := by
    refine hfree.imp_left fun hforce => ?_
    rw [ClassDefinition.outputFile, hforce]
    rfl
  exact run_of_some h (OutputFile.write_of_free hrule)

theorem run_of_written (h : call.options.output = some path)
    (hfree : call.options.force = true ∨ storage.contains path = false)
    (hwrite : storage.write path call.document.toUTF8 = (true, after)) :
    call.run storage = (.ok (call.answer (.written path)), after) := by
  rw [run_of_free h hfree, hwrite]
  rfl

/-- All that a call can do: the document is printed, what is there is kept, or a write decides. -/
theorem run_cases (call : GenerationCall) (storage : Storage) :
    (call.options.output = none ∧
      call.run storage = (.ok (call.answer (.printed call.document)), storage)) ∨
    (∃ path, call.options.output = some path ∧ call.options.force = false ∧
      storage.contains path = true ∧
      call.run storage = (.error (.occupied path), storage)) ∨
    (∃ path after, call.options.output = some path ∧
      (call.options.force = true ∨ storage.contains path = false) ∧
      storage.write path call.document.toUTF8 = (true, after) ∧
      call.run storage = (.ok (call.answer (.written path)), after)) ∨
    ∃ path after, call.options.output = some path ∧
      (call.options.force = true ∨ storage.contains path = false) ∧
      storage.write path call.document.toUTF8 = (false, after) ∧
      call.run storage = (.error (.unwritable path), after) := by
  cases houtput : call.options.output with
  | none => exact .inl ⟨rfl, run_of_none houtput storage⟩
  | some path =>
    right
    by_cases hkept : call.options.force = false ∧ storage.contains path = true
    · exact .inl ⟨path, rfl, hkept.1, hkept.2, run_of_contains houtput hkept.1 hkept.2⟩
    · have hfree : call.options.force = true ∨ storage.contains path = false := by
        rw [not_and_or] at hkept
        simpa using hkept
      right
      rcases hwrite : storage.write path call.document.toUTF8 with ⟨_ | _, after⟩
      · exact .inr ⟨path, after, rfl, hfree, hwrite, by rw [run_of_free houtput hfree, hwrite]; rfl⟩
      · exact .inl ⟨path, after, rfl, hfree, hwrite, run_of_written houtput hfree hwrite⟩

/-- The path is asked for before its directories are made, so a call that finds nothing does what it
likes. -/
theorem run_eq_forced (h : call.options.output = some path)
    (hnowhere : storage.contains path = false) : call.run storage = call.forced.run storage := by
  have houtput : call.forced.options.output = some path := h
  rw [run_of_free h (.inr hnowhere), run_of_free houtput (.inl rfl)]
  rfl

theorem isTree_run (h : storage.IsTree) (call : GenerationCall) : (call.run storage).2.IsTree := by
  obtain ⟨-, hrun⟩ | ⟨path, -, -, -, hrun⟩ | ⟨path, after, -, -, hwrite, hrun⟩
      | ⟨path, after, -, -, hwrite, hrun⟩ :=
    call.run_cases storage
  · rw [hrun]
    exact h
  · rw [hrun]
    exact h
  all_goals
    have hafter := h.write path call.document.toUTF8
    rw [hwrite] at hafter
    rw [hrun]
    exact hafter

/-- What one call can do to a file: a call that cannot replace it keeps it as it was. -/
theorem canReplace_of_run (h : storage.IsTree)
    (hfile : storage.node? position = some (.file content))
    (hchanged : (call.run storage).2.node? position ≠ some (.file content)) :
    call.CanReplace storage position := by
  obtain ⟨-, hrun⟩ | ⟨path, -, -, -, hrun⟩ | ⟨path, after, houtput, hfree, hwrite, hrun⟩ |
    ⟨path, after, -, -, hwrite, hrun⟩ := call.run_cases storage
  · rw [hrun] at hchanged
    contradiction
  · rw [hrun] at hchanged
    contradiction
  · rw [hrun] at hchanged
    obtain ⟨-, -, -, hkept⟩ := Storage.written_at_place h hwrite
    have hplace : storage.place path = position := by
      by_contra hne
      exact hchanged (hkept position (Ne.symm hne) _ hfile)
    refine ⟨path, houtput, hplace, hfree.imp_right ?_⟩
    refine (Storage.contains_eq_false_iff h hwrite ?_).1
    rw [hplace, hfile]
    rfl
  · rw [hrun] at hchanged
    exact absurd (Storage.keeps_of_write hwrite position _ hfile) hchanged

theorem canReplace_of_runAll (h : storage.IsTree)
    (hfile : storage.node? position = some (.file content)) {calls : List GenerationCall}
    (hchanged : (runAll storage calls).node? position ≠ some (.file content)) :
    ∃ before call later, calls = before ++ call :: later ∧
      call.CanReplace (runAll storage before) position := by
  induction calls generalizing storage with
  | nil => exact absurd hfile hchanged
  | cons call calls ih =>
    by_cases hfirst : (call.run storage).2.node? position = some (.file content)
    · obtain ⟨before, call', later, rfl, hcan⟩ := ih (isTree_run h call) hfirst hchanged
      exact ⟨call :: before, call', later, rfl, hcan⟩
    · exact ⟨[], call, calls, rfl, canReplace_of_run h hfile hfirst⟩

theorem write_of_ok (houtput : call.options.output = some path) {generation : Generation}
    (hok : call.run storage = (.ok generation, after)) :
    (call.options.force = true ∨ storage.contains path = false) ∧
      storage.write path call.document.toUTF8 = (true, after) := by
  obtain ⟨hnone, -⟩ | ⟨path', -, -, -, hrun⟩ | ⟨path', after', hpath, hfree, hwrite, hrun⟩
      | ⟨path', after', -, -, -, hrun⟩ :=
    call.run_cases storage
  · rw [houtput] at hnone
    contradiction
  · rw [hrun] at hok
    exact absurd (Prod.mk.inj hok).1 (by simp)
  · obtain rfl : path = path' := Option.some.inj (houtput.symm.trans hpath)
    rw [hrun] at hok
    obtain ⟨-, rfl⟩ := Prod.mk.inj hok
    exact ⟨hfree, hwrite⟩
  · rw [hrun] at hok
    exact absurd (Prod.mk.inj hok).1 (by simp)

theorem keeps_of_error {error : GenerationError}
    (herror : call.run storage = (.error error, after)) :
    storage.Keeps after := by
  obtain ⟨-, hrun⟩ | ⟨path, -, -, -, hrun⟩ | ⟨path, after', -, -, -, hrun⟩
      | ⟨path, after', -, -, hwrite, hrun⟩ :=
    call.run_cases storage
  · rw [hrun] at herror
    exact absurd (Prod.mk.inj herror).1 (by simp)
  · rw [hrun] at herror
    obtain ⟨-, rfl⟩ := Prod.mk.inj herror
    exact fun _ _ hnode => hnode
  · rw [hrun] at herror
    exact absurd (Prod.mk.inj herror).1 (by simp)
  · rw [hrun] at herror
    obtain ⟨-, rfl⟩ := Prod.mk.inj herror
    exact Storage.keeps_of_write hwrite

/-- Where nothing may be replaced, what stands at the place of a path is replaced all the same
exactly if it could be and the path goes back out of a missing directory. -/
theorem isOk_run_iff (h : storage.IsTree) (houtput : call.options.output = some path)
    (hforce : call.options.force = false) (hthere : (storage.node? (storage.place path)).isSome) :
    (call.run storage).1.isOk ↔ (call.forced.run storage).1.isOk ∧ storage.Detours path := by
  constructor
  · intro hok
    rcases hrun : call.run storage with ⟨error | generation, after⟩
    · rw [hrun] at hok
      contradiction
    · obtain ⟨hfree, hwrite⟩ := write_of_ok houtput hrun
      have hnowhere := hfree.resolve_left (by simp [hforce])
      rw [← run_eq_forced houtput hnowhere]
      exact ⟨hok, (Storage.contains_eq_false_iff h hwrite hthere).1 hnowhere⟩
  · rintro ⟨hok, hdetour⟩
    rwa [run_eq_forced houtput (Storage.contains_eq_false_of_detours hdetour)]

/-- A call without an output leaves all files alone and prints the document, and nothing else, to
standard output. A call with an output that goes well leaves that same document at its path and
everything at other places as it was; one that fails takes nothing away; and one that may not
replace what is there fails where its path leads to anything, and then changes nothing. Where the
path leads nowhere although something stands at its place, it goes back out of a missing directory,
and what stands there is replaced as if that were allowed. So the content of a file is changed, by
however many calls, only by one whose path has the place of the file and which may replace it or
takes such a detour. -/
theorem printed_or_written (h : storage.IsTree) (call : GenerationCall) :
    (call.options.output = none →
      ∃ generation, call.run storage = (.ok generation, storage) ∧
        generation.report.print =
          { output := call.document
            errors := String.join (generation.issues.map (·.line.print.errors)) }) ∧
    (∀ path, call.options.output = some path →
      (∀ generation after, call.run storage = (.ok generation, after) →
        after.read path = some call.document.toUTF8 ∧
          after.resolve? path = some (storage.place path) ∧
          storage.KeepsBut after (storage.place path)) ∧
      (∀ error after, call.run storage = (.error error, after) → storage.Keeps after) ∧
      (call.options.force = false → storage.contains path →
        call.run storage = (.error (.occupied path), storage)) ∧
      (call.options.force = false → (storage.node? (storage.place path)).isSome →
        ((call.run storage).1.isOk ↔ (call.forced.run storage).1.isOk ∧ storage.Detours path))) ∧
    ∀ calls position content, storage.node? position = some (.file content) →
      (runAll storage calls).node? position ≠ some (.file content) →
        ∃ before call later, calls = before ++ call :: later ∧
          call.CanReplace (runAll storage before) position := by
  refine ⟨fun hnone => ?_, fun path houtput =>
    ⟨fun generation after hok => ?_, fun error after => keeps_of_error,
    run_of_contains houtput, isOk_run_iff h houtput⟩,
    fun calls position content hfile hchanged => canReplace_of_runAll h hfile hchanged⟩
  · have hissues : ∀ issue ∈ (call.answer (.printed call.document)).issues,
        issue.severity ≠ .info := by
      intro issue hissue
      simpa using (List.mem_filter.1 hissue).2
    exact ⟨_, run_of_none hnone storage,
      Generation.print_report rfl (call.definition.endsLine_document _) hissues⟩
  · obtain ⟨hresolve, hnode, -, hkept⟩ := Storage.written_at_place h (write_of_ok houtput hok).2
    exact ⟨Storage.read_of_node hresolve hnode, hresolve, hkept⟩

def keeping : Storage :=
  ({} : Storage).set ["keep.xml"] (.file "keep".toUTF8)

def careful (path : String) : GenerationCall where
  definition := { name := "Rack" }
  options := { output := some path }

theorem isTree_keeping : keeping.IsTree :=
  Storage.isTree_empty.set rfl (by decide) rfl _

theorem document_careful_ne (path : String) : (careful path).document.toUTF8 ≠ "keep".toUTF8 := by
  intro h
  have hfirst : ((careful path).definition.documentChars {}).head? = some '<' := rfl
  have hchars : (careful path).definition.documentChars {} = "keep".toList := by
    rw [← String.toByteArray_inj.1 h]
    exact String.toList_ofList.symm
  rw [hchars] at hfirst
  exact absurd hfirst (by decide)

/-- Whether a file can be written does not depend on its content, so no document is computed
here. -/
theorem write_keeping (content : ByteArray) :
    keeping.write "new/../keep.xml" content = (true, (keeping.write "new/../keep.xml" content).2) :=
  rfl

theorem node?_write_keeping (content : ByteArray) :
    (keeping.write "new/../keep.xml" content).2.node? ["keep.xml"] = some (.file content) :=
  rfl

theorem run_careful :
    (careful "new/../keep.xml").run keeping =
      (.ok ((careful "new/../keep.xml").answer (.written "new/../keep.xml")),
        (keeping.write "new/../keep.xml" (careful "new/../keep.xml").document.toUTF8).2) :=
  run_of_written rfl (.inr rfl) (write_keeping _)

theorem printed_or_written_keeping :
    keeping.IsTree ∧
      (∃ generation, (GenerationCall.mk { name := "Rack" } {}).run keeping =
        (.ok generation, keeping) ∧
        generation.report.print.output = (GenerationCall.mk { name := "Rack" } {}).document) ∧
      (careful "keep.xml").run keeping = (.error (.occupied "keep.xml"), keeping) ∧
      ((careful "new/../keep.xml").run keeping).2.read "new/../keep.xml" =
        some (careful "new/../keep.xml").document.toUTF8 ∧
      keeping.Detours "new/../keep.xml" ∧
      ∃ before call later, [careful "new/../keep.xml"] = before ++ call :: later ∧
        call.CanReplace (runAll keeping before) ["keep.xml"] := by
  obtain ⟨hprinted, -, -⟩ := printed_or_written isTree_keeping (.mk { name := "Rack" } {})
  obtain ⟨-, hkept, -⟩ := printed_or_written isTree_keeping (careful "keep.xml")
  obtain ⟨-, hreplaced, hruns⟩ := printed_or_written isTree_keeping (careful "new/../keep.xml")
  obtain ⟨-, -, hoccupied, -⟩ := hkept "keep.xml" rfl
  obtain ⟨hwritten, -, -, hiff⟩ := hreplaced "new/../keep.xml" rfl
  refine ⟨isTree_keeping, ?_, hoccupied rfl rfl, ?_, ?_,
    hruns [_] ["keep.xml"] "keep".toUTF8 rfl ?_⟩
  · obtain ⟨generation, hrun, hprint⟩ := hprinted rfl
    exact ⟨generation, hrun, by rw [hprint]⟩
  · rw [run_careful]
    exact (hwritten _ _ run_careful).1
  · refine ((hiff rfl rfl).1 ?_).2
    rw [run_careful]
    rfl
  · show ((careful "new/../keep.xml").run keeping).2.node? ["keep.xml"] ≠ _
    rw [run_careful, node?_write_keeping]
    intro hsame
    exact document_careful_ne _ (StorageNode.file.inj (Option.some.inj hsame))

/-- A file that may not be replaced is replaced by way of a new directory. -/
theorem run_detour :
    (careful "new/../keep.xml").options.force = false ∧
      keeping.read "keep.xml" = some "keep".toUTF8 ∧
      ((careful "new/../keep.xml").run keeping).2.read "keep.xml" =
        some (careful "new/../keep.xml").document.toUTF8 ∧
      (careful "new/../keep.xml").document.toUTF8 ≠ "keep".toUTF8 := by
  refine ⟨rfl, rfl, ?_, document_careful_ne _⟩
  rw [run_careful]
  exact Storage.read_of_node rfl (node?_write_keeping _)

end GenerationCall

end Datamodel
