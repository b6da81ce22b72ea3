import Datamodel.Markup.Script
import Datamodel.Proofs.Markup.Tree
import Mathlib

/-!
# What a builder writes

What counts of a script is the order of the single acts, once conditions and repetitions are carried
out. Read from the last act on, they give the nodes that a document is made of: an opening act takes
everything up to the act that closes it, or up to the end where none does. A raw line may hold
anything, so nothing is said of scripts that write one.
-/

namespace Datamodel.Markup

open Xml (Element)

inductive Act where
  | line (content : String)
  | opening (tag : String) (attributes : Attributes)
  | closing
  | leaf (row : Leaf)
  deriving DecidableEq

namespace Script

mutual

def acts : Script → List Act
  | .line content => [.line content]
  | .openElement tag attributes => [.opening tag attributes]
  | .closeElement => [.closing]
  | .leaf row => [.leaf row]
  | .element tag attributes content => .opening tag attributes :: (allActs content ++ [.closing])
  | .when condition content => if condition then allActs content else []
  | .each items content => items.flatMap fun item => allActs (content item)

def allActs : List Script → List Act
  | [] => []
  | script :: scripts => acts script ++ allActs scripts

end

end Script

/-- What an act does to a document. -/
def Builder.act (b : Builder) : Act → Builder
  | .line content => b.line content.toList
  | .opening tag attributes => b.openElement tag attributes
  | .closing => b.closeElement
  | .leaf row => b.leaf row

namespace Script

mutual

theorem run_eq_foldl (b : Builder) (script : Script) :
    run b script = script.acts.foldl Builder.act b := by
  cases script with
  | line | openElement | closeElement | leaf => rfl
  | element tag attributes content =>
    rw [run, Builder.element, runAll_eq_foldl, acts, List.foldl_cons, List.foldl_concat]
    rfl
  | when condition content =>
    rw [run, Builder.when, acts]
    split
    · exact runAll_eq_foldl b content
    · rfl
  | each items content =>
    rw [run, Builder.each, acts, List.foldl_flatMap]
    congr 1
    funext b item
    exact runAll_eq_foldl b (content item)

theorem runAll_eq_foldl (b : Builder) (scripts : List Script) :
    runAll b scripts = (allActs scripts).foldl Builder.act b := by
  cases scripts with
  | nil => rfl
  | cons script scripts =>
    rw [runAll, allActs, List.foldl_append, run_eq_foldl, runAll_eq_foldl]

end

end Script

namespace Act

/-- An act whose names can be read back. -/
def WellFormed : Act → Prop
  | .line _ => False
  | .opening tag attributes => isTagName tag = true ∧ Attributes.WellFormed attributes
  | .closing => True
  | .leaf row => row.WellFormed

instance : (act : Act) → Decidable act.WellFormed
  | .line _ => inferInstanceAs (Decidable False)
  | .opening tag attributes =>
    inferInstanceAs (Decidable (isTagName tag = true ∧ Attributes.WellFormed attributes))
  | .closing => inferInstanceAs (Decidable True)
  | .leaf row => inferInstanceAs (Decidable row.WellFormed)

/-- Whether acts inside `depth` open elements close no element around these. -/
def staysInside : Nat → List Act → Bool
  | _, [] => true
  | depth, .line _ :: acts => staysInside depth acts
  | depth, .opening _ _ :: acts => staysInside (depth + 1) acts
  | 0, .closing :: _ => false
  | depth + 1, .closing :: acts => staysInside depth acts
  | depth, .leaf _ :: acts => staysInside depth acts

/-- The nodes that acts add to the innermost open element, and those they add to each element around
it, innermost first, once the elements inside are closed. -/
def levels : List Act → List Node × List (List Node)
  | [] => ([], [])
  | .line _ :: acts => levels acts
  -- What comes after the element is what comes one level up after its end, so nothing where it is
  -- never closed.
  | .opening tag attributes :: acts =>
    (.element tag attributes (levels acts).1 :: (levels acts).2.headD [], (levels acts).2.tail)
  | .closing :: acts => ([], (levels acts).1 :: (levels acts).2)
  | .leaf row :: acts => (.leaf row :: (levels acts).1, (levels acts).2)

theorem length_levels {depth : Nat} {acts : List Act} (h : staysInside depth acts = true) :
    (levels acts).2.length ≤ depth := by
  induction acts generalizing depth with
  | nil => exact Nat.zero_le depth
  | cons act acts ih =>
    cases act with
    | line content => exact ih h
    | opening tag attributes =>
      have hinside : (levels acts).2.length ≤ depth + 1 := ih h
      rw [levels, List.length_tail]
      omega
    | closing =>
      cases depth with
      | zero => contradiction
      | succ depth =>
        have hinside : (levels acts).2.length ≤ depth := ih h
        rw [levels, List.length_cons]
        omega
    | leaf row => exact ih h

theorem levels_wellFormed {acts : List Act} (h : ∀ act ∈ acts, act.WellFormed) :
    Node.AllWellFormed (levels acts).1 ∧ ∀ nodes ∈ (levels acts).2, Node.AllWellFormed nodes := by
  induction acts with
  | nil => exact ⟨trivial, by simp [levels]⟩
  | cons act acts ih =>
    rw [List.forall_mem_cons] at h
    obtain ⟨hact, hacts⟩ := h
    obtain ⟨hnow, hlater⟩ := ih hacts
    cases act with
    | line content => exact hact.elim
    | opening tag attributes =>
      rw [levels]
      cases hlevels : (levels acts).2 with
      | nil => exact ⟨⟨⟨hact.1, hact.2, hnow⟩, trivial⟩, by simp⟩
      | cons after outer =>
        rw [hlevels, List.forall_mem_cons] at hlater
        exact ⟨⟨⟨hact.1, hact.2, hnow⟩, hlater.1⟩, hlater.2⟩
    | closing => exact ⟨trivial, List.forall_mem_cons.2 ⟨hnow, hlater⟩⟩
    | leaf row => exact ⟨⟨hact, hnow⟩, hlater⟩

end Act

namespace Builder

/-- What is still to be written inside the open elements, where `now` goes into the innermost and
`later` into those around it. With nothing open, all goes to the end of the document. -/
def remaining (style : Style) : List String → List Node → List (List Node) → List Char
  | [], now, later => Node.renderAll style 0 (now ++ later.flatten)
  | tag :: opened, now, later =>
    Node.renderAll style (opened.length + 1) now ++
      (style.line opened.length (Style.endTag tag) ++
        remaining style opened (later.headD []) later.tail)

theorem remaining_nil (style : Style) (opened : List String) :
    remaining style opened [] [] = pending style opened := by
  induction opened with
  | nil => rfl
  | cons tag opened ih => exact congrArg _ ih

theorem remaining_cons (style : Style) (opened : List String) (node : Node) (now : List Node)
    (later : List (List Node)) :
    remaining style opened (node :: now) later =
      node.render style opened.length ++ remaining style opened now later := by
  cases opened with
  | nil => rfl
  | cons tag opened =>
    rw [remaining, remaining, Node.renderAll, List.append_assoc, List.length_cons]

/-- A finished document is what was written before, and then what the acts leave to be written. -/
theorem build_foldl_act (b : Builder) {acts : List Act} (h : ∀ act ∈ acts, act.WellFormed) :
    (acts.foldl act b).build =
      String.ofList (b.written ++ remaining b.style b.opened (Act.levels acts).1
        (Act.levels acts).2) := by
  induction acts generalizing b with
  | nil => exact congrArg (fun text =>
    String.ofList (b.written ++ text)) (remaining_nil b.style b.opened).symm
  | cons first acts ih =>
    rw [List.forall_mem_cons] at h
    rw [List.foldl_cons, ih _ h.2]
    congr 1
    cases first with
    | line content => exact h.1.elim
    | opening tag attributes =>
      rw [Act.levels, remaining_cons, Node.render]
      simp only [act, openElement, line, remaining, List.append_assoc]
    | closing =>
      obtain ⟨style, written, opened⟩ := b
      cases opened with
      | nil => rfl
      | cons tag opened => exact List.append_assoc _ _ _
    | leaf row =>
      rw [Act.levels, remaining_cons, Node.render]
      exact List.append_assoc _ _ _

theorem build_closeElement (b : Builder) : b.closeElement.build = b.build := by
  obtain ⟨style, written, opened⟩ := b
  cases opened with
  | nil => rfl
  | cons tag opened => exact congrArg String.ofList (List.append_assoc _ _ _)

end Builder

namespace Script

/-- An element around what scripts write that do not close it. -/
def around (tag : String) (attributes : Attributes) (scripts : List Script) : Node :=
  .element tag attributes (Act.levels (allActs scripts)).1

variable {tag : String} {attributes : Attributes} {scripts : List Script}

theorem around_wellFormed (htag : isTagName tag = true)
    (hattributes : Attributes.WellFormed attributes)
    (hacts : ∀ act ∈ allActs scripts, act.WellFormed) :
    (around tag attributes scripts).WellFormed :=
  ⟨htag, hattributes, (Act.levels_wellFormed hacts).1⟩

theorem build_runAll (style : Style) (hacts : ∀ act ∈ allActs scripts, act.WellFormed)
    (hinside : Act.staysInside 0 (allActs scripts) = true) :
    (runAll (({ style } : Builder).openElement tag attributes) scripts).build =
      String.ofList ((around tag attributes scripts).render style 0) := by
  have hlevels : (Act.levels (allActs scripts)).2 = [] :=
    List.length_eq_zero_iff.1 (Nat.le_zero.1 (Act.length_levels hinside))
  rw [runAll_eq_foldl, Builder.build_foldl_act _ hacts, hlevels]
  simp [Builder.openElement, Builder.line, Builder.remaining, around, Node.render, Node.renderAll]

/-- Whatever scripts do inside an element that they do not close, the finished document is read as
that element with their nodes inside. It makes no difference whether the element is left to be
closed at the end. -/
theorem parse_build (indent : Indent) (htag : isTagName tag = true)
    (hattributes : Attributes.WellFormed attributes)
    (hacts : ∀ act ∈ allActs scripts, act.WellFormed)
    (hinside : Act.staysInside 0 (allActs scripts) = true) :
    Xml.parse (runAll (({ style := ⟨.markup, indent⟩ } : Builder).openElement tag attributes)
        scripts).build.toList = .ok (around tag attributes scripts).toElement ∧
      Xml.parse (({ style := ⟨.markup, indent⟩ } : Builder).element tag attributes
          fun b => runAll b scripts).build.toList =
        .ok (around tag attributes scripts).toElement := by
  have hopened : Xml.parse
        (runAll (({ style := ⟨.markup, indent⟩ } : Builder).openElement tag attributes)
          scripts).build.toList =
      .ok (around tag attributes scripts).toElement := by
    rw [build_runAll _ hacts hinside, String.toList_ofList]
    exact Node.parse_render (around_wellFormed htag hattributes hacts) (Node.carried_markup _)
  refine ⟨hopened, ?_⟩
  rw [Builder.element, Builder.build_closeElement]
  exact hopened

/-- Scripts where an element is closed inside another one, and where items stay open. -/
def tangled : List Script :=
  [.openElement "a" [],
    .element "b" [("title", "<\"&'>")] [.closeElement, .leaf (.text "c" [] " x & y\n")],
    .each ["1", "2"] fun number => [.openElement "item" [("number", number)]],
    .when true [.closeElement],
    .when false [.closeElement, .closeElement],
    .leaf (.literal "code" " ]]> ")]

theorem parse_build_tangled :
    isTagName "r" = true ∧ Attributes.WellFormed [("xmlns:v", "a\nb")] ∧
      (∀ act ∈ allActs tangled, act.WellFormed) ∧ Act.staysInside 0 (allActs tangled) = true ∧
      ∃ root,
        Xml.parse (runAll (({ style := ⟨.markup, .tab⟩ } : Builder).openElement "r"
            [("xmlns:v", "a\nb")]) tangled).build.toList = .ok root ∧
          Xml.parse (({ style := ⟨.markup, .tab⟩ } : Builder).element "r" [("xmlns:v", "a\nb")]
            fun b => runAll b tangled).build.toList = .ok root ∧
          root.attributes = [("xmlns:v", "a\nb")] ∧
          (root.select ["a", "b"]).map (·.attributes) = [[("title", "<\"&'>")]] ∧
          (root.select ["a", "c"]).map (·.text) = ["x & y"] ∧
          (root.select ["item", "item"]).map (·.attributes) = [[("number", "2")]] ∧
          (root.select ["item", "code"]).map (·.text) = [" ]]> "] := by
  have htag : isTagName "r" = true := by decide
  have hattributes : Attributes.WellFormed [("xmlns:v", "a\nb")] := by decide
  have hacts : ∀ act ∈ allActs tangled, act.WellFormed := by decide
  have hinside : Act.staysInside 0 (allActs tangled) = true := by decide
  obtain ⟨hopened, helement⟩ := parse_build .tab htag hattributes hacts hinside
  exact ⟨htag, hattributes, hacts, hinside, _, hopened,
    helement, by cbv, by cbv, by cbv, by cbv, by cbv⟩

end Script

end Datamodel.Markup
