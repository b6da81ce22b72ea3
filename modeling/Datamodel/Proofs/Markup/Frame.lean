import Datamodel.Markup.Script

/-!
# Nodes in the middle of a document

What stands around some nodes is a chain of frames, each an element with a gap among its content. A
chain with its gap filled is rendered as the lines in front of the gap, those of the nodes, and
those behind the gap, and neither of the two outer parts depends on the nodes. A builder does the
same step by step: whatever a node holds, writing it adds its lines and leaves the same elements
open.
-/

namespace Datamodel.Markup

/-- An element with a gap among its content. -/
structure Frame where
  tag : String
  attributes : Attributes := []
  before : List Node := []
  after : List Node := []

theorem Node.renderAll_map {α : Type} (style : Style) (depth : Nat) (node : α → Node)
    (items : List α) :
    renderAll style depth (items.map node) = items.flatMap fun item =>
      (node item).render style depth := by
  induction items with
  | nil => rfl
  | cons item items ih => rw [List.map_cons, renderAll, ih, List.flatMap_cons]

theorem Style.endsLine_line (style : Style) (depth : Nat) (content : List Char) :
    ['\n'] <:+ style.line depth content :=
  List.suffix_append _ _

theorem Node.endsLine_render (style : Style) (depth : Nat) (node : Node) :
    ['\n'] <:+ node.render style depth := by
  cases node with
  | leaf row => exact style.endsLine_line depth _
  | element tag attributes content =>
    exact (style.endsLine_line depth _).trans (List.suffix_append _ _)

namespace Frame

variable (style : Style)

def fill (frame : Frame) (nodes : List Node) : Node :=
  .element frame.tag frame.attributes (frame.before ++ nodes ++ frame.after)

def front (depth : Nat) (frame : Frame) : List Char :=
  style.line depth (style.startTag frame.tag frame.attributes) ++
    Node.renderAll style (depth + 1) frame.before

def back (depth : Nat) (frame : Frame) : List Char :=
  Node.renderAll style (depth + 1) frame.after ++ style.line depth (Style.endTag frame.tag)

theorem render_fill (depth : Nat) (frame : Frame) (nodes : List Node) :
    (frame.fill nodes).render style depth =
      frame.front style depth ++ Node.renderAll style (depth + 1) nodes ++
        frame.back style depth := by
  rw [fill, Node.render, Node.renderAll_append, Node.renderAll_append, front, back]
  simp only [List.append_assoc]

/-- Nodes inside frames, the outermost frame first. -/
def fillAll : List Frame → List Node → List Node
  | [], nodes => nodes
  | frame :: frames, nodes => [frame.fill (fillAll frames nodes)]

theorem fillAll_append (outer inner : List Frame) (nodes : List Node) :
    fillAll (outer ++ inner) nodes = fillAll outer (fillAll inner nodes) := by
  induction outer with
  | nil => rfl
  | cons frame outer ih => rw [List.cons_append, fillAll, fillAll, ih]

theorem fillAll_plain (tag : String) (nodes : List Node) :
    fillAll [{ tag }] nodes = [.element tag [] nodes] := by
  rw [fillAll, fillAll, fill, List.nil_append, List.append_nil]

def fronts : (depth : Nat) → List Frame → List Char
  | _, [] => []
  | depth, frame :: frames => frame.front style depth ++ fronts (depth + 1) frames

def backs : (depth : Nat) → List Frame → List Char
  | _, [] => []
  | depth, frame :: frames => backs (depth + 1) frames ++ frame.back style depth

theorem renderAll_fillAll (depth : Nat) (frames : List Frame) (nodes : List Node) :
    Node.renderAll style depth (fillAll frames nodes) =
      fronts style depth frames ++ Node.renderAll style (depth + frames.length) nodes ++
        backs style depth frames := by
  induction frames generalizing depth with
  | nil => simp [fillAll, fronts, backs]
  | cons frame frames ih =>
    have hdepth : depth + 1 + frames.length = depth + (frame :: frames).length := by
      rw [List.length_cons]
      omega
    rw [fillAll, Node.renderAll, Node.renderAll, List.append_nil, render_fill, ih, hdepth,
      fronts, backs]
    simp only [List.append_assoc]

theorem fronts_append (depth : Nat) (outer inner : List Frame) :
    fronts style depth (outer ++ inner) =
      fronts style depth outer ++ fronts style (depth + outer.length) inner := by
  induction outer generalizing depth with
  | nil => rfl
  | cons frame outer ih =>
    rw [List.cons_append, fronts, fronts, ih, List.append_assoc, List.length_cons,
      Nat.add_right_comm depth 1, Nat.add_assoc depth]

theorem backs_append (depth : Nat) (outer inner : List Frame) :
    backs style depth (outer ++ inner) =
      backs style (depth + outer.length) inner ++ backs style depth outer := by
  induction outer generalizing depth with
  | nil => simp [backs]
  | cons frame outer ih =>
    rw [List.cons_append, backs, backs, ih, List.append_assoc, List.length_cons,
      Nat.add_right_comm depth 1, Nat.add_assoc depth]

theorem fronts_plain (depth : Nat) (tag : String) :
    fronts style depth [{ tag }] = style.line depth (style.startTag tag []) := by
  rw [fronts, fronts, front, Node.renderAll, List.append_nil, List.append_nil]

theorem backs_plain (depth : Nat) (tag : String) :
    backs style depth [{ tag }] = style.line depth (Style.endTag tag) := by
  rw [backs, backs, back, Node.renderAll, List.nil_append, List.nil_append]

end Frame

/-! ### Step by step -/

namespace Node

mutual

def script : Node → Script
  | .leaf row => .leaf row
  | .element tag attributes content => .element tag attributes (scripts content)

def scripts : List Node → List Script
  | [] => []
  | node :: nodes => script node :: scripts nodes

end

mutual

/-- Writing a node adds its lines and leaves the same elements open. -/
theorem run_script (b : Builder) (node : Node) :
    node.script.run b = { b with written := b.written ++ node.render b.style b.opened.length } := by
  cases node with
  | leaf row => rfl
  | element tag attributes content =>
    rw [script, Script.run, Builder.element, runAll_scripts, render]
    simp [Builder.openElement, Builder.closeElement, Builder.line]

theorem runAll_scripts (b : Builder) (nodes : List Node) :
    Script.runAll b (scripts nodes) =
      { b with written := b.written ++ renderAll b.style b.opened.length nodes } := by
  cases nodes with
  | nil => rw [scripts, Script.runAll, renderAll, List.append_nil]
  | cons node nodes =>
    rw [scripts, Script.runAll, runAll_scripts, run_script, renderAll, List.append_assoc]

end

end Node

end Datamodel.Markup
