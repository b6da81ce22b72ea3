import Datamodel.Markup.Builder

/-!
# What a builder is told to do

A script may open and close elements as it likes, also inside the content of others, so that an
element may be closed by a later step than the one that belongs to it.
-/

namespace Datamodel.Markup

/-- What a builder is told to do. -/
inductive Script : Type 1 where
  | line (content : String)
  | openElement (tag : String) (attributes : Attributes)
  | closeElement
  | leaf (row : Leaf)
  | element (tag : String) (attributes : Attributes) (content : List Script)
  | when (condition : Bool) (content : List Script)
  | each {α : Type} (items : List α) (content : α → List Script)

namespace Script

mutual

def run (b : Builder) : Script → Builder
  | .line content => b.line content.toList
  | .openElement tag attributes => b.openElement tag attributes
  | .closeElement => b.closeElement
  | .leaf row => b.leaf row
  | .element tag attributes content => b.element tag attributes fun b => runAll b content
  | .when condition content => b.when condition fun b => runAll b content
  | .each items content => b.each items fun b item => runAll b (content item)

def runAll (b : Builder) : List Script → Builder
  | [] => b
  | script :: scripts => runAll (run b script) scripts

end

end Script

end Datamodel.Markup
