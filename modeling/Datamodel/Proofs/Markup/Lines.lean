import Datamodel.Proofs.Markup.Blocks

/-!
# What the lines of nodes hold

Nodes are written line by line, and it is told here what each line holds, whatever the layout. Tags
and the names of attributes stand there as they are, and so does a value where nothing is escaped.
Elsewhere a value is a text from which a reader gets that value back. Rendered nodes are written so.
-/

namespace Datamodel

namespace Escaping

/-- Whether a text embeds a value in a place that ends at a character. -/
def Embeds (escaping : Escaping) (stop : Char) (value : String) (text : List Char) : Prop :=
  match escaping with
  | .markup => Xml.resolve text = .ok value.toList ∧ stop ∉ text
  | .verbatim => text = value.toList

def EmbedsCode (escaping : Escaping) (value : String) (text : List Char) : Prop :=
  match escaping with
  | .markup => ∃ bodies, Blocks text bodies ∧ bodies.flatten = value.toList
  | .verbatim => text = "<![CDATA[".toList ++ value.toList ++ "]]>".toList

theorem embeds_inText (escaping : Escaping) (value : String) :
    escaping.Embeds '<' value (escaping.inText value.toList) := by
  cases escaping with
  | markup =>
    refine ⟨Xml.resolve_flatMap fun c _ => spells_textChar c, fun hstop => ?_⟩
    simpa using ne_bracket_of_mem_text _ hstop
  | verbatim => rfl

theorem embeds_inAttribute (escaping : Escaping) (value : String) :
    escaping.Embeds '"' value (escaping.inAttribute value.toList) := by
  cases escaping with
  | markup => exact Carries.inAttribute (.inl rfl)
  | verbatim => rfl

theorem embedsCode_inLiteral (escaping : Escaping) (value : String) :
    escaping.EmbedsCode value (escaping.inLiteral value.toList) := by
  cases escaping with
  | markup => exact ⟨_, blocks_inLiteral value.toList, flatten_sections value.toList⟩
  | verbatim => rfl

end Escaping

namespace Markup

variable {escaping : Escaping}

inductive Attributes.WrittenAs (escaping : Escaping) : Attributes → List Char → Prop where
  | nil : WrittenAs escaping [] []
  | cons {name value : String} {text : List Char} {attributes : Attributes} {rest : List Char}
      (first : escaping.Embeds '"' value text) (others : WrittenAs escaping attributes rest) :
      WrittenAs escaping ((name, value) :: attributes)
        (' ' :: name.toList ++ "=\"".toList ++ text ++ ['"'] ++ rest)

inductive Leaf.WrittenAs (escaping : Escaping) : Leaf → List Char → Prop where
  | text {tag value : String} {attributes : Attributes} {names body : List Char}
      (hnames : attributes.WrittenAs escaping names) (hbody : escaping.Embeds '<' value body) :
      WrittenAs escaping (.text tag attributes value)
        ('<' :: tag.toList ++ names ++ ['>'] ++ body ++ ("</".toList ++ tag.toList ++ ['>']))
  | literal {tag value : String} {body : List Char} (hbody : escaping.EmbedsCode value body) :
      WrittenAs escaping (.literal tag value)
        ('<' :: tag.toList ++ ['>'] ++ body ++ ("</".toList ++ tag.toList ++ ['>']))
  | empty {tag : String} {attributes : Attributes} {names : List Char}
      (hnames : attributes.WrittenAs escaping names) :
      WrittenAs escaping (.empty tag attributes) ('<' :: tag.toList ++ names ++ "/>".toList)

namespace Node

/-- The lines of nodes side by side, with any white space in front of each. -/
inductive WrittenAs (escaping : Escaping) : List Node → List Char → Prop where
  | nil : WrittenAs escaping [] []
  | leaf {row : Leaf} {nodes : List Node} {margin line rest : List Char}
      (hmargin : ∀ c ∈ margin, Xml.isBlank c) (hline : row.WrittenAs escaping line)
      (others : WrittenAs escaping nodes rest) :
      WrittenAs escaping (.leaf row :: nodes) (margin ++ line ++ ['\n'] ++ rest)
  | element {tag : String} {attributes : Attributes} {content nodes : List Node}
      {margin names lines rest : List Char}
      (hmargin : ∀ c ∈ margin, Xml.isBlank c) (hnames : attributes.WrittenAs escaping names)
      (inside : WrittenAs escaping content lines) (others : WrittenAs escaping nodes rest) :
      WrittenAs escaping (.element tag attributes content :: nodes)
        (margin ++ ('<' :: tag.toList ++ names ++ ['>']) ++ ['\n'] ++ lines ++
          (margin ++ ("</".toList ++ tag.toList ++ ['>']) ++ ['\n']) ++ rest)

end Node

theorem Attributes.writtenAs (style : Style) (attributes : Attributes) :
    attributes.WrittenAs style.escaping (attributes.flatMap style.attributeText) := by
  induction attributes with
  | nil => exact .nil
  | cons named attributes ih => exact .cons (style.escaping.embeds_inAttribute named.2) ih

theorem Leaf.writtenAs (style : Style) (row : Leaf) :
    row.WrittenAs style.escaping (style.leaf row) := by
  cases row with
  | text tag attributes value =>
    exact .text (attributes.writtenAs style) (style.escaping.embeds_inText value)
  | literal tag value =>
    have hstart : style.startTag tag [] = '<' :: tag.toList ++ ['>'] := by
      rw [Style.startTag, Style.tagHead, List.flatMap_nil, List.append_nil]
    rw [Style.leaf, hstart]
    exact .literal (style.escaping.embedsCode_inLiteral value)
  | empty tag attributes => exact .empty (attributes.writtenAs style)

namespace Node

mutual

theorem writtenAs_cons (style : Style) (depth : Nat) (node : Node) {nodes : List Node}
    {rest : List Char} (h : WrittenAs style.escaping nodes rest) :
    WrittenAs style.escaping (node :: nodes) (node.render style depth ++ rest) := by
  cases node with
  | leaf row => exact .leaf (fun _ => isBlank_of_mem_margin) (row.writtenAs style) h
  | element tag attributes content =>
    exact .element (fun _ => isBlank_of_mem_margin) (attributes.writtenAs style)
      (writtenAs_renderAll style (depth + 1) content) h

theorem writtenAs_renderAll (style : Style) (depth : Nat) (nodes : List Node) :
    WrittenAs style.escaping nodes (renderAll style depth nodes) := by
  cases nodes with
  | nil => exact .nil
  | cons node nodes => exact writtenAs_cons style depth node (writtenAs_renderAll style depth nodes)

end

theorem writtenAs_render (style : Style) (depth : Nat) (node : Node) :
    WrittenAs style.escaping [node] (node.render style depth) := by
  have hwritten := writtenAs_cons style depth node .nil
  rwa [List.append_nil] at hwritten

end Node

end Markup

end Datamodel
