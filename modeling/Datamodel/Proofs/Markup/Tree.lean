import Datamodel.Proofs.Markup.Tokens
import Datamodel.Proofs.Xml.Children

/-!
# The tree that a document denotes

A node denotes an element: its tag and attributes as given, its children by name, and for a leaf the
text without the white space at its ends, or the code exactly. The reader builds this element from
the tokens of the node and puts it where it belongs, into the innermost open element or in the place
of the root.
-/

open Datamodel.Markup (Attributes Style isTagName textTokens codeTokens)

namespace Datamodel.Xml.Reading

variable {opened : List Element} {root : Option Element}

theorem takeUp_literals (element : Element) (bodies : List (List Char)) (tokens : List Token) :
    takeUp ⟨element :: opened, root⟩ (bodies.map .literal ++ tokens) =
      takeUp ⟨element.addText bodies.flatten :: opened, root⟩ tokens := by
  induction bodies generalizing element with
  | nil =>
    rw [List.flatten_nil, addText_nil]
    rfl
  | cons body bodies ih =>
    have hstep : step ⟨element :: opened, root⟩ (.literal body) =
        .ok ⟨element.addText body :: opened, root⟩ := rfl
    rw [List.map_cons, List.cons_append, takeUp_cons hstep, ih]
    simp [Element.addText, String.append_assoc]

/-- A code is put together from its blocks. -/
theorem takeUp_codeTokens (element : Element) (value : List Char) (tokens : List Token) :
    takeUp ⟨element :: opened, root⟩ (codeTokens value ++ tokens) =
      takeUp ⟨element.addText value :: opened, root⟩ tokens := by
  rw [codeTokens, takeUp_literals, List.flatten_cons, Escaping.flatten_sections]

theorem takeUp_textTokens (element : Element) (value : List Char) (tokens : List Token) :
    takeUp ⟨element :: opened, root⟩ (textTokens value ++ tokens) =
      takeUp ⟨element.addText (trimBlanks value) :: opened, root⟩ tokens := by
  rw [textTokens]
  split
  · rename_i h
    rw [h, addText_nil, List.nil_append]
  · refine takeUp_cons ?_ tokens
    rw [step, resolve_flatMap fun c _ => Escaping.spells_textChar c]
    rfl

variable {style : Style} {tag : String} {attributes : Attributes}

theorem ofTag_tagContent (htag : isTagName tag = true) (hwell : Attributes.WellFormed attributes)
    (hcarried : Attributes.Carried style.escaping attributes) :
    Element.ofTag (tagContent style tag attributes) = .ok { name := tag, attributes } := by
  rw [Element.ofTag, tagAttributes_tagContent htag hwell hcarried, tagName_tagContent style htag,
    String.ofList_toList]

theorem takeUp_open (htag : isTagName tag = true) (hwell : Attributes.WellFormed attributes)
    (hcarried : Attributes.Carried style.escaping attributes) {reading : Reading}
    (hreading : reading.isComplete = false) (tokens : List Token) :
    reading.takeUp (.open (tagContent style tag attributes) :: tokens) =
      takeUp { reading with opened := { name := tag, attributes } :: reading.opened } tokens := by
  refine takeUp_cons ?_ tokens
  rw [step, if_neg (by simp [hreading]), ofTag_tagContent htag hwell hcarried]
  rfl

theorem takeUp_empty (htag : isTagName tag = true) (hwell : Attributes.WellFormed attributes)
    (hcarried : Attributes.Carried style.escaping attributes) {reading : Reading}
    (hreading : reading.isComplete = false) (tokens : List Token) :
    reading.takeUp (.empty (tagContent style tag attributes) :: tokens) =
      (reading.place { name := tag, attributes }).takeUp tokens := by
  refine takeUp_cons ?_ tokens
  rw [step, ofTag_tagContent htag hwell hcarried]
  exact if_neg (by simp [hreading])

end Datamodel.Xml.Reading

namespace Datamodel.Markup

open Xml (Element Reading Token)

/-- An element that holds a text, white space at its ends apart. -/
def ofText (tag : String) (attributes : Attributes) (value : String) : Element where
  name := tag
  attributes := attributes
  text := String.ofList (Xml.trimBlanks value.toList)

def Leaf.toElement : Leaf → Element
  | .text tag attributes value => ofText tag attributes value
  | .literal tag value => { name := tag, text := value }
  | .empty tag attributes => { name := tag, attributes }

theorem takeUp_leaf {style : Style} {row : Leaf} (hwell : row.WellFormed)
    (hcarried : row.Carried style.escaping) {reading : Reading}
    (hreading : reading.isComplete = false) (tokens : List Token) :
    reading.takeUp (row.tokens style ++ tokens) = (reading.place row.toElement).takeUp tokens := by
  cases row with
  | text tag attributes value =>
    rw [Leaf.tokens, List.cons_append, List.append_assoc,
      Reading.takeUp_open hwell.1 hwell.2 hcarried.1 hreading, Reading.takeUp_textTokens,
      List.singleton_append, Reading.takeUp_close]
    simp [Element.addText, Leaf.toElement, ofText]
  | literal tag value =>
    have hnames : Attributes.WellFormed [] := ⟨by simp, List.nodup_nil⟩
    have hvalues : Attributes.Carried style.escaping [] := by simp [Attributes.Carried]
    rw [Leaf.tokens, List.cons_append, List.append_assoc,
      Reading.takeUp_open hwell hnames hvalues hreading, Reading.takeUp_codeTokens,
      List.singleton_append, Reading.takeUp_close]
    simp [Element.addText, Leaf.toElement]
  | empty tag attributes => exact Reading.takeUp_empty hwell.1 hwell.2 hcarried hreading tokens

namespace Node

mutual

def toElement : Node → Element
  | .leaf row => row.toElement
  | .element tag attributes content => Element.ofContent tag attributes (toElements content)

def toElements : List Node → List Element
  | [] => []
  | node :: nodes => toElement node :: toElements nodes

end

theorem toElements_eq_map (nodes : List Node) : toElements nodes = nodes.map toElement := by
  induction nodes with
  | nil => rfl
  | cons node nodes ih => rw [toElements, ih, List.map_cons]

mutual

/-- The tokens of a node are taken up as the element it denotes. -/
theorem takeUp_tokens {style : Style} {node : Node} (hwell : node.WellFormed)
    (hcarried : node.Carried style.escaping) {reading : Reading}
    (hreading : reading.isComplete = false) (rest : List Token) :
    reading.takeUp (node.tokens style ++ rest) = (reading.place node.toElement).takeUp rest := by
  cases node with
  | leaf row => exact takeUp_leaf hwell hcarried hreading rest
  | element tag attributes content =>
    obtain ⟨htag, hattributes, hcontent⟩ := hwell
    rw [tokens, List.cons_append, List.append_assoc,
      Reading.takeUp_open htag hattributes hcarried.1 hreading,
      takeUp_allTokens hcontent hcarried.2, List.singleton_append, Reading.takeUp_close,
      Element.foldl_addChild _ rfl]
    rfl

theorem takeUp_allTokens {style : Style} {nodes : List Node} (hwell : AllWellFormed nodes)
    (hcarried : AllCarried style.escaping nodes) (parent : Element) (opened : List Element)
    (root : Option Element) (rest : List Token) :
    Reading.takeUp ⟨parent :: opened, root⟩ (allTokens style nodes ++ rest) =
      Reading.takeUp ⟨(toElements nodes).foldl Element.addChild parent :: opened, root⟩ rest := by
  cases nodes with
  | nil => rfl
  | cons node nodes =>
    rw [allTokens, List.append_assoc, takeUp_tokens hwell.1 hcarried.1 rfl]
    exact takeUp_allTokens hwell.2 hcarried.2 (parent.addChild node.toElement) opened root rest

end

theorem takeUp_asides {front : List Token} (h : ∀ token ∈ front, token = .aside) (reading : Reading)
    (tokens : List Token) : reading.takeUp (front ++ tokens) = reading.takeUp tokens := by
  induction front with
  | nil => rfl
  | cons token front ih =>
    rw [h token List.mem_cons_self]
    exact ih fun other hother => h other (List.mem_cons_of_mem token hother)

/-- A document that holds one node, besides what is no content, is read as the element that the node
denotes. -/
theorem parse_eq_toElement {style : Style} {node : Node} (hwell : node.WellFormed)
    (hcarried : node.Carried style.escaping) {source : List Char} {front : List Token}
    (hfront : ∀ token ∈ front, token = .aside)
    (hstream : Xml.stream source = (Xml.streamFrom [] (node.render style 0)).prepend front) :
    Xml.parse source = .ok node.toElement := by
  have hend : Xml.streamFrom [] [] = ⟨[], none⟩ := Xml.streamFrom_end rfl
  have hrender := streamFrom_render hwell hcarried 0 [] []
  rw [List.append_nil, hend] at hrender
  rw [Xml.parse_eq_ok_iff, hstream, hrender]
  refine ⟨rfl, ?_⟩
  simp only [Xml.Stream.prepend]
  rw [takeUp_asides hfront, takeUp_tokens hwell hcarried rfl]
  rfl

theorem exists_render (style : Style) (node : Node) :
    ∃ rest, node.render style 0 = '<' :: rest := by
  cases node with
  | leaf row =>
    rw [render, Style.line, Indent.margin_zero]
    cases row with
    | text | literal | empty => exact ⟨_, rfl⟩
  | element tag attributes content =>
    rw [render, Style.line, Indent.margin_zero]
    exact ⟨_, rfl⟩

theorem parse_render {style : Style} {node : Node} (hwell : node.WellFormed)
    (hcarried : node.Carried style.escaping) :
    Xml.parse (node.render style 0) = .ok node.toElement := by
  obtain ⟨rest, hrest⟩ := exists_render style node
  have hstream : Xml.stream (node.render style 0) =
      (Xml.streamFrom [] (node.render style 0)).prepend [] := by
    rw [hrest, Xml.Stream.prepend_nil]
    exact Xml.stream_cons_of_ne (by decide) rest
  exact parse_eq_toElement hwell hcarried (by simp) hstream

end Node

end Datamodel.Markup
