import Datamodel.Proofs.Markup.Literal
import Datamodel.Proofs.Markup.Tag
import Datamodel.Proofs.Xml.Stream

/-!
# The tokens of what is written

A written node is cut into the tokens that its form suggests: a start tag, the tokens of its content
and an end tag. Margins and line feeds are white space between tags and leave no trace, and the text
of a leaf is one token, or none where it is nothing but white space.
-/

namespace Datamodel.Markup

open Xml (Token Stream streamFrom tagContent)

/-! ### Tags -/

private theorem tagToken_open {c : Char} {s : List Char} (hslash : c ≠ '/')
    (hlast : (c :: s).getLast? ≠ some '/') (opened : List (List Char)) :
    Xml.tagToken opened (c :: s) = .ok (.open (c :: s), Xml.tagName (c :: s) :: opened) := by
  unfold Xml.tagToken
  split
  · simp_all
  · rw [if_neg hlast]

private theorem tagToken_empty {c : Char} (hslash : c ≠ '/') (s : List Char)
    (opened : List (List Char)) :
    Xml.tagToken opened (c :: s ++ ['/']) = .ok (.empty (c :: s), opened) := by
  unfold Xml.tagToken
  split
  · simp_all
  · rw [if_pos List.getLast?_concat, List.dropLast_concat]

private theorem closingName_eq {name : List Char} (h : IsName name) :
    Xml.closingName name = name := by
  have hlast : ∀ hne : name ≠ [], ¬Xml.isBlank (name.getLast hne) = true := by
    intro hne
    simp [isBlank_of_isTagChar (h.2 _ (List.getLast_mem hne))]
  have hkept : Text.dropEndWhile Xml.isBlank name = name := List.rdropWhile_eq_self_iff.2 hlast
  rw [Xml.closingName, hkept]
  split
  · rfl
  · rfl

private theorem pieceToken_tag {opened : List (List Char)} {content : List Char}
    {found : Token × List (List Char)} (h : Xml.tagToken opened content = .ok found) (place : Nat) :
    Xml.pieceToken place opened (.tag content) = .ok found := by
  rw [Xml.pieceToken, h]

section tags

variable {style : Style} {tag : String} {attributes : Attributes}

theorem streamFrom_startTag (htag : isTagName tag = true) (hwell : Attributes.WellFormed attributes)
    (hcarried : Attributes.Carried style.escaping attributes) (opened : List (List Char))
    (rest : List Char) :
    streamFrom opened (style.startTag tag attributes ++ rest) =
      (streamFrom (tag.toList :: opened) rest).prepend
        [.open (tagContent style tag attributes)] := by
  obtain ⟨c, s, hcontent, hc⟩ := Xml.tagContent_cons style htag attributes
  have hclosed := Xml.closed_tagContent htag hwell hcarried
  have hlast := Xml.getLast?_tagContent style htag attributes
  have hname := Xml.tagName_tagContent style htag attributes
  have htext : style.startTag tag attributes ++ rest =
      '<' :: (tagContent style tag attributes ++ '>' :: rest) := by
    simp [Xml.startTag_eq]
  rw [hcontent] at hclosed hlast hname htext
  rw [htext, hcontent]
  refine Xml.streamFrom_markup (List.dropWhile_cons_of_neg (by decide))
    (Xml.markup_of_closed (ne_of_isTagChar hc rfl) (ne_of_isTagChar hc rfl) hclosed rest)
    (pieceToken_tag ?_)
  rw [tagToken_open (ne_of_isTagChar hc rfl) hlast, hname]

theorem streamFrom_emptyTag (htag : isTagName tag = true) (hwell : Attributes.WellFormed attributes)
    (hcarried : Attributes.Carried style.escaping attributes) (opened : List (List Char))
    (rest : List Char) :
    streamFrom opened (style.tagHead tag attributes ++ ("/>".toList ++ rest)) =
      (streamFrom opened rest).prepend [.empty (tagContent style tag attributes)] := by
  obtain ⟨c, s, hcontent, hc⟩ := Xml.tagContent_cons style htag attributes
  have hslash : Xml.Closed ['/'] := Xml.closed_singleton (by decide) (by decide) (by decide)
  have hclosed := (Xml.closed_tagContent htag hwell hcarried).append hslash
  have htext : style.tagHead tag attributes ++ ("/>".toList ++ rest) =
      '<' :: (tagContent style tag attributes ++ ['/'] ++ '>' :: rest) := by
    simp [Style.tagHead, tagContent]
  rw [hcontent] at hclosed htext
  rw [htext, hcontent]
  exact Xml.streamFrom_markup (List.dropWhile_cons_of_neg (by decide))
    (Xml.markup_of_closed (ne_of_isTagChar hc rfl) (ne_of_isTagChar hc rfl) hclosed rest)
    (pieceToken_tag (tagToken_empty (ne_of_isTagChar hc rfl) s opened))

theorem streamFrom_endTag (htag : isTagName tag = true) (opened : List (List Char))
    (rest : List Char) :
    streamFrom (tag.toList :: opened) (Style.endTag tag ++ rest) =
      (streamFrom opened rest).prepend [.close] := by
  have hname := isName_of_isTagName htag
  have hslash : Xml.Closed ['/'] := Xml.closed_singleton (by decide) (by decide) (by decide)
  have hclosed := hslash.append (Xml.closed_of_isName hname.2)
  have htext : Style.endTag tag ++ rest = '<' :: ('/' :: tag.toList ++ '>' :: rest) := by
    simp [Style.endTag]
  rw [htext]
  refine Xml.streamFrom_markup (List.dropWhile_cons_of_neg (by decide))
    (Xml.markup_of_closed (by decide) (by decide) hclosed rest) (pieceToken_tag ?_)
  rw [Xml.tagToken]
  simp [closingName_eq hname]

end tags

/-! ### Values -/

def textTokens (value : List Char) : List Token :=
  if Xml.trimBlanks value = [] then []
    else [.text ((Xml.trimBlanks value).flatMap Escaping.textChar)]

theorem streamFrom_value (value : List Char) (opened : List (List Char)) (rest : List Char) :
    streamFrom opened (value.flatMap Escaping.textChar ++ '<' :: rest) =
      (streamFrom opened ('<' :: rest)).prepend (textTokens value) := by
  have hspells : ∀ c ∈ value, Xml.Spells (Escaping.textChar c) c :=
    fun c _ => Escaping.spells_textChar c
  have htrim := Xml.trimBlanks_flatMap hspells
  have hempty : Xml.trimBlanks value = [] ↔
      (value.flatMap Escaping.textChar).dropWhile Xml.isBlank = [] := by
    rw [← Xml.trimBlanks_eq_nil_iff, htrim, Xml.flatMap_eq_nil]
    exact fun c _ => Escaping.spells_textChar c
  have hbracket : ∀ c ∈ (value.flatMap Escaping.textChar).dropWhile Xml.isBlank,
      (c != '<') = true :=
    fun c hc => Escaping.ne_bracket_of_mem_text c ((List.dropWhile_suffix _).mem hc)
  cases hdrop : (value.flatMap Escaping.textChar).dropWhile Xml.isBlank with
  | nil =>
    rw [Xml.streamFrom_blanks (List.dropWhile_eq_nil_iff.1 hdrop), textTokens,
      if_pos (hempty.2 hdrop), Stream.prepend_nil]
  | cons c inside =>
    have hc : c ≠ '<' := by simpa [hdrop] using hbracket c
    have hrun : (value.flatMap Escaping.textChar ++ '<' :: rest).dropWhile Xml.isBlank =
        c :: (inside ++ '<' :: rest) := by
      rw [List.dropWhile_append, hdrop]
      rfl
    rw [hdrop] at hbracket
    obtain ⟨htake, hrest⟩ := Text.cut_run hbracket '<' rfl rest
    rw [Xml.streamFrom_text hrun hc, ← List.cons_append, htake, hrest, ← hdrop, ← Xml.trimBlanks,
      htrim, textTokens, if_neg (by simp [hempty, hdrop])]

private theorem markup_block {body : List Char}
    (h : Text.contains Escaping.literalClose body = false) (rest : List Char) :
    Xml.markup ('!' :: '[' :: 'C' :: 'D' :: 'A' :: 'T' :: 'A' :: '[' ::
      (body ++ (Escaping.literalClose ++ rest))) = .ok (.literal body, rest) := by
  have hcut : Text.cutAt "]]>".toList (body ++ (Escaping.literalClose ++ rest)) =
      some (body, rest) :=
    Escaping.cutAt_literalClose h rest
  rw [Xml.markup, hcut]

theorem streamFrom_block {body : List Char} (h : Text.contains Escaping.literalClose body = false)
    (opened : List (List Char)) (rest : List Char) :
    streamFrom opened (Escaping.block body ++ rest) =
      (streamFrom opened rest).prepend [.literal body] := by
  have htext : Escaping.block body ++ rest =
      '<' :: '!' :: '[' :: 'C' :: 'D' :: 'A' :: 'T' :: 'A' :: '[' ::
        (body ++ (Escaping.literalClose ++ rest)) := by
    rw [Escaping.block, Escaping.literalOpen_eq, List.append_assoc, List.append_assoc]
    rfl
  have hpiece : ∀ place, Xml.pieceToken place opened (.literal body) =
      .ok (.literal body, opened) := by
    intro place
    rw [Xml.pieceToken]
  rw [htext]
  exact Xml.streamFrom_markup (List.dropWhile_cons_of_neg (by decide)) (markup_block h rest) hpiece

theorem streamFrom_blocks {bodies : List (List Char)}
    (h : ∀ body ∈ bodies, Text.contains Escaping.literalClose body = false)
    (opened : List (List Char)) (rest : List Char) :
    streamFrom opened (bodies.flatMap Escaping.block ++ rest) =
      (streamFrom opened rest).prepend (bodies.map .literal) := by
  induction bodies with
  | nil => rfl
  | cons body bodies ih =>
    rw [List.flatMap_cons, List.append_assoc, streamFrom_block (h body List.mem_cons_self),
      ih fun other hother => h other (List.mem_cons_of_mem body hother), Stream.prepend_prepend]
    rfl

/-! ### Leaves and nodes -/

def codeTokens (value : List Char) : List Token :=
  ((Escaping.sections value).1 :: (Escaping.sections value).2).map .literal

def Leaf.tokens (style : Style) : Leaf → List Token
  | .text tag attributes value =>
    .open (tagContent style tag attributes) :: (textTokens value.toList ++ [.close])
  | .literal tag value => .open (tagContent style tag []) :: (codeTokens value.toList ++ [.close])
  | .empty tag attributes => [.empty (tagContent style tag attributes)]

theorem streamFrom_leaf {style : Style} {row : Leaf} (hwell : row.WellFormed)
    (hcarried : row.Carried style.escaping) (opened : List (List Char)) (rest : List Char) :
    streamFrom opened (style.leaf row ++ rest) =
      (streamFrom opened rest).prepend (row.tokens style) := by
  cases row with
  | text tag attributes value =>
    have hend : ∃ s, Style.endTag tag ++ rest = '<' :: s := ⟨_, rfl⟩
    obtain ⟨s, hs⟩ := hend
    rw [Style.leaf, List.append_assoc, List.append_assoc,
      streamFrom_startTag hwell.1 hwell.2 hcarried.1, hcarried.2.inText_eq, hs, streamFrom_value,
      ← hs, streamFrom_endTag hwell.1, Stream.prepend_prepend, Stream.prepend_prepend]
    rfl
  | literal tag value =>
    have hnames : Attributes.WellFormed [] := ⟨by simp, List.nodup_nil⟩
    have hvalues : Attributes.Carried style.escaping [] := by simp [Attributes.Carried]
    rw [Style.leaf, List.append_assoc, List.append_assoc, streamFrom_startTag hwell hnames hvalues,
      Escaping.inLiteral_eq_markup hcarried, Escaping.inLiteral_eq_blocks,
      streamFrom_blocks (Escaping.not_contains_sections _),
      streamFrom_endTag hwell, Stream.prepend_prepend, Stream.prepend_prepend]
    rfl
  | empty tag attributes =>
    rw [Style.leaf, List.append_assoc, streamFrom_emptyTag hwell.1 hwell.2 hcarried]
    rfl

theorem isBlank_of_mem_margin {indent : Indent} {depth : Nat} {c : Char}
    (h : c ∈ indent.margin depth) : Xml.isBlank c = true := by
  cases indent with
  | spaces width =>
    obtain ⟨-, rfl⟩ := List.mem_replicate.1 h
    rfl
  | tab =>
    obtain ⟨-, rfl⟩ := List.mem_replicate.1 h
    rfl

/-- Neither the margin of a line nor its line feed makes a token. -/
theorem streamFrom_line {style : Style} {opened next : List (List Char)} {content : List Char}
    {tokens : List Token}
    (h : ∀ rest, streamFrom opened (content ++ rest) = (streamFrom next rest).prepend tokens)
    (depth : Nat) (rest : List Char) :
    streamFrom opened (style.line depth content ++ rest) =
      (streamFrom next rest).prepend tokens := by
  rw [Style.line, List.append_assoc, List.append_assoc,
    Xml.streamFrom_blanks (fun c hc => isBlank_of_mem_margin hc), h,
    Xml.streamFrom_blanks (fun c hc => by rw [List.mem_singleton.1 hc]; rfl)]

namespace Node

mutual

def tokens (style : Style) : Node → List Token
  | .leaf row => row.tokens style
  | .element tag attributes content =>
    .open (tagContent style tag attributes) :: (allTokens style content ++ [.close])

def allTokens (style : Style) : List Node → List Token
  | [] => []
  | node :: nodes => tokens style node ++ allTokens style nodes

end

mutual

/-- A written node is cut into its tokens, wherever it stands and whatever follows. -/
theorem streamFrom_render {style : Style} {node : Node} (hwell : node.WellFormed)
    (hcarried : node.Carried style.escaping) (depth : Nat) (opened : List (List Char))
    (rest : List Char) :
    streamFrom opened (node.render style depth ++ rest) =
      (streamFrom opened rest).prepend (node.tokens style) := by
  cases node with
  | leaf row => exact streamFrom_line (streamFrom_leaf hwell hcarried opened) depth rest
  | element tag attributes content =>
    obtain ⟨htag, hattributes, hcontent⟩ := hwell
    rw [render, List.append_assoc, List.append_assoc,
      streamFrom_line (streamFrom_startTag htag hattributes hcarried.1 opened),
      streamFrom_renderAll hcontent hcarried.2,
      streamFrom_line (streamFrom_endTag htag opened), Stream.prepend_prepend,
      Stream.prepend_prepend]
    rfl

theorem streamFrom_renderAll {style : Style} {nodes : List Node} (hwell : AllWellFormed nodes)
    (hcarried : AllCarried style.escaping nodes) (depth : Nat) (opened : List (List Char))
    (rest : List Char) :
    streamFrom opened (renderAll style depth nodes ++ rest) =
      (streamFrom opened rest).prepend (allTokens style nodes) := by
  cases nodes with
  | nil => rfl
  | cons node nodes =>
    rw [renderAll, List.append_assoc, streamFrom_render hwell.1 hcarried.1,
      streamFrom_renderAll hwell.2 hcarried.2, Stream.prepend_prepend]
    rfl

end

end Node

end Datamodel.Markup
