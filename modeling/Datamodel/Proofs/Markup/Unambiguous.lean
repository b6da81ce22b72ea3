import Datamodel.Proofs.Markup.Literal
import Datamodel.Proofs.Markup.Tag

/-!
# A written node determines itself

What is written for a node tells where it ends, whatever follows, so nodes of one form that are
written alike are equal. The form has to be known: an element without content and a text leaf of
white space can be written alike. In a document it is known, for a tag at its place always stands
for the same form of node.
-/

namespace Datamodel.Markup

/-- The form of a node, for an element with the form that each tag in its content stands for. -/
inductive Shape where
  | text
  | literal
  | empty
  | element (content : String → Shape)

def Leaf.tag : Leaf → String
  | .text tag _ _ => tag
  | .literal tag _ => tag
  | .empty tag _ => tag

namespace Node

def tag : Node → String
  | .leaf row => row.tag
  | .element tag _ _ => tag

mutual

/-- A node of a form. -/
def Fits : Shape → Node → Prop
  | .text, .leaf (.text _ _ _) => True
  | .literal, .leaf (.literal _ _) => True
  | .empty, .leaf (.empty _ _) => True
  | .element content, .element _ _ nodes => AllFit content nodes
  | _, _ => False

/-- Nodes that have the forms their tags stand for. -/
def AllFit (content : String → Shape) : List Node → Prop
  | [] => True
  | node :: nodes => Fits (content node.tag) node ∧ AllFit content nodes

end

theorem allFit_iff {content : String → Shape} {nodes : List Node} :
    AllFit content nodes ↔ ∀ node ∈ nodes, Fits (content node.tag) node := by
  induction nodes with
  | nil => simp [AllFit]
  | cons node nodes ih => simp [AllFit, ih]

end Node

/-! ### Values -/

theorem carried_attributes (attributes : Attributes) : Attributes.Carried .markup attributes :=
  fun _ _ => .inl rfl

theorem textChars_inj {value other r s : List Char}
    (h : value.flatMap Escaping.textChar ++ '<' :: r =
      other.flatMap Escaping.textChar ++ '<' :: s) : value = other ∧ r = s := by
  have hspelled : ∀ value : List Char, Xml.resolve (value.flatMap Escaping.textChar) = .ok value :=
    fun value => Xml.resolve_flatMap fun c _ => Escaping.spells_textChar c
  obtain ⟨htext, hrest⟩ := Text.run_inj Escaping.ne_bracket_of_mem_text
    Escaping.ne_bracket_of_mem_text rfl rfl h
  have hresolved := congrArg Xml.resolve htext
  rw [hspelled, hspelled] at hresolved
  exact ⟨Except.ok.inj hresolved, hrest⟩

theorem block_inj {body other r s : List Char}
    (hbody : Text.contains Escaping.literalClose body = false)
    (hother : Text.contains Escaping.literalClose other = false)
    (h : Escaping.block body ++ r = Escaping.block other ++ s) : body = other ∧ r = s := by
  rw [Escaping.block, Escaping.block, List.append_assoc, List.append_assoc, List.append_assoc,
    List.append_assoc, List.append_cancel_left_eq] at h
  have hcut := congrArg (Text.cutAt Escaping.literalClose) h
  rw [Escaping.cutAt_literalClose hbody, Escaping.cutAt_literalClose hother] at hcut
  exact Prod.mk.inj (Option.some.inj hcut)

/-- Blocks end where something else than a block begins. -/
theorem blocks_inj {bodies others : List (List Char)} {r s : List Char}
    (hbodies : ∀ body ∈ bodies, Text.contains Escaping.literalClose body = false)
    (hothers : ∀ body ∈ others, Text.contains Escaping.literalClose body = false)
    (h : bodies.flatMap Escaping.block ++ '<' :: '/' :: r =
      others.flatMap Escaping.block ++ '<' :: '/' :: s) : bodies = others ∧ r = s := by
  have hopen : ∀ body rest : List Char, ∀ end_ : List Char,
      Escaping.block body ++ rest ≠ '<' :: '/' :: end_ := by
    intro body rest end_ hsame
    rw [Escaping.block, Escaping.literalOpen_eq] at hsame
    simp at hsame
  induction bodies generalizing others with
  | nil =>
    cases others with
    | nil => exact ⟨rfl, by simpa using h⟩
    | cons other others =>
      rw [List.flatMap_nil, List.nil_append, List.flatMap_cons, List.append_assoc] at h
      exact absurd h.symm (hopen other _ r)
  | cons body bodies ih =>
    cases others with
    | nil =>
      rw [List.flatMap_nil, List.nil_append, List.flatMap_cons, List.append_assoc] at h
      exact absurd h (hopen body _ s)
    | cons other others =>
      rw [List.flatMap_cons, List.flatMap_cons, List.append_assoc, List.append_assoc] at h
      obtain ⟨rfl, hrest⟩ := block_inj (hbodies body List.mem_cons_self)
        (hothers other List.mem_cons_self) h
      obtain ⟨rfl, hend⟩ := ih (fun body hbody => hbodies body (List.mem_cons_of_mem _ hbody))
        (fun body hbody => hothers body (List.mem_cons_of_mem _ hbody)) hrest
      exact ⟨rfl, hend⟩

theorem literal_inj {value other r s : List Char}
    (h : Escaping.markup.inLiteral value ++ '<' :: '/' :: r =
      Escaping.markup.inLiteral other ++ '<' :: '/' :: s) : value = other ∧ r = s := by
  rw [Escaping.inLiteral_eq_blocks, Escaping.inLiteral_eq_blocks] at h
  obtain ⟨hbodies, hrest⟩ :=
    blocks_inj (Escaping.not_contains_sections value) (Escaping.not_contains_sections other) h
  obtain ⟨hfirst, hothers⟩ := List.cons.inj hbodies
  rw [← Escaping.flatten_sections value, ← Escaping.flatten_sections other, hfirst, hothers]
  exact ⟨rfl, hrest⟩

/-! ### Tags -/

section tags

variable {indent : Indent} {tag other : String} {attributes others : Attributes} {r s : List Char}

theorem tagContent_inj (htag : isTagName tag = true) (hother : isTagName other = true)
    (hwell : Attributes.WellFormed attributes) (hothers : Attributes.WellFormed others)
    (h : Xml.tagContent ⟨.markup, indent⟩ tag attributes =
      Xml.tagContent ⟨.markup, indent⟩ other others) : tag = other ∧ attributes = others := by
  have hnames := congrArg Xml.tagName h
  have hattributes := congrArg Xml.tagAttributes h
  rw [Xml.tagName_tagContent _ htag, Xml.tagName_tagContent _ hother, String.toList_inj] at hnames
  rw [Xml.tagAttributes_tagContent htag hwell (carried_attributes attributes),
    Xml.tagAttributes_tagContent hother hothers (carried_attributes others)] at hattributes
  exact ⟨hnames, Except.ok.inj hattributes⟩

/-- A tag ends where the reader finds its end. -/
theorem closedTag_inj {c d : Char} {piece next : List Char} (hc : isTagChar c = true)
    (hd : isTagChar d = true) (hpiece : Xml.Closed (c :: piece)) (hnext : Xml.Closed (d :: next))
    (h : c :: piece ++ '>' :: r = d :: next ++ '>' :: s) : c :: piece = d :: next ∧ r = s := by
  have hmarkup := congrArg Xml.markup h
  rw [Xml.markup_of_closed (ne_of_isTagChar hc rfl) (ne_of_isTagChar hc rfl) hpiece,
    Xml.markup_of_closed (ne_of_isTagChar hd rfl) (ne_of_isTagChar hd rfl) hnext] at hmarkup
  obtain ⟨htag, hrest⟩ := Prod.mk.inj (Except.ok.inj hmarkup)
  exact ⟨Xml.Markup.tag.inj htag, hrest⟩

/-- Two starts of tags, each with the same piece behind its attributes. -/
private theorem tag_inj (htag : isTagName tag = true) (hother : isTagName other = true)
    (hwell : Attributes.WellFormed attributes) (hothers : Attributes.WellFormed others)
    {mark : List Char} (hmark : Xml.Closed mark)
    (h : Style.tagHead ⟨.markup, indent⟩ tag attributes ++ (mark ++ '>' :: r) =
      Style.tagHead ⟨.markup, indent⟩ other others ++ (mark ++ '>' :: s)) :
    tag = other ∧ attributes = others ∧ r = s := by
  have hclosed : Xml.Closed (Xml.tagContent ⟨.markup, indent⟩ tag attributes ++ mark) :=
    (Xml.closed_tagContent htag hwell (carried_attributes attributes)).append hmark
  have hclosed' : Xml.Closed (Xml.tagContent ⟨.markup, indent⟩ other others ++ mark) :=
    (Xml.closed_tagContent hother hothers (carried_attributes others)).append hmark
  obtain ⟨c, piece, hpiece, hc⟩ := Xml.tagContent_cons ⟨.markup, indent⟩ htag attributes
  obtain ⟨d, next, hnext, hd⟩ := Xml.tagContent_cons ⟨.markup, indent⟩ hother others
  have hhead : ∀ tag attributes, Style.tagHead ⟨.markup, indent⟩ tag attributes =
      '<' :: Xml.tagContent ⟨.markup, indent⟩ tag attributes := fun _ _ => rfl
  rw [hhead, hhead, List.cons_append, List.cons_append, List.cons_inj_right, ← List.append_assoc,
    ← List.append_assoc, hpiece, hnext] at h
  rw [hpiece] at hclosed
  rw [hnext] at hclosed'
  obtain ⟨hsame, hrest⟩ := closedTag_inj hc hd hclosed hclosed' h
  have hcontent : Xml.tagContent ⟨.markup, indent⟩ tag attributes =
      Xml.tagContent ⟨.markup, indent⟩ other others := by
    rw [hpiece, hnext]
    exact List.append_cancel_right hsame
  obtain ⟨hname, hattributes⟩ := tagContent_inj htag hother hwell hothers hcontent
  exact ⟨hname, hattributes, hrest⟩

theorem startTag_inj (htag : isTagName tag = true) (hother : isTagName other = true)
    (hwell : Attributes.WellFormed attributes) (hothers : Attributes.WellFormed others)
    (h : Style.startTag ⟨.markup, indent⟩ tag attributes ++ r =
      Style.startTag ⟨.markup, indent⟩ other others ++ s) :
    tag = other ∧ attributes = others ∧ r = s := by
  rw [Style.startTag, Style.startTag, List.append_assoc, List.append_assoc] at h
  exact tag_inj htag hother hwell hothers Xml.closed_nil h

theorem emptyTag_inj (htag : isTagName tag = true) (hother : isTagName other = true)
    (hwell : Attributes.WellFormed attributes) (hothers : Attributes.WellFormed others)
    (h : Style.tagHead ⟨.markup, indent⟩ tag attributes ++ ("/>".toList ++ r) =
      Style.tagHead ⟨.markup, indent⟩ other others ++ ("/>".toList ++ s)) :
    tag = other ∧ attributes = others ∧ r = s := by
  have hslash : Xml.Closed ['/'] := Xml.closed_singleton (by decide) (by decide) (by decide)
  exact tag_inj htag hother hwell hothers hslash h

end tags

/-! ### Nodes -/

section nodes

variable {indent : Indent}

/-- Leaves of one form that are written alike, whatever follows, are equal. -/
theorem leaf_inj {row other : Leaf} {shape : Shape} (hwell : row.WellFormed)
    (hother : other.WellFormed) (hfits : Node.Fits shape (.leaf row))
    (hfits' : Node.Fits shape (.leaf other)) {r s : List Char}
    (h : Style.leaf ⟨.markup, indent⟩ row ++ r = Style.leaf ⟨.markup, indent⟩ other ++ s) :
    row = other ∧ r = s := by
  cases shape with
  | element content => exact hfits.elim
  | text =>
    cases row with
    | literal tag value | empty tag attributes => exact hfits.elim
    | text tag attributes value =>
      cases other with
      | literal tag value | empty tag attributes => exact hfits'.elim
      | text tag' attributes' value' =>
        rw [Style.leaf, Style.leaf, List.append_assoc, List.append_assoc, List.append_assoc,
          List.append_assoc] at h
        obtain ⟨rfl, rfl, hrest⟩ := startTag_inj hwell.1 hother.1 hwell.2 hother.2 h
        obtain ⟨hvalue, hend⟩ := textChars_inj hrest
        rw [String.toList_inj] at hvalue
        exact ⟨congrArg _ hvalue, List.append_cancel_left hend⟩
  | literal =>
    cases row with
    | text tag attributes value | empty tag attributes => exact hfits.elim
    | literal tag value =>
      cases other with
      | text tag attributes value | empty tag attributes => exact hfits'.elim
      | literal tag' value' =>
        have hnone : Attributes.WellFormed [] := ⟨by simp, List.nodup_nil⟩
        rw [Style.leaf, Style.leaf, List.append_assoc, List.append_assoc, List.append_assoc,
          List.append_assoc] at h
        obtain ⟨rfl, -, hrest⟩ := startTag_inj hwell hother hnone hnone h
        obtain ⟨hvalue, hend⟩ := literal_inj hrest
        rw [String.toList_inj] at hvalue
        exact ⟨congrArg _ hvalue, List.append_cancel_left hend⟩
  | empty =>
    cases row with
    | text tag attributes value | literal tag value => exact hfits.elim
    | empty tag attributes =>
      cases other with
      | text tag attributes value | literal tag value => exact hfits'.elim
      | empty tag' attributes' =>
        rw [Style.leaf, Style.leaf, List.append_assoc, List.append_assoc] at h
        obtain ⟨rfl, rfl, hrest⟩ := emptyTag_inj hwell.1 hother.1 hwell.2 hother.2 h
        exact ⟨rfl, hrest⟩

/-- The margins in front of two brackets are of one length. -/
theorem bracket_inj {depth other : Nat} {r s : List Char}
    (h : indent.margin depth ++ '<' :: r = indent.margin other ++ '<' :: s) : r = s := by
  have hmargin : ∀ depth, ∀ c ∈ indent.margin depth, (c != '<') = true := by
    intro depth c hc
    rw [bne_iff_ne]
    rintro rfl
    cases indent with
    | spaces width => exact absurd (List.mem_replicate.1 hc).2 (by decide)
    | tab => exact absurd (List.mem_replicate.1 hc).2 (by decide)
  exact (Text.run_inj (hmargin depth) (hmargin other) rfl rfl h).2

theorem line_append (style : Style) (depth : Nat) (content r : List Char) :
    style.line depth content ++ r = style.indent.margin depth ++ (content ++ '\n' :: r) := by
  rw [Style.line, List.append_assoc, List.append_assoc, List.singleton_append]

theorem tagHead_begins (style : Style) (tag : String) (attributes : Attributes) {mark : Char}
    (hmark : isTagChar mark = false) (rest : List Char) :
    ∃ stop next, isTagChar stop = false ∧ ∀ r,
      style.tagHead tag attributes ++ mark :: (rest ++ r) =
        '<' :: (tag.toList ++ stop :: (next ++ r)) := by
  cases attributes with
  | nil => exact ⟨mark, rest, hmark, fun r => by simp [Style.tagHead]⟩
  | cons named attributes =>
    refine ⟨' ', (style.attributeText named).tail ++
      (attributes.flatMap style.attributeText ++ mark :: rest), rfl, ?_⟩
    intro r
    simp [Style.tagHead, Style.attributeText]

/-- A written node begins with its margin, a bracket and its tag. -/
theorem Node.render_begins (style : Style) (depth : Nat) (node : Node) :
    ∃ stop next, isTagChar stop = false ∧ ∀ r,
      node.render style depth ++ r = style.indent.margin depth ++
        '<' :: (node.tag.toList ++ stop :: (next ++ r)) := by
  have hbegins : ∀ (tag : String) (attributes : Attributes) (mark : Char) (rest : List Char),
      isTagChar mark = false → (∀ r, node.render style depth ++ r =
        style.indent.margin depth ++ (style.tagHead tag attributes ++ mark :: (rest ++ r))) →
          node.tag = tag →
      ∃ stop next, isTagChar stop = false ∧ ∀ r, node.render style depth ++ r =
        style.indent.margin depth ++ '<' :: (node.tag.toList ++ stop :: (next ++ r)) := by
    rintro tag attributes mark rest hmark hrender rfl
    obtain ⟨stop, next, hstop, hhead⟩ := tagHead_begins style node.tag attributes hmark rest
    exact ⟨stop, next, hstop, fun r => by rw [hrender, hhead]⟩
  cases node with
  | element tag attributes content =>
    refine hbegins tag attributes '>' ('\n' :: (renderAll style (depth + 1) content ++
      style.line depth (Style.endTag tag))) rfl (fun r => ?_) rfl
    simp [render, line_append, Style.startTag]
  | leaf row =>
    cases row with
    | text tag attributes value =>
      refine hbegins tag attributes '>' (style.escaping.inText value.toList ++
        (Style.endTag tag ++ ['\n'])) rfl (fun r => ?_) rfl
      simp [render, line_append, Style.leaf, Style.startTag]
    | literal tag value =>
      refine hbegins tag [] '>' (style.escaping.inLiteral value.toList ++
        (Style.endTag tag ++ ['\n'])) rfl (fun r => ?_) rfl
      simp [render, line_append, Style.leaf, Style.startTag]
    | empty tag attributes =>
      refine hbegins tag attributes '/' ['>', '\n'] rfl (fun r => ?_) rfl
      simp [render, line_append, Style.leaf]

namespace Node

theorem isName_tag {node : Node} (h : node.WellFormed) : IsName node.tag.toList := by
  cases node with
  | element tag attributes content => exact isName_of_isTagName h.1
  | leaf row =>
    cases row with
    | text tag attributes value => exact isName_of_isTagName h.1
    | literal tag value => exact isName_of_isTagName h
    | empty tag attributes => exact isName_of_isTagName h.1

theorem tag_eq {style : Style} {depth : Nat} {node other : Node} (hwell : node.WellFormed)
    (hother : other.WellFormed) {r s : List Char}
    (h : node.render style depth ++ r = other.render style depth ++ s) : node.tag = other.tag := by
  obtain ⟨c, next, hc, hnode⟩ := node.render_begins style depth
  obtain ⟨d, next', hd, hother'⟩ := other.render_begins style depth
  rw [hnode, hother'] at h
  have hname := Text.run_inj (isName_tag hwell).2 (isName_tag hother).2 hc hd (bracket_inj h)
  exact String.toList_inj.1 hname.1

/-- A node does not begin like an end tag. -/
theorem render_ne_endTag {style : Style} {depth outer : Nat} {node : Node} (hwell : node.WellFormed)
    {r s : List Char} :
    node.render style depth ++ r ≠ style.indent.margin outer ++ '<' :: '/' :: s := by
  intro h
  obtain ⟨c, next, hc, hnode⟩ := node.render_begins style depth
  obtain ⟨hne, hchars⟩ := isName_tag hwell
  obtain ⟨d, name, hname⟩ := List.exists_cons_of_ne_nil hne
  rw [hnode, hname] at h
  have hslash : d = '/' := (List.cons.inj (bracket_inj h)).1
  have hd : isTagChar d = true := hchars d (hname ▸ List.mem_cons_self)
  exact ne_of_isTagChar hd rfl hslash

theorem not_fits_leaf_element {shape : Shape} {row : Leaf} {tag : String} {attributes : Attributes}
    {content : List Node} (h : Fits shape (.leaf row))
    (h' : Fits shape (.element tag attributes content)) : False := by
  cases shape with
  | text | literal | empty => exact h'
  | element content => exact h

mutual

/-- Nodes of one form that are written alike, whatever follows, are equal. -/
theorem render_inj {node other : Node} {shape : Shape} (hwell : node.WellFormed)
    (hother : other.WellFormed) (hfits : node.Fits shape) (hfits' : other.Fits shape) {depth : Nat}
    {r s : List Char}
    (h : node.render ⟨.markup, indent⟩ depth ++ r = other.render ⟨.markup, indent⟩ depth ++ s) :
    node = other ∧ r = s := by
  cases node with
  | leaf row =>
    cases other with
    | element tag attributes content => exact (not_fits_leaf_element hfits hfits').elim
    | leaf row' =>
      rw [render, render, line_append, line_append] at h
      obtain ⟨rfl, hrest⟩ := leaf_inj hwell hother hfits hfits' (List.append_cancel_left h)
      exact ⟨rfl, (List.cons.inj hrest).2⟩
  | element tag attributes content =>
    cases other with
    | leaf row => exact (not_fits_leaf_element hfits' hfits).elim
    | element tag' attributes' content' =>
      cases shape with
      | text | literal | empty => exact hfits.elim
      | element shapes =>
        rw [render, render, List.append_assoc, List.append_assoc, List.append_assoc,
          List.append_assoc, line_append, line_append, line_append, line_append] at h
        obtain ⟨rfl, rfl, hcontent⟩ :=
          startTag_inj hwell.1 hother.1 hwell.2.1 hother.2.1 (List.append_cancel_left h)
        obtain ⟨rfl, hrest⟩ := renderAll_inj hwell.2.2 hother.2.2 hfits hfits'
          (List.cons.inj hcontent).2
        exact ⟨rfl, (List.cons.inj (List.append_cancel_left hrest)).2⟩

theorem renderAll_inj {nodes others : List Node} {content : String → Shape}
    (hwell : AllWellFormed nodes) (hother : AllWellFormed others) (hfits : AllFit content nodes)
    (hfits' : AllFit content others) {depth outer : Nat} {r s : List Char}
    (h : renderAll ⟨.markup, indent⟩ depth nodes ++ (indent.margin outer ++ '<' :: '/' :: r) =
      renderAll ⟨.markup, indent⟩ depth others ++ (indent.margin outer ++ '<' :: '/' :: s)) :
    nodes = others ∧ r = s := by
  cases nodes with
  | nil =>
    cases others with
    | nil => exact ⟨rfl, (List.cons.inj (bracket_inj h)).2⟩
    | cons other others =>
      rw [renderAll, renderAll, List.nil_append, List.append_assoc] at h
      exact absurd h.symm (render_ne_endTag hother.1)
  | cons node nodes =>
    cases others with
    | nil =>
      rw [renderAll, renderAll, List.nil_append, List.append_assoc] at h
      exact absurd h (render_ne_endTag hwell.1)
    | cons other others =>
      rw [renderAll, renderAll, List.append_assoc, List.append_assoc] at h
      have htag := tag_eq hwell.1 hother.1 h
      obtain ⟨rfl, hrest⟩ := render_inj hwell.1 hother.1 hfits.1 (htag ▸ hfits'.1) h
      obtain ⟨rfl, hend⟩ := renderAll_inj hwell.2 hother.2 hfits.2 hfits'.2 hrest
      exact ⟨rfl, hend⟩

end

/-- Nodes of two forms, written alike. -/
example : render ⟨.markup, .tab⟩ 0 (.element "fields" [] []) =
    render ⟨.markup, .tab⟩ 0 (.leaf (.text "fields" [] "\n")) := by
  decide

end Node

end nodes

end Datamodel.Markup
