import Datamodel.Proofs.Xml.Outline

/-!
# The reader follows the outline

The reader keeps a stack of the open elements and a place for the root. Two things are shown of its
walk over the tokens. Wherever it ends with every element closed, the tokens are those of pieces, on
as many levels as elements were open; this is by induction on the tokens, with what one token does
to the number of open elements as the step. And the tokens of pieces are taken up as the trees of
those pieces, by recursion on the pieces.

Together they say which texts are accepted and as what: those with an outline, as the tree of the
outline with the children grouped by name.
-/

namespace Datamodel.Xml

/-! ### What one token does -/

namespace Reading

/-- The number of open elements after a token. -/
def Levels (reading next : Reading) : Token → Prop
  | .open _ => next.opened.length = reading.opened.length + 1
  | .close => reading.opened.length = next.opened.length + 1
  | .empty _ | .text _ | .literal _ | .aside => next.opened.length = reading.opened.length

theorem length_place (reading : Reading) (element : Element) :
    (reading.place element).opened.length = reading.opened.length := by
  obtain ⟨opened, root⟩ := reading
  cases opened <;> rfl

theorem length_addText {reading next : Reading} {text : List Char}
    (h : reading.addText text = some next) : next.opened.length = reading.opened.length := by
  obtain ⟨opened, root⟩ := reading
  cases opened with
  | nil => contradiction
  | cons element opened =>
    obtain rfl := Option.some.inj h
    rfl

theorem ofTag_eq_ok_iff {tag : List Char} {element : Element} :
    Element.ofTag tag = .ok element ↔
      ∃ attributes, tagAttributes tag = .ok attributes ∧
        element = { name := String.ofList (tagName tag), attributes } := by
  rw [Element.ofTag]
  cases tagAttributes tag with
  | error cause => simp
  | ok attributes => simp [eq_comm]

/-- A token is taken up only where it can be resolved, and only a tag changes the number of open
elements. -/
theorem step_cases {reading next : Reading} {token : Token} (h : reading.step token = .ok next) :
    token.Resolves ∧ reading.Levels next token := by
  cases token with
  | «open» tag =>
    rw [step] at h
    split at h
    · contradiction
    · cases htag : Element.ofTag tag with
      | error cause =>
        rw [htag] at h
        contradiction
      | ok element =>
        rw [htag] at h
        obtain ⟨attributes, hattributes, -⟩ := ofTag_eq_ok_iff.1 htag
        obtain rfl := Except.ok.inj h
        exact ⟨⟨attributes, hattributes⟩, rfl⟩
  | empty tag =>
    rw [step] at h
    cases htag : Element.ofTag tag with
    | error cause =>
      rw [htag] at h
      contradiction
    | ok element =>
      obtain ⟨attributes, hattributes, -⟩ := ofTag_eq_ok_iff.1 htag
      simp only [htag, bind, Except.bind] at h
      split at h
      · contradiction
      · obtain rfl := Except.ok.inj h
        exact ⟨⟨attributes, hattributes⟩, reading.length_place element⟩
  | close =>
    obtain ⟨opened, root⟩ := reading
    cases opened with
    | nil => contradiction
    | cons element opened =>
      obtain rfl := Except.ok.inj h
      exact ⟨trivial, congrArg (· + 1) (length_place ⟨opened, root⟩ element).symm⟩
  | text raw =>
    rw [step] at h
    split at h
    · contradiction
    · rename_i text htext
      split at h
      · rename_i added hadded
        obtain rfl := Except.ok.inj h
        exact ⟨⟨text, htext⟩, length_addText hadded⟩
      · contradiction
  | literal content =>
    obtain rfl := Except.ok.inj h
    refine ⟨trivial, ?_⟩
    cases hadded : reading.addText content with
    | none => rfl
    | some added => exact length_addText hadded
  | aside =>
    obtain rfl := Except.ok.inj h
    exact ⟨trivial, rfl⟩

theorem takeUp_cons_eq_ok_iff {reading last : Reading} {token : Token} {tokens : List Token} :
    reading.takeUp (token :: tokens) = .ok last ↔ ∃ next, reading.step token = .ok next ∧
    next.takeUp tokens = .ok last := by
  rw [takeUp]
  cases reading.step token with
  | error cause => simp
  | ok next => simp

theorem resolves_of_takeUp {reading last : Reading} {tokens : List Token}
    (h : reading.takeUp tokens = .ok last) : ∀ token ∈ tokens, token.Resolves := by
  induction tokens generalizing reading with
  | nil => simp
  | cons token tokens ih =>
    obtain ⟨next, hstep, hrest⟩ := takeUp_cons_eq_ok_iff.1 h
    exact List.forall_mem_cons.2 ⟨(step_cases hstep).1, ih hrest⟩

end Reading

/-! ### From tokens to pieces -/

namespace Piece

/-- The tokens of the pieces read inside some open elements: those of the innermost one up to its
end tag, then those of the one around it, and so on. -/
def levelTokens (now : List Piece) : List (List Piece) → List Token
  | [] => allTokens now
  | next :: later => allTokens now ++ .close :: levelTokens next later

theorem levelTokens_cons (piece : Piece) (now : List Piece) (later : List (List Piece)) :
    levelTokens (piece :: now) later = piece.tokens ++ levelTokens now later := by
  cases later with
  | nil => rfl
  | cons next later => rw [levelTokens, levelTokens, allTokens, List.append_assoc]

/-- Where all elements are closed in the end, the tokens are those of pieces, on as many levels as
elements were open. -/
theorem exists_levels {reading : Reading} {tokens : List Token} {root : Option Element}
    (h : reading.takeUp tokens = .ok ⟨[], root⟩) :
    ∃ now later, later.length = reading.opened.length ∧ tokens = levelTokens now later := by
  induction tokens generalizing reading with
  | nil =>
    obtain rfl := Except.ok.inj h
    exact ⟨[], [], rfl, rfl⟩
  | cons token tokens ih =>
    obtain ⟨next, hstep, hrest⟩ := Reading.takeUp_cons_eq_ok_iff.1 h
    obtain ⟨now, later, hlength, rfl⟩ := ih hrest
    obtain ⟨-, hlevels⟩ := Reading.step_cases hstep
    have hsingle (piece : Piece) (htokens : piece.tokens = [token])
        (hsame : next.opened.length = reading.opened.length) :
        ∃ before outer, outer.length = reading.opened.length ∧
          token :: levelTokens now later = levelTokens before outer := by
      refine ⟨piece :: now, later, hlength.trans hsame, ?_⟩
      rw [levelTokens_cons, htokens, List.singleton_append]
    cases token with
    | «open» tag =>
      -- The innermost level is the content of the element that is opened here, the next one goes on
      -- behind it.
      obtain ⟨after, later, rfl⟩ : ∃ after others, later = after :: others :=
        List.exists_cons_of_length_eq_add_one (hlength.trans hlevels)
      refine ⟨.element tag now :: after, later, Nat.succ.inj (hlength.trans hlevels), ?_⟩
      rw [levelTokens_cons, tokens, levelTokens, List.cons_append, List.append_assoc,
        List.singleton_append]
    | close => exact ⟨[], now :: later, (congrArg (· + 1) hlength).trans hlevels.symm, rfl⟩
    | empty tag => exact hsingle (.empty tag) rfl hlevels
    | text raw => exact hsingle (.text raw) rfl hlevels
    | literal content => exact hsingle (.literal content) rfl hlevels
    | aside => exact hsingle .aside rfl hlevels

/-! ### From pieces to the tree -/

/-- An element with one more piece inside. -/
def absorb (parent : Element) (piece : Piece) : Element :=
  match piece.tree? with
  | some tree => parent.addChild tree.toElement
  | none => parent.addText piece.ownText

theorem ownText_of_tree? {piece : Piece} {tree : Tree} (h : piece.tree? = some tree) :
    piece.ownText = [] := by
  cases piece with
  | element | empty => rfl
  | text | literal | aside => contradiction

theorem addText_addText (element : Element) (text more : List Char) :
    (element.addText text).addText more = element.addText (text ++ more) := by
  simp [Element.addText, String.append_assoc]

theorem foldl_addChild_addText (children : List Element) (parent : Element) (text : List Char) :
    children.foldl Element.addChild (parent.addText text) =
      (children.foldl Element.addChild parent).addText text := by
  induction children generalizing parent with
  | nil => rfl
  | cons child children ih => exact ih (parent.addChild child)

/-- Pieces put into an element add their elements to its children and what else they say to its
text. -/
theorem foldl_absorb (pieces : List Piece) (parent : Element) :
    pieces.foldl absorb parent =
      ((Tree.toElements (trees pieces)).foldl Element.addChild parent).addText
        (pieces.flatMap ownText) := by
  induction pieces generalizing parent with
  | nil => exact (Reading.addText_nil parent).symm
  | cons piece pieces ih =>
    rw [List.foldl_cons, ih, absorb, trees, List.flatMap_cons]
    cases htree : piece.tree? with
    | some tree =>
      rw [ownText_of_tree? htree]
      rfl
    | none =>
      dsimp only
      rw [foldl_addChild_addText, addText_addText]
      rfl

theorem foldl_absorb_new (name : String) (attributes : List (String × String))
    (content : List Piece) :
    content.foldl absorb { name, attributes } =
      (Tree.node name attributes (String.ofList (content.flatMap ownText))
        (trees content)).toElement := by
  rw [foldl_absorb, Element.foldl_addChild _ rfl, Tree.toElement]
  simp [Element.addText]

theorem attributesOf_eq {tag : List Char} {attributes : List (String × String)}
    (h : tagAttributes tag = .ok attributes) : attributesOf tag = attributes := by
  rw [attributesOf, h]
  rfl

theorem textOf_eq {raw text : List Char} (h : resolve raw = .ok text) : textOf raw = text := by
  rw [textOf, h]
  rfl

theorem ofTag_of_resolves {tag : List Char} (h : ∃ attributes, tagAttributes tag = .ok attributes) :
    Element.ofTag tag =
      .ok { name := String.ofList (tagName tag), attributes := attributesOf tag } := by
  obtain ⟨attributes, hattributes⟩ := h
  exact Reading.ofTag_eq_ok_iff.2 ⟨attributes, hattributes, by rw [attributesOf_eq hattributes]⟩

/-- What is no element inside an open element is absorbed by it. -/
theorem takeUp_of_tree?_eq_none {piece : Piece} (htree : piece.tree? = none)
    (hresolves : ∀ token ∈ piece.tokens, token.Resolves) (parent : Element) (opened : List Element)
    (root : Option Element) (rest : List Token) :
    Reading.takeUp ⟨parent :: opened, root⟩ (piece.tokens ++ rest) =
      Reading.takeUp ⟨absorb parent piece :: opened, root⟩ rest := by
  rw [absorb, htree]
  cases piece with
  | element | empty => contradiction
  | text raw =>
    obtain ⟨text, htext⟩ := hresolves (.text raw) List.mem_cons_self
    refine Reading.takeUp_cons ?_ rest
    rw [Reading.step, htext, ownText, textOf_eq htext]
    rfl
  | literal content => exact Reading.takeUp_cons rfl rest
  | aside =>
    rw [ownText, Reading.addText_nil]
    exact Reading.takeUp_cons rfl rest

mutual

/-- The tokens of an element are taken up as the element of its tree. -/
theorem takeUp_tokens {piece : Piece} (hresolves : ∀ token ∈ piece.tokens, token.Resolves)
    {tree : Tree} (htree : piece.tree? = some tree) {reading : Reading}
    (hreading : reading.isComplete = false) (rest : List Token) :
    reading.takeUp (piece.tokens ++ rest) = (reading.place tree.toElement).takeUp rest := by
  cases piece with
  | element tag content =>
    rw [tokens, List.forall_mem_cons, List.forall_mem_append] at hresolves
    obtain rfl := Option.some.inj htree
    have hstep : reading.step (.open tag) = .ok { reading with
        opened := { name := String.ofList (tagName tag), attributes := attributesOf tag } ::
          reading.opened } := by
      rw [Reading.step, if_neg (by simp [hreading]), ofTag_of_resolves hresolves.1]
      rfl
    rw [tokens, List.cons_append, List.append_assoc, Reading.takeUp_cons hstep,
      takeUp_allTokens hresolves.2.1, List.singleton_append, Reading.takeUp_close, foldl_absorb_new]
  | empty tag =>
    rw [tokens, List.forall_mem_singleton] at hresolves
    obtain rfl := Option.some.inj htree
    have hstep : reading.step (.empty tag) = .ok (reading.place
        { name := String.ofList (tagName tag), attributes := attributesOf tag }) := by
      rw [Reading.step, ofTag_of_resolves hresolves]
      exact if_neg (by simp [hreading])
    rw [tokens, List.singleton_append, Reading.takeUp_cons hstep]
    rfl
  | text | literal | aside => contradiction

/-- The tokens of pieces inside an open element are taken up into it. -/
theorem takeUp_allTokens {pieces : List Piece}
    (hresolves : ∀ token ∈ allTokens pieces, token.Resolves) (parent : Element)
    (opened : List Element) (root : Option Element) (rest : List Token) :
    Reading.takeUp ⟨parent :: opened, root⟩ (allTokens pieces ++ rest) =
      Reading.takeUp ⟨pieces.foldl absorb parent :: opened, root⟩ rest := by
  cases pieces with
  | nil => rfl
  | cons piece pieces =>
    rw [allTokens, List.forall_mem_append] at hresolves
    have hfirst : ∀ tokens, Reading.takeUp ⟨parent :: opened, root⟩ (piece.tokens ++ tokens) =
        Reading.takeUp ⟨absorb parent piece :: opened, root⟩ tokens := by
      intro tokens
      cases htree : piece.tree? with
      | some tree =>
        rw [takeUp_tokens hresolves.1 htree rfl, absorb, htree]
        rfl
      | none => exact takeUp_of_tree?_eq_none htree hresolves.1 parent opened root tokens
    rw [allTokens, List.append_assoc, hfirst, takeUp_allTokens hresolves.2, List.foldl_cons]

end

/-! ### Beside the root -/

theorem takeUp_outside {pieces : List Piece} (h : ∀ piece ∈ pieces, piece.IsOutside)
    (root : Option Element) (rest : List Token) :
    Reading.takeUp ⟨[], root⟩ (allTokens pieces ++ rest) = Reading.takeUp ⟨[], root⟩ rest := by
  induction pieces with
  | nil => rfl
  | cons piece pieces ih =>
    have hrest := ih fun other hother => h other (List.mem_cons_of_mem piece hother)
    have houtside := h piece List.mem_cons_self
    rw [allTokens, List.append_assoc]
    cases piece with
    | literal content => exact (Reading.takeUp_cons rfl _).trans hrest
    | aside => exact (Reading.takeUp_cons rfl _).trans hrest
    | element | empty | text => exact houtside.elim

/-- A text beside the root cannot be taken up. -/
theorem not_takeUp_text {raw : List Char} {root : Option Element} {rest : List Token}
    {last : Reading} : Reading.takeUp ⟨[], root⟩ (.text raw :: rest) ≠ .ok last := by
  intro h
  obtain ⟨next, hstep, -⟩ := Reading.takeUp_cons_eq_ok_iff.1 h
  rw [Reading.step] at hstep
  split at hstep <;> contradiction

/-- Once there is a root, no other element can be taken up. -/
theorem not_takeUp_second {piece : Piece} {tree : Tree} (htree : piece.tree? = some tree)
    {root : Element} {rest : List Token} {last : Reading} :
    Reading.takeUp ⟨[], some root⟩ (piece.tokens ++ rest) ≠ .ok last := by
  intro h
  cases piece with
  | element tag content =>
    obtain ⟨next, hstep, -⟩ := Reading.takeUp_cons_eq_ok_iff.1 h
    contradiction
  | empty tag =>
    obtain ⟨next, hstep, -⟩ := Reading.takeUp_cons_eq_ok_iff.1 h
    rw [Reading.step] at hstep
    cases htag : Element.ofTag tag with
    | error cause =>
      rw [htag] at hstep
      contradiction
    | ok element =>
      rw [htag] at hstep
      contradiction
  | text | literal | aside => contradiction

theorem outside_of_takeUp {pieces : List Piece} {root : Element} {last : Reading}
    (h : Reading.takeUp ⟨[], some root⟩ (allTokens pieces) = .ok last) :
    (∀ piece ∈ pieces, piece.IsOutside) ∧ last = ⟨[], some root⟩ := by
  induction pieces with
  | nil => exact ⟨by simp, (Except.ok.inj h).symm⟩
  | cons piece pieces ih =>
    rw [allTokens] at h
    have hout : piece.IsOutside := by
      cases piece with
      | literal | aside => trivial
      | text raw => exact (not_takeUp_text h).elim
      | element tag content => exact (not_takeUp_second rfl h).elim
      | empty tag => exact (not_takeUp_second rfl h).elim
    have hskip : Reading.takeUp ⟨[], some root⟩ (allTokens [piece] ++ allTokens pieces) =
        .ok last := by
      rwa [allTokens, allTokens, List.append_nil]
    rw [takeUp_outside (List.forall_mem_singleton.2 hout)] at hskip
    obtain ⟨hrest, hlast⟩ := ih hskip
    exact ⟨List.forall_mem_cons.2 ⟨hout, hrest⟩, hlast⟩

/-- Pieces that are read as a root are one element with nothing beside it that may not stand
there. -/
theorem alone_of_takeUp {pieces : List Piece}
    (hresolves : ∀ token ∈ allTokens pieces, token.Resolves) {root : Element}
    (h : Reading.takeUp {} (allTokens pieces) = .ok ⟨[], some root⟩) :
    ∃ before piece after tree, pieces = before ++ piece :: after ∧
      (∀ other ∈ before ++ after, other.IsOutside) ∧
      piece.tree? = some tree ∧ tree.toElement = root := by
  induction pieces with
  | nil => cases Except.ok.inj h
  | cons piece pieces ih =>
    rw [allTokens, List.forall_mem_append] at hresolves
    rw [allTokens] at h
    cases htree : piece.tree? with
    | some tree =>
      rw [takeUp_tokens hresolves.1 htree rfl] at h
      obtain ⟨hafter, hlast⟩ := outside_of_takeUp h
      have hroot : tree.toElement = root := by
        injection hlast with _ hroot
        exact (Option.some.inj hroot).symm
      exact ⟨[], piece, pieces, tree, rfl, hafter, htree, hroot⟩
    | none =>
      have hout : piece.IsOutside := by
        cases piece with
        | literal | aside => trivial
        | text raw => exact (not_takeUp_text h).elim
        | element | empty => contradiction
      have hskip : Reading.takeUp {} (allTokens [piece] ++ allTokens pieces) =
          .ok ⟨[], some root⟩ := by
        rwa [allTokens, allTokens, List.append_nil]
      rw [takeUp_outside (List.forall_mem_singleton.2 hout)] at hskip
      obtain ⟨before, element, after, tree, rfl, houtside, htree, hroot⟩ := ih hresolves.2 hskip
      exact ⟨piece :: before, element, after, tree, rfl, List.forall_mem_cons.2 ⟨hout, houtside⟩,
        htree, hroot⟩

end Piece

/-! ### What is read -/

theorem parse_of_outlines {source : List Char} {piece : Piece} {tree : Tree}
    (h : piece.Outlines source) (htree : piece.tree? = some tree) :
    parse source = .ok tree.toElement := by
  obtain ⟨before, after, houtside, htokens⟩ := h.alone
  rw [List.forall_mem_append] at houtside
  have hresolves : ∀ token ∈ piece.tokens, token.Resolves := by
    intro token htoken
    apply h.resolves token
    rw [htokens, Piece.allTokens_append, Piece.allTokens]
    exact List.mem_append_right _ (List.mem_append_left _ htoken)
  have hafter := Piece.takeUp_outside houtside.2 (some tree.toElement) []
  rw [List.append_nil] at hafter
  rw [parse_eq_ok_iff]
  refine ⟨h.faultless, ?_⟩
  rw [htokens, Piece.allTokens_append, Piece.allTokens, Piece.takeUp_outside houtside.1,
    Piece.takeUp_tokens hresolves htree rfl]
  exact hafter

theorem outlines_of_parse {source : List Char} {root : Element} (h : parse source = .ok root) :
    ∃ tree, Denotes source tree ∧ tree.toElement = root := by
  obtain ⟨hfault, htakeUp⟩ := parse_eq_ok_iff.1 h
  have hresolves := Reading.resolves_of_takeUp htakeUp
  obtain ⟨pieces, later, hlater, htokens⟩ := Piece.exists_levels htakeUp
  obtain rfl := List.length_eq_zero_iff.1 hlater
  rw [Piece.levelTokens] at htokens
  rw [htokens] at htakeUp
  obtain ⟨before, piece, after, tree, rfl, houtside, htree, hroot⟩ :=
    Piece.alone_of_takeUp (htokens ▸ hresolves) htakeUp
  exact ⟨tree, ⟨piece, ⟨hfault, hresolves, before, after, houtside, htokens⟩, htree⟩, hroot⟩

/-- A text is read as `root` exactly where it denotes a tree with that element, and any other text
is refused. It denotes one tree at most. -/
theorem parse_eq_denoted (source : List Char) :
    (∀ root, parse source = .ok root ↔ ∃ tree, Denotes source tree ∧ tree.toElement = root) ∧
      ((∃ error, parse source = .error error) ↔ ¬∃ tree, Denotes source tree) ∧
      ∀ tree other, Denotes source tree → Denotes source other → tree = other := by
  have hread : ∀ root, parse source = .ok root ↔ ∃ tree, Denotes source tree ∧
      tree.toElement = root := by
    intro root
    constructor
    · exact outlines_of_parse
    · rintro ⟨tree, ⟨piece, houtlines, htree⟩, rfl⟩
      exact parse_of_outlines houtlines htree
  refine ⟨hread, ?_, fun _ _ => Denotes.unique⟩
  cases hparse : parse source with
  | error error =>
    have hnone : ¬∃ tree, Denotes source tree := by
      rintro ⟨tree, htree⟩
      rw [(hread tree.toElement).2 ⟨tree, htree, rfl⟩] at hparse
      contradiction
    exact iff_of_true ⟨error, rfl⟩ hnone
  | ok root =>
    obtain ⟨tree, htree, -⟩ := (hread root).1 hparse
    refine iff_of_false ?_ (not_not.2 ⟨tree, htree⟩)
    rintro ⟨error, herror⟩
    contradiction

end Datamodel.Xml
