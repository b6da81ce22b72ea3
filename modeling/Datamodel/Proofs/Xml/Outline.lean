import Datamodel.Proofs.Xml.Children
import Datamodel.Proofs.Xml.Stream

/-!
# The outline of a document

What a document says can be told from its tokens by recursion, without a stack of open elements. The
tokens are those of pieces, one after the other, where the tokens of an element are its start tag,
the tokens of the pieces inside it and its end tag. A document has one piece that is an element,
beside which nothing but literal blocks and comments may stand. The tree of that element is defined
by recursion on the pieces: the text of an element is what its own texts and blocks say, in order,
and its children are the elements directly inside it, in order.

No text has two outlines: read from the last token on, the tokens give the pieces back.
-/

namespace Datamodel.Xml

/-- An element with its children in document order. -/
inductive Tree where
  | node (name : String) (attributes : List (String × String)) (text : String)
      (children : List Tree)

namespace Tree

mutual

def toElement : Tree → Element
  | .node name attributes text children =>
    { name, attributes, text, children := Element.grouped (toElements children) }

def toElements : List Tree → List Element
  | [] => []
  | tree :: trees => toElement tree :: toElements trees

end

theorem toElements_eq_map (trees : List Tree) : toElements trees = trees.map toElement := by
  induction trees with
  | nil => rfl
  | cons tree trees ih => rw [toElements, ih, List.map_cons]

end Tree

/-- A piece of a document. -/
inductive Piece where
  /-- An element, by what stands in its start tag and the pieces up to its end tag. -/
  | element (tag : List Char) (content : List Piece)
  /-- An element that closes itself. -/
  | empty (tag : List Char)
  | text (raw : List Char)
  | literal (content : List Char)
  | aside

/-- The attributes in a tag, where they can be read. -/
def attributesOf (tag : List Char) : List (String × String) :=
  (tagAttributes tag).toOption.getD []

/-- What a run of text says, where its references can be resolved. -/
def textOf (raw : List Char) : List Char :=
  (resolve raw).toOption.getD []

/-- Whether what a token holds can be resolved: the attributes of a tag, the references of a
text. -/
def Token.Resolves : Token → Prop
  | .open tag => ∃ attributes, tagAttributes tag = .ok attributes
  | .empty tag => ∃ attributes, tagAttributes tag = .ok attributes
  | .text raw => ∃ text, resolve raw = .ok text
  | .close | .literal _ | .aside => True

namespace Piece

mutual

def tokens : Piece → List Token
  | .element tag content => .open tag :: (allTokens content ++ [.close])
  | .empty tag => [.empty tag]
  | .text raw => [.text raw]
  | .literal content => [.literal content]
  | .aside => [.aside]

def allTokens : List Piece → List Token
  | [] => []
  | piece :: pieces => tokens piece ++ allTokens pieces

end

def ownText : Piece → List Char
  | .text raw => textOf raw
  | .literal content => content
  | .element _ _ | .empty _ | .aside => []

mutual

def tree? : Piece → Option Tree
  | .element tag content =>
    some (.node (String.ofList (tagName tag)) (attributesOf tag)
      (String.ofList (content.flatMap ownText)) (trees content))
  | .empty tag => some (.node (String.ofList (tagName tag)) (attributesOf tag) "" [])
  | .text _ | .literal _ | .aside => none

def trees : List Piece → List Tree
  | [] => []
  | piece :: pieces => (tree? piece).toList ++ trees pieces

end

/-- Whether a piece may stand beside the root. -/
def IsOutside : Piece → Prop
  | .literal _ | .aside => True
  | .element _ _ | .empty _ | .text _ => False

/-- The element of a text outlined by a piece, if it is one: the text is cut into tokens without a
fault, all of them can be resolved, and they are those of the piece, with nothing beside it that may
not stand there. -/
structure Outlines (piece : Piece) (source : List Char) : Prop where
  faultless : (stream source).fault = none
  resolves : ∀ token ∈ (stream source).tokens, token.Resolves
  alone : ∃ before after, (∀ other ∈ before ++ after, other.IsOutside) ∧
    (stream source).tokens = allTokens (before ++ piece :: after)

theorem allTokens_append (front back : List Piece) :
    allTokens (front ++ back) = allTokens front ++ allTokens back := by
  induction front with
  | nil => rfl
  | cons piece front ih => rw [List.cons_append, allTokens, allTokens, ih, List.append_assoc]

end Piece

/-- The tree that a text denotes, if it is a document. -/
def Denotes (source : List Char) (tree : Tree) : Prop :=
  ∃ piece : Piece, piece.Outlines source ∧ piece.tree? = some tree

/-! ### One outline only -/

namespace Piece

/-- The pieces that tokens begin with, and those on each level around them, read from the last token
on. -/
def levels : List Token → List Piece × List (List Piece)
  | [] => ([], [])
  | .open tag :: tokens =>
    (.element tag (levels tokens).1 :: (levels tokens).2.headD [], (levels tokens).2.tail)
  | .close :: tokens => ([], (levels tokens).1 :: (levels tokens).2)
  | .empty tag :: tokens => (.empty tag :: (levels tokens).1, (levels tokens).2)
  | .text raw :: tokens => (.text raw :: (levels tokens).1, (levels tokens).2)
  | .literal content :: tokens => (.literal content :: (levels tokens).1, (levels tokens).2)
  | .aside :: tokens => (.aside :: (levels tokens).1, (levels tokens).2)

mutual

theorem levels_tokens (piece : Piece) (rest : List Token) :
    levels (piece.tokens ++ rest) = (piece :: (levels rest).1, (levels rest).2) := by
  cases piece with
  | element tag content =>
    rw [tokens, List.cons_append, List.append_assoc, levels, levels_allTokens,
      List.singleton_append, levels, List.append_nil]
    rfl
  | empty | text | literal | aside => rfl

theorem levels_allTokens (pieces : List Piece) (rest : List Token) :
    levels (allTokens pieces ++ rest) = (pieces ++ (levels rest).1, (levels rest).2) := by
  cases pieces with
  | nil => rfl
  | cons piece pieces =>
    rw [allTokens, List.append_assoc, levels_tokens, levels_allTokens]
    rfl

end

theorem allTokens_inj {pieces others : List Piece} (h : allTokens pieces = allTokens others) :
    pieces = others := by
  have hread : ∀ pieces : List Piece, levels (allTokens pieces) = (pieces, []) := by
    intro pieces
    have hlevels := levels_allTokens pieces []
    rwa [List.append_nil, levels, List.append_nil] at hlevels
  have hboth := hread pieces
  rw [h, hread others] at hboth
  exact (Prod.mk.inj hboth).1.symm

theorem trees_append (front back : List Piece) :
    trees (front ++ back) = trees front ++ trees back := by
  induction front with
  | nil => rfl
  | cons piece front ih => rw [List.cons_append, trees, trees, ih, List.append_assoc]

theorem trees_outside {pieces : List Piece} (h : ∀ piece ∈ pieces, piece.IsOutside) :
    trees pieces = [] := by
  induction pieces with
  | nil => rfl
  | cons piece pieces ih =>
    rw [trees, ih fun other hother => h other (List.mem_cons_of_mem piece hother)]
    have houtside := h piece List.mem_cons_self
    cases piece with
    | literal | aside => rfl
    | element | empty | text => exact houtside.elim

/-- The only tree in a document is that of its root. -/
theorem trees_alone {before after : List Piece} {piece : Piece} {tree : Tree}
    (h : ∀ other ∈ before ++ after, other.IsOutside) (htree : piece.tree? = some tree) :
    trees (before ++ piece :: after) = [tree] := by
  rw [List.forall_mem_append] at h
  rw [trees_append, trees, trees_outside h.1, trees_outside h.2, htree]
  rfl

end Piece

/-- A text denotes one tree at most. -/
theorem Denotes.unique {source : List Char} {tree other : Tree} (h : Denotes source tree)
    (hother : Denotes source other) : tree = other := by
  obtain ⟨piece, houtlines, htree⟩ := h
  obtain ⟨piece', houtlines', htree'⟩ := hother
  obtain ⟨before, after, houtside, htokens⟩ := houtlines.alone
  obtain ⟨before', after', houtside', htokens'⟩ := houtlines'.alone
  have hpieces : before ++ piece :: after = before' ++ piece' :: after' :=
    Piece.allTokens_inj (htokens.symm.trans htokens')
  have htrees := Piece.trees_alone houtside htree
  rw [hpieces, Piece.trees_alone houtside' htree'] at htrees
  exact (List.cons.inj htrees).1.symm

end Datamodel.Xml
