import Datamodel.Xml.Tag

/-!
# The tokens of a document

A document alternates runs of text and markup. White space around a run of text does not belong to
it, and a run of nothing but white space is no token. Tags are told apart by their slash, and an end
tag has to repeat the name of the innermost start tag that is still open; what a token means for the
tree is not decided here. Comments, processing instructions and declarations are tokens without
content.

A token is placed at the end of the markup before it, or, right after a run of text, at its own
opening bracket. A fault in the markup itself is placed at the opening bracket.
-/

namespace Datamodel.Xml

inductive Token where
  /-- A start tag, by what stands between its brackets. -/
  | open (content : List Char)
  /-- A start tag that closes itself, by what stands before its slash. -/
  | empty (content : List Char)
  | close
  /-- A run of text, its references not yet resolved. -/
  | text (raw : List Char)
  /-- What a literal block holds. -/
  | literal (content : List Char)
  /-- A comment, a processing instruction or a declaration. -/
  | aside
  deriving DecidableEq, Repr

inductive MarkupError where
  | unknown
  | literalNotClosed
  | commentNotClosed
  | doctypeNotClosed
  | instructionNotClosed
  | tagNotClosed
  | doctypeWithoutName
  /-- An end tag for another name than the innermost open one. -/
  | mismatched (expected found : String)
  /-- An end tag while nothing is open. -/
  | unmatched (found : String)
  deriving DecidableEq, Repr

def MarkupError.message : MarkupError → String
  | .unknown => "syntax error: unknown or missed symbol in markup"
  | .literalNotClosed => "syntax error: CDATA not closed: `]]>` not found before end of input"
  | .commentNotClosed => "syntax error: comment not closed: `-->` not found before end of input"
  | .doctypeNotClosed => "syntax error: DOCTYPE not closed: `>` not found before end of input"
  | .instructionNotClosed =>
    "syntax error: processing instruction or xml declaration not closed: " ++
      "`?>` not found before end of input"
  | .tagNotClosed => "syntax error: tag not closed: `>` not found before end of input"
  | .doctypeWithoutName =>
    "ill-formed document: `<!DOCTYPE>` declaration does not contain a name of a document type"
  | .mismatched expected found =>
    "ill-formed document: expected `</" ++ expected ++ ">`, but `</" ++ found ++ ">` was found"
  | .unmatched found =>
    "ill-formed document: close tag `</" ++ found ++ ">` does not match any open tag"

/-! ## Pieces of markup -/

/-- A piece of markup as it stands in the source. -/
inductive Markup where
  | literal (content : List Char)
  | comment (content : List Char)
  /-- A declaration, with everything between its brackets. -/
  | doctype (content : List Char)
  /-- A processing instruction, with everything between its question marks. -/
  | instruction (content : List Char)
  /-- A tag, with everything between its brackets. -/
  | tag (content : List Char)
  deriving DecidableEq, Repr

def Markup.size : Markup → Nat
  | .literal content => 12 + Text.size content
  | .comment content => 7 + Text.size content
  | .doctype content => 2 + Text.size content
  | .instruction content => 4 + Text.size content
  | .tag content => 2 + Text.size content

/-- What follows `word` at the front of a text, letters of either case taken for the same. -/
def afterWord? (word : List Char) (s : List Char) : Option (List Char) :=
  match word, s with
  | [], s => some s
  | _, [] => none
  | w :: word, c :: s => if w.toLower = c.toLower then afterWord? word s else none

/-- The text up to the closing bracket that balances the opening brackets in it, and what
follows. -/
def balanced : Nat → List Char → Option (List Char × List Char)
  | _, [] => none
  | depth, '<' :: s => (balanced (depth + 1) s).map fun cut => ('<' :: cut.1, cut.2)
  | 0, '>' :: s => some ([], s)
  | depth + 1, '>' :: s => (balanced depth s).map fun cut => ('>' :: cut.1, cut.2)
  | depth, c :: s => (balanced depth s).map fun cut => (c :: cut.1, cut.2)

theorem length_of_balanced {depth : Nat} {s content rest : List Char}
    (h : balanced depth s = some (content, rest)) : rest.length < s.length := by
  fun_induction balanced depth s generalizing content with
  | case1 => simp at h
  | case3 => simp_all
  | case2 depth s ih | case4 depth s ih | case5 depth s c _ _ _ ih =>
    obtain ⟨cut, hcut, heq⟩ := Option.map_eq_some_iff.1 h
    obtain ⟨rfl, rfl⟩ := Prod.mk.inj heq
    have := ih hcut
    simp
    omega

/-- The text of a tag up to the first closing bracket outside quotes, and what follows. `quote` is
the quote that is open. -/
def tagEnd (quote : Option Char) : List Char → Option (List Char × List Char)
  | [] => none
  | c :: s =>
    match quote with
    | some q => (tagEnd (if c = q then none else some q) s).map fun cut => (c :: cut.1, cut.2)
    | none =>
      if c = '>' then some ([], s)
      else
        (tagEnd (if c = '"' ∨ c = '\'' then some c else none) s).map
          fun cut => (c :: cut.1, cut.2)

theorem length_of_tagEnd {quote : Option Char} {s content rest : List Char}
    (h : tagEnd quote s = some (content, rest)) : rest.length < s.length := by
  induction s generalizing quote content with
  | nil => simp [tagEnd] at h
  | cons c s ih =>
    unfold tagEnd at h
    split at h
    · obtain ⟨cut, hcut, heq⟩ := Option.map_eq_some_iff.1 h
      obtain ⟨rfl, rfl⟩ := Prod.mk.inj heq
      have := ih hcut
      simp
      omega
    · split at h
      · simp_all
      · obtain ⟨cut, hcut, heq⟩ := Option.map_eq_some_iff.1 h
        obtain ⟨rfl, rfl⟩ := Prod.mk.inj heq
        have := ih hcut
        simp
        omega

/-- The piece of markup after an opening bracket, and what follows it. -/
def markup : List Char → Except MarkupError (Markup × List Char)
  | '!' :: '[' :: s =>
    match s with
    | 'C' :: 'D' :: 'A' :: 'T' :: 'A' :: '[' :: s =>
      match Text.cutAt "]]>".toList s with
      | none => .error .literalNotClosed
      | some (content, rest) => .ok (.literal content, rest)
    | _ => .error .literalNotClosed
  | '!' :: '-' :: s =>
    match s with
    | '-' :: s =>
      match Text.cutAt "-->".toList s with
      | none => .error .commentNotClosed
      | some (content, rest) => .ok (.comment content, rest)
    | _ => .error .commentNotClosed
  | '!' :: s =>
    match s with
    | c :: _ =>
      if c = 'D' ∨ c = 'd' then
        match balanced 0 s with
        | none => .error .doctypeNotClosed
        | some (content, rest) =>
          if (afterWord? "DOCTYPE".toList content).isSome then
            .ok (.doctype ('!' :: content), rest)
          else
            .error .doctypeNotClosed
      else
        .error .unknown
    | [] => .error .unknown
  | '?' :: '>' :: _ => .error .instructionNotClosed
  | '?' :: s =>
    match Text.cutAt "?>".toList s with
    | none => .error .instructionNotClosed
    | some (content, rest) => .ok (.instruction content, rest)
  | s =>
    match tagEnd none s with
    | none => .error .tagNotClosed
    | some (content, rest) => .ok (.tag content, rest)

theorem length_of_markup {s rest : List Char} {piece : Markup}
    (h : markup s = .ok (piece, rest)) : rest.length < s.length := by
  unfold markup at h
  split at h
  · split at h
    · split at h
      · simp at h
      · rename_i h2
        obtain ⟨-, rfl⟩ := Prod.mk.inj (Except.ok.inj h)
        have := Text.length_of_cutAt h2
        simp at *
        omega
    · simp at h
  · split at h
    · split at h
      · simp at h
      · rename_i h2
        obtain ⟨-, rfl⟩ := Prod.mk.inj (Except.ok.inj h)
        have := Text.length_of_cutAt h2
        simp at *
        omega
    · simp at h
  · split at h
    · split at h
      · split at h
        · simp at h
        · rename_i h2
          split at h
          · obtain ⟨-, rfl⟩ := Prod.mk.inj (Except.ok.inj h)
            have := length_of_balanced h2
            simp at *
            omega
          · simp at h
      · simp at h
    · simp at h
  · simp at h
  · split at h
    · simp at h
    · rename_i h2
      obtain ⟨-, rfl⟩ := Prod.mk.inj (Except.ok.inj h)
      have := Text.length_of_cutAt h2
      simp at *
      omega
  · split at h
    · simp at h
    · rename_i h2
      obtain ⟨-, rfl⟩ := Prod.mk.inj (Except.ok.inj h)
      exact length_of_tagEnd h2

/-! ## From pieces to tokens -/

structure Placed where
  place : Nat
  token : Token
  deriving DecidableEq, Repr

/-- The name in an end tag, without the blanks after it. Where nothing but blanks stands there, they
are the name. -/
def closingName (content : List Char) : List Char :=
  match Text.dropEndWhile isBlank content with
  | [] => content
  | name => name

/-- The token of a tag and the names that are open after it, innermost first. -/
def tagToken (opened : List (List Char)) (content : List Char) :
    Except MarkupError (Token × List (List Char)) :=
  match content with
  | '/' :: name =>
    let name := closingName name
    match opened with
    | [] => .error (.unmatched (String.ofList name))
    | expected :: opened =>
      if expected = name then .ok (.close, opened)
      else .error (.mismatched (String.ofList expected) (String.ofList name))
  | content =>
    if content.getLast? = some '/' then .ok (.empty content.dropLast, opened)
    else .ok (.open content, tagName content :: opened)

/-- The token of a piece of markup that starts at `place`, and the names that are open after it. A
fault comes with its own place. -/
def pieceToken (place : Nat) (opened : List (List Char)) :
    Markup → Except (Nat × MarkupError) (Token × List (List Char))
  | .literal content => .ok (.literal content, opened)
  | .comment _ => .ok (.aside, opened)
  | .instruction _ => .ok (.aside, opened)
  | .doctype content =>
    if (content.drop "!DOCTYPE".length).all isBlank then
      .error (place + 1 + Text.size content, .doctypeWithoutName)
    else
      .ok (.aside, opened)
  | .tag content =>
    match tagToken opened content with
    | .error cause => .error (place, cause)
    | .ok found => .ok found

/-- The tokens of a document up to its first fault, and that fault with its place. -/
structure Tokens where
  placed : List Placed
  fault : Option (Nat × MarkupError)
  deriving DecidableEq, Repr

def Tokens.cons (first : Placed) (rest : Tokens) : Tokens :=
  { rest with placed := first :: rest.placed }

/-- The tokens of the rest of a document from offset `place` on, inside the elements `opened`. -/
def tokensFrom (opened : List (List Char)) (place : Nat) (s : List Char) : Tokens :=
  let start := place + Text.size (s.takeWhile isBlank)
  match hs : s.dropWhile isBlank with
  | [] => ⟨[], none⟩
  | '<' :: inside =>
    match hmarkup : markup inside with
    | .error cause => ⟨[], some (start, cause)⟩
    | .ok (piece, rest) =>
      match pieceToken start opened piece with
      | .error fault => ⟨[], some fault⟩
      | .ok (token, opened) =>
        have : rest.length < s.length := by
          have h1 := Text.length_dropWhile_le isBlank s
          have h2 := length_of_markup hmarkup
          rw [hs] at h1
          simp at h1
          omega
        (tokensFrom opened (start + piece.size) rest).cons ⟨place, token⟩
  | c :: s' =>
    let run := (c :: s').takeWhile (· != '<')
    have : (s'.dropWhile (· != '<')).length < s.length := by
      have h1 := Text.length_dropWhile_le isBlank s
      have h2 := Text.length_dropWhile_le (· != '<') s'
      rw [hs] at h1
      simp at h1
      omega
    (tokensFrom opened (start + Text.size run) (s'.dropWhile (· != '<'))).cons
      ⟨place, .text (Text.dropEndWhile isBlank run)⟩
termination_by s.length

/-- The tokens of a document. A byte order mark in front is not part of it. -/
def tokens : List Char → Tokens
  | '\uFEFF' :: s => tokensFrom [] 0 s
  | s => tokensFrom [] 0 s

end Datamodel.Xml
