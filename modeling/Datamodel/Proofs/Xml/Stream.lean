import Datamodel.Xml.Document

/-!
# Tokens without their places

Places matter only for reporting faults: which tokens a text is cut into, and which tree they make,
does not depend on them. A text is therefore read here as a stream of tokens and the fault that ends
it, if any, and a document is accepted exactly when its stream has no fault and all its tokens can
be taken up.
-/

namespace Datamodel.Xml

structure Stream where
  tokens : List Token
  fault : Option MarkupError
  deriving DecidableEq, Repr

def Stream.prepend (front : List Token) (stream : Stream) : Stream :=
  { stream with tokens := front ++ stream.tokens }

@[simp] theorem Stream.prepend_nil (stream : Stream) : stream.prepend [] = stream := rfl

@[simp] theorem Stream.prepend_prepend (front next : List Token) (stream : Stream) :
    (stream.prepend next).prepend front = stream.prepend (front ++ next) := by
  rw [prepend, prepend, prepend, List.append_assoc]

def Tokens.stream (found : Tokens) : Stream where
  tokens := found.placed.map (·.token)
  fault := found.fault.map (·.2)

theorem stream_cons (first : Placed) (rest : Tokens) :
    (rest.cons first).stream = rest.stream.prepend [first.token] :=
  rfl

/-! ### The cases of cutting off one token -/

section cases

variable {opened : List (List Char)} {place : Nat} {s inside : List Char}

theorem tokensFrom_end (h : s.dropWhile isBlank = []) : tokensFrom opened place s = ⟨[], none⟩ := by
  rw [tokensFrom]
  split
  · rfl
  · rename_i hs
    rw [h] at hs
    contradiction
  · rename_i hs
    rw [h] at hs
    contradiction

theorem tokensFrom_markup (h : s.dropWhile isBlank = '<' :: inside) :
    tokensFrom opened place s =
      match markup inside with
      | .error cause => ⟨[], some (place + Text.size (s.takeWhile isBlank), cause)⟩
      | .ok (piece, rest) =>
        match pieceToken (place + Text.size (s.takeWhile isBlank)) opened piece with
        | .error fault => ⟨[], some fault⟩
        | .ok (token, opened) =>
          (tokensFrom opened (place + Text.size (s.takeWhile isBlank) + piece.size) rest).cons
            ⟨place, token⟩ := by
  rw [tokensFrom]
  split
  · rename_i hs
    rw [h] at hs
    contradiction
  · rename_i hs
    rw [h] at hs
    obtain ⟨-, rfl⟩ := List.cons.inj hs
    dsimp only
    split
    · rename_i hmarkup
      rw [hmarkup]
    · rename_i hmarkup
      exact hmarkup ▸ rfl
  · rename_i hne hs
    rw [h] at hs
    exact (hne (List.cons.inj hs).1.symm).elim

theorem tokensFrom_text {c : Char} (h : s.dropWhile isBlank = c :: inside) (hc : c ≠ '<') :
    tokensFrom opened place s =
      (tokensFrom opened (place + Text.size (s.takeWhile isBlank) +
          Text.size ((c :: inside).takeWhile (· != '<'))) (inside.dropWhile (· != '<'))).cons
        ⟨place, .text (Text.dropEndWhile isBlank ((c :: inside).takeWhile (· != '<')))⟩ := by
  rw [tokensFrom]
  split
  · rename_i hs
    rw [h] at hs
    contradiction
  · rename_i hs
    rw [h] at hs
    obtain ⟨rfl, -⟩ := List.cons.inj hs
    contradiction
  · rename_i hs
    rw [h] at hs
    obtain ⟨rfl, rfl⟩ := List.cons.inj hs
    rfl

end cases

/-- The token of a piece of markup, and whether there is one, does not depend on its place. -/
theorem pieceToken_place (place place' : Nat) (opened : List (List Char)) (piece : Markup) :
    (pieceToken place opened piece).mapError (·.2) =
      (pieceToken place' opened piece).mapError (·.2) := by
  cases piece with
  | literal content => rfl
  | comment content => rfl
  | instruction content => rfl
  | doctype content =>
    rw [pieceToken, pieceToken]
    split <;> rfl
  | tag content =>
    rw [pieceToken, pieceToken]
    split <;> rfl

/-- The stream of a text depends neither on its place nor on the white space in front of it. -/
theorem stream_tokensFrom (opened : List (List Char)) (place place' : Nat) {s t : List Char}
    (h : s.dropWhile isBlank = t.dropWhile isBlank) :
    (tokensFrom opened place s).stream = (tokensFrom opened place' t).stream := by
  match hs : s.dropWhile isBlank with
  | [] =>
    rw [hs] at h
    rw [tokensFrom_end hs, tokensFrom_end h.symm]
  | c :: inside =>
    have hshort : inside.length < s.length := by
      have := Text.length_dropWhile_le isBlank s
      rwa [hs] at this
    rw [hs] at h
    by_cases hc : c = '<'
    · subst hc
      rw [tokensFrom_markup hs, tokensFrom_markup h.symm]
      generalize place + Text.size (s.takeWhile isBlank) = start
      generalize place' + Text.size (t.takeWhile isBlank) = start'
      cases hmarkup : markup inside with
      | error cause => rfl
      | ok found =>
        obtain ⟨piece, rest⟩ := found
        have hrest := length_of_markup hmarkup
        have hpiece := pieceToken_place start start' opened piece
        dsimp only
        cases hleft : pieceToken start opened piece with
        | error fault =>
          cases hright : pieceToken start' opened piece with
          | error fault' =>
            rw [hleft, hright] at hpiece
            exact congrArg (Stream.mk []) (congrArg some (Except.error.inj hpiece))
          | ok found' =>
            rw [hleft, hright] at hpiece
            contradiction
        | ok found =>
          cases hright : pieceToken start' opened piece with
          | error fault' =>
            rw [hleft, hright] at hpiece
            contradiction
          | ok found' =>
            rw [hleft, hright] at hpiece
            obtain rfl := Except.ok.inj hpiece
            dsimp only
            rw [stream_cons, stream_cons, stream_tokensFrom _ _ (start' + piece.size) rfl]
    · have hrest := Text.length_dropWhile_le (· != '<') inside
      rw [tokensFrom_text hs hc, tokensFrom_text h.symm hc, stream_cons, stream_cons]
      -- A text ends at a bracket, so at least its first character is used up.
      rw [stream_tokensFrom opened _ _ rfl]
termination_by s.length

/-! ### The stream of a text -/

def streamFrom (opened : List (List Char)) (s : List Char) : Stream :=
  (tokensFrom opened 0 s).stream

def stream (source : List Char) : Stream :=
  (tokens source).stream

theorem stream_cons_of_ne {c : Char} (h : c ≠ '\uFEFF') (s : List Char) :
    stream (c :: s) = streamFrom [] (c :: s) := by
  unfold stream tokens
  split
  · rename_i hmark
    exact absurd (List.cons.inj hmark).1 h
  · rfl

variable {opened : List (List Char)} {s inside rest : List Char}

theorem streamFrom_end (h : s.dropWhile isBlank = []) : streamFrom opened s = ⟨[], none⟩ := by
  rw [streamFrom, tokensFrom_end h]
  rfl

theorem streamFrom_markup {piece : Markup} {token : Token} {next : List (List Char)}
    (h : s.dropWhile isBlank = '<' :: inside) (hmarkup : markup inside = .ok (piece, rest))
    (hpiece : ∀ place, pieceToken place opened piece = .ok (token, next)) :
    streamFrom opened s = (streamFrom next rest).prepend [token] := by
  rw [streamFrom, tokensFrom_markup h, hmarkup]
  dsimp only
  rw [hpiece]
  dsimp only
  rw [stream_cons, stream_tokensFrom next _ 0 rfl, streamFrom]

theorem streamFrom_text {c : Char} (h : s.dropWhile isBlank = c :: inside) (hc : c ≠ '<') :
    streamFrom opened s =
      (streamFrom opened ((c :: inside).dropWhile (· != '<'))).prepend
        [.text (Text.dropEndWhile isBlank ((c :: inside).takeWhile (· != '<')))] := by
  rw [streamFrom, tokensFrom_text h hc, stream_cons, stream_tokensFrom opened _ 0 rfl, streamFrom,
    List.dropWhile_cons_of_pos (by simpa using hc)]

/-- White space in front of a text makes no token. -/
theorem streamFrom_blanks {blanks : List Char} (h : ∀ c ∈ blanks, isBlank c = true)
    (s : List Char) : streamFrom opened (blanks ++ s) = streamFrom opened s :=
  stream_tokensFrom opened 0 0 (List.dropWhile_append_of_pos h)

/-! ### Taking up a stream -/

namespace Reading

/-- Takes up tokens in order, up to the first fault. -/
def takeUp (reading : Reading) : List Token → Except SyntaxCause Reading
  | [] => .ok reading
  | token :: tokens =>
    match reading.step token with
    | .error cause => .error cause
    | .ok reading => reading.takeUp tokens

theorem takeUp_cons {reading next : Reading} {token : Token} (h : reading.step token = .ok next)
    (tokens : List Token) : reading.takeUp (token :: tokens) = next.takeUp tokens := by
  rw [takeUp, h]

theorem takeUp_close (element : Element) (opened : List Element) (root : Option Element)
    (tokens : List Token) :
    takeUp ⟨element :: opened, root⟩ (.close :: tokens) =
      (place ⟨opened, root⟩ element).takeUp tokens :=
  takeUp_cons rfl tokens

theorem addText_nil (element : Element) : element.addText [] = element := by
  cases element
  rw [Element.addText, String.ofList_nil, String.append_empty]

theorem steps_eq_ok_iff {reading next : Reading} {placed : List Placed} :
    reading.steps placed = .ok next ↔ reading.takeUp (placed.map (·.token)) = .ok next := by
  induction placed generalizing reading with
  | nil => simp [steps, takeUp]
  | cons first placed ih =>
    rw [List.map_cons, steps, takeUp]
    cases reading.step first.token with
    | error cause => simp
    | ok reading => exact ih

theorem finish_eq_ok_iff {reading : Reading} {total : Nat} {root : Element} :
    reading.finish total = .ok root ↔ reading = ⟨[], some root⟩ := by
  obtain ⟨opened, found⟩ := reading
  cases opened with
  | cons element opened => simp [finish]
  | nil => cases found <;> simp [finish]

end Reading

/-- A document is accepted exactly when its stream has no fault and leads to a complete root. -/
theorem parse_eq_ok_iff {source : List Char} {root : Element} :
    parse source = .ok root ↔
      (stream source).fault = none ∧
        ({} : Reading).takeUp (stream source).tokens = .ok { opened := [], root := some root } := by
  unfold parse stream Tokens.stream
  dsimp only
  rw [← Reading.steps_eq_ok_iff]
  cases hsteps : ({} : Reading).steps (tokens source).placed with
  | error cause => simp [bind, Except.bind]
  | ok reading =>
    cases hfault : (tokens source).fault with
    | some fault => simp [bind, Except.bind]
    | none =>
      simp only [bind, Except.bind, Option.map_none, true_and, Except.ok.injEq]
      exact Reading.finish_eq_ok_iff

end Datamodel.Xml
