import Datamodel.Xml.Reference

/-!
# The content of a start tag

Between its brackets a start tag holds a name, which reaches up to the first white space, and
attributes: a key, an equals sign and a quoted value, with white space allowed around the sign and
not needed after a value. Names and keys are not checked further. Attributes are taken one at a
time, so the first fault in the text is the one reported. Places are byte offsets from just after
the opening bracket.
-/

namespace Datamodel.Xml

/-- The white space of a document: space, tab, carriage return and line feed. -/
def isBlank (c : Char) : Bool :=
  c == ' ' || c == '\t' || c == '\r' || c == '\n'

inductive AttributeError where
  | missingEquals (place : Nat)
  | missingValue (place : Nat)
  | unquotedValue (place : Nat)
  | unclosedQuote (place : Nat) (quote : Char)
  | repeated (place previous : Nat)
  | reference (cause : ReferenceError)
  deriving DecidableEq, Repr

def AttributeError.message : AttributeError → String
  | .missingEquals place =>
    "position " ++ toString place ++ ": attribute key must be directly followed by `=` or space"
  | .missingValue place =>
    "position " ++ toString place ++ ": `=` must be followed by an attribute value"
  | .unquotedValue place =>
    "position " ++ toString place ++ ": attribute value must be enclosed in `\"` or `'`"
  | .unclosedQuote place quote =>
    "position " ++ toString place ++ ": missing closing quote `" ++ quote.toString ++
      "` in attribute value"
  | .repeated place previous =>
    "position " ++ toString place ++ ": duplicated attribute, previous declaration at position " ++
      toString previous
  | .reference cause => cause.message

/-- The value after an equals sign: the text up to the quote that opens it, and what follows. -/
def quotedValue (place : Nat) (s : List Char) :
    Except AttributeError (Nat × List Char × List Char) :=
  let blanks := s.takeWhile isBlank
  let start := place + Text.size blanks
  match s.dropWhile isBlank with
  | [] => .error (.missingValue start)
  | quote :: s =>
    if quote == '"' || quote == '\'' then
      let value := s.takeWhile (· != quote)
      match s.dropWhile (· != quote) with
      | [] => .error (.unclosedQuote (start + 1 + Text.size value) quote)
      | _ :: rest => .ok (start + Text.size value + 2, value, rest)
    else
      .error (.unquotedValue start)

theorem length_of_quotedValue {place after : Nat} {s value rest : List Char}
    (h : quotedValue place s = .ok (after, value, rest)) : rest.length < s.length := by
  unfold quotedValue at h
  simp only at h
  split at h
  · simp at h
  · rename_i quote t ht
    split at h
    · split at h
      · simp at h
      · rename_i c u hu
        simp only [Except.ok.injEq, Prod.mk.injEq] at h
        obtain ⟨-, -, rfl⟩ := h
        have h1 := Text.length_dropWhile_le isBlank s
        have h2 := Text.length_dropWhile_le (· != quote) t
        rw [ht] at h1
        rw [hu] at h2
        simp at h1 h2
        omega
    · simp at h

/-- The end of a key: an equals sign or white space. -/
def endsKey (c : Char) : Bool :=
  c == '=' || isBlank c

/-- Reads the attributes of a start tag from offset `place` on. `seen` holds the keys already read
with their places. -/
def attributesFrom (seen : List (List Char × Nat)) (place : Nat) (s : List Char) :
    Except AttributeError (List (String × String)) :=
  match hkey : s.dropWhile isBlank with
  | [] => .ok []
  | first :: afterFirst =>
    let keyPlace := place + Text.size (s.takeWhile isBlank)
    let key := first :: afterFirst.takeWhile (!endsKey ·)
    let afterKey := afterFirst.dropWhile (!endsKey ·)
    let signPlace := keyPlace + Text.size key + Text.size (afterKey.takeWhile isBlank)
    match hsign : afterKey.dropWhile isBlank with
    | [] => .error (.missingEquals signPlace)
    | sign :: afterSign =>
      if sign != '=' then
        .error (.missingEquals signPlace)
      else
        match seen.find? (·.1 == key) with
        | some previous => .error (.repeated keyPlace previous.2)
        | none =>
          match hvalue : quotedValue (signPlace + 1) afterSign with
          | .error cause => .error cause
          | .ok (nextPlace, raw, rest) =>
            have : rest.length < s.length := by
              have h1 := Text.length_dropWhile_le isBlank s
              have h2 := Text.length_dropWhile_le (!endsKey ·) afterFirst
              have h3 := Text.length_dropWhile_le isBlank afterKey
              have h4 := length_of_quotedValue hvalue
              rw [hkey] at h1
              rw [hsign] at h3
              simp only [List.length_cons] at h1 h3
              simp only [afterKey] at h3
              omega
            match resolve raw with
            | .error cause => .error (.reference cause)
            | .ok value =>
              (attributesFrom ((key, keyPlace) :: seen) nextPlace rest).map
                ((String.ofList key, String.ofList value) :: ·)
termination_by s.length

def tagName (content : List Char) : List Char :=
  content.takeWhile (!isBlank ·)

def tagAttributes (content : List Char) : Except AttributeError (List (String × String)) :=
  attributesFrom [] (Text.size (tagName content)) (content.dropWhile (!isBlank ·))

end Datamodel.Xml
