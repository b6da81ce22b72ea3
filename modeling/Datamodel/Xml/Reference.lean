import Datamodel.Text.Basic

/-!
# References in text

Text and attribute values name reserved characters by references: one of five names, or the number
of a character in decimal or, after an `x`, in hexadecimal. Every ampersand opens a reference, which
ends at the next semicolon before any other ampersand. Places in error messages are byte offsets
within the text that is resolved.
-/

namespace Datamodel.Xml

inductive ReferenceError where
  /-- No semicolon closes the reference; from the ampersand to the end of the text. -/
  | unterminated (start stop : Nat)
  /-- The name is none of the five; the range of the name. -/
  | unknownName (start stop : Nat) (name : String)
  | signedNumber
  | emptyNumber
  | invalidDigit
  | numberTooLarge
  | zero
  /-- The number belongs to no character. -/
  | noCharacter (code : Nat)
  deriving DecidableEq, Repr

def ReferenceError.message : ReferenceError → String
  | .unterminated start stop =>
    "Error while escaping character at range " ++ toString start ++ ".." ++ toString stop ++
      ": Cannot find ';' after '&'"
  | .unknownName start stop name =>
    "at " ++ toString start ++ ".." ++ toString stop ++ ": unrecognized entity `" ++ name ++ "`"
  | .signedNumber => "invalid character reference: unexpected number sign"
  | .emptyNumber => "invalid character reference: cannot parse integer from empty string"
  | .invalidDigit => "invalid character reference: invalid digit found in string"
  | .numberTooLarge => "invalid character reference: number too large to fit in target type"
  | .zero => "invalid character reference: 0x0 character is not permitted in XML"
  | .noCharacter code =>
    "invalid character reference: `" ++ toString code ++ "` is not a valid codepoint"

/-- The value of a digit in bases up to sixteen, letters of either case counting from ten. -/
def digit? (base : Nat) (c : Char) : Option Nat :=
  let value :=
    if '0' ≤ c ∧ c ≤ '9' then some (c.toNat - '0'.toNat)
    else if 'a' ≤ c ∧ c ≤ 'f' then some (c.toNat - 'a'.toNat + 10)
    else if 'A' ≤ c ∧ c ≤ 'F' then some (c.toNat - 'A'.toNat + 10)
    else none
  value.filter (· < base)

/-- Reads the digits of a number of at most 32 bits. A foreign character counts before the size, and
the first digit that makes the number too large ends the reading. -/
def number (base : Nat) : Nat → List Char → Except ReferenceError Nat
  | value, [] => .ok value
  | value, c :: s =>
    match digit? base c with
    | none => .error .invalidDigit
    | some d =>
      if value * base + d < 0x100000000 then number base (value * base + d) s
      else .error .numberTooLarge

/-- The number of a numeric reference, which has no sign and at least one digit. -/
def unsignedNumber (base : Nat) : List Char → Except ReferenceError Nat
  | [] => .error .emptyNumber
  | '+' :: _ => .error .signedNumber
  | '-' :: _ => .error .signedNumber
  | s => number base 0 s

def characterOf (code : Nat) : Except ReferenceError Char :=
  if code = 0 then .error .zero
  else if code.isValidChar then .ok (Char.ofNat code)
  else .error (.noCharacter code)

def named? : List Char → Option Char
  | ['l', 't'] => some '<'
  | ['g', 't'] => some '>'
  | ['a', 'm', 'p'] => some '&'
  | ['a', 'p', 'o', 's'] => some '\''
  | ['q', 'u', 'o', 't'] => some '"'
  | _ => none

/-- The character that the reference with this body stands for; `start` is the offset of the
body. -/
def resolveReference (start : Nat) : List Char → Except ReferenceError Char
  | '#' :: 'x' :: s => unsignedNumber 16 s >>= characterOf
  | '#' :: s => unsignedNumber 10 s >>= characterOf
  | s =>
    match named? s with
    | some c => .ok c
    | none => .error (.unknownName start (start + Text.size s) (String.ofList s))

/-- The body of a reference and the text after its semicolon, unless an ampersand or the end of the
text comes first. -/
def referenceBody? : List Char → Option (List Char × List Char)
  | [] => none
  | '&' :: _ => none
  | ';' :: s => some ([], s)
  | c :: s => (referenceBody? s).map fun cut => (c :: cut.1, cut.2)

theorem length_of_referenceBody? {s body rest : List Char}
    (h : referenceBody? s = some (body, rest)) : rest.length < s.length := by
  fun_induction referenceBody? s generalizing body with
  | case1 => simp at h
  | case2 => simp at h
  | case3 s => simp_all
  | case4 c s _ _ ih =>
    obtain ⟨cut, hcut, heq⟩ := Option.map_eq_some_iff.1 h
    obtain ⟨rfl, rfl⟩ := Prod.mk.inj heq
    have := ih hcut
    simp
    omega

/-- Resolves the references of a text from offset `offset` on; `total` is the size of all of it. -/
def resolveFrom (total offset : Nat) (s : List Char) : Except ReferenceError (List Char) :=
  match s with
  | [] => .ok []
  | c :: s =>
    if c = '&' then
      match h : referenceBody? s with
      | none => .error (.unterminated offset total)
      | some (body, rest) =>
        have := length_of_referenceBody? h
        match resolveReference (offset + 1) body with
        | .error cause => .error cause
        | .ok character =>
          (resolveFrom total (offset + Text.size body + 2) rest).map (character :: ·)
    else
      (resolveFrom total (offset + c.utf8Size) s).map (c :: ·)
termination_by s.length

/-- The text with every reference replaced by its character, or the first fault. -/
def resolve (s : List Char) : Except ReferenceError (List Char) :=
  resolveFrom (Text.size s) 0 s

end Datamodel.Xml
