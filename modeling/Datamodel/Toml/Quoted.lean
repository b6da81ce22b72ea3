import Datamodel.Toml.Scalar

/-!
# Quoted strings

Strings come on one line or over several lines, and with or without escapes. Of the control
characters only the tab may stand in a string as it is; a string over several lines may also hold
line feeds, alone or after a carriage return, which are kept as they are. Each function takes the
text after the opening quotes and gives the string and what follows the closing quotes.
-/

namespace Datamodel.Toml

/-- Whether a character may stand in a string or a comment as it is. -/
def isPlain (c : Char) : Bool :=
  c == '\t' || (' ' ≤ c && c.toNat != 0x7F)

def hexChar? (digits : List Char) : Option Char :=
  if digits.all (digitValue · < 16) then
    let code := ofDigits 16 (digits.map digitValue)
    if code.isValidChar then some (Char.ofNat code) else none
  else
    none

/-- The character of an escape with `count` hexadecimal digits, and what follows it. -/
def hexEscape? (count : Nat) (s : List Char) : Option (Char × List Char) :=
  if (s.take count).length = count then
    (hexChar? (s.take count)).map fun c => (c, s.drop count)
  else
    none

/-- The character that a single one after a backslash stands for. -/
def escapedChar? : Char → Option Char
  | 'b' => some (Char.ofNat 8)
  | 't' => some '\t'
  | 'n' => some '\n'
  | 'f' => some (Char.ofNat 12)
  | 'r' => some '\r'
  | 'e' => some (Char.ofNat 27)
  | '"' => some '"'
  | '\\' => some '\\'
  | _ => none

/-- The number of digits of an escape by code, told by the letter after the backslash. -/
def escapeDigits? : Char → Option Nat
  | 'x' => some 2
  | 'u' => some 4
  | 'U' => some 8
  | _ => none

def escape? : List Char → Option (Char × List Char)
  | [] => none
  | c :: s =>
    match escapedChar? c with
    | some found => some (found, s)
    | none => (escapeDigits? c).bind (hexEscape? · s)

theorem length_of_hexEscape? {count : Nat} {s rest : List Char} {c : Char}
    (h : hexEscape? count s = some (c, rest)) : rest.length ≤ s.length := by
  unfold hexEscape? at h
  split at h
  · obtain ⟨c', -, heq⟩ := Option.map_eq_some_iff.1 h
    obtain ⟨-, rfl⟩ := Prod.mk.inj heq
    simp
  · simp at h

theorem length_of_escape? {s rest : List Char} {c : Char} (h : escape? s = some (c, rest)) :
    rest.length < s.length := by
  cases s with
  | nil => cases h
  | cons first s =>
    rw [escape?] at h
    split at h
    · obtain ⟨-, rfl⟩ := Prod.mk.inj (Option.some.inj h)
      exact Nat.lt_succ_self s.length
    · obtain ⟨count, -, hcount⟩ := Option.bind_eq_some_iff.1 h
      exact Nat.lt_succ_of_le (length_of_hexEscape? hcount)

/-- A string on one line with escapes. -/
def basic (s : List Char) : Option (List Char × List Char) :=
  match s with
  | [] => none
  | '"' :: s => some ([], s)
  | '\\' :: s =>
    match h : escape? s with
    | none => none
    | some (c, rest) =>
      have := length_of_escape? h
      (basic rest).map fun found => (c :: found.1, found.2)
  | c :: s => if isPlain c then (basic s).map fun found => (c :: found.1, found.2) else none
termination_by s.length

/-- A string on one line without escapes. -/
def literal : List Char → Option (List Char × List Char)
  | [] => none
  | c :: s =>
    if c = '\'' then some ([], s)
    else if isPlain c then (literal s).map fun found => (c :: found.1, found.2)
    else none

def afterNewline? : List Char → Option (List Char)
  | '\n' :: s => some s
  | '\r' :: '\n' :: s => some s
  | _ => none

def dropNewline (s : List Char) : List Char :=
  (afterNewline? s).getD s

def dropBlankLines : List Char → List Char
  | ' ' :: s => dropBlankLines s
  | '\t' :: s => dropBlankLines s
  | '\n' :: s => dropBlankLines s
  | '\r' :: '\n' :: s => dropBlankLines s
  | s => s

theorem length_dropBlankLines_le (s : List Char) : (dropBlankLines s).length ≤ s.length := by
  fun_induction dropBlankLines s with
  | case1 s ih | case2 s ih | case3 s ih | case4 s ih =>
    simp
    omega
  | case5 => exact Nat.le_refl _

def isLineBlank (c : Char) : Bool :=
  c == ' ' || c == '\t'

/-- What follows a backslash that ends its line: the next text, without the blanks before it. -/
def continuation? (s : List Char) : Option (List Char) :=
  (afterNewline? (s.dropWhile isLineBlank)).map dropBlankLines

theorem length_of_continuation? {s rest : List Char} (h : continuation? s = some rest) :
    rest.length ≤ s.length := by
  obtain ⟨t, ht, rfl⟩ := Option.map_eq_some_iff.1 h
  have h1 := length_dropBlankLines_le t
  have h2 : (s.dropWhile isLineBlank).length ≤ s.length :=
    (List.dropWhile_suffix isLineBlank).length_le
  have h3 : t.length ≤ (s.dropWhile isLineBlank).length := by
    unfold afterNewline? at ht
    split at ht
    · rename_i heq
      simp only [Option.some.injEq] at ht
      rw [heq, ht]
      simp
    · rename_i heq
      simp only [Option.some.injEq] at ht
      rw [heq, ht]
      simp
      omega
    · simp at ht
  omega

/-- The closing quotes of a string over several lines. Up to two quotes in front of them belong to
the string. -/
def closing? (quote : Char) (s : List Char) : Option (List Char × List Char) :=
  let count := (s.takeWhile (· == quote)).length
  if count < 3 then none
  else
    let extra := min (count - 3) 2
    some (List.replicate extra quote, s.drop (3 + extra))

/-- A string over several lines with escapes. -/
def basicLines (s : List Char) : Option (List Char × List Char) :=
  match closing? '"' s with
  | some found => some found
  | none =>
    match s with
    | [] => none
    | '\\' :: s =>
      match hline : continuation? s with
      | some rest =>
        have := length_of_continuation? hline
        basicLines rest
      | none =>
        match h : escape? s with
        | none => none
        | some (c, rest) =>
          have := length_of_escape? h
          (basicLines rest).map fun found => (c :: found.1, found.2)
    | '\r' :: '\n' :: s =>
      (basicLines s).map fun found => ('\r' :: '\n' :: found.1, found.2)
    | c :: s =>
      if isPlain c || c == '\n' then (basicLines s).map fun found => (c :: found.1, found.2)
      else none
termination_by s.length
decreasing_by all_goals simp <;> omega

/-- A string over several lines without escapes. -/
def literalLines (s : List Char) : Option (List Char × List Char) :=
  match closing? '\'' s with
  | some found => some found
  | none =>
    match s with
    | [] => none
    | '\r' :: '\n' :: s =>
      (literalLines s).map fun found => ('\r' :: '\n' :: found.1, found.2)
    | c :: s =>
      if isPlain c || c == '\n' then (literalLines s).map fun found => (c :: found.1, found.2)
      else none

/-- A quoted string of any of the four kinds, and what follows it. A line feed right after the
opening quotes of a string over several lines does not belong to it. -/
def quoted? : List Char → Option (List Char × List Char)
  | '"' :: '"' :: '"' :: s => basicLines (dropNewline s)
  | '\'' :: '\'' :: '\'' :: s => literalLines (dropNewline s)
  | '"' :: s => basic s
  | '\'' :: s => literal s
  | _ => none

end Datamodel.Toml
