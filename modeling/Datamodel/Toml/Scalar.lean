import Datamodel.Text.Basic
import Datamodel.Toml.Value

/-!
# Unquoted values

A value that is not quoted is a single word: a boolean, an integer in one of four bases, a float, or
a date or time. Digits may be grouped by single underscores, each between two digits. Decimal
numbers have no leading zero, and only they have a sign.

A word that starts like a grouped integer is taken for one even where its groups do not consist of
digits; it is then misspelt.
-/

namespace Datamodel.Toml

def isDigit (c : Char) : Bool :=
  '0' ≤ c && c ≤ '9'

/-- The value of a digit, letters counting from ten. -/
def digitValue (c : Char) : Nat :=
  if isDigit c then c.toNat - '0'.toNat
  else if 'a' ≤ c && c ≤ 'z' then c.toNat - 'a'.toNat + 10
  else if 'A' ≤ c && c ≤ 'Z' then c.toNat - 'A'.toNat + 10
  else 36

/-- The digits of a group, with the underscores between them removed. `afterDigit` tells whether a
digit stands right before. -/
def digitsFrom (base : Nat) : (afterDigit : Bool) → List Char → Option (List Nat)
  | afterDigit, [] => if afterDigit then some [] else none
  | true, '_' :: s => digitsFrom base false s
  | _, c :: s =>
    if digitValue c < base then (digitsFrom base true s).map (digitValue c :: ·) else none

def digits? (base : Nat) (s : List Char) : Option (List Nat) :=
  digitsFrom base false s

def ofDigits (base : Nat) (digits : List Nat) : Nat :=
  digits.foldl (fun value digit => value * base + digit) 0

/-- The digits of a decimal number, which are a single zero or start with another digit. -/
def decimal? (s : List Char) : Option (List Nat) :=
  match digits? 10 s with
  | some [d] => some [d]
  | some (0 :: _) => none
  | found => found

def splitSign : List Char → Bool × List Char
  | '-' :: s => (true, s)
  | '+' :: s => (false, s)
  | s => (false, s)

/-- The digits of a decimal number and whether it has a minus sign. -/
def signed? (s : List Char) : Option (Bool × List Nat) :=
  let (negative, unsigned) := splitSign s
  (decimal? unsigned).map (negative, ·)

def withSign (negative : Bool) (value : Nat) : Int :=
  if negative then -(value : Int) else (value : Int)

def integer? : List Char → Option Int
  | '0' :: 'x' :: s => (digits? 16 s).map fun ds => (ofDigits 16 ds : Int)
  | '0' :: 'o' :: s => (digits? 8 s).map fun ds => (ofDigits 8 ds : Int)
  | '0' :: 'b' :: s => (digits? 2 s).map fun ds => (ofDigits 2 ds : Int)
  | s => (signed? s).map fun (negative, ds) => withSign negative (ofDigits 10 ds)

def isHexDigit (c : Char) : Bool :=
  decide (digitValue c < 16)

/-- Whether the groups after an underscore look like digits from outside: each starts with a digit
to the base sixteen, and all but the last end with one. -/
def areLooseGroups : List (List Char) → Bool
  | [] => true
  | [group] => group.head?.any isHexDigit
  | group :: groups =>
    group.head?.any isHexDigit && group.getLast?.any isHexDigit && areLooseGroups groups

/-- Whether a character makes a word a float. -/
def isFloatMark (c : Char) : Bool :=
  c == '.' || c == 'e' || c == 'E'

/-- Whether a word starts like a grouped integer: after its sign come digits without a leading zero,
and the groups that follow look like digits from outside. -/
def isLooseDecimal (s : List Char) : Bool :=
  let (_, unsigned) := splitSign s
  match unsigned.dropWhile isDigit with
  | '_' :: groups =>
    unsigned.head? != some '_' && unsigned.head? != some '0' && !groups.any isFloatMark &&
      areLooseGroups (Text.splitOn '_' groups)
  | _ => false

/-- Whether a word has the form of an integer but stands for none. -/
def isMisspelt : List Char → Bool
  | ['0', 'x'] => true
  | ['0', 'o'] => true
  | ['0', 'b'] => true
  | s => isLooseDecimal s

/-- Whether `mantissa · 10 ^ exponent` rounds to a number of the binary format with 53 significant
bits and exponents below 1024. Far from the bound the count of digits decides. -/
def floatFits (mantissa : Nat) (exponent : Int) : Bool :=
  let size : Int := (Nat.toDigits 10 mantissa).length + exponent
  let bound := Nat.pow 2 1024 - Nat.pow 2 970
  if mantissa = 0 ∨ size < 300 then true
  else if size > 400 then false
  else if exponent < 0 then decide (mantissa < bound * Nat.pow 10 exponent.natAbs)
  else decide (mantissa * Nat.pow 10 exponent.natAbs < bound)

/-- The exponent part of a float, with its mark; absent, it is zero. -/
def exponent? : List Char → Option Int
  | [] => some 0
  | mark :: s =>
    if mark = 'e' ∨ mark = 'E' then
      let (negative, s) := splitSign s
      (digits? 10 s).map fun ds => withSign negative (ofDigits 10 ds)
    else
      none

def startsExponent (c : Char) : Bool :=
  c == 'e' || c == 'E'

/-- A float: whether it is in range. It has a fraction, an exponent or both, or it is one of the two
values that have names. -/
def float? (s : List Char) : Option Bool :=
  let (_, unsigned) := splitSign s
  if unsigned = "inf".toList ∨ unsigned = "nan".toList then some true
  else do
    let (_, wholeDigits) ← signed? (s.takeWhile (!isFloatMark ·))
    match s.dropWhile (!isFloatMark ·) with
    | [] => none
    | '.' :: s =>
      let fraction ← digits? 10 (s.takeWhile (!startsExponent ·))
      let exponent ← exponent? (s.dropWhile (!startsExponent ·))
      some (floatFits (ofDigits 10 (wholeDigits ++ fraction)) (exponent - fraction.length))
    | s =>
      let exponent ← exponent? s
      some (floatFits (ofDigits 10 wholeDigits) exponent)

/-! ## Dates and times -/

def digitRun? : (count : Nat) → List Char → Option (Nat × List Char)
  | count, s =>
    let run := s.take count
    if run.length = count ∧ run.all isDigit then
      some (ofDigits 10 (run.map digitValue), s.drop count)
    else
      none

def daysIn (year month : Nat) : Nat :=
  if month = 2 then
    if year % 4 = 0 ∧ (year % 100 ≠ 0 ∨ year % 400 = 0) then 29 else 28
  else if month = 4 ∨ month = 6 ∨ month = 9 ∨ month = 11 then 30
  else 31

def afterDate? (s : List Char) : Option (List Char) := do
  let (year, s) ← digitRun? 4 s
  let '-' :: s := s | none
  let (month, s) ← digitRun? 2 s
  let '-' :: s := s | none
  let (day, s) ← digitRun? 2 s
  if 1 ≤ month ∧ month ≤ 12 ∧ 1 ≤ day ∧ day ≤ daysIn year month then some s else none

/-- What follows an hour and a minute with a colon between them. -/
def afterMinute? (s : List Char) : Option (List Char) := do
  let (hour, s) ← digitRun? 2 s
  let ':' :: s := s | none
  let (minute, s) ← digitRun? 2 s
  if hour ≤ 23 ∧ minute ≤ 59 then some s else none

/-- What follows a time of day, whose seconds and their fraction may be left out. -/
def afterTime? (s : List Char) : Option (List Char) := do
  match ← afterMinute? s with
  | ':' :: s =>
    let (second, s) ← digitRun? 2 s
    if second > 60 then none
    else
      match s with
      | '.' :: s =>
        if (s.takeWhile isDigit).isEmpty then none else some (s.dropWhile isDigit)
      | s => some s
  | s => some s

/-- Whether a word is an offset from universal time, or nothing. -/
def isOffset : List Char → Bool
  | [] => true
  | ['Z'] => true
  | ['z'] => true
  | '+' :: s => afterMinute? s = some []
  | '-' :: s => afterMinute? s = some []
  | _ => false

/-- Whether a word is a date, a time of day, or both with or without an offset. -/
def isMoment (s : List Char) : Bool :=
  match afterDate? s with
  | some [] => true
  | some (mark :: s) =>
    (mark == 'T' || mark == 't' || mark == ' ') && ((afterTime? s).map isOffset).getD false
  | none => afterTime? s = some []

/-! ## Words -/

def isWordChar (c : Char) : Bool :=
  !" \t\r\n=,[]\x7b\x7d#".toList.contains c

def word? (s : List Char) : Option Value :=
  if s = "true".toList then some (.boolean true)
  else if s = "false".toList then some (.boolean false)
  else if isMoment s then some .moment
  else
    match integer? s, float? s with
    | some value, _ => some (.integer value)
    | none, some fits => some (.float fits)
    | none, none => if isMisspelt s then some .misspelt else none

/-- The word in front of a text and what follows it. A date and a time of day separated by one space
are a single word. -/
def splitWord (s : List Char) : List Char × List Char :=
  let word := s.takeWhile isWordChar
  match s.dropWhile isWordChar with
  | ' ' :: c :: rest =>
    if afterDate? word = some [] ∧ isDigit c then
      (word ++ ' ' :: (c :: rest).takeWhile isWordChar, (c :: rest).dropWhile isWordChar)
    else
      (word, ' ' :: c :: rest)
  | rest => (word, rest)

end Datamodel.Toml
