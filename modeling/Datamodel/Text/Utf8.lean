/-!
# Bytes as text

Bytes are cut into characters and, where they are not UTF-8, into invalid runs. An invalid run is
the longest piece that could still have become a character, or a single byte that starts none.
Reading is strict where the first invalid run is an error, and lossy where every such run becomes
one replacement character.
-/

namespace Datamodel.Text

/-- A piece of a byte sequence. -/
inductive Chunk where
  | character (c : Char)
  /-- So many bytes that make no character. -/
  | invalid (count : Nat)
  deriving DecidableEq, Repr

/-- What the first byte of a character tells. -/
structure Lead where
  /-- How many bytes have to follow. -/
  tail : Nat
  /-- The range of the first of them. -/
  low : UInt8
  high : UInt8
  /-- The bits that the byte contributes. -/
  bits : Nat

def lead? (b : UInt8) : Option Lead :=
  let n := b.toNat
  if n < 0x80 then some ⟨0, 0, 0, n⟩
  else if n < 0xC2 then none
  else if n < 0xE0 then some ⟨1, 0x80, 0xBF, n - 0xC0⟩
  else if n = 0xE0 then some ⟨2, 0xA0, 0xBF, 0⟩
  else if n = 0xED then some ⟨2, 0x80, 0x9F, 0xD⟩
  else if n < 0xF0 then some ⟨2, 0x80, 0xBF, n - 0xE0⟩
  else if n = 0xF0 then some ⟨3, 0x90, 0xBF, 0⟩
  else if n < 0xF4 then some ⟨3, 0x80, 0xBF, n - 0xF0⟩
  else if n = 0xF4 then some ⟨3, 0x80, 0x8F, 4⟩
  else none

/-- Reads the bytes after the first one: the code if all of them are there, how many were read, and
the bytes after those. -/
def tail : (count : Nat) → (low high : UInt8) → (bits : Nat) → List UInt8 →
    Option Nat × Nat × List UInt8
  | 0, _, _, bits, rest => (some bits, 0, rest)
  | _ + 1, _, _, _, [] => (none, 0, [])
  | count + 1, low, high, bits, b :: rest =>
    if low ≤ b ∧ b ≤ high then
      let (code, used, rest) := tail count 0x80 0xBF (bits * 64 + (b.toNat - 0x80)) rest
      (code, used + 1, rest)
    else
      (none, 0, b :: rest)

theorem length_of_tail (count : Nat) (low high : UInt8) (bits : Nat) (s : List UInt8) :
    (tail count low high bits s).2.2.length ≤ s.length := by
  induction count generalizing low high bits s with
  | zero => simp [tail]
  | succ count ih =>
    cases s with
    | nil => simp [tail]
    | cons b rest =>
      unfold tail
      split
      · exact Nat.le_succ_of_le (ih 0x80 0xBF (bits * 64 + (b.toNat - 0x80)) rest)
      · simp

def chunks (s : List UInt8) : List Chunk :=
  match s with
  | [] => []
  | b :: rest =>
    match lead? b with
    | none => .invalid 1 :: chunks rest
    | some lead =>
      let read := tail lead.tail lead.low lead.high lead.bits rest
      have := length_of_tail lead.tail lead.low lead.high lead.bits rest
      match read.1 with
      | some code => .character (Char.ofNat code) :: chunks read.2.2
      | none => .invalid (read.2.1 + 1) :: chunks read.2.2
termination_by s.length
decreasing_by
  · exact Nat.lt_succ_self rest.length
  · exact Nat.lt_succ_of_le this
  · exact Nat.lt_succ_of_le this

/-- The characters of a piece when every invalid run is replaced. -/
def Chunk.replaced : Chunk → Char
  | .character c => c
  | .invalid _ => '\uFFFD'

/-- The text of a byte sequence with invalid runs replaced. -/
def decodeLossy (bytes : ByteArray) : List Char :=
  (chunks bytes.toList).map Chunk.replaced

/-- The characters of pieces that are all characters, or else the number of bytes before the first
invalid run, counted from `offset`. -/
def characters (offset : Nat) : List Chunk → Except Nat (List Char)
  | [] => .ok []
  | .invalid _ :: _ => .error offset
  | .character c :: rest => (characters (offset + c.utf8Size) rest).map (c :: ·)

/-- The text of a byte sequence, or the offset of its first invalid run. -/
def decode (bytes : ByteArray) : Except Nat (List Char) :=
  characters 0 (chunks bytes.toList)

def decode? (bytes : ByteArray) : Option (List Char) :=
  (decode bytes).toOption

end Datamodel.Text
