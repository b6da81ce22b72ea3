/-!
# Bits of a byte sequence

Compressed data is read bit by bit, from the low end of each byte. Numbers of several bits have
their lowest bit first.
-/

namespace Datamodel.Archive

/-- A place in data, counted in bits. -/
structure Bits where
  data : ByteArray
  place : Nat := 0

namespace Bits

def remaining (bits : Bits) : Nat :=
  8 * bits.data.size - bits.place

def next? (bits : Bits) : Option (Nat × Bits) :=
  if h : bits.place / 8 < bits.data.size then
    some ((bits.data[bits.place / 8].toNat >>> (bits.place % 8)) % 2,
      { bits with place := bits.place + 1 })
  else
    none

/-- The number that the next `count` bits make. -/
def take? : (count : Nat) → Bits → Option (Nat × Bits)
  | 0, bits => some (0, bits)
  | count + 1, bits => do
    let (low, bits) ← bits.next?
    let (rest, bits) ← take? count bits
    some (low + 2 * rest, bits)

/-- Moves on to the next byte. -/
def align (bits : Bits) : Bits :=
  { bits with place := (bits.place + 7) / 8 * 8 }

end Bits

end Datamodel.Archive
