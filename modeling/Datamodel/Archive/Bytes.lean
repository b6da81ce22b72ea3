/-!
# Numbers and marks in bytes

The records of an archive are sequences of numbers with their lowest byte first. Each kind of record
starts with a mark of its own.
-/

namespace Datamodel.Archive

/-- The number of `count` bytes at a place, lowest byte first. -/
def number? (data : ByteArray) (place : Nat) : (count : Nat) → Option Nat
  | 0 => some 0
  | count + 1 => do
    let low ← data[place]?
    let rest ← number? data (place + 1) count
    some (low.toNat + 256 * rest)

/-- The bytes from a place on, if there are so many. -/
def bytes? (data : ByteArray) (place count : Nat) : Option ByteArray :=
  if place + count ≤ data.size then some (data.extract place (place + count)) else none

def hasMark (data : ByteArray) (mark place : Nat) : Bool :=
  number? data place 4 == some mark

/-- The first of `count` places from `place` on that passes a test. -/
def findPlace? (test : Nat → Bool) : (count place : Nat) → Option Nat
  | 0, _ => none
  | count + 1, place => if test place then some place else findPlace? test count (place + 1)

end Datamodel.Archive
