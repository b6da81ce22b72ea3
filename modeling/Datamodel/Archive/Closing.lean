import Datamodel.Archive.Bytes

/-!
# The closing record

An archive is read from its end: a closing record tells where the directory starts and how many
headers it has. Bytes in front of the archive shift all offsets by the same amount.

A closing record whose numbers have no room is preceded by a wide one, and right before the closing
record a locator tells where to look for that. The shift is then the distance from that place to the
wide record; else it is the distance from where the directory should start to its first header.
-/

namespace Datamodel.Archive

def closingMark : Nat :=
  0x06054B50

def headerMark : Nat :=
  0x02014B50

def wideMark : Nat :=
  0x06064B50

def locatorMark : Nat :=
  0x07064B50

/-- What a closing record says of the directory. -/
structure Closing where
  /-- How far all offsets are shifted. -/
  shift : Nat
  /-- Where the directory starts. -/
  directory : Nat
  /-- How many headers it has. -/
  count : Nat
  deriving DecidableEq, Repr

namespace Closing

/-- The size of a closing record without its comment. -/
def leastSize : Nat :=
  22

def locatorSize : Nat :=
  20

/-- The size of a header without its texts. -/
def headerSize : Nat :=
  46

/-! ## Without a wide record -/

/-- What the closing record at a place says by itself. -/
def narrow? (data : ByteArray) (place : Nat) : Option Closing := do
  let disk ← number? data (place + 4) 2
  let directoryDisk ← number? data (place + 6) 2
  let countHere ← number? data (place + 8) 2
  let count ← number? data (place + 10) 2
  let offset ← number? data (place + 16) 4
  let shift ←
    if count = 0 then some (place - offset)
    else do
      guard (offset < place)
      let directory ← findPlace? (hasMark data headerMark) (place - offset - 3) offset
      some (directory - offset)
  guard (disk = directoryDisk)
  some ⟨shift, offset + shift, countHere⟩

/-! ## With a wide record -/

/-- Where to look for a wide closing record. -/
structure Locator where
  place : Nat
  directoryDisk : Nat
  /-- Where the wide record should be, before any shift. -/
  target : Nat
  disks : Nat

/-- The locator right before a closing record. -/
def locator? (data : ByteArray) (place : Nat) : Option Locator := do
  guard (locatorSize ≤ place)
  let start := place - locatorSize
  guard (hasMark data locatorMark start)
  let directoryDisk ← number? data (start + 4) 4
  let target ← number? data (start + 8) 8
  let disks ← number? data (start + 16) 4
  some ⟨start, directoryDisk, target, disks⟩

/-- Whether a wide record that goes with a locator stands at a place: it reaches up to the locator,
it agrees on the disk, and its directory has room before it. -/
def isWideRecord (data : ByteArray) (locator : Locator) (place : Nat) : Bool :=
  hasMark data wideMark place &&
    ((do
      let size ← number? data (place + 4) 8
      let directoryDisk ← number? data (place + 20) 4
      let count ← number? data (place + 32) 8
      let offset ← number? data (place + 48) 8
      guard (44 ≤ size ∧ place + size + 12 = locator.place)
      guard (directoryDisk = locator.directoryDisk)
      guard (count * headerSize + offset ≤ place)) : Option Unit).isSome

def ofWideRecord? (data : ByteArray) (shift place : Nat) : Option Closing := do
  let writer ← number? data (place + 12) 2
  let reader ← number? data (place + 14) 2
  let disk ← number? data (place + 16) 4
  let directoryDisk ← number? data (place + 20) 4
  let countHere ← number? data (place + 24) 8
  let count ← number? data (place + 32) 8
  let offset ← number? data (place + 48) 8
  guard (countHere ≤ count ∧ reader ≤ writer ∧ disk = directoryDisk)
  some ⟨shift, offset + shift, count⟩

/-- What the wide record says that a locator leads to. -/
def wide? (data : ByteArray) (locator : Locator) : Option Closing := do
  guard (locator.target < locator.place ∧ locator.disks ≤ 1)
  let place ←
    findPlace? (isWideRecord data locator) (locator.place - locator.target) locator.target
  ofWideRecord? data (place - locator.target) place

/-! ## Closing records -/

/-- Whether numbers of a closing record have no room in it. -/
def mayBeWide (count offset : Nat) : Bool :=
  count == 0xFFFF || offset == 0xFFFFFFFF

/-- What the closing record at a place says. Its comment has to end within the data. -/
def read? (data : ByteArray) (place : Nat) : Option Closing := do
  guard (hasMark data closingMark place)
  let count ← number? data (place + 10) 2
  let offset ← number? data (place + 16) 4
  let commentSize ← number? data (place + 20) 2
  guard (place + leastSize + commentSize ≤ data.size)
  let locator := if mayBeWide count offset then locator? data place else none
  match locator with
  | some locator => wide? data locator
  | none => narrow? data place

end Closing

end Datamodel.Archive
