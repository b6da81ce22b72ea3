import Datamodel.Archive.Bytes
import Datamodel.Archive.Checksum
import Datamodel.Text.Utf8

/-!
# Extra fields of a header

A header may end with extra fields: numbers too large for their place in it, times, a name or
comment in Unicode, or how the entry is sealed. A field has a kind, a size and its content. Fields
are taken up one after another, and each may change what the header says. Where the bytes of a field
run out, it and all that would follow is left out; a field that is there but makes no sense spoils
the header.
-/

namespace Datamodel.Archive

/-- What a header says as far as extra fields can change it. -/
structure Details where
  nameBytes : ByteArray
  name : String
  comment : String
  method : Nat
  /-- The number of bytes of the compressed data. -/
  packedSize : Nat
  /-- The number of bytes of the content. -/
  size : Nat
  /-- Where the entry's own header should be, before any shift. -/
  offset : Nat
  /-- Whether a field tells how the entry is sealed. -/
  isSealed : Bool := false

/-- What comes of taking up a field. -/
inductive FieldStep where
  /-- It is taken up, and the next field starts at a place. -/
  | taken (details : Details) (next : Nat)
  /-- Its bytes run out. -/
  | torn (details : Details)
  /-- It makes no sense. -/
  | broken

namespace Details

/-- Moves on to the end of a field that changes nothing more. -/
def moveTo (details : Details) (extra : ByteArray) (stop : Nat) : FieldStep :=
  if stop ≤ extra.size then .taken details stop else .torn details

/-! ## Large numbers -/

/-- The number that stands in a header for one that has no room there. -/
def noRoom : Nat :=
  0xFFFFFFFF

/-- The size of a field with all three large numbers. -/
def allWide : Nat :=
  24

/-- A number of a header after a field of large numbers, and the place after what it takes from
there. It is replaced where the field holds all numbers, or where it has no room in the header. -/
def widened? (extra : ByteArray) (size place value : Nat) : Option (Nat × Nat) :=
  if allWide ≤ size ∨ value = noRoom then (number? extra place 8).map (·, place + 8)
  else some (value, place)

/-- Takes up large numbers: the size of the content, that of the data, and the offset. What was read
before the bytes run out counts. -/
def takeWide (details : Details) (extra : ByteArray) (start size : Nat) : FieldStep :=
  match widened? extra size start details.size with
  | none => .torn details
  | some (content, place) =>
    let details := { details with size := content }
    match widened? extra size place details.packedSize with
    | none => .torn details
    | some (packedSize, place) =>
      let details := { details with packedSize }
      match widened? extra size place details.offset with
      | none => .torn details
      | some (offset, place) =>
        let details := { details with offset }
        if start + size < place then .broken else details.moveTo extra (start + size)

/-! ## Times -/

/-- Takes up times as a file system of its own kind keeps them: after four bytes, one group with the
number one that holds three times. -/
def takeFileTimes (details : Details) (extra : ByteArray) (start size : Nat) : FieldStep :=
  if size ≠ 32 then .broken
  else
    match number? extra (start + 4) 2 with
    | none => .torn details
    | some group =>
      if group ≠ 1 then .broken
      else
        match number? extra (start + 6) 2 with
        | none => .torn details
        | some groupSize =>
          if groupSize ≠ 24 then .broken else details.moveTo extra (start + size)

def timesOf (flags : Nat) : Nat :=
  flags % 2 + flags / 2 % 2 + flags / 4 % 2

/-- Takes up times in seconds: three flags tell which of them are there, but a single time may stand
under any flags. -/
def takeTimes (details : Details) (extra : ByteArray) (start size : Nat) : FieldStep :=
  match number? extra start 1 with
  | none => .torn details
  | some flags =>
    if flags < 8 ∧ (size = 5 ∨ size = 1 + 4 * timesOf flags) then
      details.moveTo extra (start + size)
    else .broken

/-! ## Seals -/

/-- Takes up how an entry is sealed: a version, a vendor, a strength, and the method that the header
does not give. -/
def takeSeal (details : Details) (extra : ByteArray) (start size : Nat) : FieldStep :=
  if size ≠ 7 then .broken
  else
    match number? extra start 2, number? extra (start + 2) 2, number? extra (start + 4) 1,
      number? extra (start + 5) 2 with
    | some version, some vendor, some strength, some method =>
      if vendor = 0x4541 ∧ 1 ≤ version ∧ version ≤ 2 ∧ 1 ≤ strength ∧ strength ≤ 3 then
        .taken { details with method, isSealed := true } (start + size)
      else .broken
    | _, _, _, _ => .torn details

/-! ## Unicode -/

/-- What a field says in Unicode about a text of the header. It starts with a version, which does
not matter, and the checksum of the text that it stands for. -/
inductive Restated where
  | text (bytes : ByteArray) (text : String)
  | torn
  | broken

def restated (old extra : ByteArray) (start size : Nat) : Restated :=
  match number? extra (start + 1) 4 with
  | none => .torn
  | some sum =>
    if size < 5 then .broken
    else
      match bytes? extra (start + 5) (size - 5) with
      | none => .torn
      | some bytes =>
        match Text.decode? bytes with
        | some text =>
          if (checksum old).toNat = sum then .text bytes (String.ofList text) else .broken
        | none => .broken

def takeName (details : Details) (extra : ByteArray) (start size : Nat) : FieldStep :=
  match restated details.nameBytes extra start size with
  | .text nameBytes name => .taken { details with nameBytes, name } (start + size)
  | .torn => .torn details
  | .broken => .broken

def takeComment (details : Details) (extra : ByteArray) (start size : Nat) : FieldStep :=
  match restated details.comment.toUTF8 extra start size with
  | .text _ comment => .taken { details with comment } (start + size)
  | .torn => .torn details
  | .broken => .broken

/-! ## All fields -/

/-- Takes up the field at a place. Unknown kinds are passed over. -/
def takeField (details : Details) (extra : ByteArray) (place : Nat) : FieldStep :=
  match number? extra place 2, number? extra (place + 2) 2 with
  | some kind, some size =>
    let start := place + 4
    match kind with
    | 0x0001 => details.takeWide extra start size
    | 0x000A => details.takeFileTimes extra start size
    | 0x5455 => details.takeTimes extra start size
    | 0x6375 => details.takeComment extra start size
    | 0x7075 => details.takeName extra start size
    | 0x9901 => details.takeSeal extra start size
    | _ => details.moveTo extra (start + size)
  | _, _ => .torn details

/-- Takes up the fields from a place on, unless one is broken. Each round of `fuel` reads at least
one byte. -/
def takeFrom (details : Details) (extra : ByteArray) : (fuel place : Nat) → Option Details
  | 0, _ => some details
  | fuel + 1, place =>
    if extra.size ≤ place then some details
    else
      match details.takeField extra place with
      | .taken details next => details.takeFrom extra fuel next
      | .torn details => some details
      | .broken => none

def takeFields (details : Details) (extra : ByteArray) : Option Details :=
  details.takeFrom extra extra.size 0

end Details

end Datamodel.Archive
