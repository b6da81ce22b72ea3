import Datamodel.Archive.Closing
import Datamodel.Archive.CodePage
import Datamodel.Archive.Extra
import Datamodel.Archive.Inflate

/-!
# The directory of an archive

The directory has a header for every entry. A closing record counts only if the whole directory can
be read with it, and the last one that counts is taken.

A header names its entry and tells where its data is; extra fields may say so better. A name that is
given again keeps its place and takes the later header.
-/

namespace Datamodel.Archive

/-- The mark of the header in front of an entry's data. -/
def localMark : Nat :=
  0x04034B50

/-! ## Entries -/

structure Header where
  name : String
  /-- Whether the data is encrypted or sealed. -/
  isEncrypted : Bool
  method : Nat
  checksum : UInt32
  /-- The number of bytes of the compressed data. -/
  packedSize : Nat
  /-- Where the entry's own header should be, before any shift. -/
  offset : Nat
  deriving DecidableEq, Repr

/-- The data of an entry as it stands in the archive. -/
structure Packed where
  isEncrypted : Bool
  method : Nat
  checksum : UInt32
  data : ByteArray

structure Entry where
  name : String
  /-- The data, unless the header in front of it cannot be read. -/
  packed : Option Packed

def isDirectoryName (name : String) : Bool :=
  match name.toList.getLast? with
  | some c => c == '/' || c == '\\'
  | none => false

/-- The content of an entry: stored or deflated, not encrypted, and with the right checksum. -/
def Packed.unpack? (packed : Packed) : Option ByteArray := do
  guard !packed.isEncrypted
  let content ← match packed.method with
    | 0 => some packed.data
    | 8 => inflate? packed.data
    | _ => none
  guard (Archive.checksum content = packed.checksum)
  some content

def Entry.content? (entry : Entry) : Option ByteArray :=
  entry.packed.bind Packed.unpack?

/-! ## Headers -/

/-- The method of an entry whose seal hides the real one. -/
def hiddenMethod : Nat :=
  99

/-- A text of a header: in UTF-8 if its flags say so, and else in the old code page. -/
def headerText (isUtf8 : Bool) (bytes : ByteArray) : String :=
  if isUtf8 then String.ofList (Text.decodeLossy bytes) else decodeCodePage bytes

/-- The header at a place in the directory, and the place after it. -/
def header? (data : ByteArray) (place : Nat) : Option (Header × Nat) := do
  guard (hasMark data headerMark place)
  let flags ← number? data (place + 8) 2
  let method ← number? data (place + 10) 2
  let sum ← number? data (place + 16) 4
  let packedSize ← number? data (place + 20) 4
  let size ← number? data (place + 24) 4
  let nameSize ← number? data (place + 28) 2
  let extraSize ← number? data (place + 30) 2
  let commentSize ← number? data (place + 32) 2
  let offset ← number? data (place + 42) 4
  let extraPlace := place + 46 + nameSize
  let commentPlace := extraPlace + extraSize
  let nameBytes ← bytes? data (place + 46) nameSize
  let extra ← bytes? data extraPlace extraSize
  let commentBytes ← bytes? data commentPlace commentSize
  let isUtf8 := flags.testBit 11
  let name := headerText isUtf8 nameBytes
  let comment := headerText isUtf8 commentBytes
  let details ← Details.takeFields
    { nameBytes, name, comment, method, packedSize, size, offset } extra
  guard (details.isSealed || details.method ≠ hiddenMethod)
  let isEncrypted := flags.testBit 0 || details.isSealed
  some (⟨details.name, isEncrypted, details.method, sum.toUInt32, details.packedSize,
    details.offset⟩, commentPlace + commentSize)

/-- So many headers from a place on, all of entries that lie before the directory. -/
def headers? (data : ByteArray) (shift directory : Nat) : (count place : Nat) →
    Option (List Header)
  | 0, _ => some []
  | count + 1, place => do
    let (header, next) ← header? data place
    guard (header.offset + shift < directory)
    let rest ← headers? data shift directory count next
    some (header :: rest)

/-- Adds a header: a known name keeps its place. -/
def setHeader (header : Header) : List Header → List Header
  | [] => [header]
  | old :: headers =>
    if old.name = header.name then header :: headers else old :: setHeader header headers

/-- The entry of a header. Its data starts after its own header, and what the archive lacks of it is
left out. -/
def entryOf (data : ByteArray) (shift : Nat) (header : Header) : Entry :=
  let start := header.offset + shift
  let packed : Option Packed := do
    guard (hasMark data localMark start)
    let nameSize ← number? data (start + 26) 2
    let extraSize ← number? data (start + 28) 2
    let first := start + 30 + nameSize + extraSize
    some ⟨header.isEncrypted, header.method, header.checksum,
      data.extract first (min data.size (first + header.packedSize))⟩
  ⟨header.name, packed⟩

/-! ## Archives -/

def entriesAt? (data : ByteArray) (place : Nat) : Option (List Entry) := do
  let closing ← Closing.read? data place
  let headers ← headers? data closing.shift closing.directory closing.count closing.directory
  some ((headers.foldl (fun known header => setHeader header known) []).map
    (entryOf data closing.shift))

/-- The entries that the last closing record before `stop` leads to. -/
def entriesBefore? (data : ByteArray) : (stop : Nat) → Option (List Entry)
  | 0 => none
  | stop + 1 =>
    (entriesAt? data stop).or (entriesBefore? data stop)

/-- The entries of an archive in their order, if the bytes are one. -/
def entries? (data : ByteArray) : Option (List Entry) :=
  entriesBefore? data data.size

end Datamodel.Archive
