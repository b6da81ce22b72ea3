import Datamodel.Archive.Code

/-!
# Deflated data

Data is compressed in blocks: as it is, with a fixed pair of codes, or with a pair of codes that the
block describes first. A compressed block is a sequence of bytes and of references to earlier
output, up to a symbol that ends it. Whatever stands after the last block is not looked at.
-/

namespace Datamodel.Archive

/-- The two codes of a block: for bytes and lengths, and for distances. -/
structure BlockCodes where
  main : Code
  distance : Code

/-- The codes of a block that describes none. -/
def BlockCodes.fixed : BlockCodes where
  main := .ofLengths (List.replicate 144 8 ++ List.replicate 112 9 ++ List.replicate 24 7 ++
    List.replicate 8 8)
  distance := .ofLengths (List.replicate 32 5)

/-- For each length symbol from 257 on, the least length and how many bits add to it. -/
def lengthBases : List (Nat × Nat) :=
  [(3, 0), (4, 0), (5, 0), (6, 0), (7, 0), (8, 0), (9, 0), (10, 0), (11, 1), (13, 1), (15, 1),
    (17, 1), (19, 2), (23, 2), (27, 2), (31, 2), (35, 3), (43, 3), (51, 3), (59, 3), (67, 4),
    (83, 4), (99, 4), (115, 4), (131, 5), (163, 5), (195, 5), (227, 5), (258, 0)]

/-- For each distance symbol, the least distance and how many bits add to it. -/
def distanceBases : List (Nat × Nat) :=
  [(1, 0), (2, 0), (3, 0), (4, 0), (5, 1), (7, 1), (9, 2), (13, 2), (17, 3), (25, 3), (33, 4),
    (49, 4), (65, 5), (97, 5), (129, 6), (193, 6), (257, 7), (385, 7), (513, 8), (769, 8),
    (1025, 9), (1537, 9), (2049, 10), (3073, 10), (4097, 11), (6145, 11), (8193, 12),
    (12289, 12), (16385, 13), (24577, 13)]

/-- The order in which the lengths of the code for lengths are given. -/
def lengthOrder : List Nat :=
  [16, 17, 18, 0, 8, 7, 9, 6, 10, 5, 11, 4, 12, 3, 13, 2, 14, 1, 15]

/-- The byte that was written so many bytes ago. Before the first byte there are zeros. -/
def byteBack (distance : Nat) (out : ByteArray) : UInt8 :=
  if distance ≤ out.size then out[out.size - distance]?.getD 0 else 0

def copyBack (distance : Nat) : (count : Nat) → ByteArray → ByteArray
  | 0, out => out
  | count + 1, out => copyBack distance count (out.push (byteBack distance out))

def basedValue? (bases : List (Nat × Nat)) (symbol : Nat) (bits : Bits) : Option (Nat × Bits) := do
  let (base, extra) ← bases[symbol]?
  let (more, bits) ← bits.take? extra
  some (base + more, bits)

/-- Reads the symbols of a compressed block. Each round of `fuel` reads at least one bit. -/
def symbols? (codes : BlockCodes) : (fuel : Nat) → Bits → ByteArray → Option (Bits × ByteArray)
  | 0, _, _ => none
  | fuel + 1, bits, out => do
    let (symbol, bits) ← codes.main.read? bits
    if symbol < 256 then
      symbols? codes fuel bits (out.push symbol.toUInt8)
    else if symbol = 256 then
      some (bits, out)
    else
      let (length, bits) ← basedValue? lengthBases (symbol - 257) bits
      let (symbol, bits) ← codes.distance.read? bits
      let (distance, bits) ← basedValue? distanceBases symbol bits
      symbols? codes fuel bits (copyBack distance length out)

/-- Reads the code lengths that a block describes, until there are `total`. Each round of `fuel`
reads at least one bit. -/
def lengths? (code : Code) (total : Nat) : (fuel : Nat) → Bits → Array Nat →
    Option (Array Nat × Bits)
  | 0, _, _ => none
  | fuel + 1, bits, found =>
    if found.size = total then some (found, bits)
    else if total < found.size then none
    else do
      let (symbol, bits) ← code.read? bits
      if symbol < 16 then
        lengths? code total fuel bits (found.push symbol)
      else if symbol = 16 then
        let last ← found.back?
        let (more, bits) ← bits.take? 2
        lengths? code total fuel bits (found ++ Array.replicate (3 + more) last)
      else if symbol = 17 then
        let (more, bits) ← bits.take? 3
        lengths? code total fuel bits (found ++ Array.replicate (3 + more) 0)
      else
        let (more, bits) ← bits.take? 7
        lengths? code total fuel bits (found ++ Array.replicate (11 + more) 0)

def orderedLengths? : (order : List Nat) → (lengths : Array Nat) → Bits →
    Option (Array Nat × Bits)
  | [], lengths, bits => some (lengths, bits)
  | place :: order, lengths, bits => do
    let (length, bits) ← bits.take? 3
    orderedLengths? order (lengths.setIfInBounds place length) bits

def describedCodes? (bits : Bits) : Option (BlockCodes × Bits) := do
  let (mainCount, bits) ← bits.take? 5
  let (distanceCount, bits) ← bits.take? 5
  let (orderCount, bits) ← bits.take? 4
  let mainCount := mainCount + 257
  let distanceCount := distanceCount + 1
  guard (mainCount ≤ 286 ∧ distanceCount ≤ 30)
  let (orderLengths, bits) ←
    orderedLengths? (lengthOrder.take (orderCount + 4)) (Array.replicate 19 0) bits
  let code := Code.ofLengths orderLengths.toList
  guard code.isComplete
  let total := mainCount + distanceCount
  let (lengths, bits) ← lengths? code total (total + 1) bits #[]
  let main := Code.ofLengths (lengths.toList.take mainCount)
  let distance := Code.ofLengths (lengths.toList.drop mainCount)
  guard (main.isUsable && distance.isUsable)
  some (⟨main, distance⟩, bits)

def storedBlock? (bits : Bits) (out : ByteArray) : Option (Bits × ByteArray) := do
  let bits := bits.align
  let (length, bits) ← bits.take? 16
  let (complement, bits) ← bits.take? 16
  guard (length + complement = 0xFFFF)
  let start := bits.place / 8
  guard (start + length ≤ bits.data.size)
  some ({ bits with place := bits.place + 8 * length },
    out ++ bits.data.extract start (start + length))

/-- Reads blocks up to the last one. Each round of `fuel` reads at least three bits. -/
def blocks? : (fuel : Nat) → Bits → ByteArray → Option ByteArray
  | 0, _, _ => none
  | fuel + 1, bits, out => do
    let (isLast, bits) ← bits.take? 1
    let (form, bits) ← bits.take? 2
    let (bits, out) ← match form with
      | 0 => storedBlock? bits out
      | 1 => symbols? .fixed (bits.remaining + 1) bits out
      | 2 => do
        let (codes, bits) ← describedCodes? bits
        symbols? codes (bits.remaining + 1) bits out
      | _ => none
    if isLast = 1 then some out else blocks? fuel bits out

/-- The data that was deflated, if the blocks are complete and in order. -/
def inflate? (data : ByteArray) : Option ByteArray :=
  blocks? (8 * data.size + 1) { data } ByteArray.empty

end Datamodel.Archive
