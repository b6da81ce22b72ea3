/-!
# The checksum of an entry

The cyclic redundancy check with 32 bits that archives use: the remainder of the data as a
polynomial, bits taken from the low end of each byte, with all bits of the start value and of the
result inverted.
-/

namespace Datamodel.Archive

/-- One division step for every bit of a byte. -/
def checksumBits : (count : Nat) → UInt32 → UInt32
  | 0, crc => crc
  | count + 1, crc =>
    checksumBits count (if crc &&& 1 = 1 then (crc >>> 1) ^^^ 0xEDB88320 else crc >>> 1)

def checksumByte (crc : UInt32) (b : UInt8) : UInt32 :=
  checksumBits 8 (crc ^^^ b.toUInt32)

def checksum (data : ByteArray) : UInt32 :=
  (data.toList.foldl checksumByte 0xFFFFFFFF) ^^^ 0xFFFFFFFF

end Datamodel.Archive
