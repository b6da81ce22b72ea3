/-!
# Code page 437

The names of archive entries that are not marked as UTF-8 are written in this code page, whose lower
half is ASCII.
-/

namespace Datamodel.Archive

/-- The characters of the upper half, from 128 on. -/
def upperHalf : List Char :=
  ("ÇüéâäàåçêëèïîìÄÅÉæÆôöòûùÿÖÜ¢£¥₧ƒ" ++
    "áíóúñÑªº¿⌐¬½¼¡«»░▒▓│┤╡╢╖╕╣║╗╝╜╛┐" ++
    "└┴┬├─┼╞╟╚╔╩╦╠═╬╧╨╤╥╙╘╒╓╫╪┘┌█▄▌▐▀" ++
    "αßΓπΣσµτΦΘΩδ∞φε∩≡±≥≤⌠⌡÷≈°∙·√ⁿ²■\u00A0").toList

theorem length_upperHalf : upperHalf.length = 128 := by
  decide +kernel

def codePageChar (b : UInt8) : Char :=
  if b < 128 then Char.ofNat b.toNat
  else
    have hplace : b.toNat - 128 < upperHalf.length := by
      have hbyte := b.toNat_lt
      rw [length_upperHalf]
      omega
    upperHalf[b.toNat - 128]

def decodeCodePage (bytes : ByteArray) : String :=
  String.ofList (bytes.toList.map codePageChar)

end Datamodel.Archive
