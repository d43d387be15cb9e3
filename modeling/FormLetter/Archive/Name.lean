import FormLetter.Archive.Octets
import FormLetter.Text.Utf8

/-!
# Names of entries

The name of an entry is UTF-8 if the entry says so, and else in the code page of old archives, of
which the lower half is ASCII.
-/

namespace FormLetter.Archive

open FormLetter.Text

/-- The characters of the octets from 128 on in code page 437. -/
def upperHalf : Array Char :=
  ("ÇüéâäàåçêëèïîìÄÅÉæÆôöòûùÿÖÜ¢£¥₧ƒ" ++
    "áíóúñÑªº¿⌐¬½¼¡«»░▒▓│┤╡╢╖╕╣║╗╝╜╛┐" ++
    "└┴┬├─┼╞╟╚╔╩╦╠═╬╧╨╤╥╙╘╒╓╫╪┘┌█▄▌▐▀" ++
    "αßΓπΣσµτΦΘΩδ∞φε∩≡±≥≤⌠⌡÷≈°∙·√ⁿ²■\u00a0").toList.toArray

def codePageChar (b : UInt8) : Char :=
  if b.toNat < 128 then Char.ofNat b.toNat else upperHalf.getD (b.toNat - 128) Utf8.replacement

def textOf (isUtf8 : Bool) (octets : Octets) : String :=
  if isUtf8 then Utf8.decode ⟨octets.toArray⟩ else String.ofList (octets.map codePageChar)

end FormLetter.Archive
