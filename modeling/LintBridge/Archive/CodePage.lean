import LintBridge.Text.Utf8

namespace LintBridge

/-- The characters of the upper half, from byte 0x80 on. -/
def codePage437 : List Char :=
  ("ÇüéâäàåçêëèïîìÄÅÉæÆôöòûùÿÖÜ¢£¥₧ƒ" ++
    "áíóúñÑªº¿⌐¬½¼¡«»░▒▓│┤╡╢╖╕╣║╗╝╜╛┐" ++
    "└┴┬├─┼╞╟╚╔╩╦╠═╬╧╨╤╥╙╘╒╓╫╪┘┌█▄▌▐▀" ++
    "αßΓπΣσµτΦΘΩδ∞φε∩≡±≥≤⌠⌡÷≈°∙·√ⁿ²■\u00a0").toList

def codePage437Text (bs : Bytes) : String :=
  String.ofList (bs.map fun b =>
    if b.toNat < 0x80 then Char.ofNat b.toNat else codePage437.getD (b.toNat - 0x80) ' ')

end LintBridge
