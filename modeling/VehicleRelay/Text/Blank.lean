/-!
# Blank characters

The characters with the Unicode property White_Space.
-/

namespace VehicleRelay.Text

def isBlank (character : Char) : Bool :=
  let number := character.toNat
  (0x09 ≤ number && number ≤ 0x0d) || number == 0x20 || number == 0x85 || number == 0xa0 ||
    number == 0x1680 || (0x2000 ≤ number && number ≤ 0x200a) || number == 0x2028 ||
    number == 0x2029 || number == 0x202f || number == 0x205f || number == 0x3000

/-- Nothing is left of a blank text when it is trimmed. -/
def allBlank (text : String) : Bool :=
  text.toList.all isBlank

end VehicleRelay.Text
