/-!
# Latin-1

Text in a file is one byte per character, each byte the code point of the same number.
-/

namespace Png.Text

/-- The text of Latin-1 bytes. -/
def latin1 (bytes : List UInt8) : String :=
  String.ofList (bytes.map fun b => Char.ofNat b.toNat)

end Png.Text
