/-!
# Chunk types

A chunk carries a type of four bytes. `ChunkKind` lists the types that the decoder gives a meaning
to; every other type is of the kind `unknown`.
-/

namespace Png

/-- The four type bytes of a chunk. -/
structure ChunkTag where
  /-- The first byte. -/
  first : UInt8
  /-- The second byte. -/
  second : UInt8
  /-- The third byte. -/
  third : UInt8
  /-- The fourth byte. -/
  fourth : UInt8
  deriving DecidableEq

/-- What a chunk is about. -/
inductive ChunkKind where
  | header
  | palette
  | imageData
  | imageEnd
  | chromaticities
  | gamma
  | iccProfile
  | significantBits
  | standardRgb
  | background
  | histogram
  | transparency
  | physicalSize
  | time
  | text
  | compressedText
  /-- A type that the decoder keeps without reading it. -/
  | unknown
  deriving DecidableEq

namespace ChunkTag

/-- The tag spelled by four ASCII letters. -/
def ofChars (a b c d : Char) : ChunkTag :=
  ⟨a.toNat.toUInt8, b.toNat.toUInt8, c.toNat.toUInt8, d.toNat.toUInt8⟩

/-- The four bytes, in file order. -/
def toBytes (t : ChunkTag) : List UInt8 :=
  [t.first, t.second, t.third, t.fourth]

/-- The tag of four bytes. -/
def ofBytes? : List UInt8 → Option ChunkTag
  | [a, b, c, d] => some ⟨a, b, c, d⟩
  | _ => none

@[simp]
theorem ofBytes?_toBytes (t : ChunkTag) : ofBytes? t.toBytes = some t := rfl

end ChunkTag

namespace ChunkKind

/-- The kinds with a tag of their own. -/
def known : List ChunkKind :=
  [header, palette, imageData, imageEnd, chromaticities, gamma, iccProfile, significantBits,
    standardRgb, background, histogram, transparency, physicalSize, time, text, compressedText]

/-- The name in messages. -/
def name : ChunkKind → String
  | header => "IHDR"
  | palette => "PLTE"
  | imageData => "IDAT"
  | imageEnd => "IEND"
  | chromaticities => "cHRM"
  | gamma => "gAMA"
  | iccProfile => "iCCP"
  | significantBits => "sBIT"
  | standardRgb => "sRGB"
  | background => "bKGD"
  | histogram => "hIST"
  | transparency => "tRNS"
  | physicalSize => "pHYs"
  | time => "tIME"
  | text => "tEXt"
  | compressedText => "zTXt"
  | unknown => "unknown"

/-- The tag of a known kind. -/
def tag? : ChunkKind → Option ChunkTag
  | header => some (.ofChars 'I' 'H' 'D' 'R')
  | palette => some (.ofChars 'P' 'L' 'T' 'E')
  | imageData => some (.ofChars 'I' 'D' 'A' 'T')
  | imageEnd => some (.ofChars 'I' 'E' 'N' 'D')
  | chromaticities => some (.ofChars 'c' 'H' 'R' 'M')
  | gamma => some (.ofChars 'g' 'A' 'M' 'A')
  | iccProfile => some (.ofChars 'i' 'C' 'C' 'P')
  | significantBits => some (.ofChars 's' 'B' 'I' 'T')
  | standardRgb => some (.ofChars 's' 'R' 'G' 'B')
  | background => some (.ofChars 'b' 'K' 'G' 'D')
  | histogram => some (.ofChars 'h' 'I' 'S' 'T')
  | transparency => some (.ofChars 't' 'R' 'N' 'S')
  | physicalSize => some (.ofChars 'p' 'H' 'Y' 's')
  | time => some (.ofChars 't' 'I' 'M' 'E')
  | text => some (.ofChars 't' 'E' 'X' 't')
  | compressedText => some (.ofChars 'z' 'T' 'X' 't')
  | unknown => none

end ChunkKind

/-- The kind of a tag. -/
def ChunkTag.kind (t : ChunkTag) : ChunkKind :=
  (ChunkKind.known.find? fun k => k.tag? = some t).getD .unknown

end Png
