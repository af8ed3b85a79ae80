import Png.Chunk.Stream
import Png.Libraries
import Png.Metadata
import Png.Text.Latin1

/-!
# What a chunk tells

`Metadata.read` reads a chunk against what is known of its file, and gives either what the chunk
tells or the error for which it is refused. Nothing is written here: a chunk is taken as a whole or
not at all.
-/

namespace Png

/-- What a chunk tells. -/
inductive Finding where
  | header (h : Header)
  /-- The colours of a palette, corrected when correcting. -/
  | palette (colors : List Rgb)
  | imageData (bytes : List UInt8)
  /-- The end of the file, with the significant bits of samples that no chunk describes. -/
  | imageEnd (bits : List Nat)
  | chromaticities (c : Chromaticities)
  | gamma (gamma : Float32)
  /-- The standard RGB space with a rendering intent. -/
  | standardRgb (intent : Nat)
  | iccProfile (name : String)
  | significantBits (bits : List Nat)
  /-- The background, and its colour as it is reported. -/
  | background (background : Background) (color : Rgb)
  | histogram (counts : List Nat)
  | transparency (t : Transparency)
  | physicalSize (density : PixelDensity)
  | time (t : DateTime)
  | text (entry : TextEntry)
  | compressedText (entry : TextEntry)
  /-- A chunk of unknown type. -/
  | unknown (tag : ChunkTag) (data : List UInt8)
  /-- A chunk that is passed over. -/
  | nothing

namespace Metadata

variable [Libraries]

/-- The header, which comes once. -/
def readHeader (data : List UInt8) (m : Metadata) : Except Error Finding := do
  require m.header.isNone .repeatedHeader
  let h ← Header.parse m.options data
  return .header h

/-- The colours that triples of bytes write. -/
def colorsOf : List UInt8 → List Rgb
  | red :: green :: blue :: rest => ⟨red, green, blue⟩ :: colorsOf rest
  | _ => []

/-- A colour with every component looked up in a table of corrected bytes. -/
def correctColor (table : Array Nat) (c : Rgb) : Rgb :=
  let correct (b : UInt8) : UInt8 := (table.getD b.toNat b.toNat).toUInt8
  ⟨correct c.red, correct c.green, correct c.blue⟩

/-- The colours corrected for the gamma known so far, when correcting. -/
def corrected (m : Metadata) (colors : List Rgb) : List Rgb :=
  if m.options.correctGamma then colors.map (correctColor (m.response.table 8)) else colors

/-- The palette, corrected for the gamma known when it comes. -/
def readPalette (data : List UInt8) (m : Metadata) : Except Error Finding := do
  require (data.length % 3 = 0) (.invalidPaletteLength data.length)
  return .palette (m.corrected (colorsOf data))

/-- A sample of `depth` bits as a byte: the high byte of sixteen bits, the spread of fewer than
eight. -/
def sampleToByte (sample depth : Nat) : UInt8 :=
  if depth = 16 then (sample / 256).toUInt8
  else if depth = 8 then sample.toUInt8
  else (sample % levels depth * depthScale depth).toUInt8

/-- The background: a palette index, a gray level or a colour, as the colour type has it. -/
def readBackground (data : List UInt8) (m : Metadata) : Except Error Finding := do
  let h ← m.requireHeader
  match h.color with
  | .palette =>
    let palette ← m.requirePalette .background
    let index ← readField data 0 1
    let color ← demand palette[index]? (.backgroundOutOfRange index palette.length)
    return .background (.index index) color
  | .gray | .grayAlpha =>
    let level ← readField data 0 2
    let byte := sampleToByte level h.depth
    return .background (.gray level) ⟨byte, byte, byte⟩
  | .rgb | .rgba =>
    let red ← readField data 0 2
    let green ← readField data 2 2
    let blue ← readField data 4 2
    return .background (.rgb (red, green, blue))
      ⟨sampleToByte red h.depth, sampleToByte green h.depth, sampleToByte blue h.depth⟩

/-- The chromaticities, unless the file named the standard RGB space before. -/
def readChromaticities (data : List UInt8) (m : Metadata) : Except Error Finding :=
  if m.response.intent.isSome then .ok .nothing
  else do
    let number (i : Nat) := (readField data (4 * i) 4).map ofHundredThousandths
    return .chromaticities
      { whiteX := ← number 0, whiteY := ← number 1, redX := ← number 2, redY := ← number 3
        greenX := ← number 4, greenY := ← number 5, blueX := ← number 6, blueY := ← number 7 }

/-- The gamma, unless the file named the standard RGB space before. -/
def readGamma (data : List UInt8) (m : Metadata) : Except Error Finding :=
  if m.response.intent.isSome then .ok .nothing
  else do
    let gamma ← readField data 0 4
    return .gamma (ofHundredThousandths gamma)

/-- The standard RGB space, the first time that the file names it. -/
def readStandardRgb (data : List UInt8) (m : Metadata) : Except Error Finding :=
  if m.response.intent.isSome then .ok .nothing
  else do
    let intent ← readField data 0 1
    return .standardRgb intent

/-- The histogram: a count for every palette entry. -/
def readHistogram (data : List UInt8) (m : Metadata) : Except Error Finding := do
  let palette ← m.requirePalette .histogram
  let counts ← (List.range palette.length).mapM fun i => readField data (2 * i) 2
  return .histogram counts

/-- The name of the colour profile. -/
def readIccProfile (data : List UInt8) : Except Error Finding := do
  let (name, _) ← splitKeyword .profileName data
  return .iccProfile (Text.latin1 name)

/-- The pixel density, whose unit is unknown or the metre. -/
def readPhysicalSize (data : List UInt8) : Except Error Finding := do
  let x ← readField data 0 4
  let y ← readField data 4 4
  let unit ← readField data 8 1
  require (unit ≤ 1) (.invalidUnit unit)
  return .physicalSize { x, y, unit }

/-- How many numbers of significant bits an image has, and how large they may be: palette images
have three for the colours of the palette, other images one for every sample of a pixel. -/
def significantBitsForm (h : Header) : Nat × Nat :=
  if h.color = .palette then (3, 8) else (h.channels, h.depth)

/-- The significant bits of the samples. -/
def readSignificantBits (data : List UInt8) (m : Metadata) : Except Error Finding := do
  let h ← m.requireHeader
  let (count, max) := significantBitsForm h
  let bits ← (List.range count).mapM fun i => do
    let value ← readField data i 1
    require (1 ≤ value ∧ value ≤ max) (.invalidSignificantBits value max)
    return value
  return .significantBits bits

/-- The transparency: an opacity for every palette entry, which is full where the chunk has none, or
the one sample or colour that is transparent. -/
def readTransparency (data : List UInt8) (m : Metadata) : Except Error Finding := do
  let h ← m.requireHeader
  match h.color with
  | .palette =>
    let palette ← m.requirePalette .transparency
    require (data.length ≤ palette.length)
      (.transparencyExceedsPalette data.length palette.length)
    let alpha := data ++ List.replicate (palette.length - data.length) 255
    return .transparency (.paletteAlpha alpha)
  | .gray =>
    let key ← readField data 0 2
    return .transparency (.grayKey key)
  | .rgb =>
    let red ← readField data 0 2
    let green ← readField data 2 2
    let blue ← readField data 4 2
    return .transparency (.rgbKey red green blue)
  | .grayAlpha | .rgba => throw (.unexpectedTransparency h.color)

/-- A text entry. -/
def readText (data : List UInt8) : Except Error Finding := do
  let (keyword, text) ← splitKeyword .textKeyword data
  return .text { keyword := Text.latin1 keyword, text := Text.latin1 text }

/-- The keyword of compressed text and the compressed bytes. Between them stands the compression
method, a byte that is not looked at. -/
def splitCompressedText (data : List UInt8) : Except Error (String × List UInt8) := do
  let (keyword, rest) ← splitKeyword .compressedTextKeyword data
  match rest with
  | _ :: stream => return (Text.latin1 keyword, stream)
  | [] => throw (.truncated .compressionMethod)

/-- A compressed text entry; one that cannot be inflated is passed over. -/
def readCompressedText (data : List UInt8) : Except Error Finding := do
  let (keyword, stream) ← splitCompressedText data
  match Libraries.inflate true stream with
  | .ok text => return .compressedText { keyword, text := Text.latin1 text }
  | .error _ => return .nothing

/-- The fields of a time chunk, whether or not they make a date. -/
def readTime (data : List UInt8) : Except Error DateTime := do
  let year ← readField data 0 2
  let month ← readField data 2 1
  let day ← readField data 3 1
  let hour ← readField data 4 1
  let minute ← readField data 5 1
  let second ← readField data 6 1
  return { year, month, day, hour, minute, second }

/-- The time of the last change; one that is no date is passed over. -/
def readModified (data : List UInt8) : Except Error Finding := do
  let time ← readTime data
  if Libraries.isDate time then return .time time else return .nothing

/-- The end of the file. Samples that no chunk describes are significant in full. -/
def readEnd (m : Metadata) : Except Error Finding := do
  let h ← m.requireHeader
  return .imageEnd (List.replicate h.channels h.depth)

/-- What the chunk tells. -/
def read (c : Chunk) (m : Metadata) : Except Error Finding :=
  match c.kind with
  | .header => m.readHeader c.data
  | .palette => m.readPalette c.data
  | .imageData => .ok (.imageData c.data)
  | .imageEnd => m.readEnd
  | .chromaticities => m.readChromaticities c.data
  | .gamma => m.readGamma c.data
  | .iccProfile => readIccProfile c.data
  | .significantBits => m.readSignificantBits c.data
  | .standardRgb => m.readStandardRgb c.data
  | .background => m.readBackground c.data
  | .histogram => m.readHistogram c.data
  | .transparency => m.readTransparency c.data
  | .physicalSize => readPhysicalSize c.data
  | .time => readModified c.data
  | .text => readText c.data
  | .compressedText => readCompressedText c.data
  | .unknown => .ok (.unknown c.tag c.data)

end Metadata

end Png
