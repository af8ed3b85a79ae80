import Png.EncodeParams
import Png.PixelMap
import Png.Properties

/-!
# What a file has told so far

`Metadata` gathers what the chunks of one file say: the header, the palette, the transparency, the
properties, and the image data still compressed. This module has its parts and the ways to write to
them; `Metadata/Finding.lean` says what a chunk tells, and `Metadata/Accept.lean` what is kept of
it.
-/

namespace Png

/-- What is known of a file after some of its chunks. -/
structure Metadata where
  options : Options
  header : Option Header := none
  /-- The colours of the palette, corrected when correcting. -/
  palette : Option (List Rgb) := none
  transparency : Option Transparency := none
  /-- The transform chosen for the pixels. -/
  transform : Option Transform := none
  response : ToneResponse
  significantBits : Option (List Nat) := none
  properties : Properties
  /-- The encoding parameters, where they are asked for. -/
  encoding : Option EncodeParams := none
  /-- The text entries, in file order. -/
  text : List TextEntry := []
  /-- The compressed text entries that could be inflated, in file order. -/
  compressedText : List TextEntry := []
  /-- How many chunks of unknown type there were. -/
  unknownCount : Nat := 0
  /-- The data of all image data chunks, one after the other. -/
  imageData : List UInt8 := []

namespace Metadata

/-- The value of the `file_type` property. -/
def fileType : String := "PNG v. 1.0"

/-- Before the first chunk. -/
def new (options : Options) : Metadata :=
  { options
    response := .ofOptions options
    properties := ({} : Properties).insert "file_type" (.text fileType) }

/-- Sets a property. -/
def note (m : Metadata) (name : String) (value : PropertyValue) : Metadata :=
  { m with properties := m.properties.insert name value }

/-- Sets several properties, one after the other. -/
def noteAll (m : Metadata) (values : List (String × PropertyValue)) : Metadata :=
  { m with properties := m.properties.insertAll values }

/-- Changes the encoding parameters, where they are recorded. -/
def record (m : Metadata) (change : EncodeParams → EncodeParams) : Metadata :=
  { m with encoding := m.encoding.map change }

/-- The header, which most chunks need. -/
def requireHeader (m : Metadata) : Except Error Header :=
  demand m.header .missingHeader

/-- The palette, which `chunk` needs in front of it. -/
def requirePalette (m : Metadata) (chunk : ChunkKind) : Except Error (List Rgb) :=
  demand m.palette (.missingPalette chunk)

/-- Reports a gamma. -/
def noteGamma (m : Metadata) (gamma : Float32) : Metadata :=
  (m.note "gamma" (.number gamma)).record fun p => { p with gamma := some gamma }

/-- Reports chromaticities. -/
def noteChromaticities (m : Metadata) (c : Chromaticities) : Metadata :=
  (m.noteAll (Chromaticities.keys.zip (c.toList.map .number))).record fun p =>
    { p with chromaticities := some c }

end Metadata

end Png
