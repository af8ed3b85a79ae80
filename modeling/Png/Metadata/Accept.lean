import Png.Metadata.Finding

/-!
# Accepting chunks

What is kept of a chunk. `Metadata.keep` writes down what a chunk tells, and `Metadata.accept` is
the state after one more chunk: reading it, and keeping what it tells. A refused chunk leaves no
trace.
-/

namespace Png.Metadata

variable [Libraries]

/-- The gamma that is reported from the start: one is assumed when correcting. -/
def startingGamma (m : Metadata) : Option Float32 :=
  if m.options.correctGamma then some m.response.assumedGamma else none

/-- The properties that a header gives, with the gamma that is assumed. -/
def headerProperties (h : Header) (gamma : Option Float32) : List (String × PropertyValue) :=
  [("color_type", .text h.color.title), ("bit_depth", .integer h.depth),
    ("interlace_method", .text h.interlace.title)] ++
    gamma.toList.map fun gamma => ("gamma", .number gamma)

/-- The encoding parameters that a header gives, where they are asked for. -/
def startingEncoding (h : Header) (m : Metadata) : Option EncodeParams :=
  if m.options.recordEncoding then some (.ofHeader h) else m.encoding

/-- Keeps the header, and with it the transform as it is without transparency. -/
def keepHeader (h : Header) (m : Metadata) : Metadata :=
  { m.noteAll (headerProperties h m.startingGamma) with
    header := some h
    transform := some (.select h m.options none)
    encoding := (m.startingEncoding h).map fun p =>
      { p with gamma := m.startingGamma <|> p.gamma } }

/-- Keeps the response of the file, and reports its gamma. -/
def keepResponse (response : ToneResponse) (m : Metadata) : Metadata :=
  noteGamma { m with response } (response.reportedGamma m.options.correctGamma)

/-- The properties that a pixel density gives. Its unit is reported where it is the metre. -/
def densityProperties (d : PixelDensity) : List (String × PropertyValue) :=
  [("x_pixels_per_unit", .integer d.x), ("y_pixels_per_unit", .integer d.y),
    ("pixel_aspect_ratio", .number (d.x.toUInt32.toFloat32 / d.y.toUInt32.toFloat32))] ++
    if d.unit = 1 then [("pixel_units", .text "Meters")] else []

/-- Keeps the transparency, and with it the transform chosen anew. The encoding parameters are told
of a transparent sample unless alpha is suppressed. -/
def keepTransparency (t : Transparency) (m : Metadata) : Metadata :=
  { m with
    transparency := some t
    transform := m.header.map fun h => .select h m.options (some t)
    encoding := m.encoding.map fun p =>
      if m.options.suppressAlpha then p else { p with kind := p.kind.withTransparency t } }

/-- The property under which a chunk of unknown type is kept, the `index`-th of its file. -/
def unknownName (index : Nat) (tag : ChunkTag) : String :=
  s!"chunk_{index}:{tag.text}"

/-- The properties of text entries, numbered from zero under `stem`. -/
def textProperties (stem : String) (entries : List TextEntry) : List (String × PropertyValue) :=
  entries.mapIdx fun i entry => (s!"{stem}_{i}:{entry.keyword}", .text entry.text)

/-- The properties that are published at the end: the text entries, and `bits` as the significant
bits if no chunk gave any. -/
def endProperties (m : Metadata) (bits : List Nat) : List (String × PropertyValue) :=
  textProperties "text" m.text ++ textProperties "ztext" m.compressedText ++
    if m.significantBits.isSome then [] else [("significant_bits", .integers bits)]

/-- Keeps the end of the file: what is only known once all chunks are read is published. -/
def keepEnd (bits : List Nat) (m : Metadata) : Metadata :=
  { (m.noteAll (m.endProperties bits)).record fun p =>
      { p with text := m.text, compressedText := m.compressedText } with
    significantBits := some (m.significantBits.getD bits) }

/-- What is known with what a chunk tells. -/
def keep (m : Metadata) : Finding → Metadata
  | .header h => m.keepHeader h
  | .palette colors => { m with palette := some colors }
  | .imageData bytes => { m with imageData := m.imageData ++ bytes }
  | .imageEnd bits => m.keepEnd bits
  | .chromaticities c =>
    noteChromaticities { m with response := { m.response with chromaticities := some c } } c
  | .gamma gamma => m.keepResponse { m.response with fileGamma := gamma }
  | .standardRgb intent =>
    -- Its gamma and chromaticities are reported as if the file had given them.
    ((m.note "rendering_intent" (.integer intent)).keepResponse
      (m.response.withStandardRgb intent)).noteChromaticities .standardRgb
  | .iccProfile name => m.note "icc_profile_name" (.text name)
  | .significantBits bits =>
    { (m.note "significant_bits" (.integers bits)).record fun p =>
        { p with significantBits := some bits } with
      significantBits := some bits }
  | .background background color =>
    (m.note "background_color" (.color color)).record fun p =>
      { p with kind := p.kind.withBackground background }
  | .histogram counts =>
    (m.note "palette_histogram" (.integers counts)).record fun p =>
      { p with histogram := some counts }
  | .transparency t => m.keepTransparency t
  | .physicalSize density =>
    (m.noteAll (densityProperties density)).record fun p => { p with pixelDensity := some density }
  | .time t => (m.note "timestamp" (.date t)).record fun p => { p with modified := some t }
  | .text entry => { m with text := m.text ++ [entry] }
  | .compressedText entry => { m with compressedText := m.compressedText ++ [entry] }
  | .unknown tag data =>
    let m := (m.note (unknownName m.unknownCount tag) (.bytes data)).record fun p =>
      { p with unknownChunks := p.unknownChunks ++ [(tag, data)] }
    { m with unknownCount := m.unknownCount + 1 }
  | .nothing => m

/-- What is known after one more chunk. -/
def accept (c : Chunk) (m : Metadata) : Except Error Metadata := do
  let finding ← m.read c
  return m.keep finding

end Png.Metadata
