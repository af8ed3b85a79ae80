import Png.Decimal.Layout
import Png.Image
import Png.Json
import Png.Text.Utf8

/-!
# Summaries

What the command line prints about a decoded image: its form, its properties and the encoding
parameters, without the samples.
-/

namespace Png

/-- A single precision number; null if it is not finite. -/
def Json.ofFloat (x : Float32) : Json :=
  match Decimal.finiteText? Decimal.summaryStyle x with
  | some text => .number text
  | none => .null

/-- Bytes as numbers. -/
def Json.ofBytes (bytes : List UInt8) : Json := .ofList (fun b => .ofNat b.toNat) bytes

/-- The model and its component lists or its form. -/
def ColorModel.toJson : ColorModel → Json
  | indexed bits red green blue alpha =>
    .object
      [("kind", .string "indexed"), ("bits", .ofNat bits), ("red", .ofBytes red),
        ("green", .ofBytes green), ("blue", .ofBytes blue), ("alpha", .ofOption .ofBytes alpha)]
  | component space wide hasAlpha =>
    .object
      [("kind", .string "component"), ("color_space", .string space.label),
        ("depth", .ofNat (componentBits wide)), ("has_alpha", .bool hasAlpha)]

/-- The value alone, without its type. -/
def PropertyValue.toJson : PropertyValue → Json
  | text value => .string value
  | integer value => .number (toString value)
  | number value => .ofFloat value
  | bytes value => .ofBytes value
  | integers value => .ofList .ofNat value
  | color value => .ofBytes [value.red, value.green, value.blue]
  | date value => .string value.toText

/-- The properties as the members of an object, in order. -/
def Properties.toJson (p : Properties) : Json :=
  .object (p.toList.map fun (name, value) => (name, value.toJson))

namespace EncodeKind

/-- A value that may be absent. -/
def optionText {α : Type} (text : α → String) : Option α → String
  | some a => "Some(" ++ text a ++ ")"
  | none => "None"

/-- Three numbers in brackets. -/
def tripleText : Nat × Nat × Nat → String
  | (a, b, c) => s!"[{a}, {b}, {c}]"

/-- The kind with its fields. -/
def describe : EncodeKind → String
  | palette background =>
    "Palette \x7b background_index: " ++ optionText toString background ++ " \x7d"
  | gray background transparent =>
    "Gray \x7b background_gray: " ++ optionText toString background ++
      ", transparent_gray: " ++ optionText toString transparent ++ " \x7d"
  | rgb background transparent =>
    "Rgb \x7b background_rgb: " ++ optionText tripleText background ++
      ", transparent_rgb: " ++ optionText tripleText transparent ++ " \x7d"

end EncodeKind

/-- The keyword and the text. -/
def TextEntry.toJson (e : TextEntry) : Json :=
  .array [.string e.keyword, .string e.text]

/-- The encoding parameters; of the chunks of unknown type only the types. -/
def EncodeParams.toJson (p : EncodeParams) : Json :=
  .object
    [("kind", .string p.kind.describe), ("bit_depth", .ofNat p.bitDepth),
      ("interlacing", .bool p.interlaced), ("gamma", .ofOption .ofFloat p.gamma),
      ("chromaticity", .ofOption (fun c => .ofList .ofFloat c.toList) p.chromaticities),
      ("significant_bits", .ofOption (.ofList .ofNat) p.significantBits),
      ("physical_dimension", .ofOption (fun d => .ofList .ofNat [d.x, d.y, d.unit]) p.pixelDensity),
      ("palette_histogram", .ofOption (.ofList .ofNat) p.histogram),
      ("modification_time", .ofOption (fun t => .string t.toText) p.modified),
      ("text", .ofList TextEntry.toJson p.text),
      ("compressed_text", .ofList TextEntry.toJson p.compressedText),
      ("private_chunks",
        .ofList (fun (tag, _) => .string (Text.utf8Lossy tag.toBytes)) p.unknownChunks)]

/-- The summary of the image of a file. -/
def Image.summary (file : String) (image : Image) : Json :=
  .object
    [("file", .string file), ("width", .ofNat image.header.width),
      ("height", .ofNat image.header.height), ("bands", .ofNat image.raster.bands),
      ("depth", .ofNat image.raster.depth), ("layout", .string image.raster.layout.label),
      ("color_model", image.colorModel.toJson), ("properties", image.properties.toJson),
      ("encode_params", .ofOption EncodeParams.toJson image.encoding)]

end Png
