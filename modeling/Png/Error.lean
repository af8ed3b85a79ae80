import Png.ColorType
import Png.Chunk.Tag
import Png.Zlib.Fault

/-!
# Errors

The causes for which an image is refused. `Error.message` holds all wording, so that a statement
about an error is about its cause.
-/

namespace Png

/-- The piece of a file that was cut off. -/
inductive Part where
  | chunkLength
  | chunkType
  | chunkData
  | chunkCrc
  /-- A field inside the data of a chunk. -/
  | chunkField
  | profileName
  | textKeyword
  | compressedTextKeyword
  | compressionMethod
  /-- The inflated scanlines. -/
  | imageData
  deriving DecidableEq

/-- The piece in words. -/
def Part.describe : Part → String
  | chunkLength => "chunk length"
  | chunkType => "chunk type"
  | chunkData => "chunk data"
  | chunkCrc => "chunk crc"
  | chunkField => "chunk field"
  | profileName => "iCCP profile name"
  | textKeyword => "tEXt keyword"
  | compressedTextKeyword => "zTXt keyword"
  | compressionMethod => "zTXt compression method"
  | imageData => "image data"

/-- One of the two sides of an image. -/
inductive Side where
  | width
  | height
  deriving DecidableEq

/-- The side in words. -/
def Side.describe : Side → String
  | width => "width"
  | height => "height"

/-- A cause for which decoding fails. -/
inductive Error where
  /-- The first eight bytes are not the signature. -/
  | badSignature
  /-- The file ends inside the piece named. -/
  | truncated (part : Part)
  /-- The byte source failed. -/
  | io (reason : String)
  /-- A bit depth that no image has. -/
  | invalidDepth (depth : Nat)
  /-- A bit depth that images of this colour type do not have. -/
  | depthNotAllowed (depth : Nat) (color : ColorType)
  | unknownColorType (code : Nat)
  | unknownCompression (method : Nat)
  | unknownFilterMethod (method : Nat)
  | unknownInterlace (method : Nat)
  /-- The chunk needs the palette and came before it. -/
  | missingPalette (chunk : ChunkKind)
  | invalidUnit (unit : Nat)
  /-- A count of significant bits outside `1..max`. -/
  | invalidSignificantBits (bits max : Nat)
  /-- A transparency chunk in an image that has alpha already. -/
  | unexpectedTransparency (color : ColorType)
  | transparencyExceedsPalette (entries palette : Nat)
  /-- A palette chunk whose length is no multiple of three. -/
  | invalidPaletteLength (length : Nat)
  /-- A scanline with a filter byte above four. -/
  | unknownFilter (code : Nat)
  | noSuchTile (x y : Nat)
  | badHeaderLength (length : Nat)
  /-- The first chunk is no header, or there is no first chunk. -/
  | missingHeader
  | zeroDimensions
  /-- A side above its configured limit. -/
  | tooLarge (side : Side) (found max : Nat)
  /-- The image data cannot be inflated. -/
  | corruptImageData (fault : Zlib.Fault)
  /-- The background is a palette index past the last entry. -/
  | backgroundOutOfRange (index entries : Nat)
  /-- A second header chunk. -/
  | repeatedHeader
  /-- The image was asked for a second time. -/
  | alreadyDecoded
  /-- A position outside the sample buffer. -/
  | outOfBounds
  /-- Any other cause, in its own words. -/
  | other (text : String)
  deriving DecidableEq

namespace Error

/-- The cause in words, without the end of line. -/
def describe : Error → String
  | badSignature => "Bad PNG signature, not a png"
  | truncated part => s!"Stream truncated, could not read {part.describe}"
  | io reason => s!"I/O error {reason}"
  | invalidDepth depth => s!"Invalid bit depth {depth}, expected one of 1, 2, 4, 8, 16"
  | depthNotAllowed depth color =>
    s!"Bit depth {depth} is not allowed for colour type {color.label}"
  | unknownColorType code => s!"Unknown colour type {code}"
  | unknownCompression method => s!"Unknown compression method {method}"
  | unknownFilterMethod method => s!"Unknown filter method {method}"
  | unknownInterlace method => s!"Unknown interlace method {method}"
  | missingPalette chunk => s!"{chunk.name} chunk appeared before the PLTE chunk"
  | invalidUnit unit => s!"pHYs unit specifier must be 0 or 1 but found {unit}"
  | invalidSignificantBits bits max =>
    s!"Significant bits must be in 1..={max} but found {bits}"
  | unexpectedTransparency color =>
    s!"A tRNS chunk shall not appear for colour type {color.label} as it is already transparent"
  | transparencyExceedsPalette entries palette =>
    s!"tRNS chunk has {entries} entries but the palette only has {palette}"
  | invalidPaletteLength length => s!"Invalid PLTE length {length}, not divisible by 3"
  | unknownFilter code => s!"Unknown filter {code}"
  | noSuchTile x y => s!"Requested tile ({x},{y}) but the image is a single tile"
  | badHeaderLength length => s!"Bad IHDR length {length}, expected 13"
  | missingHeader => "First chunk not IHDR, corrupt PNG"
  | zeroDimensions => "Width or height cannot be zero"
  | tooLarge side found max =>
    let side := side.describe
    s!"Image {side} {found}, larger than maximum configured {side} {max}, aborting"
  | corruptImageData fault => s!"Error decoding idat chunks {fault.message}"
  | backgroundOutOfRange index entries =>
    s!"bKGD palette index {index} out of range for {entries} entries"
  | repeatedHeader => "Multiple IHDR, corrupt PNG"
  | alreadyDecoded => "Image already decoded"
  | outOfBounds => "Position outside the sample buffer"
  | other text => text

/-- The error as it is shown: one line, with its end. -/
def message (e : Error) : String :=
  e.describe ++ "\n"

end Error

/-- Fails with `e` unless `c` holds. -/
def require (c : Prop) [Decidable c] (e : Error) : Except Error Unit :=
  if c then .ok () else .error e

@[simp]
theorem require_eq_ok_iff {c : Prop} [Decidable c] {e : Error} {u : Unit} :
    require c e = .ok u ↔ c := by
  unfold require
  split <;> simp_all

/-- The value, or `e` where there is none. -/
def demand {α : Type} (value : Option α) (e : Error) : Except Error α :=
  match value with
  | some a => .ok a
  | none => .error e

@[simp]
theorem demand_eq_ok_iff {α : Type} {value : Option α} {e : Error} {a : α} :
    demand value e = .ok a ↔ value = some a := by
  unfold demand
  split <;> simp_all

/-- A step after another one succeeds if both do. -/
@[simp]
theorem bind_eq_ok_iff {ε α β : Type} {step : Except ε α} {next : α → Except ε β} {b : β} :
    (step >>= next) = .ok b ↔ ∃ a, step = .ok a ∧ next a = .ok b := by
  cases step <;> simp [bind, Except.bind]

/-- What every step keeps, a loop keeps. -/
theorem foldlM_keeps {ε σ α : Type} {P : σ → Prop} {f : σ → α → Except ε σ} {as : List α}
    {s s' : σ} (hkeep : ∀ s s' a, a ∈ as → P s → f s a = .ok s' → P s')
    (h : as.foldlM f s = .ok s') (hs : P s) : P s' := by
  induction as generalizing s with
  | nil =>
    cases h
    exact hs
  | cons a as ih =>
    rw [List.foldlM_cons, bind_eq_ok_iff] at h
    obtain ⟨t, ht, h⟩ := h
    exact ih (fun s s' b hb => hkeep s s' b (List.mem_cons_of_mem a hb)) h
      (hkeep s t a List.mem_cons_self hs ht)

end Png
