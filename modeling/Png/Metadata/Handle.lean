import Png.Metadata.Accept

/-!
# Handling chunks

How a chunk is taken in. `Metadata.handle` reads the fields of a chunk, checks them and writes what
they tell, one step after another, and what has been written stays where a later check fails. That
it comes to the same as `Metadata.accept`, which reads all of a chunk before it keeps anything, is
shown in `Proofs/Handling.lean`.
-/

namespace Png

/-- A step of handling a chunk, which leaves what it has written whether it succeeds or fails. -/
abbrev Handling := EStateM Error Metadata

namespace Handling

/-- A check, which writes nothing. -/
def check {α : Type} (result : Except Error α) : Handling α := fun m =>
  match result with
  | .ok a => .ok a m
  | .error e => .error e m

/-- A write, which cannot fail. -/
def write (change : Metadata → Metadata) : Handling Unit := fun m => .ok () (change m)

end Handling

namespace Metadata

variable [Libraries]

open Handling (check write)

/-- The header, which comes once. -/
def handleHeader (data : List UInt8) : Handling Unit := do
  let m ← get
  check (require m.header.isNone .repeatedHeader)
  let h ← check (Header.parse m.options data)
  write (·.noteAll (headerProperties h none))
  if m.options.recordEncoding then
    write fun m => { m with encoding := some (.ofHeader h) }
  if m.options.correctGamma then
    write (·.noteGamma m.response.assumedGamma)
  write fun m => { m with transform := some (.select h m.options none) }
  write fun m => { m with header := some h }

/-- The palette, corrected for the gamma known when it comes. -/
def handlePalette (data : List UInt8) : Handling Unit := do
  check (require (data.length % 3 = 0) (.invalidPaletteLength data.length))
  write fun m => { m with palette := some (m.corrected (colorsOf data)) }

/-- Writes the background, as the encoding parameters and as the properties have it. -/
def writeBackground (background : Background) (color : Rgb) : Handling Unit := do
  write (·.record fun p => { p with kind := p.kind.withBackground background })
  write (·.note "background_color" (.color color))

/-- The background: a palette index, a gray level or a colour. -/
def handleBackground (data : List UInt8) : Handling Unit := do
  let m ← get
  let h ← check m.requireHeader
  match h.color with
  | .palette =>
    let palette ← check (m.requirePalette .background)
    let index ← check (readField data 0 1)
    let color ← check (demand palette[index]? (.backgroundOutOfRange index palette.length))
    writeBackground (.index index) color
  | .gray | .grayAlpha =>
    let level ← check (readField data 0 2)
    let byte := sampleToByte level h.depth
    writeBackground (.gray level) ⟨byte, byte, byte⟩
  | .rgb | .rgba =>
    let red ← check (readField data 0 2)
    let green ← check (readField data 2 2)
    let blue ← check (readField data 4 2)
    writeBackground (.rgb (red, green, blue))
      ⟨sampleToByte red h.depth, sampleToByte green h.depth, sampleToByte blue h.depth⟩

/-- Reports the gamma of the response that has been written. -/
def writeGamma : Handling Unit :=
  write fun m => m.noteGamma (m.response.reportedGamma m.options.correctGamma)

/-- The chromaticities, unless the file named the standard RGB space before. -/
def handleChromaticities (data : List UInt8) : Handling Unit := do
  let m ← get
  if m.response.intent.isSome then pure ()
  else
    let number (i : Nat) := check ((readField data (4 * i) 4).map ofHundredThousandths)
    let c : Chromaticities :=
      { whiteX := ← number 0, whiteY := ← number 1, redX := ← number 2, redY := ← number 3
        greenX := ← number 4, greenY := ← number 5, blueX := ← number 6, blueY := ← number 7 }
    write fun m => { m with response := { m.response with chromaticities := some c } }
    write (·.noteChromaticities c)

/-- The gamma, unless the file named the standard RGB space before. -/
def handleGamma (data : List UInt8) : Handling Unit := do
  let m ← get
  if m.response.intent.isSome then pure ()
  else
    let gamma ← check (readField data 0 4)
    write fun m =>
      { m with response := { m.response with fileGamma := ofHundredThousandths gamma } }
    writeGamma

/-- The standard RGB space, the first time that the file names it. The chromaticities that it brings
are looked up in the response after it has been written. -/
def handleStandardRgb (data : List UInt8) : Handling Unit := do
  let m ← get
  if m.response.intent.isSome then pure ()
  else
    let intent ← check (readField data 0 1)
    write fun m => { m with response := m.response.withStandardRgb intent }
    write (·.note "rendering_intent" (.integer intent))
    writeGamma
    let m ← get
    match m.response.chromaticities with
    | some c => write (·.noteChromaticities c)
    | none => pure ()

/-- The histogram: a count for every palette entry. -/
def handleHistogram (data : List UInt8) : Handling Unit := do
  let m ← get
  let palette ← check (m.requirePalette .histogram)
  let counts ← check ((List.range palette.length).mapM fun i => readField data (2 * i) 2)
  write (·.note "palette_histogram" (.integers counts))
  write (·.record fun p => { p with histogram := some counts })

/-- The name of the colour profile. -/
def handleIccProfile (data : List UInt8) : Handling Unit := do
  let (name, _) ← check (splitKeyword .profileName data)
  write (·.note "icc_profile_name" (.text (Text.latin1 name)))

/-- The pixel density, whose unit is unknown or the metre. -/
def handlePhysicalSize (data : List UInt8) : Handling Unit := do
  let x ← check (readField data 0 4)
  let y ← check (readField data 4 4)
  let unit ← check (readField data 8 1)
  check (require (unit ≤ 1) (.invalidUnit unit))
  write (·.noteAll (densityProperties { x, y, unit }))
  write (·.record fun p => { p with pixelDensity := some { x, y, unit } })

/-- The significant bits of the samples. -/
def handleSignificantBits (data : List UInt8) : Handling Unit := do
  let m ← get
  let h ← check m.requireHeader
  let (count, max) := significantBitsForm h
  let bits ← check ((List.range count).mapM fun i => do
    let value ← readField data i 1
    require (1 ≤ value ∧ value ≤ max) (.invalidSignificantBits value max)
    return value)
  write (·.note "significant_bits" (.integers bits))
  write (·.record fun p => { p with significantBits := some bits })
  write fun m => { m with significantBits := some bits }

/-- Writes a transparent sample into the encoding parameters, unless alpha is suppressed. -/
def writeKey (t : Transparency) : Handling Unit := do
  let m ← get
  if m.options.suppressAlpha then pure ()
  else write (·.record fun p => { p with kind := p.kind.withTransparency t })

/-- Writes the transparency, and with it the transform chosen anew. -/
def writeTransparency (h : Header) (t : Transparency) : Handling Unit := do
  write fun m => { m with transform := some (.select h m.options (some t)) }
  write fun m => { m with transparency := some t }

/-- The transparency: an opacity for every palette entry, or the one sample or colour that is
transparent. -/
def handleTransparency (data : List UInt8) : Handling Unit := do
  let m ← get
  let h ← check m.requireHeader
  match h.color with
  | .palette =>
    let palette ← check (m.requirePalette .transparency)
    check (require (data.length ≤ palette.length)
      (.transparencyExceedsPalette data.length palette.length))
    let alpha := data ++ List.replicate (palette.length - data.length) 255
    writeTransparency h (.paletteAlpha alpha)
  | .gray =>
    let key ← check (readField data 0 2)
    writeKey (.grayKey key)
    writeTransparency h (.grayKey key)
  | .rgb =>
    let red ← check (readField data 0 2)
    let green ← check (readField data 2 2)
    let blue ← check (readField data 4 2)
    writeKey (.rgbKey red green blue)
    writeTransparency h (.rgbKey red green blue)
  | .grayAlpha | .rgba => throw (.unexpectedTransparency h.color)

/-- A text entry. -/
def handleText (data : List UInt8) : Handling Unit := do
  let (keyword, text) ← check (splitKeyword .textKeyword data)
  let entry : TextEntry := { keyword := Text.latin1 keyword, text := Text.latin1 text }
  write fun m => { m with text := m.text ++ [entry] }

/-- A compressed text entry; one that cannot be inflated is passed over. -/
def handleCompressedText (data : List UInt8) : Handling Unit := do
  let (keyword, stream) ← check (splitCompressedText data)
  match Libraries.inflate true stream with
  | .ok text =>
    let entry : TextEntry := { keyword, text := Text.latin1 text }
    write fun m => { m with compressedText := m.compressedText ++ [entry] }
  | .error _ => pure ()

/-- The time of the last change; one that is no date is passed over. -/
def handleTime (data : List UInt8) : Handling Unit := do
  let time ← check (readTime data)
  if Libraries.isDate time then
    write (·.note "timestamp" (.date time))
    write (·.record fun p => { p with modified := some time })
  else pure ()

/-- A chunk of unknown type, kept under its number. -/
def handleUnknown (tag : ChunkTag) (data : List UInt8) : Handling Unit := do
  let m ← get
  write fun m => { m with unknownCount := m.unknownCount + 1 }
  write (·.record fun p => { p with unknownChunks := p.unknownChunks ++ [(tag, data)] })
  write (·.note (unknownName m.unknownCount tag) (.bytes data))

/-- The end of the file: what is only known once all chunks are read is published. -/
def handleEnd : Handling Unit := do
  let m ← get
  let h ← check m.requireHeader
  write (·.noteAll (textProperties "text" m.text))
  write (·.noteAll (textProperties "ztext" m.compressedText))
  write (·.record fun p => { p with text := m.text, compressedText := m.compressedText })
  if m.significantBits.isNone then
    let bits := List.replicate h.channels h.depth
    write (·.note "significant_bits" (.integers bits))
    write fun m => { m with significantBits := some bits }
  else pure ()

/-- Takes a chunk in. -/
def handle (c : Chunk) : Handling Unit :=
  match c.kind with
  | .header => handleHeader c.data
  | .palette => handlePalette c.data
  | .imageData => write fun m => { m with imageData := m.imageData ++ c.data }
  | .imageEnd => handleEnd
  | .chromaticities => handleChromaticities c.data
  | .gamma => handleGamma c.data
  | .iccProfile => handleIccProfile c.data
  | .significantBits => handleSignificantBits c.data
  | .standardRgb => handleStandardRgb c.data
  | .background => handleBackground c.data
  | .histogram => handleHistogram c.data
  | .transparency => handleTransparency c.data
  | .physicalSize => handlePhysicalSize c.data
  | .time => handleTime c.data
  | .text => handleText c.data
  | .compressedText => handleCompressedText c.data
  | .unknown => handleUnknown c.tag c.data

end Metadata

end Png
