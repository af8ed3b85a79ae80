import Png.Libraries.Own
import Png.Proofs.Expansion
import Png.Proofs.Lockstep
import Png.Proofs.PaletteState
import Png.Proofs.PropertyOrder

/-!
# Options do not decide whether a file is read

Three options can have a file refused: the two limits of its size, and whether its checksum is
compared. All others choose how its samples are presented. `Metadata.Alike` relates what is known of
a file under options that agree in those three: palettes may be corrected differently, and with them
the colour of the background and the gamma that is reported, but nothing on which a chunk is
refused. Two readings of a file keep it from chunk to chunk (`inStep_accept`), and the images that
they end with are images of the same stored pixels: this is `decode_presentation`.
-/

namespace Png

/-- A file is refused under both or under neither. -/
structure Options.SameLimits (o₁ o₂ : Options) : Prop where
  maxWidth_eq : o₁.maxWidth = o₂.maxWidth
  maxHeight_eq : o₁.maxHeight = o₂.maxHeight
  verifyChecksum_eq : o₁.verifyChecksum = o₂.verifyChecksum

/-- Samples are corrected in the same way under both. -/
structure Options.SameCorrection (o₁ o₂ : Options) : Prop where
  correctGamma_eq : o₁.correctGamma = o₂.correctGamma
  userExponent_eq : o₁.userExponent = o₂.userExponent
  displayExponent_eq : o₁.displayExponent = o₂.displayExponent

/-- Reading a header looks at no option but the limits. -/
theorem Header.parse_congr {o₁ o₂ : Options} (h : o₁.SameLimits o₂) (data : List UInt8) :
    parse o₁ data = parse o₂ data := by
  simp only [parse, h.maxWidth_eq, h.maxHeight_eq]

/-- The properties whose values depend on how samples are corrected. -/
def correctedNames : List String := ["gamma", "background_color"]

/-- Two readings of a chunk tell the same, but for colours that are corrected. These are the same
where `same` holds. -/
inductive Finding.Alike (same : Prop) : Finding → Finding → Prop
  | refl (f : Finding) : Alike same f f
  | palette {colors₁ colors₂ : List Rgb} (hsize : colors₁.length = colors₂.length)
      (hsame : same → colors₁ = colors₂) : Alike same (.palette colors₁) (.palette colors₂)
  | background (b : Background) {color₁ color₂ : Rgb} (hsame : same → color₁ = color₂) :
      Alike same (.background b color₁) (.background b color₂)

namespace Metadata

/-- What is known of a file is the same, but for the form of its output. -/
structure Alike (m₁ m₂ : Metadata) : Prop where
  limits : m₁.options.SameLimits m₂.options
  header_eq : m₁.header = m₂.header
  palette_size : m₁.palette.map List.length = m₂.palette.map List.length
  transparency_eq : m₁.transparency = m₂.transparency
  intent_eq : m₁.response.intent = m₂.response.intent
  significantBits_eq : m₁.significantBits = m₂.significantBits
  text_eq : m₁.text = m₂.text
  compressedText_eq : m₁.compressedText = m₂.compressedText
  unknownCount_eq : m₁.unknownCount = m₂.unknownCount
  imageData_eq : m₁.imageData = m₂.imageData
  sorted₁ : m₁.properties.Sorted
  sorted₂ : m₂.properties.Sorted
  properties_eq : m₁.properties.without correctedNames = m₂.properties.without correctedNames
  /-- Samples that are corrected in the same way leave no difference in what is corrected. -/
  corrected : m₁.options.SameCorrection m₂.options →
    m₁.palette = m₂.palette ∧ m₁.response = m₂.response ∧ m₁.properties = m₂.properties

variable {m₁ m₂ : Metadata}

theorem alike_new {o₁ o₂ : Options} (h : o₁.SameLimits o₂) :
    (Metadata.new o₁).Alike (.new o₂) := by
  have hsorted : (({} : Properties).insert "file_type" (.text fileType)).Sorted :=
    Properties.sorted_insert (p := {}) List.Pairwise.nil _ _
  refine ⟨h, rfl, rfl, rfl, rfl, rfl, rfl, rfl, rfl, rfl, hsorted, hsorted, rfl, fun hsame => ?_⟩
  refine ⟨rfl, ?_, rfl⟩
  show ToneResponse.ofOptions o₁ = ToneResponse.ofOptions o₂
  have huser : o₁.userExponent = o₂.userExponent := hsame.userExponent_eq
  have hdisplay : o₁.displayExponent = o₂.displayExponent := hsame.displayExponent_eq
  rw [ToneResponse.ofOptions, ToneResponse.ofOptions, huser, hdisplay]

namespace Alike

/-! ## Reading a chunk -/

section

variable (h : m₁.Alike m₂)

include h

/-- Both palettes are missing, or they are as large as each other. -/
theorem palette_cases : m₁.palette = none ∧ m₂.palette = none ∨
    ∃ colors₁ colors₂, m₁.palette = some colors₁ ∧ m₂.palette = some colors₂ ∧
      colors₁.length = colors₂.length := by
  have hsize := h.palette_size
  cases h₁ : m₁.palette <;> cases h₂ : m₂.palette <;> simp_all

theorem isSome_palette : m₁.palette.isSome = m₂.palette.isSome := by
  simpa using congrArg Option.isSome h.palette_size

/-- A histogram is read for the number of colours. -/
theorem readHistogram_eq (data : List UInt8) : m₁.readHistogram data = m₂.readHistogram data := by
  obtain ⟨h₁, h₂⟩ | ⟨colors₁, colors₂, h₁, h₂, hlength⟩ := h.palette_cases
  · simp only [readHistogram, requirePalette, h₁, h₂]
  · simp only [readHistogram, requirePalette, h₁, h₂, demand, bind, Except.bind, hlength]

/-- Transparency is read for the number of colours. -/
theorem readTransparency_eq (data : List UInt8) :
    m₁.readTransparency data = m₂.readTransparency data := by
  obtain ⟨h₁, h₂⟩ | ⟨colors₁, colors₂, h₁, h₂, hlength⟩ := h.palette_cases
  · simp only [readTransparency, requireHeader, requirePalette, h.header_eq, h₁, h₂]
  · simp only [readTransparency, requireHeader, requirePalette, h.header_eq, h₁, h₂, demand, bind,
      Except.bind, hlength]

/-- A palette has the same number of colours however they are corrected. -/
theorem inStep_readPalette (data : List UInt8) :
    InStep (Finding.Alike (m₁.options.SameCorrection m₂.options)) (m₁.readPalette data)
      (m₂.readPalette data) := by
  refine (InStep.of_eq rfl fun _ _ => rfl).bind fun _ _ _ _ _ => ?_
  refine .palette ?_ fun hsame => ?_
  · rw [length_corrected, length_corrected]
  · rw [Metadata.corrected, Metadata.corrected, hsame.correctGamma_eq, (h.corrected hsame).2.1]

/-- An index has a colour in both palettes or in neither. -/
theorem inStep_readBackground (data : List UInt8) :
    InStep (Finding.Alike (m₁.options.SameCorrection m₂.options)) (m₁.readBackground data)
      (m₂.readBackground data) := by
  have hheader : m₁.requireHeader = m₂.requireHeader := by
    rw [requireHeader, requireHeader, h.header_eq]
  refine (InStep.of_eq hheader fun _ _ => rfl).bind fun hd _ _ _ heq => ?_
  subst heq
  cases hd.color with
  | palette =>
    obtain ⟨h₁, h₂⟩ | ⟨colors₁, colors₂, h₁, h₂, hlength⟩ := h.palette_cases
    · simp only [requirePalette, h₁, h₂]
      rfl
    · have hsame : m₁.options.SameCorrection m₂.options → colors₁ = colors₂ := by
        intro hsame
        have hpalette := (h.corrected hsame).1
        rwa [h₁, h₂, Option.some_inj] at hpalette
      have hpalette₁ : m₁.requirePalette .background = .ok colors₁ := by
        rw [requirePalette, h₁]
        rfl
      have hpalette₂ : m₂.requirePalette .background = .ok colors₂ := by
        rw [requirePalette, h₂]
        rfl
      simp only [hpalette₁, hpalette₂]
      show InStep _ (readField data 0 1 >>= _) (readField data 0 1 >>= _)
      refine (InStep.of_eq rfl fun _ _ => rfl).bind fun index _ _ _ heq => ?_
      subst heq
      by_cases hindex : index < colors₁.length
      · rw [List.getElem?_eq_getElem hindex, List.getElem?_eq_getElem (hlength ▸ hindex)]
        exact .background _ fun hs => by simp only [hsame hs]
      · have hindex₂ : ¬ index < colors₂.length := hlength ▸ hindex
        rw [List.getElem?_eq_none (Nat.not_lt.1 hindex),
          List.getElem?_eq_none (Nat.not_lt.1 hindex₂), hlength]
        rfl
  -- The colours of other images are never corrected.
  | gray | grayAlpha | rgb | rgba => exact InStep.of_eq rfl fun f _ => .refl f

/-- A chunk is read or refused under both options. -/
theorem inStep_read [Libraries] (c : Chunk) :
    InStep (Finding.Alike (m₁.options.SameCorrection m₂.options)) (m₁.read c) (m₂.read c) := by
  have hsame : ∀ {r₁ r₂ : Except Error Finding}, r₁ = r₂ →
      InStep (Finding.Alike (m₁.options.SameCorrection m₂.options)) r₁ r₂ :=
    fun heq => InStep.of_eq heq fun f _ => .refl f
  unfold read
  cases c.kind with
  | palette => exact h.inStep_readPalette c.data
  | background => exact h.inStep_readBackground c.data
  | histogram => exact hsame (h.readHistogram_eq c.data)
  | transparency => exact hsame (h.readTransparency_eq c.data)
  | header => exact hsame (by simp only [readHeader, h.header_eq, Header.parse_congr h.limits])
  | imageEnd => exact hsame (by simp only [readEnd, requireHeader, h.header_eq])
  | significantBits => exact hsame (by simp only [readSignificantBits, requireHeader, h.header_eq])
  | chromaticities => exact hsame (by simp only [readChromaticities, h.intent_eq])
  | gamma => exact hsame (by simp only [readGamma, h.intent_eq])
  | standardRgb => exact hsame (by simp only [readStandardRgb, h.intent_eq])
  | imageData | iccProfile | physicalSize | time | text | compressedText | unknown =>
    exact hsame rfl

end

/-! ## Keeping what it tells -/

/-- But for the gamma, a header reports the same whatever gamma is assumed. -/
theorem filter_headerProperties (hd : Header) (gamma : Option Float32) :
    (headerProperties hd gamma).filter (fun entry => Text.lowerCase entry.1 ∉ correctedNames) =
      (headerProperties hd none).filter fun entry =>
        Text.lowerCase entry.1 ∉ correctedNames := by
  have hgamma : Text.lowerCase "gamma" ∈ correctedNames := by decide
  have hnone : ∀ gamma : Option Float32,
      (gamma.toList.map fun g => ("gamma", PropertyValue.number g)).filter
        (fun entry => Text.lowerCase entry.1 ∉ correctedNames) = [] := by
    intro gamma
    cases gamma with
    | none => rfl
    | some g => exact List.filter_cons_of_neg (by simpa using hgamma)
  rw [headerProperties, headerProperties, List.filter_append, List.filter_append, hnone, hnone]

section

variable (h : m₁.Alike m₂) {f₁ f₂ : Finding}
  (hf : Finding.Alike (m₁.options.SameCorrection m₂.options) f₁ f₂)

include h hf

/-- What is reported of a chunk is the same but for corrected values. -/
theorem filter_reported :
    (m₁.reported f₁).filter (fun entry => Text.lowerCase entry.1 ∉ correctedNames) =
      (m₂.reported f₂).filter fun entry => Text.lowerCase entry.1 ∉ correctedNames := by
  have hgamma : Text.lowerCase "gamma" ∈ correctedNames := by decide
  have hbackground : Text.lowerCase "background_color" ∈ correctedNames := by decide
  cases hf with
  | palette hsize hsame => rfl
  | background b hsame => simp [reported, hbackground]
  | refl =>
    cases f₁ with
    | header hd =>
      exact (filter_headerProperties hd m₁.startingGamma).trans
        (filter_headerProperties hd m₂.startingGamma).symm
    | gamma gamma => simp [reported, hgamma]
    | standardRgb intent => simp [reported, List.filter_cons, hgamma]
    | imageEnd bits =>
      simp only [reported, endProperties, h.text_eq, h.compressedText_eq, h.significantBits_eq]
    | unknown tag data => simp only [reported, h.unknownCount_eq]
    | _ => rfl

/-- All that is reported of a chunk is the same where samples are corrected in the same way. -/
theorem reported_eq (hsame : m₁.options.SameCorrection m₂.options) :
    m₁.reported f₁ = m₂.reported f₂ := by
  obtain ⟨-, hresponse, -⟩ := h.corrected hsame
  cases hf with
  | palette hsize hcolors => rfl
  | background b hcolor => rw [hcolor hsame]; rfl
  | refl =>
    cases f₁ with
    | header hd =>
      simp only [reported, startingGamma, hsame.correctGamma_eq, hresponse]
    | gamma gamma => simp only [reported, hsame.correctGamma_eq, hresponse]
    | standardRgb intent => simp only [reported, hsame.correctGamma_eq, hresponse]
    | imageEnd bits =>
      simp only [reported, endProperties, h.text_eq, h.compressedText_eq, h.significantBits_eq]
    | unknown tag data => simp only [reported, h.unknownCount_eq]
    | _ => rfl

theorem corrected_keep (hsame : m₁.options.SameCorrection m₂.options) :
    (m₁.keep f₁).palette = (m₂.keep f₂).palette ∧ (m₁.keep f₁).response = (m₂.keep f₂).response ∧
      (m₁.keep f₁).properties = (m₂.keep f₂).properties := by
  obtain ⟨hpalette, hresponse, hproperties⟩ := h.corrected hsame
  refine ⟨?_, ?_, ?_⟩
  · cases hf with
    | palette hsize hcolors => simp [hcolors hsame]
    | background b hcolor => simp [hpalette]
    | refl => simp [hpalette]
  · cases hf <;> simp [hresponse]
  · simp [hproperties, h.reported_eq hf hsame]

/-- What is known stays alike. -/
theorem keep : (m₁.keep f₁).Alike (m₂.keep f₂) where
  limits := by simpa using h.limits
  header_eq := by cases hf <;> simp [h.header_eq]
  palette_size := by
    cases hf with
    | palette hsize hsame => simp [hsize]
    | background b hsame => simpa using h.palette_size
    | refl => cases f₁ <;> simp [h.palette_size]
  transparency_eq := by cases hf <;> simp [h.transparency_eq]
  intent_eq := by
    cases hf with
    | palette hsize hsame => simpa using h.intent_eq
    | background b hsame => simpa using h.intent_eq
    | refl => cases f₁ <;> simp [h.intent_eq, ToneResponse.withStandardRgb]
  significantBits_eq := by cases hf <;> simp [h.significantBits_eq]
  text_eq := by cases hf <;> simp [h.text_eq]
  compressedText_eq := by cases hf <;> simp [h.compressedText_eq]
  unknownCount_eq := by cases hf <;> simp [h.unknownCount_eq]
  imageData_eq := by cases hf <;> simp [h.imageData_eq]
  sorted₁ := by simpa using Properties.sorted_insertAll h.sorted₁ _
  sorted₂ := by simpa using Properties.sorted_insertAll h.sorted₂ _
  properties_eq := by
    rw [properties_keep, properties_keep, Properties.without_insertAll h.sorted₁,
      Properties.without_insertAll h.sorted₂, h.properties_eq, h.filter_reported hf]
  corrected hsame := h.corrected_keep hf (by simpa using hsame)

end

variable [Libraries]

/-- A chunk is accepted or refused under both options, and what is known stays alike. -/
theorem inStep_accept (c : Chunk) (h : m₁.Alike m₂) :
    InStep Alike (m₁.accept c) (m₂.accept c) :=
  (h.inStep_read c).bind fun _ _ _ _ hf => h.keep hf

/-! ## Drawing -/

/-- The same pixels are read. -/
theorem readStored_eq (h : m₁.Alike m₂) : m₁.readStored = m₂.readStored :=
  readStored_congr h.header_eq h.isSome_palette h.limits.verifyChecksum_eq h.imageData_eq

/-- Two drawings of what is read are in step as far as the images are related. -/
theorem agree_render {related : Image → Image → Prop} (h : m₁.Alike m₂) (h₁ : m₁.Coherent)
    (h₂ : m₂.Coherent)
    (hdrawn : ∀ hd s, m₁.readStored = .ok (hd, s) → related (m₁.drawn hd s) (m₂.drawn hd s)) :
    InStep related m₁.render m₂.render := by
  rw [h₁.render_eq, h₂.render_eq, ← h.readStored_eq]
  cases hread : m₁.readStored with
  | error e => rfl
  | ok r => exact hdrawn r.1 r.2 hread

end Alike

end Metadata

theorem Agree.of_inStep {related : Image → Image → Prop} {result result' : Except Error Image}
    (h : InStep related result result') : Agree related result result' := by
  cases result <;> cases result' <;> exact h

/-- Two ways of decoding a file agree as far as the drawings of what is read agree. -/
theorem agree_of_sameLimits [Libraries] {related : Image → Image → Prop} {o₁ o₂ : Options}
    (hlimits : o₁.SameLimits o₂) (source : Source)
    (hdrawn : ∀ m₁ m₂ : Metadata, m₁.Alike m₂ → m₁.Coherent → m₂.Coherent → m₁.options = o₁ →
      m₂.options = o₂ → ∀ h s, m₁.readStored = .ok (h, s) →
        related (m₁.drawn h s) (m₂.drawn h s)) :
    Agree related (decode source o₁) (decode source o₂) := by
  have hknown := Decoder.inStep_known (fun c h => Metadata.Alike.inStep_accept c h) source
    (Metadata.alike_new hlimits)
  rw [decode_eq_known, decode_eq_known]
  refine .of_inStep (hknown.bind fun m₁ m₂ h₁ h₂ h => ?_)
  obtain ⟨hcoherent₁, hoptions₁⟩ := Decoder.of_known h₁
  obtain ⟨hcoherent₂, hoptions₂⟩ := Decoder.of_known h₂
  exact h.agree_render hcoherent₁ hcoherent₂
    (hdrawn m₁ m₂ h hcoherent₁ hcoherent₂ hoptions₁ hoptions₂)

/-- Two images of one file under different options. -/
structure SameFile (o₁ o₂ : Options) (image₁ image₂ : Image) : Prop where
  header_eq : image₁.header = image₂.header
  /-- The properties are the same but for the gamma and the colour of the background. -/
  properties_eq :
    image₁.properties.without correctedNames = image₂.properties.without correctedNames
  /-- Whether encoding parameters are recorded makes no difference to anything else. -/
  recording : o₂ = { o₁ with recordEncoding := o₂.recordEncoding } →
    image₁.raster = image₂.raster ∧ image₁.colorModel = image₂.colorModel ∧
      image₁.properties = image₂.properties

/-- The options for the presentation of an image never decide whether there is one: with the same
limits and the same checksum comparison a file fails with the same error whatever the others are, or
gives images with the same header and the same properties, but for those that depend on
correction. -/
theorem decode_presentation [Libraries] {o₁ o₂ : Options} (hlimits : o₁.SameLimits o₂)
    (source : Source) : Agree (SameFile o₁ o₂) (decode source o₁) (decode source o₂) := by
  refine agree_of_sameLimits hlimits source fun m₁ m₂ h _ _ hoptions₁ hoptions₂ hd s _ => ?_
  refine ⟨rfl, h.properties_eq, fun hrecording => ?_⟩
  have hoptions : m₂.options = { m₁.options with recordEncoding := o₂.recordEncoding } := by
    rw [hoptions₁, hoptions₂]
    exact hrecording
  have hsame : m₁.options.SameCorrection m₂.options := by
    rw [hoptions]
    exact ⟨rfl, rfl, rfl⟩
  obtain ⟨hpalette, hresponse, hproperties⟩ := h.corrected hsame
  refine ⟨?_, ?_, hproperties⟩
  · simp only [Metadata.drawn, Metadata.pixelMap, hoptions, hpalette, hresponse, h.transparency_eq]
    rfl
  · simp only [Metadata.drawn, Metadata.colorModel, hoptions, hpalette, h.transparency_eq]
    rfl

/-- Two pixels of a palette image with an opacity. It has the same properties, but for two of them,
if the colours are expanded and corrected and the opacity is dropped, and the same raster if
encoding parameters are recorded. -/
theorem decode_presentation_two_pixels :
    let chunk (tag : ChunkTag) (data : List UInt8) : Chunk := { tag, data }
    let colors : Source :=
      { rest := signature ++
          [chunk (.ofChars 'I' 'H' 'D' 'R') [0, 0, 0, 2, 0, 0, 0, 1, 2, 3, 0, 0, 0],
            chunk (.ofChars 'P' 'L' 'T' 'E') [1, 2, 3, 4, 5, 6],
            chunk (.ofChars 't' 'R' 'N' 'S') [7],
            chunk (.ofChars 'I' 'D' 'A' 'T')
              [0x78, 1, 1, 2, 0, 0xFD, 0xFF, 0, 0x70, 0, 0x72, 0, 0x71],
            chunk (.ofChars 'I' 'E' 'N' 'D') []].flatMap Chunk.toBytes }
    let corrected : Options :=
      { suppressAlpha := true, expandPalette := true, correctGamma := true }
    let recorded : Options := { recordEncoding := true }
    ∃ image₁ image₂ image₃, decode colors {} = .ok image₁ ∧ decode colors corrected = .ok image₂ ∧
      decode colors recorded = .ok image₃ ∧ image₁.header = image₂.header ∧
      image₁.properties.without correctedNames = image₂.properties.without correctedNames ∧
      image₁.raster = image₃.raster := by
  intro chunk colors corrected recorded
  have hview : (decode colors {}).map (·.header) = .ok ⟨2, 1, 2, .palette, .sequential⟩ := by
    decide +kernel
  obtain ⟨image₁, h₁, -⟩ := exists_of_map_eq_ok hview
  have hcorrecting : ({} : Options).SameLimits corrected := ⟨rfl, rfl, rfl⟩
  have hrecording : ({} : Options).SameLimits recorded := ⟨rfl, rfl, rfl⟩
  obtain ⟨image₂, h₂, hcorrected⟩ := (decode_presentation hcorrecting colors).exists_of_ok h₁
  obtain ⟨image₃, h₃, hrecorded⟩ := (decode_presentation hrecording colors).exists_of_ok h₁
  obtain ⟨hraster, -, -⟩ := hrecorded.recording rfl
  exact ⟨image₁, image₂, image₃, h₁, h₂, h₃, hcorrected.header_eq, hcorrected.properties_eq,
    hraster⟩

end Png
