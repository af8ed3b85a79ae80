import Png.Libraries.Own
import Png.Proofs.Expansion
import Png.Proofs.ImageDataChunks

/-!
# Chunks that can be left out

Most chunks only describe an image. Leaving out any of them gives a file with the same picture, and
where samples are not corrected this is so for the chunks about their response, too, if all of these
are left out. `Metadata.SamePicture` relates what is known of a file with and without such chunks. A
chunk that is kept is read in the same way on both sides and keeps the relation (`accept`), and one
that is left out keeps it on one side alone (`omit_left`). `decode_omitted` is the result for files.
-/

namespace Png

/-- The kinds of chunk that describe an image without changing any sample. -/
def descriptiveKinds : List ChunkKind :=
  [.chromaticities, .iccProfile, .significantBits, .background, .histogram, .physicalSize, .time,
    .text, .compressedText, .unknown]

/-- The kinds of chunk about the response of samples. -/
def responseKinds : List ChunkKind := [.gamma, .chromaticities, .standardRgb]

/-- What is left of a list of chunks without some that are of certain kinds. -/
inductive Omits (kinds : List ChunkKind) : List Chunk → List Chunk → Prop
  | nil : Omits kinds [] []
  | keep (c : Chunk) {chunks kept : List Chunk} (h : Omits kinds chunks kept) :
      Omits kinds (c :: chunks) (c :: kept)
  | leave {c : Chunk} (hkind : c.kind ∈ kinds) {chunks kept : List Chunk}
      (h : Omits kinds chunks kept) : Omits kinds (c :: chunks) kept

namespace Omits

variable {kinds : List ChunkKind} {chunks kept : List Chunk}

theorem sublist (h : Omits kinds chunks kept) : kept.Sublist chunks := by
  induction h with
  | nil => exact .slnil
  | keep c h ih => exact ih.cons_cons c
  | leave hkind h ih => exact ih.cons _

/-- A first chunk of another kind stays the first. -/
theorem head?_kind {kind : ChunkKind} (h : Omits kinds chunks kept) (hkind : kind ∉ kinds)
    (hfirst : chunks.head?.map Chunk.kind = some kind) :
    kept.head?.map Chunk.kind = some kind := by
  cases h with
  | nil => cases hfirst
  | keep c h => exact hfirst
  | leave homitted h =>
    obtain rfl : Chunk.kind _ = kind := by simpa using hfirst
    exact absurd homitted hkind

/-- A last chunk of another kind stays the last. -/
theorem exists_concat {last : Chunk} (hkind : last.kind ∉ kinds)
    {front : List Chunk} (h : Omits kinds (front ++ [last]) kept) :
    ∃ left, kept = left ++ [last] ∧ Omits kinds front left := by
  induction front generalizing kept with
  | nil =>
    cases h with
    | keep c h =>
      cases h
      exact ⟨[], rfl, .nil⟩
    | leave homitted h => exact absurd homitted hkind
  | cons c front ih =>
    cases h with
    | keep c h =>
      obtain ⟨left, rfl, hleft⟩ := ih h
      exact ⟨c :: left, rfl, .keep c hleft⟩
    | leave homitted h =>
      obtain ⟨left, rfl, hleft⟩ := ih h
      exact ⟨left, rfl, .leave homitted hleft⟩

/-- Chunks of more kinds can be left out after others. -/
theorem filter (more : List ChunkKind) (h : Omits kinds chunks kept) :
    Omits (kinds ++ more) chunks (kept.filter (·.kind ∉ more)) := by
  induction h with
  | nil => exact .nil
  | keep c h ih =>
    by_cases hkind : c.kind ∈ more
    · rw [List.filter_cons_of_neg (by simpa using hkind)]
      exact .leave (List.mem_append_right kinds hkind) ih
    · rw [List.filter_cons_of_pos (by simpa using hkind)]
      exact .keep c ih
  | leave hkind h ih => exact .leave (List.mem_append_left more hkind) ih

end Omits

namespace Metadata

/-- Files of which this is known have the same picture. What is known of the response of samples
counts only where `response` holds, which it does when samples are corrected. -/
structure SamePicture (response : Prop) (m m' : Metadata) : Prop where
  corrects : m.options.correctGamma = true → response
  options_eq : m'.options = m.options
  header_eq : m'.header = m.header
  palette_eq : m'.palette = m.palette
  transparency_eq : m'.transparency = m.transparency
  imageData_eq : m'.imageData = m.imageData
  /-- Chromaticities are reported and not used. -/
  response_eq : response →
    { m'.response with chromaticities := none } = { m.response with chromaticities := none }

namespace SamePicture

variable {response : Prop} {m m' : Metadata}

theorem refl (hcorrects : m.options.correctGamma = true → response) : m.SamePicture response m :=
  ⟨hcorrects, rfl, rfl, rfl, rfl, rfl, fun _ => rfl⟩

section

variable (h : m.SamePicture response m')

include h

/-- The tables of corrected samples are the same. -/
theorem table_eq (hresponse : response) (bits : Nat) :
    m'.response.table bits = m.response.table bits := by
  have htable := congrArg (ToneResponse.table · bits) (h.response_eq hresponse)
  exact htable

theorem intent_eq (hresponse : response) : m'.response.intent = m.response.intent := by
  have hintent := congrArg ToneResponse.intent (h.response_eq hresponse)
  exact hintent

/-- Pixels are mapped to the same samples. -/
theorem pixelMap_eq (hd : Header) (t : Transform) : m'.pixelMap hd t = m.pixelMap hd t := by
  rw [pixelMap, pixelMap, h.options_eq, h.palette_eq, h.transparency_eq]
  cases hgamma : m.options.correctGamma with
  | true => simp only [PixelMap.build, hgamma, h.table_eq (h.corrects hgamma)]
  | false => simp only [PixelMap.build, hgamma, Bool.false_eq_true, if_false]

theorem colorModel_eq (hd : Header) (t : Transform) : m'.colorModel hd t = m.colorModel hd t := by
  rw [colorModel, colorModel, h.options_eq, h.palette_eq, h.transparency_eq]

/-! ## One chunk -/

/-- Keeping what a chunk tells on both sides. -/
theorem keep (f : Finding) : (m.keep f).SamePicture response (m'.keep f) where
  corrects := by simpa using h.corrects
  options_eq := by simp [h.options_eq]
  header_eq := by simp [h.header_eq]
  palette_eq := by simp [h.palette_eq]
  transparency_eq := by simp [h.transparency_eq]
  imageData_eq := by simp [h.imageData_eq]
  response_eq hresponse := by
    have heq := h.response_eq hresponse
    cases f with
    | gamma gamma => exact congrArg (fun r => { r with fileGamma := gamma }) heq
    | standardRgb intent =>
      exact congrArg (fun r => { r.withStandardRgb intent with chromaticities := none }) heq
    | _ => simpa using heq

variable [Libraries]

/-- A chunk is read in the same way, unless it is about the response and that does not count. -/
theorem read_eq {c : Chunk} (hkind : response ∨ c.kind ∉ responseKinds) : m'.read c = m.read c := by
  have hcolors : ∀ colors, m'.corrected colors = m.corrected colors := by
    intro colors
    cases hgamma : m.options.correctGamma with
    | true => simp only [corrected, h.options_eq, hgamma, h.table_eq (h.corrects hgamma)]
    | false => simp [corrected, h.options_eq, hgamma]
  unfold read
  cases hc : c.kind with
  | chromaticities | gamma | standardRgb =>
    have hresponse : response := hkind.resolve_right (by simp [hc, responseKinds])
    simp only [readChromaticities, readGamma, readStandardRgb, h.intent_eq hresponse]
  | header => simp only [readHeader, h.header_eq, h.options_eq]
  | palette => simp only [readPalette, hcolors]
  | imageEnd => simp only [readEnd, requireHeader, h.header_eq]
  | significantBits => simp only [readSignificantBits, requireHeader, h.header_eq]
  | background =>
    simp only [readBackground, requireHeader, requirePalette, h.header_eq, h.palette_eq]
  | histogram => simp only [readHistogram, requirePalette, h.palette_eq]
  | transparency =>
    simp only [readTransparency, requireHeader, requirePalette, h.header_eq, h.palette_eq]
  | imageData | iccProfile | physicalSize | time | text | compressedText | unknown => rfl

/-- A chunk that is kept is accepted on both sides. -/
theorem accept {c : Chunk} {n : Metadata} (hkind : response ∨ c.kind ∉ responseKinds)
    (haccept : m.accept c = .ok n) : ∃ n', m'.accept c = .ok n' ∧ n.SamePicture response n' := by
  obtain ⟨f, hread, rfl⟩ := accept_eq_ok_iff.1 haccept
  exact ⟨m'.keep f, accept_eq_ok_iff.2 ⟨f, (h.read_eq hkind).trans hread, rfl⟩, h.keep f⟩

/-- A chunk may be left out if it only describes the image, or if it is about the response and that
does not count. -/
theorem omit_left {c : Chunk} {n : Metadata}
    (hkind : c.kind ∈ descriptiveKinds ∨ ¬response ∧ c.kind ∈ responseKinds)
    (haccept : m.accept c = .ok n) : n.SamePicture response m' := by
  obtain ⟨f, hread, rfl⟩ := accept_eq_ok_iff.1 haccept
  have hof := of_read hread
  have hfields : (m.keep f).header = m.header ∧ (m.keep f).palette = m.palette ∧
      (m.keep f).transparency = m.transparency ∧ (m.keep f).imageData = m.imageData := by
    cases f with
    -- A chunk that tells one of these may not be left out.
    | header | palette | imageData | imageEnd | transparency =>
      have hc : c.kind = _ := hof
      simp [hc, descriptiveKinds, responseKinds] at hkind
    | _ => simp
  have hkept : response → { (m.keep f).response with chromaticities := none } =
      { m.response with chromaticities := none } := by
    intro hresponse
    cases f with
    -- These change the response, which does not count where they may be left out.
    | gamma | standardRgb =>
      have hc : c.kind = _ := hof
      have hnot : ¬response := by simpa [hc, descriptiveKinds, responseKinds] using hkind
      exact absurd hresponse hnot
    | _ => simp
  obtain ⟨hheader, hpalette, htransparency, hdata⟩ := hfields
  have hoptions := options_keep m f
  exact ⟨hoptions ▸ h.corrects, h.options_eq.trans hoptions.symm, h.header_eq.trans hheader.symm,
    h.palette_eq.trans hpalette.symm, h.transparency_eq.trans htransparency.symm,
    h.imageData_eq.trans hdata.symm,
    fun hresponse => (h.response_eq hresponse).trans (hkept hresponse).symm⟩

/-- The same pixels are read. -/
theorem readStored_eq : m'.readStored = m.readStored :=
  readStored_congr h.header_eq (by rw [h.palette_eq]) (by rw [h.options_eq]) h.imageData_eq

end

end SamePicture

/-- Chunks that are left out do not have others refused. -/
theorem acceptAll_omits [Libraries] {response : Prop} {kinds : List ChunkKind}
    (hkinds : ∀ kind ∈ kinds, kind ∈ descriptiveKinds ∨ ¬response ∧ kind ∈ responseKinds)
    {chunks kept : List Chunk} (homits : Omits kinds chunks kept)
    (hkept : response ∨ ∀ c ∈ kept, c.kind ∉ responseKinds) {m m' n : Metadata}
    (h : m.SamePicture response m') (haccept : acceptAll chunks m = .ok () n) :
    ∃ n', acceptAll kept m' = .ok () n' ∧ n.SamePicture response n' := by
  -- The state on the right moves with the chunks that are kept, and waits at all others.
  induction homits generalizing m m' with
  | nil =>
    cases haccept
    exact ⟨m', rfl, h⟩
  | @keep c chunks kept homits ih =>
    unfold acceptAll at haccept
    split at haccept
    · next next haccepted =>
      obtain ⟨next', haccepted', hnext⟩ :=
        h.accept (hkept.imp_right fun hc => hc c List.mem_cons_self) haccepted
      obtain ⟨n', hn', hsame⟩ :=
        ih (hkept.imp_right fun hc d hd => hc d (List.mem_cons_of_mem c hd)) hnext haccept
      refine ⟨n', ?_, hsame⟩
      rw [acceptAll, haccepted']
      exact hn'
    · cases haccept
  | @leave c hkind chunks kept homits ih =>
    unfold acceptAll at haccept
    split at haccept
    · next next haccepted => exact ih hkept (h.omit_left (hkinds _ hkind) haccepted) haccept
    · cases haccept

end Metadata

/-! ## Files -/

/-- Two images have the same header, the same samples and the same meaning of these. -/
structure Image.SamePicture (image image' : Image) : Prop where
  header_eq : image'.header = image.header
  raster_eq : image'.raster = image.raster
  colorModel_eq : image'.colorModel = image.colorModel

theorem Answer.ofResult_injective {result result' : Except Error Image}
    (h : Answer.ofResult result = .ofResult result') : result = result' := by
  cases result <;> cases result' <;> cases h <;> rfl

/-- The source starts with the signature and these chunks. -/
def Source.StartsWith (source : Source) (chunks : List Chunk) : Prop :=
  ∃ tail, source.rest = signature ++ (chunks.flatMap Chunk.toBytes ++ tail)

/-- A file without some chunks carries the others. -/
theorem Source.Carries.omits {source source' : Source} {kinds : List ChunkKind}
    {chunks kept : List Chunk} (h : source.Carries chunks) (homits : Omits kinds chunks kept)
    (hend : .imageEnd ∉ kinds) (hstarts : source'.StartsWith kept) : source'.Carries kept := by
  obtain ⟨hfits, -, front, last, rfl, hlast, hfront⟩ := h
  obtain ⟨left, rfl, hleft⟩ := homits.exists_concat (hlast ▸ hend)
  exact ⟨fun c hc => hfits c (homits.sublist.subset hc), hstarts, left, last, rfl, hlast,
    fun c hc => hfront c (hleft.sublist.subset hc)⟩

section

variable [Libraries]

/-- Files of which the same is known, but for what only describes them, have the same picture. -/
theorem Metadata.SamePicture.render {response : Prop} {m m' : Metadata} {image : Image}
    (h : m.SamePicture response m') (hm : m.Coherent) (hm' : m'.Coherent)
    (himage : m.render = .ok image) :
    ∃ image', m'.render = .ok image' ∧ image.SamePicture image' := by
  rw [hm.render_eq] at himage
  rw [hm'.render_eq, h.readStored_eq]
  obtain ⟨⟨hd, s⟩, hread, rfl⟩ := exists_of_map_eq_ok himage
  refine ⟨m'.drawn hd s, by rw [hread]; rfl, rfl, ?_, ?_⟩
  · simp only [Metadata.drawn, h.options_eq, h.transparency_eq, h.pixelMap_eq]
  · simp only [Metadata.drawn, h.options_eq, h.transparency_eq, h.colorModel_eq]

/-- A file that carries chunks has an image if a header is the first of them, all are accepted, and
what they tell can be drawn. -/
theorem Decoder.decode_eq_ok_iff {source : Source} {chunks : List Chunk} {o : Options}
    {image : Image} (h : source.Carries chunks) :
    Png.decode source o = .ok image ↔ chunks.head?.map Chunk.kind = some .header ∧
      ∃ m, Metadata.acceptAll chunks (.new o) = .ok () m ∧ m.render = .ok image := by
  have hanswer : Answer.ofResult (Png.decode source o) = (decodeChunks o chunks).1 := by
    rw [← (perform_of_carries o h).1, Png.decode, perform]
    cases decode (new source o) <;> rfl
  rw [decodeChunks] at hanswer
  by_cases hheader : chunks.head?.map Chunk.kind = some .header
  · rw [if_pos hheader] at hanswer
    cases haccept : Metadata.acceptAll chunks (.new o) with
    | ok u m =>
      rw [haccept] at hanswer
      rw [Answer.ofResult_injective hanswer]
      refine ⟨fun hrender => ⟨hheader, m, rfl, hrender⟩, ?_⟩
      rintro ⟨-, m', hm', hrender⟩
      cases hm'
      exact hrender
    | error e m =>
      rw [haccept] at hanswer
      have hfailed : Png.decode source o = .error e := Answer.ofResult_injective hanswer
      simp [hfailed]
  · rw [if_neg hheader] at hanswer
    have hfailed : Png.decode source o = .error .missingHeader := Answer.ofResult_injective hanswer
    simp [hfailed, hheader]

/-- A file without some chunks has the same picture if these only describe it, or are about the
response of samples and that does not count. -/
theorem samePicture_of_omits {response : Prop} {kinds : List ChunkKind} {source source' : Source}
    {o : Options} {chunks kept : List Chunk} {image : Image}
    (hkinds : ∀ kind ∈ kinds, kind ∈ descriptiveKinds ∨ ¬response ∧ kind ∈ responseKinds)
    (hkept : response ∨ ∀ c ∈ kept, c.kind ∉ responseKinds)
    (hcorrects : o.correctGamma = true → response) (h : source.Carries chunks)
    (homits : Omits kinds chunks kept) (hstarts : source'.StartsWith kept)
    (himage : decode source o = .ok image) :
    ∃ image', decode source' o = .ok image' ∧ image.SamePicture image' := by
  have hother : ∀ kind ∈ kinds, kind ≠ .header ∧ kind ≠ .imageEnd := by
    intro kind hkind
    obtain hkind | ⟨-, hkind⟩ := hkinds kind hkind <;> constructor <;> rintro rfl <;>
      exact absurd hkind (by decide)
  have hcarries := h.omits homits (fun hend => (hother _ hend).2 rfl) hstarts
  obtain ⟨hheader, m, haccept, hrender⟩ := (Decoder.decode_eq_ok_iff h).1 himage
  have hfirst := homits.head?_kind (fun hfirst => (hother _ hfirst).1 rfl) hheader
  have hnew : (Metadata.new o).SamePicture response (.new o) := .refl hcorrects
  obtain ⟨m', haccept', hsame⟩ := Metadata.acceptAll_omits hkinds homits hkept hnew haccept
  obtain ⟨image', hrender', hpicture⟩ := hsame.render (Metadata.coherent_of_acceptAll haccept)
    (Metadata.coherent_of_acceptAll haccept') hrender
  exact ⟨image', (Decoder.decode_eq_ok_iff hcarries).2 ⟨hfirst, m', haccept', hrender'⟩, hpicture⟩

/-- Chunks that describe an image cannot change it. A file that has an image has one with the same
header, raster and colour model without any of its descriptive chunks; where samples are not
corrected, this is so if besides these all chunks about their response are left out. -/
theorem decode_omitted {source : Source} {o : Options} {chunks kept : List Chunk} {image : Image}
    (h : source.Carries chunks) (himage : decode source o = .ok image)
    (homits : Omits descriptiveKinds chunks kept) :
    (∀ source' : Source, source'.StartsWith kept →
      ∃ image', decode source' o = .ok image' ∧ image.SamePicture image') ∧
    (o.correctGamma = false → ∀ source' : Source,
      source'.StartsWith (kept.filter (·.kind ∉ responseKinds)) →
        ∃ image', decode source' o = .ok image' ∧ image.SamePicture image') := by
  constructor
  · intro source' hstarts
    have hkinds : ∀ kind ∈ descriptiveKinds,
        kind ∈ descriptiveKinds ∨ ¬True ∧ kind ∈ responseKinds := fun kind hkind => .inl hkind
    exact samePicture_of_omits hkinds (.inl trivial) (fun _ => trivial) h homits hstarts himage
  · intro hgamma source' hstarts
    -- Nothing of the response is left, and it does not count.
    have hkinds : ∀ kind ∈ descriptiveKinds ++ responseKinds,
        kind ∈ descriptiveKinds ∨ ¬False ∧ kind ∈ responseKinds := by
      intro kind hkind
      simpa using List.mem_append.1 hkind
    have hkept : ∀ c ∈ kept.filter (·.kind ∉ responseKinds), c.kind ∉ responseKinds := by
      intro c hc
      simpa using (List.mem_filter.1 hc).2
    have hcorrects : o.correctGamma = true → False := by simp [hgamma]
    exact samePicture_of_omits hkinds (.inr hkept) hcorrects h (homits.filter responseKinds) hstarts
      himage

end

/-- A gray pixel with a text. Behind the chunk about the standard RGB space an empty gamma chunk is
accepted, and it goes with this if it goes. -/
theorem decode_omitted_gray_pixel :
    let chunk (tag : ChunkTag) (data : List UInt8) : Chunk := { tag, data }
    let header := chunk (.ofChars 'I' 'H' 'D' 'R') [0, 0, 0, 1, 0, 0, 0, 1, 8, 0, 0, 0, 0]
    let standard := chunk (.ofChars 's' 'R' 'G' 'B') [0]
    let gamma := chunk (.ofChars 'g' 'A' 'M' 'A') []
    let text := chunk (.ofChars 't' 'E' 'X' 't') [65, 0, 66]
    let data := chunk (.ofChars 'I' 'D' 'A' 'T')
      [0x78, 1, 1, 2, 0, 0xFD, 0xFF, 0, 42, 0, 44, 0, 43]
    let last := chunk (.ofChars 'I' 'E' 'N' 'D') []
    let source (chunks : List Chunk) : Source :=
      { rest := signature ++ (chunks.flatMap Chunk.toBytes ++ []) }
    ∃ image image₁ image₂,
      decode (source [header, standard, gamma, text, data, last]) {} = .ok image ∧
      decode (source [header, standard, gamma, data, last]) {} = .ok image₁ ∧
      decode (source [header, data, last]) {} = .ok image₂ ∧ image.SamePicture image₁ ∧
      image.SamePicture image₂ := by
  intro chunk header standard gamma text data last source
  have hcarries : (source [header, standard, gamma, text, data, last]).Carries
      [header, standard, gamma, text, data, last] := by
    refine ⟨?_, ⟨_, rfl⟩, [_, _, _, _, _], last, rfl, ?_⟩
    all_goals decide
  have homits : Omits descriptiveKinds [header, standard, gamma, text, data, last]
      [header, standard, gamma, data, last] :=
    .keep _ (.keep _ (.keep _ (.leave (by decide) (.keep _ (.keep _ .nil)))))
  have hview : (decode (source [header, standard, gamma, text, data, last]) {}).map (·.header) =
      .ok ⟨1, 1, 8, .gray, .sequential⟩ := by decide +kernel
  obtain ⟨image, himage, -⟩ := exists_of_map_eq_ok hview
  obtain ⟨hdescribed, hresponse⟩ := decode_omitted hcarries himage homits
  have hleft : [header, standard, gamma, data, last].filter (·.kind ∉ responseKinds) =
      [header, data, last] := by decide
  obtain ⟨image₁, himage₁, hsame₁⟩ :=
    hdescribed (source [header, standard, gamma, data, last]) ⟨[], rfl⟩
  obtain ⟨image₂, himage₂, hsame₂⟩ := hresponse rfl (source [header, data, last])
    (hleft ▸ ⟨[], rfl⟩)
  exact ⟨image, image₁, image₂, himage, himage₁, himage₂, hsame₁, hsame₂⟩

end Png
