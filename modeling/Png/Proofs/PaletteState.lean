import Png.Image
import Png.Libraries.Own
import Png.Proofs.Reporting

/-!
# What depends on the palette

Opacities, a histogram and a background index are read against the palette in force, and a later
palette chunk replaces that palette alone. `PaletteTrace` says how much of the chunks read is found
again in what is known: the opacities and the counts are as many as the palette had entries when
their chunk came, and the background is the index in the last background chunk. So they fit the
palette in force exactly when the last palette chunk has kept the number of entries, and is not too
short for the background (`fits_palette_iff`). In a file that replaces its palette by a smaller one
they do not (`not_fitsPalette_shrinkingPalette`).
-/

namespace Png

/-- The last chunk of a kind. -/
def lastOf (kind : ChunkKind) (chunks : List Chunk) : Option Chunk :=
  chunks.reverse.find? (·.kind = kind)

/-- The chunks in front of the last one of a kind; none where there is none of that kind. -/
def beforeLast (kind : ChunkKind) (chunks : List Chunk) : List Chunk :=
  ((chunks.reverse.dropWhile (·.kind ≠ kind)).drop 1).reverse

/-- The number of entries of the palette that is in force behind these chunks. -/
def paletteSize (chunks : List Chunk) : Option Nat :=
  (lastOf .palette chunks).map (·.data.length / 3)

/-- The index in the last background chunk. -/
def backgroundIndex (chunks : List Chunk) : Option Nat :=
  (lastOf .background chunks).bind fun c => c.data.head?.map (·.toNat)

theorem paletteSize_append (chunks : List Chunk) (c : Chunk) :
    paletteSize (chunks ++ [c]) =
      if c.kind = .palette then some (c.data.length / 3) else paletteSize chunks := by
  by_cases h : c.kind = .palette <;> simp [paletteSize, lastOf, h]

theorem backgroundIndex_append (chunks : List Chunk) (c : Chunk) :
    backgroundIndex (chunks ++ [c]) =
      if c.kind = .background then c.data.head?.map (·.toNat) else backgroundIndex chunks := by
  by_cases h : c.kind = .background <;> simp [backgroundIndex, lastOf, h]

theorem beforeLast_append (kind : ChunkKind) (chunks : List Chunk) (c : Chunk) :
    beforeLast kind (chunks ++ [c]) = if c.kind = kind then chunks else beforeLast kind chunks := by
  by_cases h : c.kind = kind <;> simp [beforeLast, h]

/-- The index that is recorded as the background. -/
def EncodeKind.backgroundIndex : EncodeKind → Option Nat
  | .palette background => background
  | _ => none

namespace Metadata

/-- The histogram that is recorded for an encoder. -/
def recordedHistogram (m : Metadata) : Option (List Nat) := m.encoding.bind (·.histogram)

/-- The background index that is recorded for an encoder. -/
def recordedBackground (m : Metadata) : Option Nat := m.encoding.bind (·.kind.backgroundIndex)

/-- The histogram that is reported. -/
def reportedHistogram (m : Metadata) : Option PropertyValue :=
  m.properties.get? "palette_histogram"

/-- A histogram is recorded from a histogram chunk alone. -/
theorem recordedHistogram_keep {m : Metadata} {f : Finding} {counts : List Nat}
    (h : (m.keep f).recordedHistogram = some counts) :
    f = .histogram counts ∨
      (∀ other, f ≠ .histogram other) ∧ m.recordedHistogram = some counts := by
  rw [recordedHistogram, encoding_keep] at h
  cases f with
  | header hd =>
    refine .inr ⟨nofun, ?_⟩
    simp only [startingEncoding] at h
    split at h
    · cases h
    · rw [recordedHistogram]
      cases hp : m.encoding <;> simp_all
  | histogram other =>
    cases hp : m.encoding with
    | none => simp [hp] at h
    | some p =>
      rw [hp] at h
      cases h
      exact .inl rfl
  -- A key is recorded in the image kind, beside the histogram.
  | transparency t =>
    refine .inr ⟨nofun, ?_⟩
    rw [recordedHistogram]
    cases hp : m.encoding with
    | none => simp [hp] at h
    | some p =>
      simp only [hp, recorded, Option.map_some, Option.bind_some] at h ⊢
      split at h <;> exact h
  | _ =>
    refine .inr ⟨nofun, ?_⟩
    rw [recordedHistogram]
    cases hp : m.encoding <;> simp_all [recorded]

/-- A background index is recorded from a background chunk alone. -/
theorem recordedBackground_keep {m : Metadata} {f : Finding} {i : Nat}
    (h : (m.keep f).recordedBackground = some i) :
    (∃ color, f = .background (.index i) color) ∨
      (∀ j color, f ≠ .background (.index j) color) ∧ m.recordedBackground = some i := by
  rw [recordedBackground, encoding_keep] at h
  cases f with
  | header hd =>
    refine .inr ⟨nofun, ?_⟩
    simp only [startingEncoding] at h
    split at h
    · cases hc : hd.color <;>
        simp [EncodeParams.ofHeader, EncodeKind.ofColor, EncodeKind.backgroundIndex, hc] at h
    · rw [recordedBackground]
      cases hp : m.encoding <;> simp_all
  | background b color =>
    cases hp : m.encoding with
    | none => simp [hp] at h
    | some p =>
      simp only [hp, recorded, Option.map_some, Option.bind_some] at h
      rw [recordedBackground, hp, Option.bind_some]
      -- Only an index is put into the kind of a palette, and into no other kind.
      cases b <;> cases hk : p.kind <;>
        simp_all [EncodeKind.withBackground, EncodeKind.backgroundIndex]
  | transparency t =>
    refine .inr ⟨nofun, ?_⟩
    rw [recordedBackground]
    cases hp : m.encoding with
    | none => simp [hp] at h
    | some p =>
      simp only [hp, recorded, Option.map_some, Option.bind_some] at h ⊢
      split at h
      · exact h
      · cases t <;> cases hk : p.kind <;>
          simp_all [EncodeKind.withTransparency, EncodeKind.backgroundIndex]
  | _ =>
    refine .inr ⟨nofun, ?_⟩
    rw [recordedBackground]
    cases hp : m.encoding <;> simp_all [recorded]

/-- What is known after the chunks `chunks` tells of their palettes. -/
structure PaletteTrace (chunks : List Chunk) (m : Metadata) : Prop where
  /-- The palette is the last one. -/
  size : m.palette.map List.length = paletteSize chunks
  /-- There are as many opacities as the palette had entries when they came. -/
  opacities : ∀ alpha, m.transparency = some (.paletteAlpha alpha) →
    paletteSize (beforeLast .transparency chunks) = some alpha.length
  /-- There are as many counts as the palette had entries when they came. -/
  reported : ∀ value, m.reportedHistogram = some value →
    ∃ counts, value = .integers counts ∧
      paletteSize (beforeLast .histogram chunks) = some counts.length
  /-- The counts that are recorded are as many. -/
  recorded : ∀ counts, m.recordedHistogram = some counts →
    paletteSize (beforeLast .histogram chunks) = some counts.length
  /-- The background index that is recorded is that of the last background, in a palette image. -/
  background : ∀ i, m.recordedBackground = some i →
    backgroundIndex chunks = some i ∧ ∃ h, m.header = some h ∧ h.color = .palette

@[simp]
theorem length_colorsOf (data : List UInt8) : (colorsOf data).length = data.length / 3 := by
  induction data using colorsOf.induct with
  | case1 red green blue rest ih =>
    rw [colorsOf, List.length_cons, ih]
    simp only [List.length_cons]
    omega
  | case2 data h =>
    rw [colorsOf.eq_2 data h]
    match data with
    | [] => rfl
    | [_] => simp
    | [_, _] => simp
    | a :: b :: c :: rest => exact absurd rfl (h a b c rest)

@[simp]
theorem length_corrected (m : Metadata) (colors : List Rgb) :
    (m.corrected colors).length = colors.length := by
  unfold corrected
  split
  · exact List.length_map _
  · rfl

/-- The name is one that nothing but a histogram reports. -/
theorem reportedHistogram_keep (m : Metadata) {f : Finding} (h : ∀ counts, f ≠ .histogram counts) :
    (m.keep f).reportedHistogram = m.reportedHistogram := by
  refine get?_keep m (by decide) (by decide) ?_
  cases f with
  | histogram counts => exact absurd rfl (h counts)
  | _ => simp only [Finding.names]; decide

theorem reportedHistogram_keep_histogram (m : Metadata) (counts : List Nat) :
    (m.keep (.histogram counts)).reportedHistogram = some (.integers counts) := by
  rw [reportedHistogram, properties_keep]
  exact (Properties.get?_insert _ _ _ _).trans (if_pos rfl)

/-- A field of one byte at the start is the first byte. -/
theorem head?_of_readField {data : List UInt8} {i : Nat} (h : readField data 0 1 = .ok i) :
    data.head?.map (·.toNat) = some i := by
  rw [readField, demand_eq_ok_iff, BigEndian.field?] at h
  cases data with
  | nil => simp at h
  | cons b data => simpa [BigEndian.decode] using h

namespace PaletteTrace

variable [Libraries] {chunks : List Chunk} {c : Chunk} {m : Metadata} {f : Finding}
  (h : PaletteTrace chunks m) (hread : m.read c = .ok f)

include h hread

/-- The palette in force after one more chunk. -/
theorem size_keep :
    (m.keep f).palette.map List.length = paletteSize (chunks ++ [c]) := by
  have hof := of_read hread
  rw [paletteSize_append, palette_keep]
  cases f with
  | palette colors =>
    have hkind : c.kind = .palette := hof
    simp only [read, hkind] at hread
    obtain ⟨-, heq⟩ := readPalette_eq_ok hread
    cases heq
    rw [if_pos hkind, Option.map_some, length_corrected, length_colorsOf]
  | nothing =>
    rw [if_neg (by rintro hk; simp [Finding.Of, hk] at hof)]
    exact h.size
  | _ =>
    rw [if_neg (by rintro hk; exact absurd (hk.symm.trans hof) (by decide))]
    exact h.size

/-- Opacities are read against the palette in force, and kept by every other chunk. -/
theorem opacities_keep :
    ∀ alpha, (m.keep f).transparency = some (.paletteAlpha alpha) →
      paletteSize (beforeLast .transparency (chunks ++ [c])) = some alpha.length := by
  have hof := of_read hread
  intro alpha halpha
  rw [beforeLast_append]
  by_cases hkind : c.kind = .transparency
  · rw [if_pos hkind, ← h.size]
    simp only [read, hkind] at hread
    obtain ⟨t, rfl, hd, -, ht⟩ := readTransparency_eq_ok hread
    rw [transparency_keep] at halpha
    cases halpha
    obtain ⟨-, palette, hpalette, hlength⟩ := ht
    rw [hpalette, hlength, Option.map_some]
  · rw [if_neg hkind]
    rw [transparency_keep] at halpha
    cases f with
    | transparency t => exact absurd hof hkind
    | _ => exact h.opacities alpha halpha

/-- Reported counts are read against the palette in force, and kept by every other chunk. -/
theorem reported_keep :
    ∀ value, (m.keep f).reportedHistogram = some value → ∃ counts, value = .integers counts ∧
      paletteSize (beforeLast .histogram (chunks ++ [c])) = some counts.length := by
  have hof := of_read hread
  intro value hvalue
  rw [beforeLast_append]
  by_cases hkind : c.kind = .histogram
  · rw [if_pos hkind, ← h.size]
    simp only [read, hkind] at hread
    obtain ⟨palette, counts, hpalette, rfl, hlength⟩ := readHistogram_eq_ok hread
    rw [reportedHistogram_keep_histogram] at hvalue
    cases hvalue
    exact ⟨counts, rfl, by rw [hpalette, hlength, Option.map_some]⟩
  · rw [if_neg hkind]
    rw [reportedHistogram_keep m fun counts hf => hkind (by subst hf; exact hof)] at hvalue
    exact h.reported value hvalue

/-- The same holds of recorded counts. -/
theorem recorded_keep :
    ∀ counts, (m.keep f).recordedHistogram = some counts →
      paletteSize (beforeLast .histogram (chunks ++ [c])) = some counts.length := by
  have hof := of_read hread
  intro counts hcounts
  rw [beforeLast_append]
  obtain rfl | ⟨hne, hold⟩ := recordedHistogram_keep hcounts
  · have hkind : c.kind = .histogram := hof
    rw [if_pos hkind, ← h.size]
    simp only [read, hkind] at hread
    obtain ⟨palette, counts', hpalette, heq, hlength⟩ := readHistogram_eq_ok hread
    cases heq
    rw [hpalette, hlength, Option.map_some]
  · rw [if_neg, h.recorded counts hold]
    intro hkind
    simp only [read, hkind] at hread
    obtain ⟨_, counts', -, heq, -⟩ := readHistogram_eq_ok hread
    exact hne counts' heq

/-- A recorded index is that of the last background chunk. -/
theorem background_keep :
    ∀ i, (m.keep f).recordedBackground = some i →
      backgroundIndex (chunks ++ [c]) = some i ∧
        ∃ h, (m.keep f).header = some h ∧ h.color = .palette := by
  have hof := of_read hread
  intro i hi
  rw [backgroundIndex_append]
  obtain ⟨color, rfl⟩ | ⟨hne, hold⟩ := recordedBackground_keep hi
  · have hkind : c.kind = .background := hof
    simp only [read, hkind] at hread
    obtain ⟨b, color', heq, hd, hheader, hb⟩ := readBackground_eq_ok hread
    cases heq
    obtain ⟨hcolor, hfield, -⟩ := hb
    rw [if_pos hkind, head?_of_readField hfield]
    exact ⟨rfl, hd, hheader, hcolor⟩
  · obtain ⟨hindex, hd, hheader, hcolor⟩ := h.background i hold
    refine ⟨?_, hd, header_of_read hread hheader, hcolor⟩
    rw [if_neg, hindex]
    -- A background chunk that tells no index is not one of a palette image.
    intro hkind
    simp only [read, hkind] at hread
    obtain ⟨b, color, rfl, hd', hheader', hb⟩ := readBackground_eq_ok hread
    rw [hheader, Option.some_inj] at hheader'
    subst hheader'
    cases b with
    | index j => exact hne j color rfl
    | gray level => exact hb hcolor
    | rgb levels => exact hb hcolor

end PaletteTrace

theorem paletteTrace_new (o : Options) : PaletteTrace [] (.new o) := by
  refine ⟨rfl, nofun, ?_, nofun, nofun⟩
  intro value hvalue
  rw [reportedHistogram, new, Properties.get?_insert, if_neg (by decide)] at hvalue
  cases hvalue

section

variable [Libraries]

/-- One more chunk is found again like those before it. -/
theorem paletteTrace_keep {chunks : List Chunk} {c : Chunk} {m : Metadata} {f : Finding}
    (h : PaletteTrace chunks m) (hread : m.read c = .ok f) :
    PaletteTrace (chunks ++ [c]) (m.keep f) where
  size := h.size_keep hread
  opacities := h.opacities_keep hread
  reported := h.reported_keep hread
  recorded := h.recorded_keep hread
  background := h.background_keep hread

/-- What is known after accepted chunks tells of their palettes. -/
theorem paletteTrace_acceptAll {done chunks : List Chunk} {m m' : Metadata}
    (h : PaletteTrace done m) (haccept : acceptAll chunks m = .ok () m') :
    PaletteTrace (done ++ chunks) m' := by
  induction chunks generalizing done m with
  | nil =>
    cases haccept
    rwa [List.append_nil]
  | cons c chunks ih =>
    unfold acceptAll at haccept
    split at haccept
    · next next hnext =>
      obtain ⟨f, hread, rfl⟩ := accept_eq_ok_iff.1 hnext
      have := ih (paletteTrace_keep h hread) haccept
      rwa [List.append_assoc] at this
    · cases haccept

/-- The model of a palette image that is not expanded lists the palette, and the opacities. -/
theorem colorModel_of_render {m : Metadata} {image : Image} {palette : List Rgb} {bits : Nat}
    {red green blue : List UInt8} {alpha : Option (List UInt8)}
    (hpalette : m.palette = some palette) (hrender : m.render = .ok image)
    (hcolor : image.header.color = .palette)
    (hmodel : image.colorModel = .indexed bits red green blue alpha) :
    red = palette.map (·.red) ∧ green = palette.map (·.green) ∧ blue = palette.map (·.blue) ∧
      ∀ opacities, alpha = some opacities → m.transparency = some (.paletteAlpha opacities) := by
  simp only [render, bind_eq_ok_iff, pure, Except.pure, Except.ok.injEq] at hrender
  obtain ⟨⟨h, t⟩, -, data, -, _, -, ⟨raster, _⟩, -, rfl⟩ := hrender
  have hcolor : h.color = .palette := hcolor
  simp only [colorModel, hpalette, Option.getD_some] at hmodel
  split at hmodel
  · simp only [ColorModel.ofPalette, ColorModel.indexed.injEq] at hmodel
    obtain ⟨-, rfl, rfl, rfl, halpha⟩ := hmodel
    refine ⟨rfl, rfl, rfl, fun opacities hopacities => ?_⟩
    subst hopacities
    split at halpha
    · next stored hstored =>
      split at halpha <;> simp_all
    · cases halpha
  · rw [if_neg (by simp [hcolor])] at hmodel
    cases hmodel

end

/-- All that depends on the palette fits it: opacities and counts are as many as its entries, and
the background is one of them. -/
structure FitsPalette (m : Metadata) (palette : List Rgb) : Prop where
  opacities : ∀ alpha, m.transparency = some (.paletteAlpha alpha) → alpha.length = palette.length
  reported : ∀ counts, m.reportedHistogram = some (.integers counts) →
    counts.length = palette.length
  recorded : ∀ counts, m.recordedHistogram = some counts → counts.length = palette.length
  background : ∀ i, m.recordedBackground = some i → i < palette.length

/-- The chunks of a palette image with two colours and their opacities, and then another palette,
with one colour. -/
def shrinkingPalette : List Chunk :=
  [{ tag := .ofChars 'I' 'H' 'D' 'R', data := [0, 0, 0, 1, 0, 0, 0, 1, 8, 3, 0, 0, 0] },
    { tag := .ofChars 'P' 'L' 'T' 'E', data := [1, 2, 3, 4, 5, 6] },
    { tag := .ofChars 't' 'R' 'N' 'S', data := [10, 20] },
    { tag := .ofChars 'P' 'L' 'T' 'E', data := [7, 8, 9] }]

/-- Two opacities stay where the palette shrinks to one colour. -/
theorem not_fitsPalette_shrinkingPalette :
    ∃ m palette, acceptAll shrinkingPalette (.new {}) = .ok () m ∧ m.palette = some palette ∧
      ¬ m.FitsPalette palette := by
  refine ⟨_, _, rfl, rfl, fun h => ?_⟩
  exact absurd (h.opacities [10, 20] rfl) (by decide)

/-- Opacities, counts and the background index fit the palette in force exactly when the last
palette chunk has as many entries as the palette that they were read against, and more than the
index. -/
theorem fits_palette_iff [Libraries] {chunks : List Chunk} {o : Options} {m : Metadata}
    {palette : List Rgb} (h : acceptAll chunks (.new o) = .ok () m)
    (hpalette : m.palette = some palette) :
    (∀ alpha, m.transparency = some (.paletteAlpha alpha) →
      (alpha.length = palette.length ↔
        paletteSize (beforeLast .transparency chunks) = paletteSize chunks)) ∧
    (∀ counts, m.reportedHistogram = some (.integers counts) ∨ m.recordedHistogram = some counts →
      (counts.length = palette.length ↔
        paletteSize (beforeLast .histogram chunks) = paletteSize chunks)) ∧
    (∀ i, m.recordedBackground = some i →
      (i < palette.length ↔ ∃ n ∈ paletteSize chunks, ∃ j ∈ backgroundIndex chunks, j < n)) ∧
    (∀ image bits red green blue alpha, m.render = .ok image → image.header.color = .palette →
      image.colorModel = .indexed bits red green blue alpha →
      red.length = palette.length ∧ green.length = palette.length ∧ blue.length = palette.length ∧
        ∀ opacities, alpha = some opacities →
          (opacities.length = palette.length ↔
            paletteSize (beforeLast .transparency chunks) = paletteSize chunks)) := by
  -- The run has left the sizes that each entry was read against.
  have trace := paletteTrace_acceptAll (paletteTrace_new o) h
  rw [List.nil_append] at trace
  have hsize : paletteSize chunks = some palette.length := by
    rw [← trace.size, hpalette, Option.map_some]
  have hopacities : ∀ alpha, m.transparency = some (.paletteAlpha alpha) →
      (alpha.length = palette.length ↔
        paletteSize (beforeLast .transparency chunks) = paletteSize chunks) := by
    intro alpha halpha
    rw [trace.opacities alpha halpha, hsize, Option.some_inj]
  refine ⟨hopacities, ?_, ?_, ?_⟩
  · rintro counts (hcounts | hcounts)
    · obtain ⟨counts', heq, hcount⟩ := trace.reported _ hcounts
      cases heq
      rw [hcount, hsize, Option.some_inj]
    · rw [trace.recorded counts hcounts, hsize, Option.some_inj]
  · intro i hi
    rw [(trace.background i hi).1, hsize]
    simp
  · intro image bits red green blue alpha hrender hcolor hmodel
    obtain ⟨rfl, rfl, rfl, halpha⟩ := colorModel_of_render hpalette hrender hcolor hmodel
    refine ⟨List.length_map _, List.length_map _, List.length_map _, fun opacities h => ?_⟩
    exact hopacities opacities (halpha opacities h)

/-- With two colours and one opacity in the file, the second opacity is filled in. -/
theorem fits_palette_iff_two_colors :
    let chunks : List Chunk :=
      [{ tag := .ofChars 'I' 'H' 'D' 'R', data := [0, 0, 0, 1, 0, 0, 0, 1, 8, 3, 0, 0, 0] },
        { tag := .ofChars 'P' 'L' 'T' 'E', data := [1, 2, 3, 4, 5, 6] },
        { tag := .ofChars 't' 'R' 'N' 'S', data := [10] }]
    ∃ m, acceptAll chunks (.new {}) = .ok () m ∧
      m.palette = some [⟨1, 2, 3⟩, ⟨4, 5, 6⟩] ∧ m.transparency = some (.paletteAlpha [10, 255]) ∧
      ([10, 255].length = [(⟨1, 2, 3⟩ : Rgb), ⟨4, 5, 6⟩].length ↔
        paletteSize (beforeLast .transparency chunks) = paletteSize chunks) := by
  intro chunks
  refine ⟨_, rfl, rfl, rfl, ?_⟩
  have haccept : acceptAll chunks (.new {}) = .ok () _ := rfl
  exact (fits_palette_iff haccept rfl).1 [10, 255] rfl

end Metadata

end Png
