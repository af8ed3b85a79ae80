import Png.Image
import Png.Proofs.Acceptance
import Png.Proofs.PixelRaster

/-!
# The form of output pixels

Every stored pixel has an output pixel, and its samples are as many as the bands and below the limit
of the depth that the transform says. `PixelMap.maps_of_isPixel` shows it for the transform that
`select` chooses and tables that fit the header, one colour type at a time. The state that chunks
lead to has that transform: this is the invariant `Metadata.Coherent` of accepting, from which
`Coherent.maps` and `Coherent.regular` give the form of all output pixels and of their raster.
-/

namespace Png

/-- The form of the samples is one that a header may have. -/
structure Header.Legal (h : Header) : Prop where
  depth_mem : h.depth ∈ Header.depths
  minDepth_le : h.color.minDepth ≤ h.depth
  le_maxDepth : h.depth ≤ h.color.maxDepth

/-- A header that is read is legal. -/
theorem Header.legal_of_parse {o : Options} {data : List UInt8} {h : Header}
    (hparse : parse o data = .ok h) : h.Legal := by
  simp only [parse, bind_eq_ok_iff, require_eq_ok_iff, demand_eq_ok_iff, pure, Except.pure,
    Except.ok.injEq] at hparse
  obtain ⟨_, -, width, -, height, -, _, -, _, -, _, -, depth, -, _, hdepth, code, -, color, -,
    _, hallowed, _, -, _, -, _, -, _, -, _, -, interlace, -, rfl⟩ := hparse
  exact ⟨hdepth, hallowed.1, hallowed.2⟩

/-- A field of so many bytes has a number below the levels of their bits. -/
theorem readField_lt {data : List UInt8} {offset width n : Nat}
    (h : readField data offset width = .ok n) : n < levels (8 * width) := by
  rw [readField, demand_eq_ok_iff, BigEndian.field?] at h
  obtain ⟨hlength, hn⟩ := Option.ite_none_right_eq_some.1 h
  have hlt := BigEndian.decode_lt ((data.drop offset).take width)
  rwa [hlength, Option.some.inj hn] at hlt

/-- Width and height have 32 bits each. -/
structure Header.Sized (h : Header) : Prop where
  width_lt : h.width < levels 32
  height_lt : h.height < levels 32

/-- The size of a header that is read has the bits of its fields. -/
theorem Header.sized_of_parse {o : Options} {data : List UInt8} {h : Header}
    (hparse : parse o data = .ok h) : h.Sized := by
  simp only [parse, bind_eq_ok_iff, pure, Except.pure, Except.ok.injEq] at hparse
  obtain ⟨_, -, width, hwidth, height, hheight, _, -, _, -, _, -, depth, -, _, -, code, -, color, -,
    _, -, _, -, _, -, _, -, _, -, _, -, interlace, -, rfl⟩ := hparse
  exact ⟨readField_lt hwidth, readField_lt hheight⟩

namespace Header.Legal

variable {h : Header}

/-- A sample has one, two or four bits, a byte or a word. -/
theorem depth_cases (hh : h.Legal) :
    (h.depth = 1 ∨ h.depth = 2 ∨ h.depth = 4) ∨ h.depth = 8 ∨ h.depth = 16 := by
  have := hh.depth_mem
  simp only [depths, List.mem_cons, List.not_mem_nil, or_false] at this
  omega

/-- From eight bits on, a sample has a byte or a word. -/
theorem depth_of_le (hh : h.Legal) (hle : 8 ≤ h.depth) : h.depth = 8 ∨ h.depth = 16 := by
  have := hh.depth_cases
  omega

/-- Colours and samples with an opacity have at least eight bits. -/
theorem le_depth (hh : h.Legal) (hgray : h.color ≠ .gray) (hpalette : h.color ≠ .palette) :
    8 ≤ h.depth := by
  have hmin := hh.minDepth_le
  cases hcolor : h.color with
  | gray => exact absurd hcolor hgray
  | palette => exact absurd hcolor hpalette
  | rgb | grayAlpha | rgba =>
    rw [hcolor] at hmin
    exact hmin

theorem maxSample_eq (hh : h.Legal) : h.maxSample = levels h.depth - 1 := by
  obtain (hd | hd | hd) | hd | hd := hh.depth_cases <;> rw [maxSample, hd] <;> rfl

/-- The full opacity is the largest sample. -/
theorem maxSample_lt (hh : h.Legal) : h.maxSample < levels h.depth := by
  have hpos := levels_pos h.depth
  rw [hh.maxSample_eq]
  omega

end Header.Legal

open Raster (Regular)

/-- The table `gamma` is there when correcting, and has a value for every sample of this depth, of a
word at depth 16 and of a byte at any other. -/
structure Corrects (o : Options) (depth : Nat) (gamma : Option (Array Nat)) : Prop where
  isSome_eq : gamma.isSome = o.correctGamma
  size_eq : ∀ table ∈ gamma, table.size = levels depth
  le : ∀ table ∈ gamma, ∀ value ∈ table, value ≤ if depth = 16 then 65535 else 255

/-- The table of a response corrects. -/
theorem ToneResponse.corrects (t : ToneResponse) (o : Options) (depth : Nat) :
    Corrects o depth (if o.correctGamma then some (t.table depth) else none) := by
  cases hc : o.correctGamma with
  | false => exact ⟨hc.symm, by simp, by simp⟩
  | true =>
    refine ⟨hc.symm, fun table htable => ?_, fun table htable value hvalue => ?_⟩
    all_goals obtain rfl : t.table depth = table := Option.some.inj htable
    · simp [ToneResponse.table]
    · simp only [ToneResponse.table, Array.mem_map] at hvalue
      obtain ⟨i, -, rfl⟩ := hvalue
      exact Nat.min_le_right _ _

/-- A corrected sample is below the limit of a word at depth 16, and of a byte at any other. -/
theorem Corrects.getD_lt {o : Options} {depth : Nat} {gamma : Option (Array Nat)}
    {table : Array Nat} (h : Corrects o depth gamma) (htable : gamma = some table) {i : Nat}
    (hi : i < levels depth) (default : Nat) :
    table.getD i default < levels (if depth = 16 then 16 else 8) := by
  have hsize : i < table.size := (h.size_eq table htable).symm ▸ hi
  have hle := h.le table htable table[i] (Array.getElem_mem hsize)
  have htop : (if depth = 16 then 65535 else 255) < levels (if depth = 16 then 16 else 8) := by
    split <;> decide
  rw [Array.getD_eq_getD_getElem?, Array.getElem?_eq_getElem hsize, Option.getD_some]
  exact Nat.lt_of_le_of_lt hle htop

/-- The levels below eight bits are spread over a byte. -/
theorem getD_spreadLevels_lt {depth i : Nat} (hi : i < levels depth) (default : Nat) :
    (((spreadLevels depth).map (·.toNat)).toArray.getD i default) < levels 8 := by
  have hlen : i < ((spreadLevels depth).map (·.toNat)).length := by simpa [spreadLevels] using hi
  rw [Array.getD_eq_getD_getElem?, List.getElem?_toArray, List.getElem?_eq_getElem hlen,
    Option.getD_some, List.getElem_map]
  exact UInt8.toNat_lt _

namespace Transform

variable {h : Header}

@[simp]
theorem mode_withGrayAlpha (t : Transform) (expand : Bool) :
    (t.withGrayAlpha expand).mode = t.mode := by
  cases expand <;> rfl

@[simp]
theorem gray8_withGrayAlpha (t : Transform) (expand : Bool) :
    (t.withGrayAlpha expand).gray8 = t.gray8 := by
  cases expand <;> rfl

@[simp]
theorem fullOpacity_withGrayAlpha (t : Transform) (expand : Bool) :
    (t.withGrayAlpha expand).fullOpacity = t.fullOpacity := by
  cases expand <;> rfl

/-- The depth of gray, unless its levels are spread. -/
theorem depth_of_gray (t : Transform) (o : Options) (hcolor : h.color = .gray) :
    t.depth h o = if h.depth < 8 ∧ t.gray8 then 8 else h.depth := by
  simp only [depth, hcolor]

/-- Gray is keyed or not, and its levels are spread over a byte or kept as they are. -/
theorem select_gray (hcolor : h.color = .gray) (o : Options) (transparency : Option Transparency) :
    (h.depth < 8 ∧ (select h o transparency).depth h o = 8 ∧ select h o transparency =
      withGrayAlpha { mode := .grayTableKeyed, bands := 1, gray8 := true, fullOpacity := 255 }
        o.expandGrayAlpha) ∨
    (8 ≤ h.depth ∧ (select h o transparency).depth h o = h.depth ∧ select h o transparency =
      withGrayAlpha { mode := .grayKeyed, bands := 1, gray8 := o.gray8, fullOpacity := h.maxSample }
        o.expandGrayAlpha) ∨
    (h.depth < 8 ∧ (select h o transparency).depth h o = 8 ∧ select h o transparency =
      { mode := .grayTable, bands := 1, gray8 := true, fullOpacity := h.maxSample }) ∨
    ((o.gray8 → 8 ≤ h.depth) ∧ (select h o transparency).depth h o = h.depth ∧
      select h o transparency =
        { mode := if o.correctGamma then .gamma else .copy, bands := 1, gray8 := o.gray8
          fullOpacity := h.maxSample }) := by
  have hchannels : h.channels = 1 := by rw [Header.channels, hcolor]; rfl
  rw [depth_of_gray _ o hcolor]
  simp only [select, hcolor, hchannels]
  generalize (if o.suppressAlpha = true then none else transparency) = key
  by_cases hd : h.depth < 8
  · have hnot : ¬8 ≤ h.depth := Nat.not_le.2 hd
    cases hgray : o.gray8 <;> rcases key with _ | _ | _ | _ <;> simp [hd, hnot]
  · have hle : 8 ≤ h.depth := Nat.not_lt.1 hd
    rcases key with _ | _ | _ | _ <;> simp [hd, hle]

/-- The depth of colours and of samples with an opacity is kept. -/
theorem depth_of_ne (t : Transform) (o : Options) (hgray : h.color ≠ .gray)
    (hpalette : h.color ≠ .palette) : t.depth h o = h.depth := by
  unfold depth
  split
  · exact absurd ‹_› hgray
  · exact absurd ‹_› hpalette
  · rfl

/-- Colours are keyed or not. -/
theorem select_rgb (hcolor : h.color = .rgb) (o : Options) (transparency : Option Transparency) :
    select h o transparency =
      { mode := .rgbKeyed, bands := 4, gray8 := o.gray8, fullOpacity := h.maxSample } ∨
    select h o transparency =
      { mode := if o.correctGamma then .gamma else .copy, bands := 3, gray8 := o.gray8
        fullOpacity := h.maxSample } := by
  have hchannels : h.channels = 3 := by rw [Header.channels, hcolor]; rfl
  simp only [select, hcolor, hchannels]
  generalize (if o.suppressAlpha = true then none else transparency) = key
  rcases key with _ | key
  · exact .inr rfl
  · cases key with
    | rgbKey => exact .inl rfl
    | grayKey | paletteAlpha => exact .inr rfl

/-- The depth of indices, unless they become their colours. -/
theorem depth_of_palette (t : Transform) (o : Options) (hcolor : h.color = .palette) :
    t.depth h o = if o.expandPalette then 8 else h.depth := by
  simp only [depth, hcolor]

/-- Indices become their colours, with or without their opacities, or stay. -/
theorem select_palette (hcolor : h.color = .palette) (o : Options)
    (transparency : Option Transparency) :
    ((select h o transparency).depth h o = 8 ∧ select h o transparency =
      { mode := .paletteRgba, bands := 4, gray8 := o.gray8, fullOpacity := h.maxSample }) ∨
    ((select h o transparency).depth h o = 8 ∧ select h o transparency =
      { mode := .paletteRgb, bands := 3, gray8 := o.gray8, fullOpacity := h.maxSample }) ∨
    ((select h o transparency).depth h o = h.depth ∧ (select h o transparency).mode = .copy ∧
      (select h o transparency).bands = 1) := by
  have hchannels : h.channels = 1 := by rw [Header.channels, hcolor]; rfl
  rw [depth_of_palette _ o hcolor]
  simp only [select, hcolor, hchannels]
  generalize (if o.suppressAlpha = true then none else transparency) = key
  cases o.expandPalette <;> rcases key with _ | _ | _ | _ <;> simp

/-- The opacity of gray is dropped, or it stays with or without the gray being repeated. -/
theorem select_grayAlpha (hcolor : h.color = .grayAlpha) (o : Options)
    (transparency : Option Transparency) :
    select h o transparency =
      { mode := .dropGrayAlpha, bands := 1, gray8 := o.gray8, fullOpacity := h.maxSample } ∨
    select h o transparency =
      withGrayAlpha { mode := if o.correctGamma then .gamma else .copy, bands := 2, gray8 := o.gray8
                      fullOpacity := h.maxSample } o.expandGrayAlpha := by
  have hchannels : h.channels = 2 := by rw [Header.channels, hcolor]; rfl
  simp only [select, hcolor, hchannels]
  cases o.suppressAlpha with
  | true => exact .inl rfl
  | false => exact .inr rfl

/-- The opacity of colours is dropped or stays. -/
theorem select_rgba (hcolor : h.color = .rgba) (o : Options) (transparency : Option Transparency) :
    select h o transparency =
      { mode := .dropRgbAlpha, bands := 3, gray8 := o.gray8, fullOpacity := h.maxSample } ∨
    select h o transparency =
      { mode := if o.correctGamma then .gamma else .copy, bands := 4, gray8 := o.gray8
        fullOpacity := h.maxSample } := by
  have hchannels : h.channels = 4 := by rw [Header.channels, hcolor]; rfl
  simp only [select, hcolor, hchannels]
  cases o.suppressAlpha with
  | true => exact .inl rfl
  | false => exact .inr rfl

/-- The output is a raster of one of the forms that samples are kept in. -/
theorem regular_select (hh : h.Legal) (o : Options) (transparency : Option Transparency) :
    Regular (select h o transparency).bands ((select h o transparency).depth h o) := by
  have hkept : Regular 1 h.depth := hh.depth_cases.elim (fun hn => .inr ⟨rfl, hn⟩) .inl
  by_cases hgray : h.color = .gray
  · obtain ⟨-, hdepth, -⟩ | ⟨hd, hdepth, -⟩ | ⟨-, hdepth, -⟩ | ⟨-, hdepth, ht⟩ :=
      select_gray hgray o transparency <;> rw [hdepth]
    · exact .inl (.inl rfl)
    · exact .inl (hh.depth_of_le hd)
    · exact .inl (.inl rfl)
    · rw [ht]
      exact hkept
  by_cases hpalette : h.color = .palette
  · obtain ⟨hdepth, -⟩ | ⟨hdepth, -⟩ | ⟨hdepth, -, hbands⟩ :=
      select_palette hpalette o transparency <;> rw [hdepth]
    · exact .inl (.inl rfl)
    · exact .inl (.inl rfl)
    · rw [hbands]
      exact hkept
  · rw [depth_of_ne _ o hgray hpalette]
    exact .inl (hh.depth_of_le (hh.le_depth hgray hpalette))

end Transform

namespace PixelMap

/-- The tables of a map fit the header: corrected samples of a byte or a word keep their depth, and
gray levels that are spread become bytes. -/
structure TablesFit (m : PixelMap) (h : Header) : Prop where
  correct_lt : ∀ s < levels h.depth, 8 ≤ h.depth → m.correct s < levels h.depth
  spread_lt : ∀ s < levels h.depth, h.depth < 8 →
    m.transform.mode = .grayTable ∨ m.transform.mode = .grayTableKeyed → m.spread s < levels 8

/-- The tables that are made for a header fit it. -/
theorem tablesFit_ofTable {h : Header} (hh : h.Legal) {o : Options} {gamma : Option (Array Nat)}
    (hgamma : Corrects o h.depth gamma) (t : Transform) (palette : List Rgb)
    (transparency : Option Transparency) :
    (ofTable h t gamma palette transparency).TablesFit h where
  correct_lt s hs hle := by
    unfold ofTable correct
    cases gamma with
    | none => exact hs
    | some table =>
      have hbits : (if h.depth = 16 then 16 else 8) = h.depth := by
        obtain hd | hd := hh.depth_of_le hle <;> rw [hd] <;> rfl
      have hlt := hgamma.getD_lt rfl hs s
      rwa [hbits] at hlt
  spread_lt s hs hlt hmode := by
    have hbits : (if h.depth = 16 then 16 else 8) = 8 := if_neg (by omega)
    have heven := getD_spreadLevels_lt hs s
    have hmode' : t.mode = .grayTable ∨ t.mode = .grayTableKeyed := hmode
    unfold ofTable spread
    -- With correction the levels are spread by its table, and evenly otherwise.
    cases gamma with
    | none => obtain hmode | hmode := hmode' <;> simpa only [hmode] using heven
    | some table =>
      have hcorrected := hgamma.getD_lt rfl hs s
      rw [hbits] at hcorrected
      obtain hmode | hmode := hmode' <;> simpa only [hmode] using hcorrected

/-- The pixel has an output pixel of this form. -/
def Maps (m : PixelMap) (pixel : List Nat) (bands depth : Nat) : Prop :=
  ∃ samples, m.map? pixel = some samples ∧ IsPixel bands depth samples

theorem opacity_lt {m : PixelMap} {depth : Nat} (h : m.transform.fullOpacity < levels depth)
    (matchesKey : Bool) : m.opacity matchesKey < levels depth := by
  unfold opacity
  split
  · exact levels_pos depth
  · exact h

/-- Gray and an opacity fill the bands that `withGrayAlpha` provides. -/
theorem isPixel_grayAlpha {m : PixelMap} {t : Transform} {expand : Bool} {depth level alpha : Nat}
    (hm : m.transform = t.withGrayAlpha expand) (ht : t.replicate = false)
    (hlevel : level < levels depth) (halpha : alpha < levels depth) :
    IsPixel (t.withGrayAlpha expand).bands depth (m.grayAlpha level alpha) := by
  rw [grayAlpha, hm]
  cases expand <;> simp [Transform.withGrayAlpha, ht, hlevel, halpha]

section

variable {m : PixelMap} {h : Header} {o : Options} {transparency : Option Transparency}

section

variable (hm : m.transform = .select h o transparency)

include hm

/-- An index past the palette is black, and any other has the bytes of its entry. -/
theorem maps_palette (hcolor : h.color = .palette) {index : Nat} (hindex : index < levels h.depth) :
    m.Maps [index] (Transform.select h o transparency).bands
      ((Transform.select h o transparency).depth h o) := by
  have hbyte : ∀ b : UInt8, b.toNat < levels 8 := UInt8.toNat_lt
  obtain ⟨hdepth, ht⟩ | ⟨hdepth, ht⟩ | ⟨hdepth, hmode, hbands⟩ :=
    Transform.select_palette hcolor o transparency <;> rw [hdepth]
  · refine ⟨[(m.entry index).1.red.toNat, (m.entry index).1.green.toNat,
      (m.entry index).1.blue.toNat, (m.entry index).2.toNat], by simp only [map?, hm, ht], ?_⟩
    rw [ht]
    simp [hbyte]
  · refine ⟨[(m.entry index).1.red.toNat, (m.entry index).1.green.toNat,
      (m.entry index).1.blue.toNat], by simp only [map?, hm, ht], ?_⟩
    rw [ht]
    simp [hbyte]
  · refine ⟨[index], by simp [map?, hm, hmode], ?_⟩
    rw [hbands]
    simp [hindex]

variable (hh : h.Legal) (htables : m.TablesFit h)

include hh htables

/-- Gray below eight bits is spread over a byte when it is keyed, corrected or asked to be. -/
theorem maps_gray (hcolor : h.color = .gray) {g : Nat} (hg : g < levels h.depth) :
    m.Maps [g] (Transform.select h o transparency).bands
      ((Transform.select h o transparency).depth h o) := by
  obtain ⟨hd, hdepth, ht⟩ | ⟨hd, hdepth, ht⟩ | ⟨hd, hdepth, ht⟩ | ⟨hd, hdepth, ht⟩ :=
    Transform.select_gray hcolor o transparency <;> rw [hdepth]
  · have hmode : m.transform.mode = .grayTableKeyed := by rw [hm, ht, Transform.mode_withGrayAlpha]
    have hfull : m.transform.fullOpacity < levels 8 := by
      rw [hm, ht, Transform.fullOpacity_withGrayAlpha]
      exact (by decide : 255 < levels 8)
    have hspread := htables.spread_lt g hg hd (.inr hmode)
    refine ⟨m.grayAlpha (m.spread g) (m.opacity (g == m.grayKey)), by simp only [map?, hmode], ?_⟩
    rw [ht]
    exact isPixel_grayAlpha (hm.trans ht) rfl hspread (opacity_lt hfull _)
  · have hmode : m.transform.mode = .grayKeyed := by rw [hm, ht, Transform.mode_withGrayAlpha]
    have hfull : m.transform.fullOpacity < levels h.depth := by
      rw [hm, ht, Transform.fullOpacity_withGrayAlpha]
      exact hh.maxSample_lt
    have hcorrect := htables.correct_lt g hg hd
    refine ⟨m.grayAlpha (m.correct g) (m.opacity (g == m.grayKey)), by simp only [map?, hmode], ?_⟩
    rw [ht]
    exact isPixel_grayAlpha (hm.trans ht) rfl hcorrect (opacity_lt hfull _)
  · have hmode : m.transform.mode = .grayTable := by rw [hm, ht]
    have hspread := htables.spread_lt g hg hd (.inl hmode)
    refine ⟨[m.spread g], by simp only [map?, hmode], ?_⟩
    rw [ht]
    simp [hspread]
  · rw [ht]
    cases ho : o.correctGamma with
    | true =>
      -- Correction always spreads levels below eight bits.
      have hcorrect := htables.correct_lt g hg (hd (by simp [Options.gray8, ho]))
      exact ⟨[m.correct g], by simp [map?, hm, ht, ho], by simp [hcorrect]⟩
    | false => exact ⟨[g], by simp [map?, hm, ht, ho], by simp [hg]⟩

/-- Colours get an opacity from a key. -/
theorem maps_rgb (hcolor : h.color = .rgb) {r g b : Nat} (hr : r < levels h.depth)
    (hg : g < levels h.depth) (hb : b < levels h.depth) :
    m.Maps [r, g, b] (Transform.select h o transparency).bands
      ((Transform.select h o transparency).depth h o) := by
  have hle := hh.le_depth (by simp [hcolor]) (by simp [hcolor])
  have hdepth : (Transform.select h o transparency).depth h o = h.depth :=
    Transform.depth_of_ne _ o (by simp [hcolor]) (by simp [hcolor])
  have hr' := htables.correct_lt r hr hle
  have hg' := htables.correct_lt g hg hle
  have hb' := htables.correct_lt b hb hle
  rw [hdepth]
  -- There is a key, or the colours are kept or corrected.
  obtain ht | ht := Transform.select_rgb hcolor o transparency
  · have hfull : m.transform.fullOpacity < levels h.depth := by
      rw [hm, ht]
      exact hh.maxSample_lt
    refine ⟨[m.correct r, m.correct g, m.correct b, m.opacity ((r, g, b) == m.rgbKey)],
      by simp only [map?, hm, ht], ?_⟩
    rw [ht]
    simp [hr', hg', hb', opacity_lt hfull]
  · rw [ht]
    cases ho : o.correctGamma with
    | true =>
      refine ⟨[m.correct r, m.correct g, m.correct b], by simp [map?, hm, ht, ho], ?_⟩
      simp [hr', hg', hb']
    | false =>
      refine ⟨[r, g, b], by simp [map?, hm, ht, ho], ?_⟩
      simp [hr, hg, hb]

/-- The opacity of gray is kept or dropped. -/
theorem maps_grayAlpha (hcolor : h.color = .grayAlpha) {g a : Nat} (hg : g < levels h.depth)
    (ha : a < levels h.depth) :
    m.Maps [g, a] (Transform.select h o transparency).bands
      ((Transform.select h o transparency).depth h o) := by
  have hle := hh.le_depth (by simp [hcolor]) (by simp [hcolor])
  have hdepth : (Transform.select h o transparency).depth h o = h.depth :=
    Transform.depth_of_ne _ o (by simp [hcolor]) (by simp [hcolor])
  have hcorrect := htables.correct_lt g hg hle
  rw [hdepth]
  obtain ht | ht := Transform.select_grayAlpha hcolor o transparency
  · refine ⟨[m.correct g], by simp only [map?, hm, ht], ?_⟩
    rw [ht]
    simp [hcorrect]
  · rw [ht]
    cases ho : o.correctGamma with
    | true =>
      refine ⟨m.grayAlpha (m.correct g) a, by simp [map?, hm, ht, ho], ?_⟩
      exact isPixel_grayAlpha (by rw [hm, ht, ho]) rfl hcorrect ha
    | false =>
      refine ⟨m.grayAlpha g a, by simp [map?, hm, ht, ho], ?_⟩
      exact isPixel_grayAlpha (by rw [hm, ht, ho]) rfl hg ha

/-- The opacity of colours is kept or dropped. -/
theorem maps_rgba (hcolor : h.color = .rgba) {r g b a : Nat} (hr : r < levels h.depth)
    (hg : g < levels h.depth) (hb : b < levels h.depth) (ha : a < levels h.depth) :
    m.Maps [r, g, b, a] (Transform.select h o transparency).bands
      ((Transform.select h o transparency).depth h o) := by
  have hle := hh.le_depth (by simp [hcolor]) (by simp [hcolor])
  have hdepth : (Transform.select h o transparency).depth h o = h.depth :=
    Transform.depth_of_ne _ o (by simp [hcolor]) (by simp [hcolor])
  have hr' := htables.correct_lt r hr hle
  have hg' := htables.correct_lt g hg hle
  have hb' := htables.correct_lt b hb hle
  rw [hdepth]
  -- The opacity is dropped, or stays as it is.
  obtain ht | ht := Transform.select_rgba hcolor o transparency
  · refine ⟨[m.correct r, m.correct g, m.correct b], by simp only [map?, hm, ht], ?_⟩
    rw [ht]
    simp [hr', hg', hb']
  · rw [ht]
    cases ho : o.correctGamma with
    | true =>
      refine ⟨[m.correct r, m.correct g, m.correct b, a], by simp [map?, hm, ht, ho], ?_⟩
      simp [hr', hg', hb', ha]
    | false =>
      refine ⟨[r, g, b, a], by simp [map?, hm, ht, ho], ?_⟩
      simp [hr, hg, hb, ha]

/-- Every stored pixel has an output pixel of the form that the transform says. -/
theorem maps_of_isPixel {pixel : List Nat} (hpixel : IsPixel h.channels h.depth pixel) :
    m.Maps pixel (Transform.select h o transparency).bands
      ((Transform.select h o transparency).depth h o) := by
  have hchannels : h.channels = h.color.channels := rfl
  rw [hchannels] at hpixel
  -- The colour type says how many samples the pixel has.
  cases hcolor : h.color <;> rw [hcolor] at hpixel
  case gray =>
    match pixel, hpixel with
    | [g], hpixel =>
      obtain ⟨hg, -⟩ := isPixel_cons.1 hpixel
      exact maps_gray hm hh htables hcolor hg
  case palette =>
    match pixel, hpixel with
    | [index], hpixel =>
      obtain ⟨hindex, -⟩ := isPixel_cons.1 hpixel
      exact maps_palette hm hcolor hindex
  case grayAlpha =>
    match pixel, hpixel with
    | [g, a], hpixel =>
      obtain ⟨hg, hpixel⟩ := isPixel_cons.1 hpixel
      obtain ⟨ha, -⟩ := isPixel_cons.1 hpixel
      exact maps_grayAlpha hm hh htables hcolor hg ha
  case rgb =>
    match pixel, hpixel with
    | [r, g, b], hpixel =>
      obtain ⟨hr, hpixel⟩ := isPixel_cons.1 hpixel
      obtain ⟨hg, hpixel⟩ := isPixel_cons.1 hpixel
      obtain ⟨hb, -⟩ := isPixel_cons.1 hpixel
      exact maps_rgb hm hh htables hcolor hr hg hb
  case rgba =>
    match pixel, hpixel with
    | [r, g, b, a], hpixel =>
      obtain ⟨hr, hpixel⟩ := isPixel_cons.1 hpixel
      obtain ⟨hg, hpixel⟩ := isPixel_cons.1 hpixel
      obtain ⟨hb, hpixel⟩ := isPixel_cons.1 hpixel
      obtain ⟨ha, -⟩ := isPixel_cons.1 hpixel
      exact maps_rgba hm hh htables hcolor hr hg hb ha

end

end

end PixelMap

namespace Metadata

/-- The header is one that can be read, the transform is chosen from the header and the
transparency, and there is neither a transform nor transparency without a header. -/
structure Coherent (m : Metadata) : Prop where
  legal : ∀ h, m.header = some h → h.Legal
  sized : ∀ h, m.header = some h → h.Sized
  transform_eq : m.transform = m.header.map fun h => .select h m.options m.transparency
  transparency_eq : m.header = none → m.transparency = none

theorem coherent_new (o : Options) : (Metadata.new o).Coherent :=
  ⟨by simp [new], by simp [new], rfl, fun _ => rfl⟩

section

variable [Libraries]

/-- Every finding keeps it. -/
theorem coherent_keep {c : Chunk} {m : Metadata} {f : Finding} (hm : m.Coherent)
    (hread : m.read c = .ok f) : (m.keep f).Coherent := by
  have hof := of_read hread
  cases f
  case header hd =>
    have hkind : c.kind = .header := hof
    simp only [read, hkind] at hread
    obtain ⟨hnone, hd', hparse, hf⟩ := readHeader_eq_ok hread
    cases hf
    have hclear := hm.transparency_eq hnone
    -- The header is the first, so that there is no transparency yet.
    refine ⟨?_, ?_, ?_, ?_⟩
    · rintro _ ⟨⟩
      exact Header.legal_of_parse hparse
    · rintro _ ⟨⟩
      exact Header.sized_of_parse hparse
    · simp [hclear]
    · simp
  case transparency t =>
    have hkind : c.kind = .transparency := hof
    simp only [read, hkind] at hread
    obtain ⟨t', hf, hd, hheader, -⟩ := readTransparency_eq_ok hread
    cases hf
    exact {
      legal := by simpa using hm.legal
      sized := by simpa using hm.sized
      transform_eq := by simp
      transparency_eq := by simp [hheader] }
  -- No other finding writes any of the fields.
  all_goals exact {
    legal := by simpa using hm.legal
    sized := by simpa using hm.sized
    transform_eq := by simpa using hm.transform_eq
    transparency_eq := by simpa using hm.transparency_eq }

/-- What chunks lead to is coherent. -/
theorem coherent_of_acceptAll {cs : List Chunk} {o : Options} {m : Metadata}
    (h : acceptAll cs (.new o) = .ok () m) : m.Coherent :=
  acceptAll_induction (fun hm hread => coherent_keep hm hread) h (coherent_new o)

end

namespace Coherent

variable {m : Metadata} {h : Header} {t : Transform} (hm : m.Coherent) (hheader : m.header = some h)

include hm hheader

theorem transform_of_header : m.transform = some (.select h m.options m.transparency) := by
  rw [hm.transform_eq, hheader]
  rfl

/-- There is a transform as soon as there is a header. -/
theorem exists_transform : ∃ t, m.transform = some t :=
  ⟨_, hm.transform_of_header hheader⟩

variable (htransform : m.transform = some t)

include htransform

theorem transform_select : t = .select h m.options m.transparency :=
  Option.some.inj (htransform.symm.trans (hm.transform_of_header hheader))

/-- Every stored pixel of the image has an output pixel. -/
theorem maps {pixel : List Nat} (hpixel : IsPixel h.channels h.depth pixel) :
    (m.pixelMap h t).Maps pixel t.bands (t.depth h m.options) := by
  have hlegal := hm.legal h hheader
  have htables := PixelMap.tablesFit_ofTable hlegal (m.response.corrects m.options h.depth) t
    (m.palette.getD []) m.transparency
  obtain rfl := hm.transform_select hheader htransform
  exact PixelMap.maps_of_isPixel rfl hlegal htables hpixel

/-- The raster of the image has one of the forms that samples are kept in. -/
theorem regular : Regular t.bands (t.depth h m.options) := by
  obtain rfl := hm.transform_select hheader htransform
  exact Transform.regular_select (hm.legal h hheader) m.options m.transparency

end Coherent

end Metadata

end Png
