import Mathlib.Data.List.Basic
import Png.Proofs.Expansion

/-!
# Colour and opacity of an output pixel

A stored pixel becomes a colour, of one or three samples, and perhaps an opacity. What decides on
them is gathered in a `Coloring`: the header, the options, the table that corrects samples, the
palette and the transparency. `Coloring.colorOf` and `Coloring.opacityOf` say what they are for each
colour type and choice of options, and `arrange` how they are written next to each other. By
`PixelMap.map?_select` this is what a map gives, whichever of its modes is chosen, and it fills the
bands and the depth of the output.
-/

namespace Png

/-- The gray sample that is transparent, where transparency has an effect. -/
def grayKey? (o : Options) (transparency : Option Transparency) : Option Nat :=
  match transparency with
  | some (.grayKey key) => if o.suppressAlpha then none else some key
  | _ => none

/-- The colour that is transparent, where transparency has an effect. -/
def rgbKey? (o : Options) (transparency : Option Transparency) : Option (Nat × Nat × Nat) :=
  match transparency with
  | some (.rgbKey red green blue) => if o.suppressAlpha then none else some (red, green, blue)
  | _ => none

/-- The samples of an output pixel: an opacity stands behind the colour, and gray in front of it is
repeated on request. -/
def arrange (o : Options) (color : List Nat) (opacity : Option Nat) : List Nat :=
  match color, opacity with
  | color, none => color
  | [level], some alpha =>
    if o.expandGrayAlpha then [level, level, level, alpha] else [level, alpha]
  | color, some alpha => color ++ [alpha]

/-- What decides on the colours and the opacities of an image. -/
structure Coloring where
  header : Header
  options : Options
  /-- The corrected value of each sample, when correcting. -/
  gamma : Option (Array Nat)
  palette : List Rgb
  transparency : Option Transparency

namespace Coloring

variable (c : Coloring)

/-- The transform that is chosen. -/
def transform : Transform := .select c.header c.options c.transparency

/-- The map of a transform. -/
def pixelMap (t : Transform) : PixelMap :=
  .ofTable c.header t c.gamma c.palette c.transparency

/-- A colour sample in the output: corrected when correcting, and otherwise spread over a byte or as
it is. -/
def shade (spread : Bool) (sample : Nat) : Nat :=
  match c.gamma with
  | some table => table.getD sample sample
  | none => if spread then sample * depthScale c.header.depth else sample

/-- Whether gray becomes eight bits wide: where it has fewer, and this is asked for, or one of its
levels is transparent. -/
def spreadsGray : Bool :=
  decide (c.header.depth < 8) && (c.options.gray8 || (grayKey? c.options c.transparency).isSome)

/-- The colour of a palette index: black past the last one. -/
def paletteColor (index : Nat) : List Nat :=
  match c.palette[index]? with
  | some color => [color.red.toNat, color.green.toNat, color.blue.toNat]
  | none => [0, 0, 0]

/-- The opacity of a palette index: full where none is given, and past the last colour. -/
def paletteOpacity (alpha : List UInt8) (index : Nat) : Nat :=
  match c.palette[index]? with
  | some _ => (alpha.getD index 255).toNat
  | none => 255

/-- The colour of a stored pixel in the output. -/
def colorOf (pixel : List Nat) : List Nat :=
  match c.header.color, pixel with
  | .gray, [g] => [c.shade c.spreadsGray g]
  | .grayAlpha, [g, _] => [c.shade false g]
  | .rgb, [r, g, b] => [c.shade false r, c.shade false g, c.shade false b]
  | .rgba, [r, g, b, _] => [c.shade false r, c.shade false g, c.shade false b]
  | .palette, [index] => if c.options.expandPalette then c.paletteColor index else [index]
  | _, _ => []

/-- The opacity of what is not transparent: the largest sample of the output. -/
def fullOpacity : Nat := levels (c.transform.depth c.header c.options) - 1

/-- The opacity of a stored pixel in the output, if it has one there. -/
def opacityOf (pixel : List Nat) : Option Nat :=
  match c.header.color, pixel with
  | .gray, [g] => (grayKey? c.options c.transparency).map fun key =>
    if g = key then 0 else c.fullOpacity
  | .rgb, [r, g, b] => (rgbKey? c.options c.transparency).map fun key =>
    if (r, g, b) = key then 0 else c.fullOpacity
  | .grayAlpha, [_, a] => if c.options.suppressAlpha then none else some a
  | .rgba, [_, _, _, a] => if c.options.suppressAlpha then none else some a
  | .palette, [index] =>
    if c.options.expandPalette then
      (opacities? c.options c.transparency).map fun alpha => c.paletteOpacity alpha index
    else none
  | _, _ => none

end Coloring

/-! ## The choice of the transform -/

namespace Transform

variable {h : Header} {o : Options} {transparency : Option Transparency}

/-- Gray with a transparent level gets an opacity, and eight bits if it has fewer. -/
theorem select_gray_keyed {key : Nat} (hcolor : h.color = .gray)
    (hkey : grayKey? o transparency = some key) :
    transparency = some (.grayKey key) ∧ select h o transparency = withGrayAlpha
      { mode := if h.depth < 8 then .grayTableKeyed else .grayKeyed
        bands := 1
        gray8 := decide (h.depth < 8) || o.gray8
        fullOpacity := if h.depth < 8 then 255 else h.maxSample } o.expandGrayAlpha := by
  have hchannels : h.channels = 1 := by rw [Header.channels, hcolor]; rfl
  rcases transparency with _ | key' | _ | _ <;> simp only [grayKey?, reduceCtorEq] at hkey
  obtain ⟨hs, hkey⟩ := Option.ite_none_left_eq_some.1 hkey
  cases hkey
  refine ⟨rfl, ?_⟩
  by_cases hd : h.depth < 8 <;> simp [select, hcolor, hs, hd, hchannels]

/-- Gray without one is spread where it is to have eight bits. -/
theorem select_gray_plain (hcolor : h.color = .gray) (hkey : grayKey? o transparency = none) :
    select h o transparency =
      { mode :=
          if o.gray8 ∧ h.depth < 8 then .grayTable else if o.correctGamma then .gamma else .copy
        bands := 1, gray8 := o.gray8, fullOpacity := h.maxSample } := by
  have hchannels : h.channels = 1 := by rw [Header.channels, hcolor]; rfl
  have hnone : ∀ key, (if o.suppressAlpha then none else transparency) ≠ some (.grayKey key) := by
    intro key
    rcases transparency with _ | _ | _ | _ <;> simp_all [grayKey?]
  simp only [select, hcolor, hchannels]
  generalize (if o.suppressAlpha then none else transparency) = effective at hnone ⊢
  rcases effective with _ | key | _ | _
  case some.grayKey => exact absurd rfl (hnone key)
  all_goals split <;> rfl

/-- Colours with a transparent one get an opacity. -/
theorem select_rgb_keyed {key : Nat × Nat × Nat} (hcolor : h.color = .rgb)
    (hkey : rgbKey? o transparency = some key) :
    transparency = some (.rgbKey key.1 key.2.1 key.2.2) ∧ select h o transparency =
      { mode := .rgbKeyed, bands := 4, gray8 := o.gray8, fullOpacity := h.maxSample } := by
  have hchannels : h.channels = 3 := by rw [Header.channels, hcolor]; rfl
  rcases transparency with _ | _ | ⟨red, green, blue⟩ | _ <;>
    simp only [rgbKey?, reduceCtorEq] at hkey
  obtain ⟨hs, hkey⟩ := Option.ite_none_left_eq_some.1 hkey
  cases hkey
  exact ⟨rfl, by simp [select, hcolor, hs]⟩

/-- Colours without one stay without opacity. -/
theorem select_rgb_plain (hcolor : h.color = .rgb) (hkey : rgbKey? o transparency = none) :
    select h o transparency =
      { mode := if o.correctGamma then .gamma else .copy, bands := 3, gray8 := o.gray8
        fullOpacity := h.maxSample } := by
  have hchannels : h.channels = 3 := by rw [Header.channels, hcolor]; rfl
  cases hs : o.suppressAlpha <;> rcases transparency with _ | _ | _ | _ <;>
    simp_all [select, rgbKey?]

end Transform

/-! ## The tables of a map -/

/-- A level that is spread over a byte fits it. -/
theorem mul_depthScale_lt {depth level : Nat} (hlevel : level < levels depth) :
    level * depthScale depth < 256 := by
  calc level * depthScale depth
      ≤ (levels depth - 1) * (255 / (levels depth - 1)) := Nat.mul_le_mul_right _ (by omega)
    _ ≤ 255 := Nat.mul_div_le _ _
    _ < 256 := by decide

namespace Coloring

variable (c : Coloring) {t : Transform}

theorem correct_pixelMap (sample : Nat) : (c.pixelMap t).correct sample = c.shade false sample := by
  unfold PixelMap.correct pixelMap PixelMap.ofTable shade
  cases c.gamma <;> rfl

theorem spread_pixelMap (hmode : t.mode = .grayTable ∨ t.mode = .grayTableKeyed) {level : Nat}
    (hlevel : level < levels c.header.depth) :
    (c.pixelMap t).spread level = c.shade true level := by
  have heven : ((spreadLevels c.header.depth).map (·.toNat)).toArray.getD level level =
      level * depthScale c.header.depth := by
    have hlt := mul_depthScale_lt hlevel
    simp [spreadLevels, hlevel, Nat.mod_eq_of_lt hlt]
  unfold PixelMap.spread pixelMap PixelMap.ofTable shade
  obtain hmode | hmode := hmode <;> cases c.gamma <;> simp only [hmode]
  · exact heven
  · exact heven

/-- Gray and an opacity are arranged as the options ask. -/
theorem grayAlpha_pixelMap (hreplicate : t.replicate = false) (level alpha : Nat) :
    (c.pixelMap (t.withGrayAlpha c.options.expandGrayAlpha)).grayAlpha level alpha =
      arrange c.options [level] (some alpha) := by
  have htransform : (c.pixelMap (t.withGrayAlpha c.options.expandGrayAlpha)).transform =
      t.withGrayAlpha c.options.expandGrayAlpha := rfl
  rw [PixelMap.grayAlpha, htransform]
  cases ho : c.options.expandGrayAlpha <;> simp [Transform.withGrayAlpha, arrange, hreplicate, ho]

/-- What is not transparent has the largest sample of a byte, where levels become wider, and
otherwise that of the stored samples. -/
theorem fullOpacity_keyed (hlegal : c.header.Legal) {key : Nat} (hcolor : c.header.color = .gray)
    (hkey : grayKey? c.options c.transparency = some key) :
    c.fullOpacity = if c.header.depth < 8 then 255 else c.header.maxSample := by
  obtain ⟨-, hselect⟩ := Transform.select_gray_keyed hcolor hkey
  rw [fullOpacity, transform, hselect, Transform.depth_of_gray _ _ hcolor,
    Transform.gray8_withGrayAlpha]
  by_cases hd : c.header.depth < 8
  · simp only [hd, decide_true, Bool.true_or, and_self, if_true]
    rfl
  · simp only [hd, false_and, if_false, hlegal.maxSample_eq]

/-! ## The samples of an output pixel -/

/-- Gray that is spread over a byte has no opacity. -/
theorem map?_spread (hmode : t.mode = .grayTable) {g : Nat} (hg : g < levels c.header.depth) :
    (c.pixelMap t).map? [g] = some [c.shade true g] := by
  have hmode' : (c.pixelMap t).transform.mode = .grayTable := hmode
  simp only [PixelMap.map?, hmode', c.spread_pixelMap (.inl hmode) hg]

/-- Gray with a transparent level is spread or corrected, and the level decides on its opacity. -/
theorem map?_grayKeyed {key : Nat} (htransparency : c.transparency = some (.grayKey key))
    (spread : Bool) (hmode : t.mode = if spread then .grayTableKeyed else .grayKeyed)
    (hreplicate : t.replicate = false) {g : Nat} (hg : g < levels c.header.depth) :
    (c.pixelMap (t.withGrayAlpha c.options.expandGrayAlpha)).map? [g] =
      some (arrange c.options [c.shade spread g]
        (some (if g = key then 0 else t.fullOpacity))) := by
  rw [← c.grayAlpha_pixelMap hreplicate]
  have hmode' := (Transform.mode_withGrayAlpha t c.options.expandGrayAlpha).trans hmode
  have hfull := Transform.fullOpacity_withGrayAlpha t c.options.expandGrayAlpha
  generalize t.withGrayAlpha c.options.expandGrayAlpha = t' at hmode' hfull ⊢
  have hmap : (c.pixelMap t').transform.mode = if spread then .grayTableKeyed else .grayKeyed :=
    hmode'
  have hopacity : (c.pixelMap t').opacity (g == (c.pixelMap t').grayKey) =
      if g = key then 0 else t.fullOpacity := by
    simp [PixelMap.opacity, pixelMap, PixelMap.ofTable, htransparency, hfull]
  cases spread with
  | true => simp only [PixelMap.map?, hmap, if_true, hopacity, c.spread_pixelMap (.inr hmode') hg]
  | false =>
    simp only [PixelMap.map?, hmap, Bool.false_eq_true, if_false, hopacity, correct_pixelMap]

/-- The output of an index: its colour, where palettes are expanded, and otherwise itself. -/
theorem map?_palette (hcolor : c.header.color = .palette) (index : Nat) :
    (c.pixelMap c.transform).map? [index] =
      some (arrange c.options (c.colorOf [index]) (c.opacityOf [index])) := by
  cases ho : c.options.expandPalette with
  | false =>
    have hmode := (Transform.select_palette_kept hcolor ho c.transparency).1
    have hmap : (c.pixelMap c.transform).map? [index] = some [index] :=
      PixelMap.map?_of_copy hmode index
    rw [hmap]
    simp [colorOf, opacityOf, hcolor, ho, arrange]
  | true =>
    have hmap := PixelMap.map?_expanded hcolor ho c.gamma c.palette c.transparency index
    rw [pixelMap, transform, hmap, colorAt_palette]
    simp only [colorOf, opacityOf, hcolor, ho, if_true, paletteColor, paletteOpacity]
    cases opacities? c.options c.transparency <;> cases c.palette[index]? <;> rfl

section

variable (hgamma : c.gamma.isSome = c.options.correctGamma)

include hgamma

/-- The samples of a mode that treats all colours alike. -/
theorem map?_plain (hmode : t.mode = if c.options.correctGamma then .gamma else .copy) :
    (∀ g, (c.pixelMap t).map? [g] = some [c.shade false g]) ∧
    (∀ g a, (c.pixelMap t).map? [g, a] = some ((c.pixelMap t).grayAlpha (c.shade false g) a)) ∧
    (∀ r g b, (c.pixelMap t).map? [r, g, b] =
      some [c.shade false r, c.shade false g, c.shade false b]) ∧
    ∀ r g b a, (c.pixelMap t).map? [r, g, b, a] =
      some [c.shade false r, c.shade false g, c.shade false b, a] := by
  have hmode' : (c.pixelMap t).transform.mode =
      if c.options.correctGamma then .gamma else .copy := hmode
  cases hc : c.options.correctGamma <;> rw [hc] at hmode' hgamma
  · -- Samples that are neither corrected nor spread are their own shades.
    have hnone : c.gamma = none :=
      Option.isNone_iff_eq_none.1 (Option.isSome_eq_false_iff.1 hgamma)
    have hshade : ∀ sample, c.shade false sample = sample := fun sample => by simp [shade, hnone]
    simp [PixelMap.map?, hmode', hshade]
  · simp [PixelMap.map?, hmode', correct_pixelMap]

/-- The output of gray, with or without a transparent level. -/
theorem map?_gray (hlegal : c.header.Legal) (hcolor : c.header.color = .gray) {g : Nat}
    (hg : g < levels c.header.depth) :
    (c.pixelMap c.transform).map? [g] =
      some (arrange c.options (c.colorOf [g]) (c.opacityOf [g])) := by
  cases hkey : grayKey? c.options c.transparency with
  | none =>
    rw [transform, Transform.select_gray_plain hcolor hkey]
    -- Levels go through a table of their own only where they become wider.
    by_cases hspread : c.options.gray8 ∧ c.header.depth < 8
    · rw [if_pos hspread, c.map?_spread rfl hg]
      simp [colorOf, opacityOf, hcolor, hkey, arrange, spreadsGray, hspread]
    · rw [if_neg hspread, (c.map?_plain hgamma rfl).1]
      have hkept : c.spreadsGray = false := by simpa [spreadsGray, hkey, and_comm] using hspread
      simp [colorOf, opacityOf, hcolor, hkey, arrange, hkept]
  | some key =>
    obtain ⟨htransparency, hselect⟩ := Transform.select_gray_keyed hcolor hkey
    have hspread : c.spreadsGray = decide (c.header.depth < 8) := by simp [spreadsGray, hkey]
    rw [transform, hselect,
      c.map?_grayKeyed htransparency (decide (c.header.depth < 8)) (by simp) rfl hg]
    simp [colorOf, opacityOf, hcolor, hkey, hspread, c.fullOpacity_keyed hlegal hcolor hkey]

/-- The output of gray with a stored opacity, which may be dropped. -/
theorem map?_grayAlpha (hcolor : c.header.color = .grayAlpha) (g a : Nat) :
    (c.pixelMap c.transform).map? [g, a] =
      some (arrange c.options (c.colorOf [g, a]) (c.opacityOf [g, a])) := by
  cases hs : c.options.suppressAlpha with
  | true =>
    have hmode : c.transform.mode = .dropGrayAlpha := by
      simp [transform, Transform.select, hcolor, hs]
    have hmode' : (c.pixelMap c.transform).transform.mode = .dropGrayAlpha := hmode
    simp only [PixelMap.map?, hmode', correct_pixelMap]
    simp [colorOf, opacityOf, hcolor, hs, arrange]
  | false =>
    have hselect : c.transform = Transform.withGrayAlpha
        { mode := if c.options.correctGamma then .gamma else .copy, bands := c.header.channels
          gray8 := c.options.gray8, fullOpacity := c.header.maxSample }
        c.options.expandGrayAlpha := by
      simp [transform, Transform.select, hcolor, hs]
    rw [hselect, (c.map?_plain hgamma (by rw [Transform.mode_withGrayAlpha])).2.1,
      c.grayAlpha_pixelMap rfl]
    simp [colorOf, opacityOf, hcolor, hs]

/-- The output of a colour, with or without a transparent one. -/
theorem map?_rgb (hlegal : c.header.Legal) (hcolor : c.header.color = .rgb) (r g b : Nat) :
    (c.pixelMap c.transform).map? [r, g, b] =
      some (arrange c.options (c.colorOf [r, g, b]) (c.opacityOf [r, g, b])) := by
  cases hkey : rgbKey? c.options c.transparency with
  | none =>
    rw [transform, Transform.select_rgb_plain hcolor hkey, (c.map?_plain hgamma rfl).2.2.1]
    simp [colorOf, opacityOf, hcolor, hkey, arrange]
  | some key =>
    obtain ⟨htransparency, hselect⟩ := Transform.select_rgb_keyed hcolor hkey
    have hmode : (c.pixelMap c.transform).transform.mode = .rgbKeyed :=
      congrArg Transform.mode hselect
    have hfull : (c.pixelMap c.transform).transform.fullOpacity = c.fullOpacity := by
      rw [fullOpacity, Transform.depth_of_ne _ _ (by simp [hcolor]) (by simp [hcolor]),
        ← hlegal.maxSample_eq]
      exact congrArg Transform.fullOpacity hselect
    have hrgbKey : (c.pixelMap c.transform).rgbKey = key := by
      simp [pixelMap, PixelMap.ofTable, htransparency]
    simp only [PixelMap.map?, hmode, correct_pixelMap, PixelMap.opacity, hfull, hrgbKey]
    simp [colorOf, opacityOf, hcolor, hkey, arrange]

/-- The output of a colour with a stored opacity, which may be dropped. -/
theorem map?_rgba (hcolor : c.header.color = .rgba) (r g b a : Nat) :
    (c.pixelMap c.transform).map? [r, g, b, a] =
      some (arrange c.options (c.colorOf [r, g, b, a]) (c.opacityOf [r, g, b, a])) := by
  cases hs : c.options.suppressAlpha with
  | true =>
    have hmode : c.transform.mode = .dropRgbAlpha := by
      simp [transform, Transform.select, hcolor, hs]
    have hmode' : (c.pixelMap c.transform).transform.mode = .dropRgbAlpha := hmode
    simp only [PixelMap.map?, hmode', correct_pixelMap]
    simp [colorOf, opacityOf, hcolor, hs, arrange]
  | false =>
    have hmode : c.transform.mode = if c.options.correctGamma then .gamma else .copy := by
      simp [transform, Transform.select, hcolor, hs]
    rw [(c.map?_plain hgamma hmode).2.2.2]
    simp [colorOf, opacityOf, hcolor, hs, arrange]

/-- Every stored pixel is mapped to its colour and its opacity, arranged as the options ask. -/
theorem map?_eq_arrange (hlegal : c.header.Legal) {pixel : List Nat}
    (hpixel : IsPixel c.header.channels c.header.depth pixel) :
    (c.pixelMap c.transform).map? pixel =
      some (arrange c.options (c.colorOf pixel) (c.opacityOf pixel)) := by
  have hchannels : c.header.channels = c.header.color.channels := rfl
  rw [hchannels] at hpixel
  cases hcolor : c.header.color <;> rw [hcolor] at hpixel
  case gray =>
    obtain ⟨g, rfl⟩ := List.length_eq_one_iff.1 hpixel.1
    exact c.map?_gray hgamma hlegal hcolor (isPixel_cons.1 hpixel).1
  case palette =>
    obtain ⟨index, rfl⟩ := List.length_eq_one_iff.1 hpixel.1
    exact c.map?_palette hcolor index
  case grayAlpha =>
    obtain ⟨g, a, rfl⟩ := List.length_eq_two.1 hpixel.1
    exact c.map?_grayAlpha hgamma hcolor g a
  case rgb =>
    obtain ⟨r, g, b, rfl⟩ := List.length_eq_three.1 hpixel.1
    exact c.map?_rgb hgamma hlegal hcolor r g b
  case rgba =>
    obtain ⟨r, g, b, a, rfl⟩ := List.length_eq_four.1 hpixel.1
    exact c.map?_rgba hgamma hcolor r g b a

end

end Coloring

/-- The transform that is chosen for an image, with its tables, maps every stored pixel to its
colour and its opacity as the options ask, in as many samples as there are bands, below the limit
of the output's depth. This holds for any table that corrects samples, in particular for that of
the file's response. -/
theorem PixelMap.map?_select {h : Header} {o : Options} {gamma : Option (Array Nat)}
    (hlegal : h.Legal) (hgamma : Corrects o h.depth gamma) (palette : List Rgb)
    (transparency : Option Transparency) {pixel : List Nat}
    (hpixel : IsPixel h.channels h.depth pixel) :
    let t := Transform.select h o transparency
    let c : Coloring := { header := h, options := o, gamma, palette, transparency }
    (ofTable h t gamma palette transparency).map? pixel =
      some (arrange o (c.colorOf pixel) (c.opacityOf pixel)) ∧
    IsPixel t.bands (t.depth h o) (arrange o (c.colorOf pixel) (c.opacityOf pixel)) ∧
    ∀ response, ∃ table, Corrects o h.depth table ∧
      build h o t response palette transparency = ofTable h t table palette transparency := by
  intro t c
  have hmap : (ofTable h t gamma palette transparency).map? pixel = _ :=
    c.map?_eq_arrange hgamma.isSome_eq hlegal hpixel
  obtain ⟨samples, hsamples, hform⟩ := maps_of_isPixel (rfl : _ = t) hlegal
    (tablesFit_ofTable hlegal hgamma t palette transparency) hpixel
  cases hsamples.symm.trans hmap
  exact ⟨hmap, hform, fun response => ⟨_, response.corrects o h.depth, rfl⟩⟩

/-- Corrected gray of two bits with a transparent level, repeated in front of its opacity. -/
theorem PixelMap.map?_select_keyed_level :
    let h : Header :=
      { width := 1, height := 1, depth := 2, color := .gray, interlace := .sequential }
    let o : Options := { correctGamma := true, expandGrayAlpha := true }
    let table : Array Nat := #[0, 100, 200, 255]
    let map := ofTable h (.select h o (some (.grayKey 1))) (some table) [] (some (.grayKey 1))
    h.Legal ∧ Corrects o h.depth (some table) ∧
      IsPixel h.channels h.depth [1] ∧ IsPixel h.channels h.depth [2] ∧
      map.map? [1] = some [100, 100, 100, 0] ∧ map.map? [2] = some [200, 200, 200, 255] ∧
      IsPixel map.transform.bands 8 [200, 200, 200, 255] := by
  intro h o table map
  have hlegal : h.Legal := ⟨by decide, by decide, by decide⟩
  have hgamma : Corrects o h.depth (some table) := by
    refine ⟨rfl, fun values hvalues => ?_, fun values hvalues => ?_⟩
    all_goals obtain rfl : table = values := Option.some.inj hvalues
    · rfl
    · decide
  have hfirst : IsPixel h.channels h.depth [1] := ⟨rfl, by decide⟩
  have hsecond : IsPixel h.channels h.depth [2] := ⟨rfl, by decide⟩
  obtain ⟨hmap, -⟩ := map?_select hlegal hgamma [] (some (.grayKey 1)) hfirst
  obtain ⟨hmap', hform, -⟩ := map?_select hlegal hgamma [] (some (.grayKey 1)) hsecond
  exact ⟨hlegal, hgamma, hfirst, hsecond, hmap, hmap', hform⟩

namespace Metadata

/-- What decides on the colours of the image. -/
def coloring (m : Metadata) (h : Header) : Coloring where
  header := h
  options := m.options
  gamma := if m.options.correctGamma then some (m.response.table h.depth) else none
  palette := m.palette.getD []
  transparency := m.transparency

/-- The raster of a drawing shows at every place the colour and the opacity of a stored pixel, and
these fill its bands. -/
theorem Coherent.shows_arranged [Libraries] {m : Metadata} {h : Header} {s : Reading}
    (hm : m.Coherent) (hread : m.readStored = .ok (h, s)) {x y : Nat} (hx : x < h.width)
    (hy : y < h.height) : ∃ pixel, s.pixels x y = some pixel ∧ pixel.length = h.channels ∧
      (arrange m.options ((m.coloring h).colorOf pixel) ((m.coloring h).opacityOf pixel)).length =
        (m.drawn h s).raster.bands ∧
      (m.drawn h s).raster.Shows x y
        (arrange m.options ((m.coloring h).colorOf pixel) ((m.coloring h).opacityOf pixel)) := by
  obtain ⟨hheader, data, hpixels⟩ := of_readStored hread
  obtain ⟨pixel, hpixel, hform⟩ :=
    pixels_of_readPixels (hm.legal h hheader).depth_mem (hm.sized h hheader) hpixels hx hy
  have hgamma := (m.response.corrects m.options h.depth).isSome_eq
  have hmap : (m.pixelMap h (.select h m.options m.transparency)).map? pixel = _ :=
    (m.coloring h).map?_eq_arrange hgamma (hm.legal h hheader) hform
  obtain ⟨samples, hsamples, hlength, -⟩ :=
    hm.maps hheader (hm.transform_of_header hheader) hform
  cases hsamples.symm.trans hmap
  exact ⟨pixel, hpixel, hform.1, hlength, hm.shows_drawn hread hx hy hpixel hmap⟩

end Metadata

end Png
