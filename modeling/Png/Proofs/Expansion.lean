import Png.Libraries.Own
import Png.Proofs.OutputOptions

/-!
# Expanding and looking up

A decoder can replace palette indices by their colours, and spread gray levels over a byte, or leave
the samples as they are and give a colour model to look them up in. Both ways of decoding a file
come to the same: they fail alike, and where they give images, the expanded samples are those that
the model has for the samples that are not expanded. `decode_expanded` says so for every file.
-/

namespace Png

/-- A buffer with an entry for every band reads these samples at a place. -/
def Raster.Shows (r : Raster) (x y : Nat) (samples : List Nat) : Prop :=
  ∀ buffer : List Nat, buffer.length = r.bands → r.read? x y buffer = some samples

/-! ## The pixels of a drawing -/

namespace Metadata

variable {m : Metadata} {h : Header} {s : Reading}

variable [Libraries]

/-- Where pixels have one sample, there is one at every place. -/
theorem Coherent.exists_sample (hm : m.Coherent) (hread : m.readStored = .ok (h, s))
    (hone : h.channels = 1) {x y : Nat} (hx : x < h.width) (hy : y < h.height) :
    ∃ sample, s.pixels x y = some [sample] ∧ sample < levels h.depth := by
  obtain ⟨hheader, data, hpixels⟩ := of_readStored hread
  obtain ⟨pixel, hpixel, hlength, hlt⟩ :=
    pixels_of_readPixels (hm.legal h hheader).depth_mem (hm.sized h hheader) hpixels hx hy
  obtain ⟨sample, rfl⟩ := List.length_eq_one_iff.1 (hlength.trans hone)
  exact ⟨sample, hpixel, hlt sample List.mem_cons_self⟩

/-- The raster of a drawing shows what the stored pixels are mapped to. -/
theorem Coherent.shows_drawn (hm : m.Coherent) (hread : m.readStored = .ok (h, s)) {x y : Nat}
    (hx : x < h.width) (hy : y < h.height) {pixel samples : List Nat}
    (hpixel : s.pixels x y = some pixel)
    (hmap : (m.pixelMap h (.select h m.options m.transparency)).map? pixel = some samples) :
    (m.drawn h s).raster.Shows x y samples := by
  obtain ⟨hheader, data, hpixels⟩ := of_readStored hread
  have hdraws := hm.draws hheader (hm.transform_of_header hheader)
  have hfits := fits_outputOf hdraws (Reading.formed_of_readPixels hdraws.depth_mem hpixels)
  have hshown := Raster.pixel?_ofPixels hdraws.regular hdraws.row_lt hfits hx hy
  obtain ⟨hlength, -⟩ := hfits x hx y hy
  have houtput : outputOf (m.pixelMap h (.select h m.options m.transparency))
      (Transform.select h m.options m.transparency).bands s.pixels x y = samples := by
    simp only [outputOf, hpixel, hmap, Option.getD_some]
  rw [houtput] at hshown hlength
  exact fun buffer hbuffer => Raster.read?_of_pixel? hshown hlength hbuffer

end Metadata

/-! ## Tables and models -/

/-- Opacities that are filled up to some length are those that there are, and then full ones. -/
theorem getElem?_padded {alpha : List UInt8} {n index : Nat} (hindex : index < n) :
    (alpha ++ List.replicate (n - alpha.length) 255)[index]? = some (alpha.getD index 255) := by
  rw [List.getD_eq_getElem?_getD]
  by_cases h : index < alpha.length
  · rw [List.getElem?_append_left h, List.getElem?_eq_getElem h, Option.getD_some]
  · have hrest : index - alpha.length < n - alpha.length := by omega
    rw [List.getElem?_append_right (Nat.not_lt.1 h), List.getElem?_replicate_of_lt hrest,
      List.getElem?_eq_none (Nat.not_lt.1 h), Option.getD_none]

/-- An entry of the palette of a map is the colour with its opacity, solid where there is none, and
solid black past the last colour. -/
theorem PixelMap.entry_ofTable (h : Header) (t : Transform) (gamma : Option (Array Nat))
    (palette : List Rgb) (transparency : Option Transparency) (index : Nat) :
    (ofTable h t gamma palette transparency).entry index =
      match palette[index]? with
      | some color =>
        (color, match transparency with
          | some (.paletteAlpha alpha) => alpha.getD index 255
          | _ => 255)
      | none => (⟨0, 0, 0⟩, 255) := by
  unfold entry ofTable
  dsimp only
  rw [Array.getD_eq_getD_getElem?, List.getElem?_toArray, List.zip_eq_zipWith,
    List.getElem?_zipWith]
  cases hcolor : palette[index]? with
  | none => rfl
  | some color =>
    obtain ⟨hindex, -⟩ := List.getElem?_eq_some_iff.1 hcolor
    simp only [getElem?_padded hindex, Option.getD_some]
    rcases transparency with _ | _ | _ | _ <;> rfl

/-- The colour of an index in the lists of an indexed model, with an opacity where the model has
opacities: solid black past the colours, and solid where there is no opacity for the index. -/
def colorAt (red green blue : List UInt8) (alpha : Option (List UInt8)) (index : Nat) : List Nat :=
  if index < red.length then
    [(red.getD index 0).toNat, (green.getD index 0).toNat, (blue.getD index 0).toNat] ++
      alpha.toList.map fun alpha => (alpha.getD index 255).toNat
  else [0, 0, 0] ++ alpha.toList.map fun _ => 255

/-- Looking up in the lists of a palette is looking up in the palette. -/
@[simp]
theorem colorAt_palette (palette : List Rgb) (alpha : Option (List UInt8)) (index : Nat) :
    colorAt (palette.map (·.red)) (palette.map (·.green)) (palette.map (·.blue)) alpha index =
      match palette[index]? with
      | some color => [color.red.toNat, color.green.toNat, color.blue.toNat] ++
        alpha.toList.map fun alpha => (alpha.getD index 255).toNat
      | none => [0, 0, 0] ++ alpha.toList.map fun _ => 255 := by
  unfold colorAt
  simp only [List.length_map, List.getD_eq_getElem?_getD, List.getElem?_map]
  split
  · next hindex =>
    rw [List.getElem?_eq_getElem hindex]
    rfl
  · next hindex => rw [List.getElem?_eq_none (Nat.not_lt.1 hindex)]

/-- The opacities of a palette, where they have an effect. -/
def opacities? (o : Options) (transparency : Option Transparency) : Option (List UInt8) :=
  match transparency with
  | some (.paletteAlpha alpha) => if o.suppressAlpha then none else some alpha
  | _ => none

namespace Transform

variable {h : Header} {o : Options}

/-- Indices that are not expanded are kept, and the palette has its opacities. -/
theorem select_palette_kept (hcolor : h.color = .palette) (ho : o.expandPalette = false)
    (transparency : Option Transparency) :
    (select h o transparency).mode = .copy ∧
      (select h o transparency).alphaPalette = (opacities? o transparency).isSome := by
  cases hs : o.suppressAlpha <;> rcases transparency with _ | _ | _ | _ <;>
    simp [select, opacities?, hcolor, ho, hs]

/-- Indices that are expanded become colours, with their opacities where the palette has them. -/
theorem select_palette_expanded (hcolor : h.color = .palette) (ho : o.expandPalette = true)
    (transparency : Option Transparency) :
    ((select h o transparency).mode = .paletteRgb ∧ (select h o transparency).bands = 3 ∧
      opacities? o transparency = none) ∨
    ∃ alpha, (select h o transparency).mode = .paletteRgba ∧ (select h o transparency).bands = 4 ∧
      transparency = some (.paletteAlpha alpha) ∧ opacities? o transparency = some alpha := by
  cases hs : o.suppressAlpha <;> rcases transparency with _ | _ | _ | _ <;>
    simp [select, opacities?, hcolor, ho, hs]

/-- Without a transparent sample and without correction, levels are spread on request alone. -/
theorem select_gray_unkeyed (hcolor : h.color = .gray) (hdepth : h.depth < 8)
    (hgamma : o.correctGamma = false) {transparency : Option Transparency}
    (hkey : o.suppressAlpha = true ∨ ∀ key, transparency ≠ some (.grayKey key)) :
    (select h o transparency).mode = (if o.promoteGray then .grayTable else .copy) ∧
      (select h o transparency).gray8 = o.promoteGray := by
  have hgray8 : o.gray8 = o.promoteGray := by rw [Options.gray8, hgamma, Bool.or_false]
  have hplain : ∀ key, (if o.suppressAlpha then none else transparency) ≠ some (.grayKey key) := by
    intro key
    obtain hs | hnone := hkey
    · simp [hs]
    · split
      · simp
      · exact hnone key
  simp only [select, hcolor, hgray8, hgamma]
  generalize (if o.suppressAlpha then none else transparency) = effective at hplain ⊢
  cases hg : o.promoteGray <;> rcases effective with _ | key | _ | _ <;> simp_all

end Transform

namespace PixelMap

/-- A sample that is kept is its own output. -/
theorem map?_of_copy {m : PixelMap} (hmode : m.transform.mode = .copy) (sample : Nat) :
    m.map? [sample] = some [sample] := by
  simp [map?, hmode]

/-- An index that is expanded is looked up in the palette, whatever corrects samples. -/
theorem map?_expanded {h : Header} {o : Options} (hcolor : h.color = .palette)
    (ho : o.expandPalette = true) (gamma : Option (Array Nat)) (palette : List Rgb)
    (transparency : Option Transparency) (index : Nat) :
    (ofTable h (.select h o transparency) gamma palette transparency).map? [index] =
      some (colorAt (palette.map (·.red)) (palette.map (·.green)) (palette.map (·.blue))
        (opacities? o transparency) index) := by
  rw [colorAt_palette]
  generalize ht : Transform.select h o transparency = t
  have hentry := entry_ofTable h t gamma palette transparency index
  obtain ⟨hmode, -, halpha⟩ | ⟨alpha, hmode, -, rfl, halpha⟩ :=
    Transform.select_palette_expanded hcolor ho transparency <;> rw [ht] at hmode
  · have hmode' : (ofTable h t gamma palette transparency).transform.mode = .paletteRgb := hmode
    simp only [map?, hmode', halpha, hentry]
    cases palette[index]? <;> rfl
  · have hmode' : (ofTable h t gamma palette (some (.paletteAlpha alpha))).transform.mode =
        .paletteRgba := hmode
    simp only [map?, hmode', halpha, hentry]
    cases palette[index]? <;> rfl

end PixelMap

namespace Metadata

variable (m : Metadata) {h : Header}

/-- Indices that are not expanded are kept, and the model is the palette with its opacities. -/
theorem palette_kept (hcolor : h.color = .palette) (ho : m.options.expandPalette = false) :
    let t := Transform.select h m.options m.transparency
    m.colorModel h t =
        .ofPalette h.depth (m.palette.getD []) (opacities? m.options m.transparency) ∧
      ∀ index, (m.pixelMap h t).map? [index] = some [index] := by
  intro t
  obtain ⟨hmode, halpha⟩ := Transform.select_palette_kept hcolor ho m.transparency
  refine ⟨?_, PixelMap.map?_of_copy hmode⟩
  simp only [colorModel, hcolor, ho, t, halpha, opacities?]
  cases hs : m.options.suppressAlpha <;> rcases m.transparency with _ | _ | _ | _ <;> simp

/-- Indices that are expanded are looked up in the palette, and have four bands with opacities. -/
theorem palette_expanded (hcolor : h.color = .palette) (ho : m.options.expandPalette = true) :
    let t := Transform.select h m.options m.transparency
    let palette := m.palette.getD []
    (t.bands = 4 ↔ (opacities? m.options m.transparency).isSome) ∧
      ∀ index, (m.pixelMap h t).map? [index] =
        some (colorAt (palette.map (·.red)) (palette.map (·.green)) (palette.map (·.blue))
          (opacities? m.options m.transparency) index) := by
  intro t palette
  refine ⟨?_, PixelMap.map?_expanded hcolor ho _ palette m.transparency⟩
  obtain ⟨-, hbands, halpha⟩ | ⟨alpha, -, hbands, -, halpha⟩ :=
    Transform.select_palette_expanded hcolor ho m.transparency <;> simp [t, hbands, halpha]

/-- Levels that are not spread are kept, and the model is their spread. -/
theorem gray_kept (hcolor : h.color = .gray) (hdepth : h.depth < 8)
    (hgamma : m.options.correctGamma = false) (ho : m.options.promoteGray = false)
    (hkey : m.options.suppressAlpha = true ∨ ∀ key, m.transparency ≠ some (.grayKey key)) :
    let t := Transform.select h m.options m.transparency
    m.colorModel h t = .ofLevels h.depth (spreadLevels h.depth) ∧
      ∀ level, (m.pixelMap h t).map? [level] = some [level] := by
  intro t
  obtain ⟨hmode, hgray⟩ := Transform.select_gray_unkeyed hcolor hdepth hgamma hkey
  rw [ho] at hmode hgray
  refine ⟨?_, PixelMap.map?_of_copy hmode⟩
  simp [colorModel, hcolor, hdepth, t, hgray]

/-- Levels that are spread are looked up in their spread. -/
theorem gray_spread (hcolor : h.color = .gray) (hdepth : h.depth < 8)
    (hgamma : m.options.correctGamma = false) (ho : m.options.promoteGray = true)
    (hkey : m.options.suppressAlpha = true ∨ ∀ key, m.transparency ≠ some (.grayKey key))
    {level : Nat} (hlevel : level < (spreadLevels h.depth).length) :
    let t := Transform.select h m.options m.transparency
    (m.pixelMap h t).map? [level] = some [(spreadLevels h.depth)[level].toNat] := by
  intro t
  obtain ⟨hmode, -⟩ := Transform.select_gray_unkeyed hcolor hdepth hgamma hkey
  rw [ho] at hmode
  have hmode' : (m.pixelMap h t).transform.mode = .grayTable := hmode
  have htable : (m.pixelMap h t).gray = ((spreadLevels h.depth).map (·.toNat)).toArray := by
    simp [pixelMap, PixelMap.build, PixelMap.ofTable, t, hmode, hgamma]
  have hentry : (m.pixelMap h t).spread level = (spreadLevels h.depth)[level].toNat := by
    rw [PixelMap.spread, htable, Array.getD_eq_getD_getElem?, List.getElem?_toArray,
      List.getElem?_map, List.getElem?_eq_getElem hlevel]
    rfl
  simp only [PixelMap.map?, hmode', hentry]

end Metadata

/-! ## Decoding -/

/-- A result that has been changed has been there before. -/
theorem exists_of_map_eq_ok {α β : Type} {f : α → β} {result : Except Error α} {b : β}
    (h : result.map f = .ok b) : ∃ a, result = .ok a ∧ f a = b := by
  cases result with
  | error e => cases h
  | ok a => exact ⟨a, rfl, Except.ok.inj h⟩

/-- Two ways of decoding a file agree: either both fail, with the same error, or both give an image,
and these are related. -/
def Agree (related : Image → Image → Prop) : Except Error Image → Except Error Image → Prop
  | .error e, .error e' => e = e'
  | .ok image, .ok image' => related image image'
  | _, _ => False

/-- Where one way gives an image, the other one does. -/
theorem Agree.exists_of_ok {related : Image → Image → Prop} {result result' : Except Error Image}
    (h : Agree related result result') {image : Image} (himage : result = .ok image) :
    ∃ image', result' = .ok image' ∧ related image image' := by
  subst himage
  cases result' with
  | error e => exact h.elim
  | ok image' => exact ⟨image', rfl, h⟩

/-- Of a palette image, `plain` has the indices and `expanded` their colours. -/
structure ExpandsPalette (plain expanded : Image) : Prop where
  header_eq : expanded.header = plain.header
  colors : plain.header.color = .palette → ∃ bits red green blue alpha,
    plain.colorModel = .indexed bits red green blue alpha ∧
      (expanded.raster.bands = 4 ↔ alpha.isSome) ∧
      ∀ x < plain.header.width, ∀ y < plain.header.height, ∃ index,
        plain.raster.Shows x y [index] ∧
          expanded.raster.Shows x y (colorAt red green blue alpha index)

/-- Of a gray image below eight bits, `plain` has the levels and `spread` their spread. -/
structure SpreadsGray (plain spread : Image) : Prop where
  header_eq : spread.header = plain.header
  levels : plain.header.color = .gray → plain.header.depth < 8 → ∃ bits red green blue alpha,
    plain.colorModel = .indexed bits red green blue alpha ∧
      ∀ x < plain.header.width, ∀ y < plain.header.height, ∃ level, ∃ hlevel : level < red.length,
        plain.raster.Shows x y [level] ∧ spread.raster.Shows x y [red[level].toNat]

namespace Metadata

variable {m : Metadata} {h : Header} {s : Reading}

variable [Libraries]

/-- Of the stored pixels of a palette image, one drawing has the indices and one their colours. -/
theorem Coherent.expandsPalette_drawn (hm : m.Coherent) (hread : m.readStored = .ok (h, s))
    (gray : Bool) :
    ExpandsPalette ((m.expanding false gray).drawn h s) ((m.expanding true gray).drawn h s) := by
  refine ⟨rfl, fun hcolor => ?_⟩
  have hcolor : h.color = .palette := hcolor
  obtain ⟨hmodel, hkept⟩ := (m.expanding false gray).palette_kept hcolor rfl
  obtain ⟨hbands, hexpanded⟩ := (m.expanding true gray).palette_expanded hcolor rfl
  refine ⟨_, _, _, _, _, hmodel, hbands, fun x hx y hy => ?_⟩
  have hone : h.channels = 1 := by rw [Header.channels, hcolor]; rfl
  obtain ⟨index, hpixel, -⟩ := hm.exists_sample hread hone hx hy
  refine ⟨index, ?_, ?_⟩
  · exact (coherent_expanding false gray hm).shows_drawn hread hx hy hpixel (hkept index)
  · exact (coherent_expanding true gray hm).shows_drawn hread hx hy hpixel (hexpanded index)

/-- Of the stored pixels of a gray image, one drawing has the levels and one their spread. -/
theorem Coherent.spreadsGray_drawn (hm : m.Coherent) (hread : m.readStored = .ok (h, s))
    (palette : Bool) (hgamma : m.options.correctGamma = false)
    (hkey : m.options.suppressAlpha = true ∨ ∀ key, m.transparency ≠ some (.grayKey key)) :
    SpreadsGray ((m.expanding palette false).drawn h s) ((m.expanding palette true).drawn h s) := by
  refine ⟨rfl, fun hcolor hdepth => ?_⟩
  have hcolor : h.color = .gray := hcolor
  have hdepth : h.depth < 8 := hdepth
  obtain ⟨hmodel, hkept⟩ := (m.expanding palette false).gray_kept hcolor hdepth hgamma rfl hkey
  refine ⟨_, _, _, _, _, hmodel, fun x hx y hy => ?_⟩
  have hone : h.channels = 1 := by rw [Header.channels, hcolor]; rfl
  obtain ⟨level, hpixel, hlt⟩ := hm.exists_sample hread hone hx hy
  -- There is a spread for every level below the limit of the depth.
  have hlevel : level < (spreadLevels h.depth).length := by
    rwa [spreadLevels, List.length_map, List.length_range]
  have hspread := (m.expanding palette true).gray_spread hcolor hdepth hgamma rfl hkey hlevel
  refine ⟨level, hlevel, ?_, ?_⟩
  · exact (coherent_expanding palette false hm).shows_drawn hread hx hy hpixel (hkept level)
  · exact (coherent_expanding palette true hm).shows_drawn hread hx hy hpixel hspread

end Metadata

section

variable [Libraries]

/-- What the chunks of a file tell of transparency, if they can be read. -/
def transparencyOf (source : Source) (o : Options) : Option Transparency :=
  match Decoder.readHeaders (.new source o) with
  | .ok () d => d.metadata.transparency
  | .error _ _ => none

/-- No gray sample of the file is transparent: alpha is suppressed, or its chunks tell of none. -/
def Unkeyed (source : Source) (o : Options) : Prop :=
  o.suppressAlpha = true ∨ ∀ key, transparencyOf source o ≠ some (.grayKey key)

/-- Two choices of what is expanded agree as far as the drawings of what is read agree. -/
theorem agree_expanding {related : Image → Image → Prop} {source : Source} {o : Options}
    (palette gray palette' gray' : Bool)
    (hdrawn : ∀ d h s, Decoder.readHeaders (.new source o) = .ok () d →
      d.metadata.readStored = .ok (h, s) →
      related ((d.metadata.expanding palette gray).drawn h s)
        ((d.metadata.expanding palette' gray').drawn h s)) :
    Agree related (decode source (o.expanding palette gray))
      (decode source (o.expanding palette' gray')) := by
  rw [decode_expanding, decode_expanding]
  cases hread : Decoder.readHeaders (.new source o) with
  | error e d => rfl
  | ok u d =>
    cases hstored : d.metadata.readStored with
    | error e => simp only [hstored]; rfl
    | ok r =>
      obtain ⟨h, s⟩ := r
      simp only [hstored]
      exact hdrawn d h s hread hstored

/-- Expanding agrees with looking up. With and without the expansion of palettes a file fails alike,
or the expanded image has at every place the colour that the model has for the index there, in four
bands if the model has opacities. With and without the spreading of gray it fails alike, or the
spread image has at every place the value that the model has for the level there, unless samples are
corrected or one is transparent. -/
theorem decode_expanded (source : Source) (o : Options) :
    Agree ExpandsPalette (decode source { o with expandPalette := false })
        (decode source { o with expandPalette := true }) ∧
      Agree (fun plain spread =>
          o.correctGamma = false → Unkeyed source o → SpreadsGray plain spread)
        (decode source { o with promoteGray := false })
        (decode source { o with promoteGray := true }) := by
  constructor
  · refine agree_expanding false o.promoteGray true o.promoteGray fun d h s hread hstored => ?_
    obtain ⟨hm, -⟩ := Decoder.coherent_of_readHeaders hread
    exact hm.expandsPalette_drawn hstored o.promoteGray
  · refine agree_expanding o.expandPalette false o.expandPalette true
      fun d h s hread hstored hgamma hkey => ?_
    obtain ⟨hm, hoptions⟩ := Decoder.coherent_of_readHeaders hread
    rw [← hoptions] at hgamma
    have htransparency : transparencyOf source o = d.metadata.transparency := by
      rw [transparencyOf, hread]
    rw [Unkeyed, htransparency, ← hoptions] at hkey
    exact hm.spreadsGray_drawn hstored o.expandPalette hgamma hkey

end

/-- Two pixels of two bits. The palette has two colours, of which the first has an opacity, so that
the second pixel is past its end; as gray levels they are a third of white, and white. -/
theorem decode_expanded_two_pixels :
    let chunk (tag : ChunkTag) (data : List UInt8) : Chunk := { tag, data }
    let data := chunk (.ofChars 'I' 'D' 'A' 'T')
      [0x78, 1, 1, 2, 0, 0xFD, 0xFF, 0, 0x70, 0, 0x72, 0, 0x71]
    let last := chunk (.ofChars 'I' 'E' 'N' 'D') []
    let colors : Source :=
      { rest := signature ++
          [chunk (.ofChars 'I' 'H' 'D' 'R') [0, 0, 0, 2, 0, 0, 0, 1, 2, 3, 0, 0, 0],
            chunk (.ofChars 'P' 'L' 'T' 'E') [1, 2, 3, 4, 5, 6],
            chunk (.ofChars 't' 'R' 'N' 'S') [7], data, last].flatMap Chunk.toBytes }
    let levels : Source :=
      { rest := signature ++
          [chunk (.ofChars 'I' 'H' 'D' 'R') [0, 0, 0, 2, 0, 0, 0, 1, 2, 0, 0, 0, 0], data,
            last].flatMap Chunk.toBytes }
    (∃ plain expanded, decode colors { expandPalette := false } = .ok plain ∧
      decode colors { expandPalette := true } = .ok expanded ∧ expanded.raster.bands = 4 ∧
      plain.raster.Shows 1 0 [3] ∧ expanded.raster.Shows 1 0 [0, 0, 0, 255]) ∧
    ∃ plain spread, decode levels { promoteGray := false } = .ok plain ∧
      decode levels { promoteGray := true } = .ok spread ∧ Unkeyed levels {} ∧
      plain.raster.Shows 1 0 [3] ∧ spread.raster.Shows 1 0 [255] := by
  intro chunk data last colors levels
  -- What is seen of an image: the form of its samples, and those of the second pixel.
  let seen (image : Image) :=
    ((image.header, image.raster.bands), image.colorModel, image.raster.read? 1 0 [0])
  constructor
  · have hview : (decode colors { expandPalette := false }).map seen =
        .ok ((⟨2, 1, 2, .palette, .sequential⟩, 1),
          .indexed 2 [1, 4] [2, 5] [3, 6] (some [7, 255]), some [3]) := by decide +kernel
    have hagree : Agree ExpandsPalette (decode colors { expandPalette := false })
        (decode colors { expandPalette := true }) := (decode_expanded colors {}).1
    obtain ⟨plain, hplain, hseen⟩ := exists_of_map_eq_ok hview
    obtain ⟨expanded, hexpanded, hpair⟩ := hagree.exists_of_ok hplain
    simp only [seen, Prod.mk.injEq] at hseen
    obtain ⟨⟨hheader, hone⟩, hmodel, hread⟩ := hseen
    obtain ⟨bits, red, green, blue, alpha, hmodel', hbands, hpixels⟩ :=
      hpair.colors (by rw [hheader])
    cases hmodel.symm.trans hmodel'
    obtain ⟨index, hindex, hcolor⟩ :=
      hpixels 1 (by rw [hheader]; decide) 0 (by rw [hheader]; decide)
    cases hread.symm.trans (hindex [0] hone.symm)
    exact ⟨plain, expanded, hplain, hexpanded, hbands.2 rfl, hindex, hcolor⟩
  · have hview : (decode levels { promoteGray := false }).map seen =
        .ok ((⟨2, 1, 2, .gray, .sequential⟩, 1),
          .indexed 2 [0, 85, 170, 255] [0, 85, 170, 255] [0, 85, 170, 255] none, some [3]) := by
      decide +kernel
    have hagree : Agree _ (decode levels { promoteGray := false })
        (decode levels { promoteGray := true }) := (decode_expanded levels {}).2
    have hnone : transparencyOf levels {} = none := by decide +kernel
    have hunkeyed : Unkeyed levels {} := .inr fun key => by simp [hnone]
    obtain ⟨plain, hplain, hseen⟩ := exists_of_map_eq_ok hview
    obtain ⟨spread, hspread, hpair⟩ := hagree.exists_of_ok hplain
    simp only [seen, Prod.mk.injEq] at hseen
    obtain ⟨⟨hheader, hone⟩, hmodel, hread⟩ := hseen
    obtain ⟨bits, red, green, blue, alpha, hmodel', hpixels⟩ :=
      (hpair rfl hunkeyed).levels (by rw [hheader]) (by rw [hheader]; decide)
    cases hmodel.symm.trans hmodel'
    obtain ⟨level, hlevel, hkept, hvalue⟩ :=
      hpixels 1 (by rw [hheader]; decide) 0 (by rw [hheader]; decide)
    cases hread.symm.trans (hkept [0] hone.symm)
    exact ⟨plain, spread, hplain, hspread, hunkeyed, hkept, hvalue⟩

end Png
