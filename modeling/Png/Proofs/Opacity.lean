import Png.Libraries.Own
import Png.Proofs.OutputColors
import Png.Proofs.Presentation

/-!
# Images without opacities

A decoder can drop the opacities of an image, whether they are stored with its pixels or told by a
transparency chunk. What is left are the colours that the image has with opacities: they are
corrected, spread and looked up in the same way. `decode_suppressed` says so for every file whose
palette is expanded and whose gray levels are spread.
-/

namespace Png

/-- Whether a colour is a single gray level. -/
def ColorType.isGray : ColorType → Bool
  | .gray | .grayAlpha => true
  | .rgb | .palette | .rgba => false

/-- The colour of an output pixel among its samples: all of them, or those in front of the opacity,
of which gray may be repeated. -/
inductive ColorPart : (gray : Bool) → (samples color : List Nat) → Prop
  | gray (g : Nat) : ColorPart true [g] [g]
  | grayAlpha (g a : Nat) : ColorPart true [g, a] [g]
  | repeatedGray (g a : Nat) : ColorPart true [g, g, g, a] [g]
  | rgb (r g b : Nat) : ColorPart false [r, g, b] [r, g, b]
  | rgba (r g b a : Nat) : ColorPart false [r, g, b, a] [r, g, b]

/-! ## The form of the output -/

namespace Transform

variable {h : Header} {o : Options} (transparency : Option Transparency)

/-- Samples that are expanded have eight bits, or more where they are stored so. -/
theorem depth_select_expanded (hh : h.Legal) (hpalette : o.expandPalette = true)
    (hgray : o.promoteGray = true) : (select h o transparency).depth h o = max 8 h.depth := by
  have hgray8 : o.gray8 = true := by rw [Options.gray8, hgray, Bool.true_or]
  by_cases hcolor : h.color = .gray
  · obtain ⟨hd, hdepth, -⟩ | ⟨hd, hdepth, -⟩ | ⟨hd, hdepth, -⟩ | ⟨hd, hdepth, -⟩ :=
      select_gray hcolor o transparency <;> rw [hdepth]
    · exact (Nat.max_eq_left hd.le).symm
    · exact (Nat.max_eq_right hd).symm
    · exact (Nat.max_eq_left hd.le).symm
    · exact (Nat.max_eq_right (hd hgray8)).symm
  by_cases hindex : h.color = .palette
  · have hmax := hh.le_maxDepth
    rw [hindex] at hmax
    rw [depth_of_palette _ o hindex, if_pos hpalette]
    exact (Nat.max_eq_left hmax).symm
  · rw [depth_of_ne _ o hcolor hindex]
    exact (Nat.max_eq_right (hh.le_depth hcolor hindex)).symm

/-- Without opacities there is a gray level, or a colour. -/
theorem bands_select_suppressed (hpalette : o.expandPalette = true) (hs : o.suppressAlpha = true) :
    (select h o transparency).bands = if h.color.isGray then 1 else 3 := by
  cases hcolor : h.color <;>
    simp [select, hcolor, hs, hpalette, ColorType.isGray, Header.channels, ColorType.channels]
  split <;> rfl

end Transform

namespace Metadata

/-- Samples that are expanded are components. -/
theorem colorModel_expanded (m : Metadata) {h : Header} (hh : h.Legal)
    (hpalette : m.options.expandPalette = true) (hgray : m.options.promoteGray = true) :
    let t := Transform.select h m.options m.transparency
    m.colorModel h t = .ofBands t.bands (t.depth h m.options) := by
  intro t
  have hindex : ¬(h.color = .palette ∧ (!m.options.expandPalette) = true) := by simp [hpalette]
  have hlevels : ¬(h.color = .gray ∧ h.depth < 8 ∧ (!t.gray8) = true) := by
    rintro ⟨hcolor, hd, hkept⟩
    -- Levels that are not spread would not have eight bits.
    have hdepth := Transform.depth_select_expanded m.transparency hh hpalette hgray
    rw [Transform.depth_of_gray _ _ hcolor, if_neg (by simpa [t] using fun _ => hkept)] at hdepth
    omega
  rw [colorModel, if_neg hindex, if_neg hlevels]

end Metadata

/-! ## The samples of the output -/

namespace Coloring

variable (c : Coloring)

/-- An expanded pixel has a gray level or a colour, with or without an opacity. -/
theorem colorPart_arrange (hpalette : c.options.expandPalette = true) {pixel : List Nat}
    (hpixel : pixel.length = c.header.channels) (opacity : Option Nat) :
    ColorPart c.header.color.isGray (arrange c.options (c.colorOf pixel) opacity)
      (c.colorOf pixel) := by
  -- A gray level may be repeated where there is an opacity, a colour is not.
  have hone : ∀ g, ColorPart true (arrange c.options [g] opacity) [g] := by
    intro g
    cases opacity with
    | none => exact .gray g
    | some a =>
      show ColorPart true (if c.options.expandGrayAlpha then [g, g, g, a] else [g, a]) [g]
      split
      · exact .repeatedGray g a
      · exact .grayAlpha g a
  have hthree : ∀ r g b, ColorPart false (arrange c.options [r, g, b] opacity) [r, g, b] := by
    intro r g b
    cases opacity with
    | none => exact .rgb r g b
    | some a => exact .rgba r g b a
  have hchannels : pixel.length = c.header.color.channels := hpixel
  -- The colour of a pixel is one level or three, by its colour type.
  unfold colorOf
  cases hcolor : c.header.color <;> rw [hcolor] at hchannels
  case gray =>
    obtain ⟨g, rfl⟩ := List.length_eq_one_iff.1 hchannels
    exact hone _
  case palette =>
    obtain ⟨index, rfl⟩ := List.length_eq_one_iff.1 hchannels
    simp only [hpalette, if_true, paletteColor]
    split <;> exact hthree _ _ _
  case grayAlpha =>
    obtain ⟨g, a, rfl⟩ := List.length_eq_two.1 hchannels
    exact hone _
  case rgb =>
    obtain ⟨r, g, b, rfl⟩ := List.length_eq_three.1 hchannels
    exact hthree _ _ _
  case rgba =>
    obtain ⟨r, g, b, a, rfl⟩ := List.length_eq_four.1 hchannels
    exact hthree _ _ _

/-- Suppressed opacities are missing. -/
theorem opacityOf_suppressed (hs : c.options.suppressAlpha = true) (pixel : List Nat) :
    c.opacityOf pixel = none := by
  have hgray : grayKey? c.options c.transparency = none := by
    rcases c.transparency with _ | _ | _ | _ <;> simp [grayKey?, hs]
  have hrgb : rgbKey? c.options c.transparency = none := by
    rcases c.transparency with _ | _ | _ | _ <;> simp [rgbKey?, hs]
  have hpalette : opacities? c.options c.transparency = none := by
    rcases c.transparency with _ | _ | _ | _ <;> simp [opacities?, hs]
  unfold opacityOf
  split <;> simp [hgray, hrgb, hpalette, hs]

end Coloring

namespace Metadata

/-- The colours of expanded pixels do not depend on opacities. -/
theorem Alike.colorOf_eq {m₁ m₂ : Metadata} {h : Header} (halike : m₁.Alike m₂)
    (hsame : m₁.options.SameCorrection m₂.options)
    (hpalette : m₁.options.expandPalette = m₂.options.expandPalette)
    (hgray₁ : m₁.options.promoteGray = true) (hgray₂ : m₂.options.promoteGray = true)
    (pixel : List Nat) : (m₁.coloring h).colorOf pixel = (m₂.coloring h).colorOf pixel := by
  obtain ⟨hcolors, hresponse, -⟩ := halike.corrected hsame
  have hshade : (m₁.coloring h).shade = (m₂.coloring h).shade := by
    funext spread sample
    rw [Coloring.shade, Coloring.shade, coloring, coloring, hsame.correctGamma_eq, hresponse]
  have hspread : (m₁.coloring h).spreadsGray = (m₂.coloring h).spreadsGray := by
    simp only [Coloring.spreadsGray, coloring, Options.gray8, hgray₁, hgray₂, Bool.true_or]
    rfl
  have hindex : (m₁.coloring h).paletteColor = (m₂.coloring h).paletteColor := by
    funext index
    rw [Coloring.paletteColor, Coloring.paletteColor, coloring, coloring, hcolors]
  have hexpand : (m₁.coloring h).options.expandPalette = (m₂.coloring h).options.expandPalette :=
    hpalette
  have hheader : (m₁.coloring h).header = (m₂.coloring h).header := rfl
  simp only [Coloring.colorOf, hshade, hspread, hindex, hexpand, hheader]

end Metadata

/-! ## Decoding -/

/-- Of an image, `plain` has the colours without the opacities. -/
structure DropsOpacity (shown plain : Image) : Prop where
  header_eq : plain.header = shown.header
  width_eq : plain.raster.width = shown.raster.width
  height_eq : plain.raster.height = shown.raster.height
  depth_eq : plain.raster.depth = shown.raster.depth
  bands : plain.raster.bands = 1 ∨ plain.raster.bands = 3
  colorModel : ∃ space wide, plain.colorModel = .component space wide false
  /-- At every place `plain` has the colour of what is shown. -/
  colors : ∀ x < shown.raster.width, ∀ y < shown.raster.height, ∃ samples color,
    samples.length = shown.raster.bands ∧ color.length = plain.raster.bands ∧
      shown.raster.Shows x y samples ∧ plain.raster.Shows x y color ∧
      ColorPart shown.header.color.isGray samples color

namespace Metadata

variable {m₁ m₂ : Metadata} {h : Header} {s : Reading}

/-- Of the same stored pixels one drawing has the colours of the other. -/
theorem Alike.dropsOpacity_drawn [Libraries] (halike : m₁.Alike m₂) (h₁ : m₁.Coherent)
    (h₂ : m₂.Coherent) (hread : m₁.readStored = .ok (h, s))
    (hpalette : m₁.options.expandPalette = true) (hgray : m₁.options.promoteGray = true)
    (hoptions : m₂.options = { m₁.options with suppressAlpha := true }) :
    DropsOpacity (m₁.drawn h s) (m₂.drawn h s) := by
  have hread₂ : m₂.readStored = .ok (h, s) := halike.readStored_eq ▸ hread
  have hlegal := h₁.legal h (of_readStored hread).1
  have hpalette₂ : m₂.options.expandPalette = true := by rw [hoptions]; exact hpalette
  have hgray₂ : m₂.options.promoteGray = true := by rw [hoptions]; exact hgray
  have hs₂ : m₂.options.suppressAlpha = true := by rw [hoptions]
  have hsame : m₁.options.SameCorrection m₂.options := by rw [hoptions]; exact ⟨rfl, rfl, rfl⟩
  have hbands : (Transform.select h m₂.options m₂.transparency).bands = 1 ∨
      (Transform.select h m₂.options m₂.transparency).bands = 3 := by
    rw [Transform.bands_select_suppressed m₂.transparency hpalette₂ hs₂]
    cases h.color.isGray <;> simp
  refine ⟨rfl, rfl, rfl, ?_, hbands, ?_, fun x hx y hy => ?_⟩
  · show Transform.depth _ h m₂.options = Transform.depth _ h m₁.options
    rw [Transform.depth_select_expanded _ hlegal hpalette hgray,
      Transform.depth_select_expanded _ hlegal hpalette₂ hgray₂]
  · have hmodel := m₂.colorModel_expanded hlegal hpalette₂ hgray₂
    obtain hone | hthree := hbands
    · exact ⟨.luma, _, by rw [drawn, hmodel, hone]; rfl⟩
    · exact ⟨.rgb, _, by rw [drawn, hmodel, hthree]; rfl⟩
  · -- Both show the same stored pixel, and the second one without an opacity.
    obtain ⟨pixel, hpixel, hlength, hbands₁, hshown₁⟩ := h₁.shows_arranged hread hx hy
    obtain ⟨pixel', hpixel', -, hbands₂, hshown₂⟩ := h₂.shows_arranged hread₂ hx hy
    cases hpixel.symm.trans hpixel'
    have hcolor := halike.colorOf_eq (h := h) hsame (hpalette.trans hpalette₂.symm) hgray hgray₂ pixel
    rw [(m₂.coloring h).opacityOf_suppressed hs₂, ← hcolor] at hbands₂ hshown₂
    exact ⟨_, _, hbands₁, hbands₂, hshown₁, hshown₂,
      (m₁.coloring h).colorPart_arrange hpalette hlength _⟩

end Metadata

/-- Suppressing alpha drops the opacities of an image and nothing else. With palettes expanded and
gray levels spread, a file fails alike with and without opacities, or gives images of the same size
and depth, of which the one without them has at every place the colour of the other. -/
theorem decode_suppressed [Libraries] (source : Source) {o : Options}
    (hpalette : o.expandPalette = true) (hgray : o.promoteGray = true) :
    Agree DropsOpacity (decode source { o with suppressAlpha := false })
      (decode source { o with suppressAlpha := true }) := by
  have hlimits : ({ o with suppressAlpha := false } : Options).SameLimits
      { o with suppressAlpha := true } := ⟨rfl, rfl, rfl⟩
  refine agree_of_sameLimits hlimits source
    fun m₁ m₂ halike h₁ h₂ hoptions₁ hoptions₂ h s hread => ?_
  refine halike.dropsOpacity_drawn h₁ h₂ hread ?_ ?_ ?_
  · rw [hoptions₁]
    exact hpalette
  · rw [hoptions₁]
    exact hgray
  · rw [hoptions₁, hoptions₂]

/-- Two pixels of two bits with a transparent level. Shown with opacities, and each gray repeated,
they are transparent dark gray and solid white; without opacities they are dark gray and white. -/
theorem decode_suppressed_two_levels :
    let chunk (tag : ChunkTag) (data : List UInt8) : Chunk := { tag, data }
    let levels : Source :=
      { rest := signature ++
          [chunk (.ofChars 'I' 'H' 'D' 'R') [0, 0, 0, 2, 0, 0, 0, 1, 2, 0, 0, 0, 0],
            chunk (.ofChars 't' 'R' 'N' 'S') [0, 1],
            chunk (.ofChars 'I' 'D' 'A' 'T')
              [0x78, 1, 1, 2, 0, 0xFD, 0xFF, 0, 0x70, 0, 0x72, 0, 0x71],
            chunk (.ofChars 'I' 'E' 'N' 'D') []].flatMap Chunk.toBytes }
    let o : Options := { expandPalette := true, promoteGray := true, expandGrayAlpha := true }
    ∃ shown plain, decode levels { o with suppressAlpha := false } = .ok shown ∧
      decode levels { o with suppressAlpha := true } = .ok plain ∧
      shown.raster.Shows 0 0 [85, 85, 85, 0] ∧ shown.raster.Shows 1 0 [255, 255, 255, 255] ∧
      plain.raster.Shows 0 0 [85] ∧ plain.raster.Shows 1 0 [255] := by
  intro chunk levels o
  -- What is seen of an image: the form of its samples, and those of both pixels.
  let seen (image : Image) := ((image.header, image.raster.bands),
    (image.raster.width, image.raster.height),
    image.raster.read? 0 0 [0, 0, 0, 0], image.raster.read? 1 0 [0, 0, 0, 0])
  have hview : (decode levels { o with suppressAlpha := false }).map seen =
      .ok ((⟨2, 1, 2, .gray, .sequential⟩, 4), (2, 1), some [85, 85, 85, 0],
        some [255, 255, 255, 255]) := by
    decide +kernel
  have hagree : Agree DropsOpacity (decode levels { o with suppressAlpha := false })
      (decode levels { o with suppressAlpha := true }) := decode_suppressed levels rfl rfl
  obtain ⟨shown, hshown, hseen⟩ := exists_of_map_eq_ok hview
  obtain ⟨plain, hplain, hdrops⟩ := hagree.exists_of_ok hshown
  simp only [seen, Prod.mk.injEq] at hseen
  obtain ⟨⟨hheader, hbands⟩, ⟨hwidth, hheight⟩, hfirst, hsecond⟩ := hseen
  obtain ⟨samples, color, -, -, hsamples, hcolor, hpart⟩ :=
    hdrops.colors 0 (by rw [hwidth]; decide) 0 (by rw [hheight]; decide)
  obtain ⟨samples', color', -, -, hsamples', hcolor', hpart'⟩ :=
    hdrops.colors 1 (by rw [hwidth]; decide) 0 (by rw [hheight]; decide)
  cases hfirst.symm.trans (hsamples _ hbands.symm)
  cases hsecond.symm.trans (hsamples' _ hbands.symm)
  rw [hheader] at hpart hpart'
  cases hpart
  cases hpart'
  exact ⟨shown, plain, hshown, hplain, hsamples, hsamples', hcolor, hcolor'⟩

end Png
