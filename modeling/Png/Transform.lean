import Png.Header

/-!
# The transform of an image

How stored pixels become output pixels is decided once per image, from the header, the options and
the transparency chunk. `Transform.select` makes that choice; `PixelMap` then maps single pixels.
-/

namespace Png

/-- The content of a transparency chunk. -/
inductive Transparency where
  /-- The gray sample that is fully transparent. -/
  | grayKey (key : Nat)
  /-- The colour that is fully transparent. -/
  | rgbKey (red green blue : Nat)
  /-- One opacity per palette entry. -/
  | paletteAlpha (alpha : List UInt8)
  deriving DecidableEq

/-- What is done to a pixel. -/
inductive TransformMode where
  /-- The samples are kept. -/
  | copy
  /-- Colour samples are corrected. -/
  | gamma
  /-- Gray below eight bits is spread over a byte. -/
  | grayTable
  /-- As `grayTable`, with an opacity from the key. -/
  | grayTableKeyed
  /-- The index becomes its colour. -/
  | paletteRgb
  /-- The index becomes its colour and opacity. -/
  | paletteRgba
  /-- Gray gets an opacity from the key. -/
  | grayKeyed
  /-- RGB gets an opacity from the key. -/
  | rgbKeyed
  /-- The opacity of gray with alpha is dropped. -/
  | dropGrayAlpha
  /-- The opacity of RGBA is dropped. -/
  | dropRgbAlpha
  deriving DecidableEq

/-- The name in the log. -/
def TransformMode.label : TransformMode → String
  | copy => "None"
  | gamma => "GammaOnly"
  | grayTable => "GrayLutExpand"
  | grayTableKeyed => "GrayLutExpandAddTransparency"
  | paletteRgb => "PaletteToRgb"
  | paletteRgba => "PaletteToRgba"
  | grayKeyed => "AddGrayTransparency"
  | rgbKeyed => "AddRgbTransparency"
  | dropGrayAlpha => "RemoveGrayTransparency"
  | dropRgbAlpha => "RemoveRgbTransparency"

/-- The choice made for an image. -/
structure Transform where
  mode : TransformMode
  /-- Gray before an opacity is written three times. -/
  replicate : Bool := false
  /-- Samples per output pixel. -/
  bands : Nat
  /-- Gray below eight bits becomes eight bits wide. -/
  gray8 : Bool
  /-- The palette of unexpanded indices has opacities. -/
  alphaPalette : Bool := false
  /-- The opacity of a pixel that does not match the key. -/
  fullOpacity : Nat
  deriving DecidableEq

namespace Transform

/-- The transform with the bands of gray and an opacity: four where gray is replicated, else two. -/
def withGrayAlpha (t : Transform) (expand : Bool) : Transform :=
  if expand then { t with replicate := true, bands := 4 } else { t with bands := 2 }

/-- The transform for an image. A transparency that does not fit the colour type has no effect, and
none has where alpha is suppressed. -/
def select (h : Header) (o : Options) (transparency : Option Transparency) : Transform :=
  let transparency := if o.suppressAlpha then none else transparency
  let plain : TransformMode := if o.correctGamma then .gamma else .copy
  let base : Transform :=
    { mode := plain, bands := h.channels, gray8 := o.gray8, fullOpacity := h.maxSample }
  match h.color, transparency with
  | .gray, some (.grayKey _) =>
    let keyed : Transform :=
      if h.depth < 8 then
        { base with mode := .grayTableKeyed, gray8 := true, fullOpacity := 255 }
      else { base with mode := .grayKeyed }
    keyed.withGrayAlpha o.expandGrayAlpha
  | .gray, _ =>
    if o.gray8 ∧ h.depth < 8 then { base with mode := .grayTable } else base
  | .rgb, some (.rgbKey _ _ _) => { base with mode := .rgbKeyed, bands := 4 }
  | .rgb, _ => base
  | .palette, some (.paletteAlpha _) =>
    if o.expandPalette then { base with mode := .paletteRgba, bands := 4 }
    else { base with mode := .copy, alphaPalette := true }
  | .palette, _ =>
    if o.expandPalette then { base with mode := .paletteRgb, bands := 3 }
    else { base with mode := .copy }
  | .grayAlpha, _ =>
    if o.suppressAlpha then { base with mode := .dropGrayAlpha, bands := 1 }
    else base.withGrayAlpha o.expandGrayAlpha
  | .rgba, _ =>
    if o.suppressAlpha then { base with mode := .dropRgbAlpha, bands := 3 } else base

/-- The bit depth of the output samples. -/
def depth (t : Transform) (h : Header) (o : Options) : Nat :=
  match h.color with
  | .gray => if h.depth < 8 ∧ t.gray8 then 8 else h.depth
  | .palette => if o.expandPalette then 8 else h.depth
  | _ => h.depth

end Transform

/-- The factor that spreads samples of one, two or four bits over a byte. -/
def depthScale (depth : Nat) : Nat := 255 / (levels depth - 1)

/-- The levels of a depth up to eight bits, spread over a byte. -/
def spreadLevels (depth : Nat) : List UInt8 :=
  (List.range (levels depth)).map fun level => (level * depthScale depth).toUInt8

end Png
