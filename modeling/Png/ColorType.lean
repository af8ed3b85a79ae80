/-!
# Colour types and interlacing

The two enumerations of an image header. Each has its code in the file, `code`, and a reader of
codes, `ofCode?`; `ofCode?_code` and `eq_of_ofCode?` say that the reader accepts exactly the codes
written.
-/

namespace Png

/-- What the samples of a stored pixel mean. -/
inductive ColorType where
  /-- One gray level. -/
  | gray
  /-- Red, green and blue. -/
  | rgb
  /-- One index into the palette. -/
  | palette
  /-- A gray level and an opacity. -/
  | grayAlpha
  /-- Red, green, blue and an opacity. -/
  | rgba
  deriving DecidableEq

namespace ColorType

/-- The number of samples stored per pixel. -/
def channels : ColorType → Nat
  | gray | palette => 1
  | grayAlpha => 2
  | rgb => 3
  | rgba => 4

/-- The code in the header. -/
def code : ColorType → Nat
  | gray => 0
  | rgb => 2
  | palette => 3
  | grayAlpha => 4
  | rgba => 6

/-- The colour type of a header code. -/
def ofCode? : Nat → Option ColorType
  | 0 => some gray
  | 2 => some rgb
  | 3 => some palette
  | 4 => some grayAlpha
  | 6 => some rgba
  | _ => none

/-- The short name, as messages write it. -/
def label : ColorType → String
  | gray => "Luma"
  | rgb => "RGB"
  | palette => "Palette"
  | grayAlpha => "LumaA"
  | rgba => "RGBA"

/-- The long name, as the `color_type` property has it. -/
def title : ColorType → String
  | gray => "Grayscale"
  | rgb => "Truecolor"
  | palette => "Index"
  | grayAlpha => "Grayscale with alpha"
  | rgba => "Truecolor with alpha"

/-- The smallest bit depth the colour type allows. -/
def minDepth : ColorType → Nat
  | gray | palette => 1
  | rgb | grayAlpha | rgba => 8

/-- The largest bit depth the colour type allows. -/
def maxDepth : ColorType → Nat
  | palette => 8
  | gray | rgb | grayAlpha | rgba => 16

@[simp]
theorem ofCode?_code (c : ColorType) : ofCode? c.code = some c := by
  cases c <;> rfl

theorem eq_of_ofCode? {n : Nat} {c : ColorType} (h : ofCode? n = some c) : n = c.code := by
  unfold ofCode? at h
  split at h <;> simp_all [code] <;> subst h <;> rfl

theorem channels_pos (c : ColorType) : 0 < c.channels := by
  cases c <;> decide

theorem channels_le_four (c : ColorType) : c.channels ≤ 4 := by
  cases c <;> decide

end ColorType

/-- The order in which pixels are stored. -/
inductive Interlace where
  /-- Row by row. -/
  | sequential
  /-- In the seven passes of Adam7. -/
  | adam7
  deriving DecidableEq

namespace Interlace

/-- The code in the header. -/
def code : Interlace → Nat
  | sequential => 0
  | adam7 => 1

/-- The interlacing of a header code. -/
def ofCode? : Nat → Option Interlace
  | 0 => some sequential
  | 1 => some adam7
  | _ => none

/-- The name in the log. -/
def label : Interlace → String
  | sequential => "Standard"
  | adam7 => "Adam7"

/-- The name in the `interlace_method` property. -/
def title : Interlace → String
  | sequential => "None"
  | adam7 => "Adam7"

@[simp]
theorem ofCode?_code (i : Interlace) : ofCode? i.code = some i := by
  cases i <;> rfl

theorem eq_of_ofCode? {n : Nat} {i : Interlace} (h : ofCode? n = some i) : n = i.code := by
  unfold ofCode? at h
  split at h <;> simp_all [code] <;> subst h <;> rfl

end Interlace

end Png
