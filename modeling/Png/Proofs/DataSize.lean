import Mathlib.Algebra.GroupWithZero.Nat
import Mathlib.Algebra.Order.BigOperators.Group.List
import Mathlib.Algebra.Order.Group.Nat
import Mathlib.Data.List.Perm.Subperm
import Mathlib.Data.List.ProdSigma
import Png.Proofs.Encoding
import Png.Proofs.OutputPixels

/-!
# The size of image data

The scanlines of an image have the lengths `Header.lineLengths`, whatever its pixels are
(`length_encode`). Sizes that are counted in advance stop at a limit; one that is counted to be
short is the sum of the lengths (`dataSize_eq`). Width and height have 32 bits, so that nothing goes
round when the pixels of a pass or the bits of a row of the output are counted. The cells of the
output are another matter: there are few enough of them if the scanlines are short, since a pixel
takes a bit of its line at least and four cells at most (`Metadata.Coherent.countable`).
-/

namespace Png

/-! ## The lines of the passes -/

namespace Header

/-- The lengths of the scanlines, filter bytes included, in the order of the file. -/
def lineLengths (h : Header) : List Nat :=
  (h.passes.filter (!·.isEmpty)).flatMap fun p => List.replicate p.height (h.rowBytes p.width + 1)

/-- The passes of an image of this size can be counted. -/
theorem Sized.countable {h : Header} (hsize : h.Sized) :
    Pass.Countable h.interlace h.width h.height := by
  intro _
  have hwidth := hsize.width_lt
  have hheight := hsize.height_lt
  have h32 : levels 32 = 2 ^ 32 := rfl
  have h64 : levels 64 = 2 ^ 64 := rfl
  omega

theorem Legal.depth_pos {h : Header} (hh : h.Legal) : 0 < h.depth := by
  have := hh.depth_cases
  omega

theorem lineLengths_pos (h : Header) : ∀ n ∈ h.lineLengths, 0 < n := by
  intro n hn
  obtain ⟨p, -, hn⟩ := List.mem_flatMap.1 hn
  rw [(List.mem_replicate.1 hn).2]
  exact Nat.succ_pos _

/-- Every pixel of the image is one of a pass that has pixels. -/
theorem mem_places {h : Header} (hsize : h.Sized) {x y : Nat} (hx : x < h.width)
    (hy : y < h.height) :
    (x, y) ∈ (h.passes.filter (!·.isEmpty)).flatMap Pass.places := by
  obtain ⟨p, hp, i, hi, j, hj, hplace⟩ := Pass.exists_position hsize.countable hx hy
  have hpixels : p.isEmpty = false := by
    simp only [Pass.isEmpty, Bool.or_eq_false_iff, beq_eq_false_iff_ne]
    omega
  rw [List.mem_flatMap]
  refine ⟨p, List.mem_filter.2 ⟨hp, by rw [hpixels]; rfl⟩, ?_⟩
  rw [Pass.places, List.mem_flatMap]
  refine ⟨j, List.mem_range.2 hj, ?_⟩
  rw [Pass.rowPlaces, List.mem_map]
  exact ⟨i, List.mem_range.2 hi, hplace⟩

/-- No pixel of the image is left out of the passes. -/
theorem pixels_le {h : Header} (hsize : h.Sized) :
    h.width * h.height ≤
      ((h.passes.filter (!·.isEmpty)).map fun p => p.height * p.width).sum := by
  have hnodup : (List.range h.width ×ˢ List.range h.height).Nodup :=
    List.nodup_range.product List.nodup_range
  have hsubset : List.range h.width ×ˢ List.range h.height ⊆
      (h.passes.filter (!·.isEmpty)).flatMap Pass.places := by
    rintro ⟨x, y⟩ hplace
    obtain ⟨hx, hy⟩ := List.pair_mem_product.1 hplace
    exact mem_places hsize (List.mem_range.1 hx) (List.mem_range.1 hy)
  -- The places of the image are distinct, so that the passes have at least as many.
  have hlength := (List.Nodup.subperm hnodup hsubset).length_le
  have hplaces : ∀ p : Pass, p.places.length = p.height * p.width := by
    intro p
    simp only [Pass.places, List.length_flatMap, p.length_rowPlaces, List.map_const',
      List.length_range, List.sum_replicate_nat]
  rw [List.length_product, List.length_range, List.length_range, List.length_flatMap] at hlength
  simpa only [hplaces] using hlength

/-- A pixel takes the bits of at least one sample of its line. -/
theorem bits_le_lines {h : Header} (hsize : h.Sized) :
    h.depth * (h.width * h.height) ≤ 8 * h.lineLengths.sum := by
  refine Nat.le_trans (Nat.mul_le_mul_left _ (pixels_le hsize)) ?_
  unfold lineLengths
  generalize h.passes.filter (!·.isEmpty) = ps
  induction ps with
  | nil => exact Nat.le_refl 0
  | cons p ps ih =>
    have hrow : h.depth * p.width ≤ 8 * (h.rowBytes p.width + 1) := by
      have hbits : h.depth * p.width ≤ h.channels * p.width * h.depth := by
        rw [Nat.mul_comm h.depth]
        exact Nat.mul_le_mul_right _ (Nat.le_mul_of_pos_left _ h.color.channels_pos)
      rw [rowBytes]
      omega
    have hpass : h.depth * (p.height * p.width) ≤ 8 * (p.height * (h.rowBytes p.width + 1)) := by
      calc h.depth * (p.height * p.width) = p.height * (h.depth * p.width) :=
            Nat.mul_left_comm _ _ _
        _ ≤ p.height * (8 * (h.rowBytes p.width + 1)) := Nat.mul_le_mul_left _ hrow
        _ = 8 * (p.height * (h.rowBytes p.width + 1)) := Nat.mul_left_comm _ _ _
    rw [List.map_cons, List.sum_cons, List.flatMap_cons, List.sum_append, List.sum_replicate_nat,
      Nat.mul_add]
    omega

/-- A pixel takes at least one bit of its line. -/
theorem pixels_le_lines {h : Header} (hsize : h.Sized) (hdepth : 0 < h.depth) :
    h.width * h.height ≤ 8 * h.lineLengths.sum :=
  Nat.le_trans (Nat.le_mul_of_pos_left _ hdepth) (bits_le_lines hsize)

/-- The scanlines of a pass have a filter byte each. -/
@[simp]
theorem sum_lineLengths (h : Header) :
    h.lineLengths.sum = ((h.passes.filter (!·.isEmpty)).map fun p =>
      p.height * (h.rowBytes p.width + 1)).sum := by
  simp only [lineLengths, List.flatMap_def, List.sum_flatten, List.map_map, Function.comp_def,
    List.sum_replicate_nat]

section

variable (h : Header) (c : RowChoices) (pixels : Nat → Nat → List Nat)

/-- Every row that is encoded has its bytes and a filter byte. -/
@[simp]
theorem length_encodeRows (above : List UInt8) (rows : List (List (Nat × Nat))) :
    (h.encodeRows c pixels above rows).length =
      (rows.map fun row => h.rowBytes row.length + 1).sum := by
  induction rows generalizing above with
  | nil => rfl
  | cons row rows ih =>
    rw [encodeRows, List.cons_append, List.length_cons, List.length_append, Filter.length_apply,
      length_packedRow, ih, List.map_cons, List.sum_cons]
    omega

/-- All scanlines together are what an encoder makes of an image. -/
theorem length_encode (hsize : h.Sized) : (h.encode c pixels).length = h.lineLengths.sum := by
  have hrows : ∀ p : Pass, ((p.rowsFrom 0).map fun row => h.rowBytes row.length + 1) =
      List.replicate p.height (h.rowBytes p.width + 1) := by
    intro p
    simp only [Pass.rowsFrom, List.map_map, Function.comp_def, p.length_rowPlaces,
      List.map_const', List.length_range', Nat.sub_zero]
  rw [encode_eq h c pixels hsize.countable, List.length_flatMap, sum_lineLengths]
  simp only [length_encodeRows, hrows, List.sum_replicate_nat]

end

end Header

/-! ## Capped arithmetic -/

/-- A capped sum of a capped number is the capped sum. -/
theorem cappedAdd_min (a b : Nat) : cappedAdd (min a sizeLimit) b = min (a + b) sizeLimit := by
  unfold cappedAdd
  omega

/-- A capped product of a capped number is the capped product. -/
theorem cappedMul_min (a b : Nat) : cappedMul (min a sizeLimit) b = min (a * b) sizeLimit := by
  unfold cappedMul
  cases b with
  | zero => rfl
  | succ b =>
    have ha : a ≤ a * (b + 1) := Nat.le_mul_of_pos_right a b.succ_pos
    have hlimit : sizeLimit ≤ sizeLimit * (b + 1) := Nat.le_mul_of_pos_right _ b.succ_pos
    obtain h | h := Nat.le_total a sizeLimit
    · rw [Nat.min_eq_left h]
    · rw [Nat.min_eq_right h, Nat.min_eq_right hlimit, Nat.min_eq_right (h.trans ha)]

namespace Header

/-- The bytes of a row are counted in full unless their bits go past the limit. -/
theorem countedRowBytes_eq_min (h : Header) (width : Nat) :
    h.countedRowBytes width = min (h.channels * width * h.depth + 7) sizeLimit / 8 := by
  have hsamples : cappedMul h.channels width = min (h.channels * width) sizeLimit := rfl
  rw [countedRowBytes, hsamples, cappedMul_min, cappedAdd_min]

/-- The bytes of a pass are counted in full from those of its rows, as far as the limit. -/
theorem passSize_eq_min (h : Header) (p : Pass) :
    h.passSize p = min (p.height * (h.countedRowBytes p.width + 1)) sizeLimit := by
  -- The filter byte does not go past the limit, which is eight times as far as a row is counted.
  have hrow : h.countedRowBytes p.width + 1 ≤ sizeLimit := by
    have hlimit : sizeLimit = 2 ^ 64 - 1 := rfl
    rw [countedRowBytes_eq_min]
    omega
  rw [passSize, cappedAdd, Nat.min_eq_left hrow, cappedMul, Nat.mul_comm]

/-- The bytes of all passes are added in full, as far as the limit. -/
theorem dataSize_eq_min_sum (h : Header) :
    h.dataSize = min (((h.passes.filter (!·.isEmpty)).map fun p =>
      p.height * (h.countedRowBytes p.width + 1)).sum) sizeLimit := by
  -- What is added so far is a capped number itself.
  have hloop : ∀ (ps : List Pass) (size : Nat),
      ps.foldl (fun size p => cappedAdd size (h.passSize p)) (min size sizeLimit) =
        min (size + (ps.map fun p => p.height * (h.countedRowBytes p.width + 1)).sum)
          sizeLimit := by
    intro ps
    induction ps with
    | nil => exact fun size => rfl
    | cons p ps ih =>
      intro size
      have hstep : cappedAdd (min size sizeLimit) (h.passSize p) =
          min (size + p.height * (h.countedRowBytes p.width + 1)) sizeLimit := by
        rw [cappedAdd_min, passSize_eq_min]
        omega
      rw [List.foldl_cons, hstep, ih, List.map_cons, List.sum_cons, Nat.add_assoc]
  have hzero := hloop (h.passes.filter (!·.isEmpty)) 0
  rw [Nat.zero_min, Nat.zero_add] at hzero
  rw [dataSize, hzero]

/-- Sizes that are counted to be short have been counted in full. -/
theorem dataSize_eq {h : Header} (hlt : h.dataSize < levels 59) :
    h.dataSize = h.lineLengths.sum := by
  have hlimit : sizeLimit = 2 ^ 64 - 1 := rfl
  have h59 : levels 59 = 2 ^ 59 := rfl
  have hsum := h.dataSize_eq_min_sum
  have hpasses : ∀ p ∈ h.passes.filter (!·.isEmpty),
      p.height * (h.countedRowBytes p.width + 1) = p.height * (h.rowBytes p.width + 1) := by
    intro p hp
    have hpixels : p.isEmpty = false := by simpa using (List.mem_filter.1 hp).2
    have hheight : 0 < p.height := by
      simp only [Pass.isEmpty, Bool.or_eq_false_iff, beq_eq_false_iff_ne] at hpixels
      omega
    -- A row is shorter than its pass, and so it is far from the limit.
    have hpass : p.height * (h.countedRowBytes p.width + 1) ≤
        ((h.passes.filter (!·.isEmpty)).map fun p =>
          p.height * (h.countedRowBytes p.width + 1)).sum :=
      List.le_sum_of_mem (List.mem_map_of_mem hp)
    have hrow := Nat.le_mul_of_pos_left (h.countedRowBytes p.width + 1) hheight
    have hcounted := h.countedRowBytes_eq_min p.width
    have hbits : h.channels * p.width * h.depth + 7 ≤ sizeLimit := by omega
    rw [hcounted, Nat.min_eq_left hbits, rowBytes]
  rw [List.map_congr_left hpasses, ← sum_lineLengths] at hsum
  omega

end Header

/-! ## The raster that the pixels are drawn to -/

namespace Transform

variable {h : Header} {o : Options} {transparency : Option Transparency}

theorem bands_withGrayAlpha_le (t : Transform) (expand : Bool) :
    (t.withGrayAlpha expand).bands ≤ 4 := by
  cases expand with
  | false => exact (by decide : 2 ≤ 4)
  | true => exact Nat.le_refl 4

/-- A pixel has at most four output samples. -/
theorem bands_select_le : (select h o transparency).bands ≤ 4 := by
  -- Gray with an opacity has two bands, or four where the level is repeated.
  cases hcolor : h.color with
  | gray =>
    obtain ⟨-, -, ht⟩ | ⟨-, -, ht⟩ | ⟨-, -, ht⟩ | ⟨-, -, ht⟩ :=
      select_gray hcolor o transparency <;> rw [ht]
    · exact bands_withGrayAlpha_le _ _
    · exact bands_withGrayAlpha_le _ _
    · exact (by decide : 1 ≤ 4)
    · exact (by decide : 1 ≤ 4)
  | rgb =>
    obtain ht | ht := select_rgb hcolor o transparency
    · rw [ht]
    · rw [ht]
      exact (by decide : 3 ≤ 4)
  | palette =>
    obtain ⟨-, ht⟩ | ⟨-, ht⟩ | ⟨-, -, hbands⟩ := select_palette hcolor o transparency
    · rw [ht]
    · rw [ht]
      exact (by decide : 3 ≤ 4)
    · rw [hbands]
      decide
  | grayAlpha =>
    obtain ht | ht := select_grayAlpha hcolor o transparency <;> rw [ht]
    · exact (by decide : 1 ≤ 4)
    · exact bands_withGrayAlpha_le _ _
  | rgba =>
    obtain ht | ht := select_rgba hcolor o transparency <;> rw [ht]
    exact (by decide : 3 ≤ 4)

end Transform

namespace Raster

variable {width height bands depth : Nat}

/-- A row has no more cells than samples. -/
theorem rowCells_le (h : Regular bands depth) : rowCells width bands depth ≤ bands * width := by
  obtain h | ⟨rfl, h⟩ := h
  · rw [rowCells_interleaved h, Nat.mul_comm]
  · rw [rowCells, if_neg (by omega)]
    obtain rfl | rfl | rfl := h <;> omega

/-- The cells of a raster are the rows of them, and there are no more than samples. -/
theorem rowCells_mul_le (h : Regular bands depth) :
    rowCells width bands depth * height ≤ bands * (width * height) :=
  calc rowCells width bands depth * height ≤ bands * width * height :=
        Nat.mul_le_mul_right _ (rowCells_le h)
    _ = bands * (width * height) := Nat.mul_assoc _ _ _

end Raster

namespace Metadata.Coherent

variable {m : Metadata} {h : Header} {t : Transform} (hm : m.Coherent) (hheader : m.header = some h)
  (htransform : m.transform = some t)

include hm hheader htransform

theorem bands_le : t.bands ≤ 4 := by
  rw [hm.transform_select hheader htransform]
  exact Transform.bands_select_le

/-- The bits of a row of the output can be counted. -/
theorem row_lt : t.bands * h.width * t.depth h m.options + 7 < levels 64 := by
  have hdepth : t.depth h m.options ≤ 16 := by
    obtain (hd | hd) | ⟨-, hd | hd | hd⟩ := hm.regular hheader htransform <;> omega
  have hwidth : h.width ≤ levels 32 := Nat.le_of_lt (hm.sized h hheader).width_lt
  have hbits : t.bands * h.width * t.depth h m.options ≤ 4 * levels 32 * 16 :=
    Nat.mul_le_mul (Nat.mul_le_mul (hm.bands_le hheader htransform) hwidth) hdepth
  exact Nat.lt_of_le_of_lt (Nat.add_le_add_right hbits 7) (by decide)

/-- The cells of the output are at most 32 for each byte of the scanlines, in either order of the
pixels. -/
theorem cells_le_lines (interlace : Interlace) :
    Raster.rowCells h.width t.bands (t.depth h m.options) * h.height ≤
      32 * ({ h with interlace } : Header).lineLengths.sum := by
  have hsize := hm.sized h hheader
  have hpixels : h.width * h.height ≤ 8 * ({ h with interlace } : Header).lineLengths.sum :=
    Header.pixels_le_lines (h := { h with interlace }) ⟨hsize.width_lt, hsize.height_lt⟩
      (hm.legal h hheader).depth_pos
  have hfour := Nat.mul_le_mul_right (h.width * h.height) (hm.bands_le hheader htransform)
  have hcells : Raster.rowCells h.width t.bands (t.depth h m.options) * h.height ≤
      t.bands * (h.width * h.height) := Raster.rowCells_mul_le (hm.regular hheader htransform)
  omega

/-- The cells of the output can be counted where the scanlines are short. -/
theorem countable (interlace : Interlace)
    (hlimit : ({ h with interlace } : Header).lineLengths.sum < levels 59) :
    Raster.Countable h.width h.height t.bands (t.depth h m.options) where
  row_lt := hm.row_lt hheader htransform
  cells_lt := by
    have hcells := hm.cells_le_lines hheader htransform interlace
    have h59 : levels 59 = 2 ^ 59 := rfl
    have h64 : levels 64 = 2 ^ 64 := rfl
    omega

end Metadata.Coherent

end Png
