import Png.Proofs.BitFields

/-!
# Rasters as pixels

A raster stands for the function from places to samples that it was written with: `ofPixels` is the
raster of such a function, and on it `write?` is a change of the function at one place
(`write?_ofPixels`) and `pixel?` its value there (`pixel?_ofPixels`). Nothing else is in the cells:
the bits behind the last pixel of a packed row are zero, so the function determines the raster
(`ofPixels_congr`). A raster counts its cells in words; all of this holds as long as they have room
for the count (`Countable`).
-/

namespace Png.Raster

/-- The numbers of bands and the depths that the samples of an image have. -/
def Regular (bands depth : Nat) : Prop :=
  (depth = 8 ∨ depth = 16) ∨ bands = 1 ∧ (depth = 1 ∨ depth = 2 ∨ depth = 4)

/-- The byte of the `8 / depth` samples `sample 0`, `sample 1`, …, the first in the highest bits. -/
def packByte (depth : Nat) (sample : Nat → Nat) : Nat :=
  packBits depth ((List.range (8 / depth)).map sample)

/-- The sample of a packed row at column `x`; there is none behind the last pixel. -/
def packedSample (width : Nat) (f : Nat → Nat → List Nat) (y x : Nat) : Nat :=
  if x < width then (f x y).headD 0 else 0

/-- The cells that a row needs. -/
def rowCells (width bands depth : Nat) : Nat :=
  let bytes := (bands * width * depth + 7) / 8
  if depth = 16 then bytes / 2 else bytes

/-- The bits of a row and the cells of the raster can be counted in words. -/
structure Countable (width height bands depth : Nat) : Prop where
  /-- The bits of a row, rounded up. -/
  row_lt : bands * width * depth + 7 < levels 64
  /-- The cells of all rows. -/
  cells_lt : rowCells width bands depth * height < levels 64

/-- The cell number `k` of the raster of `f`. -/
def cellOf (width bands depth : Nat) (f : Nat → Nat → List Nat) (k : Nat) : Nat :=
  let row := k / rowCells width bands depth
  let place := k % rowCells width bands depth
  match layoutOf bands depth with
  | .packed => packByte depth fun c => packedSample width f row (place * (8 / depth) + c)
  | .interleaved => (f (place / bands) row).getD (place % bands) 0

/-- The raster whose pixel at column `x` of row `y` has the samples `f x y`. -/
def ofPixels (width height bands depth : Nat) (f : Nat → Nat → List Nat) : Raster where
  width := width
  height := height
  bands := bands
  depth := depth
  cells := (Array.range (rowCells width bands depth * height)).map (cellOf width bands depth f)

/-- The function changed at one place. -/
def put (f : Nat → Nat → List Nat) (x y : Nat) (samples : List Nat) (x' y' : Nat) : List Nat :=
  if x' = x ∧ y' = y then samples else f x' y'

/-- The function gives every place of the image a pixel of this form. -/
def Fits (width height bands depth : Nat) (f : Nat → Nat → List Nat) : Prop :=
  ∀ x < width, ∀ y < height, IsPixel bands depth (f x y)

section

variable {width height bands depth : Nat} {f g : Nat → Nat → List Nat} {x y : Nat}

/-! ## Packed bytes -/

/-- The place of sample `c` in a byte, in terms of the samples behind it. -/
theorem shift_eq (hdepth : depth = 1 ∨ depth = 2 ∨ depth = 4) {c : Nat} (hc : c < 8 / depth) :
    8 - depth - c * depth = depth * (8 / depth - 1 - c) := by
  obtain rfl | rfl | rfl := hdepth <;> omega

/-- Column `x` of a packed row is sample `x % (8 / depth)` of byte `x / (8 / depth)`. -/
theorem column_eq (hdepth : depth = 1 ∨ depth = 2 ∨ depth = 4) (x : Nat) :
    x * depth / 8 = x / (8 / depth) ∧
      shiftOf depth x = 8 - depth - x % (8 / depth) * depth ∧ x % (8 / depth) < 8 / depth := by
  rw [shiftOf]
  obtain rfl | rfl | rfl := hdepth <;> omega

/-- The bits of one sample of a byte are that sample. -/
theorem getBits_packByte (hdepth : depth = 1 ∨ depth = 2 ∨ depth = 4) {sample : Nat → Nat}
    (hs : ∀ c, sample c < levels depth) {c : Nat} (hc : c < 8 / depth) :
    getBits depth (8 - depth - c * depth) (packByte depth sample) = sample c := by
  have hfields : ∀ s ∈ (List.range (8 / depth)).map sample, s < levels depth := by
    simpa using fun c _ => hs c
  have hget := getBits_packBits hfields (i := c) (by simpa using hc)
  simp only [List.length_map, List.length_range, List.getElem_map, List.getElem_range] at hget
  rw [shift_eq hdepth hc, packByte, hget]

/-- Putting the bits of one sample of a byte changes that sample alone. -/
theorem putBits_packByte (hdepth : depth = 1 ∨ depth = 2 ∨ depth = 4) {sample : Nat → Nat}
    (hs : ∀ c, sample c < levels depth) {c : Nat} (hc : c < 8 / depth) (new : Nat) :
    putBits depth (8 - depth - c * depth) (packByte depth sample) new =
      packByte depth fun d => if d = c then new % levels depth else sample d := by
  have hfields : ∀ s ∈ (List.range (8 / depth)).map sample, s < levels depth := by
    simpa using fun c _ => hs c
  have hput := putBits_packBits hfields (i := c) (by simpa using hc) new
  rw [List.length_map, List.length_range] at hput
  rw [shift_eq hdepth hc, packByte, hput, packByte]
  congr 1
  apply List.ext_getElem
  · simp
  · intro i h₁ h₂
    simp only [List.getElem_set, List.getElem_map, List.getElem_range, eq_comm (a := c)]

/-! ## Reading into a buffer -/

/-- A buffer with an entry for every band takes the pixel at its front. -/
theorem read?_of_le {r : Raster} {samples buffer : List Nat} (h : r.pixel? x y = some samples)
    (hsamples : samples.length = r.bands) (hbuffer : r.bands ≤ buffer.length) :
    r.read? x y buffer = some (samples ++ buffer.drop r.bands) := by
  have hneeded : (if r.layout = .packed then 1 else if r.depth = 16 then r.bands else 0) ≤
      buffer.length := by
    split
    · next hpacked =>
      have hform : r.bands = 1 ∧ r.depth < 8 := by
        simpa [layout, layoutOf] using hpacked
      omega
    · split <;> omega
  simp only [read?, h, bind, Option.bind, pure, hneeded, if_true]
  rw [List.take_of_length_le (by omega), hsamples]

/-- A buffer with no more entries than that takes the pixel as it is. -/
theorem read?_of_pixel? {r : Raster} {samples buffer : List Nat} (h : r.pixel? x y = some samples)
    (hsamples : samples.length = r.bands) (hbuffer : buffer.length = r.bands) :
    r.read? x y buffer = some samples := by
  rw [read?_of_le h hsamples (Nat.le_of_eq hbuffer.symm), ← hbuffer, List.drop_length,
    List.append_nil]

/-! ## The length of a row -/

theorem strideOf_eq (hrow : bands * width * depth + 7 < levels 64) :
    strideOf width bands depth = rowCells width bands depth := by
  rw [strideOf, wrap_eq hrow, rowCells]

theorem layoutOf_packed (h : bands = 1 ∧ (depth = 1 ∨ depth = 2 ∨ depth = 4)) :
    layoutOf bands depth = .packed := by
  obtain ⟨rfl, rfl | rfl | rfl⟩ := h <;> rfl

theorem layoutOf_interleaved (h : depth = 8 ∨ depth = 16) :
    layoutOf bands depth = .interleaved := by
  rw [layoutOf, if_neg]
  omega

/-- A row of whole cells has a cell for every sample. -/
theorem rowCells_interleaved (h : depth = 8 ∨ depth = 16) :
    rowCells width bands depth = width * bands := by
  rw [Nat.mul_comm width, rowCells]
  generalize bands * width = cells
  obtain rfl | rfl := h
  · rw [if_neg (by decide)]
    omega
  · rw [if_pos rfl]
    omega

/-- The byte of a column is one of its row. -/
theorem lt_rowCells_packed (h : depth = 1 ∨ depth = 2 ∨ depth = 4) (hx : x < width) :
    x / (8 / depth) < rowCells width 1 depth := by
  rw [rowCells, if_neg (by omega)]
  obtain rfl | rfl | rfl := h <;> omega

/-! ## Places in the buffer -/

/-- A place in row `y` is one of the buffer. -/
theorem place_lt {stride p : Nat} (hp : p < stride) (hy : y < height) :
    y * stride + p < stride * height := by
  calc y * stride + p < y * stride + stride := by omega
    _ = (y + 1) * stride := by rw [Nat.add_mul, Nat.one_mul]
    _ ≤ height * stride := Nat.mul_le_mul_right stride hy
    _ = stride * height := Nat.mul_comm height stride

/-- A place in the buffer tells its row and its place in the row. -/
theorem place_div_mod {stride p : Nat} (hp : p < stride) :
    (y * stride + p) / stride = y ∧ (y * stride + p) % stride = p := by
  rw [Nat.mul_comm]
  constructor
  · rw [Nat.mul_add_div (by omega), Nat.div_eq_of_lt hp, Nat.add_zero]
  · rw [Nat.mul_add_mod, Nat.mod_eq_of_lt hp]

/-- Every place in the buffer is in a row of the image. -/
theorem row_lt {stride k : Nat} (hk : k < stride * height) : k / stride < height :=
  Nat.div_lt_of_lt_mul hk

theorem getElem?_cells (k : Nat) :
    (ofPixels width height bands depth f).cells[k]? =
      if k < rowCells width bands depth * height then some (cellOf width bands depth f k)
      else none := by
  simp only [ofPixels, Array.getElem?_map, Array.getElem?_range]
  split <;> rfl

@[simp]
theorem size_cells :
    (ofPixels width height bands depth f).cells.size = rowCells width bands depth * height := by
  simp [ofPixels]

/-- Two functions with the same cells have the same raster. -/
theorem ofPixels_ext
    (h : ∀ k < rowCells width bands depth * height,
      cellOf width bands depth f k = cellOf width bands depth g k) :
    ofPixels width height bands depth f = ofPixels width height bands depth g := by
  simp only [ofPixels, mk.injEq, true_and]
  apply Array.ext_getElem?
  intro k
  simp only [Array.getElem?_map, Array.getElem?_range]
  split
  · next hk => rw [Option.map_some, Option.map_some, h k hk]
  · rfl

/-! ## Packed rasters -/

theorem packByte_congr {s t : Nat → Nat} (h : ∀ c < 8 / depth, s c = t c) :
    packByte depth s = packByte depth t := by
  rw [packByte, packByte]
  congr 1
  exact List.map_congr_left fun c hc => h c (List.mem_range.1 hc)

/-- The samples behind the first `k` of a byte being zero, the byte is made of these alone. -/
theorem packByte_of_zero {sample : Nat → Nat} {k : Nat} (hk : k ≤ 8 / depth)
    (hzero : ∀ c, k ≤ c → sample c = 0) :
    packByte depth sample =
      packBits depth ((List.range k).map sample) * levels (depth * (8 / depth - k)) := by
  obtain ⟨rest, hrest⟩ := Nat.exists_eq_add_of_le hk
  have hback : (List.range rest).map (sample ∘ (k + ·)) = List.replicate rest 0 := by
    rw [List.eq_replicate_iff, List.length_map, List.length_range]
    refine ⟨rfl, fun s hs => ?_⟩
    obtain ⟨c, -, rfl⟩ := List.mem_map.1 hs
    exact hzero _ (Nat.le_add_right k c)
  rw [packByte, hrest, List.range_add, List.map_append, List.map_map, hback, packBits_append,
    packBits_replicate_zero, List.length_replicate, Nat.add_zero, Nat.add_sub_cancel_left]

theorem cellOf_packed (h : depth = 1 ∨ depth = 2 ∨ depth = 4) (k : Nat) :
    cellOf width 1 depth f k = packByte depth fun c =>
      packedSample width f (k / rowCells width 1 depth)
        (k % rowCells width 1 depth * (8 / depth) + c) := by
  rw [cellOf, layoutOf_packed ⟨rfl, h⟩]

theorem packedSample_lt (hf : Fits width height 1 depth f) (hy : y < height) (x : Nat) :
    packedSample width f y x < levels depth := by
  rw [packedSample]
  split
  · next hx =>
    obtain ⟨hlen, hlt⟩ := hf x hx y hy
    obtain ⟨s, hs⟩ := List.length_eq_one_iff.1 hlen
    rw [hs] at hlt ⊢
    exact hlt s List.mem_cons_self
  · exact levels_pos depth

theorem pixel?_of_packed {r : Raster} (h : r.layout = .packed) (x y : Nat) :
    r.pixel? x y = r.cells[y * r.stride + x * r.depth / 8]?.map fun byte =>
      [getBits r.depth (shiftOf r.depth x) byte] := by
  simp only [pixel?, h]
  cases r.cells[y * r.stride + x * r.depth / 8]? <;> rfl

theorem write?_of_packed {r : Raster} (h : r.layout = .packed) (x y sample : Nat)
    (hplace : y * r.stride + x * r.depth / 8 < r.cells.size) :
    r.write? x y [sample] = some { r with
      cells := r.cells.modify (y * r.stride + x * r.depth / 8)
        (putBits r.depth (shiftOf r.depth x) · sample) } := by
  simp only [write?, h, hplace, if_true]

/-- Reading gives the function's value. -/
theorem pixel?_packed (h : depth = 1 ∨ depth = 2 ∨ depth = 4)
    (hrow : 1 * width * depth + 7 < levels 64) (hf : Fits width height 1 depth f) (hx : x < width)
    (hy : y < height) :
    (ofPixels width height 1 depth f).pixel? x y = some (f x y) := by
  have hplace := lt_rowCells_packed h hx
  obtain ⟨hcolumn, hshift, hmod⟩ := column_eq h x
  obtain ⟨hline, hcol⟩ := place_div_mod (y := y) hplace
  have hdiv : x / (8 / depth) * (8 / depth) + x % (8 / depth) = x := Nat.div_add_mod' x (8 / depth)
  obtain ⟨s, hs⟩ := List.length_eq_one_iff.1 (hf x hx y hy).1
  rw [pixel?_of_packed (layoutOf_packed ⟨rfl, h⟩)]
  show ((ofPixels width height 1 depth f).cells[y * strideOf width 1 depth + x * depth / 8]?.map
    fun byte => [getBits depth (shiftOf depth x) byte]) = some (f x y)
  rw [strideOf_eq hrow, getElem?_cells, hcolumn, hshift, if_pos (place_lt hplace hy),
    Option.map_some, cellOf_packed h, hline, hcol,
    getBits_packByte h (fun c => packedSample_lt hf hy _) hmod, hdiv,
    packedSample, if_pos hx, hs]
  rfl

/-- Changing one pixel changes its sample in its byte, and no other byte. -/
theorem cellOf_put_packed (h : depth = 1 ∨ depth = 2 ∨ depth = 4)
    (hf : Fits width height 1 depth f) (hx : x < width) (hy : y < height) (sample k : Nat) :
    cellOf width 1 depth (put f x y [sample % levels depth]) k =
      if y * rowCells width 1 depth + x / (8 / depth) = k then
        putBits depth (8 - depth - x % (8 / depth) * depth) (cellOf width 1 depth f k) sample
      else cellOf width 1 depth f k := by
  have hdiv : x / (8 / depth) * (8 / depth) + x % (8 / depth) = x := Nat.div_add_mod' x (8 / depth)
  obtain ⟨-, -, hmod⟩ := column_eq h x
  rw [cellOf_packed h, cellOf_packed h]
  split
  · -- The byte of the pixel, where the samples are those of row `y` from a known column on.
    next heq =>
    subst heq
    obtain ⟨hrow, hcol⟩ := place_div_mod (y := y) (lt_rowCells_packed h hx)
    rw [hrow, hcol, putBits_packByte h (fun c => packedSample_lt hf hy _) hmod]
    congr 1
    funext c
    have hat : x / (8 / depth) * (8 / depth) + c = x ↔ c = x % (8 / depth) := by omega
    simp only [packedSample, put, hat, and_true]
    by_cases hc : c = x % (8 / depth)
    · rw [if_pos hc, if_pos hc, if_pos (by omega)]
      rfl
    · rw [if_neg hc, if_neg hc]
  · -- Any other byte has no column of the pixel, or those of another row.
    next hne =>
    apply packByte_congr
    intro c hc
    have hother : ¬(k % rowCells width 1 depth * (8 / depth) + c = x ∧
        k / rowCells width 1 depth = y) := by
      rintro ⟨hcolumn, hrow⟩
      apply hne
      rw [← hcolumn, Nat.mul_comm _ (8 / depth), Nat.mul_add_div (by omega),
        Nat.div_eq_of_lt hc, Nat.add_zero, ← hrow]
      exact Nat.div_add_mod' k _
    simp only [packedSample, put, hother, if_false]

/-- Writing changes the function at one place. -/
theorem write?_packed (h : depth = 1 ∨ depth = 2 ∨ depth = 4)
    (hrow : 1 * width * depth + 7 < levels 64) (hf : Fits width height 1 depth f) (hx : x < width)
    (hy : y < height) (sample : Nat) :
    (ofPixels width height 1 depth f).write? x y [sample] =
      some (ofPixels width height 1 depth (put f x y [sample % levels depth])) := by
  obtain ⟨hcolumn, hshift, -⟩ := column_eq h x
  have hstride : (ofPixels width height 1 depth f).stride = rowCells width 1 depth :=
    strideOf_eq hrow
  have hlt : y * rowCells width 1 depth + x * depth / 8 <
      (ofPixels width height 1 depth f).cells.size := by
    rw [size_cells, hcolumn]
    exact place_lt (lt_rowCells_packed h hx) hy
  -- The byte of the pixel is the one that is changed.
  have hcells : (ofPixels width height 1 depth f).cells.modify
      (y * rowCells width 1 depth + x * depth / 8)
      (putBits depth (shiftOf depth x) · sample) =
        (ofPixels width height 1 depth (put f x y [sample % levels depth])).cells := by
    apply Array.ext_getElem?
    intro k
    rw [Array.getElem?_modify, getElem?_cells, getElem?_cells, cellOf_put_packed h hf hx hy,
      hcolumn, hshift]
    split <;> split <;> rfl
  rw [write?_of_packed (r := ofPixels width height 1 depth f) (layoutOf_packed ⟨rfl, h⟩) x y sample
    (by rw [hstride]; exact hlt), hstride, Option.some_inj]
  show ({ (ofPixels width height 1 depth f) with
    cells := (ofPixels width height 1 depth f).cells.modify
      (y * rowCells width 1 depth + x * depth / 8) (putBits depth (shiftOf depth x) · sample) } :
    Raster) = _
  rw [hcells]
  rfl

/-! ## Interleaved rasters -/

theorem cellOf_interleaved (h : depth = 8 ∨ depth = 16) (k : Nat) :
    cellOf width bands depth f k =
      (f (k % (width * bands) / bands) (k / (width * bands))).getD
        (k % (width * bands) % bands) 0 := by
  rw [cellOf, layoutOf_interleaved h, rowCells_interleaved h]

theorem getElem?_writeCells (bits : Nat) (cells : Array Nat) (start : Nat) (samples : List Nat)
    (k : Nat) :
    (writeCells bits cells start samples)[k]? =
      if start ≤ k ∧ k < start + samples.length then
        cells[k]?.map fun _ => samples.getD (k - start) 0 % levels bits
      else cells[k]? := by
  -- Each sample is written one cell behind the one before it.
  induction samples generalizing cells start with
  | nil => rw [writeCells, if_neg (fun h => absurd h.2 (Nat.not_lt.2 h.1))]
  | cons s samples ih =>
    rw [writeCells, ih, Array.getElem?_setIfInBounds]
    by_cases hk : start = k
    · subst hk
      have hin : start ≤ start ∧ start < start + (s :: samples).length := by simp
      rw [if_neg (by omega), if_pos rfl, if_pos hin]
      by_cases hlt : start < cells.size
      · rw [if_pos hlt, Array.getElem?_eq_getElem hlt, Nat.sub_self]
        rfl
      · rw [if_neg hlt, Array.getElem?_eq_none (by omega)]
        rfl
    · rw [if_neg hk]
      by_cases hin : start + 1 ≤ k ∧ k < start + 1 + samples.length
      · obtain ⟨d, rfl⟩ : ∃ d, k = start + 1 + d := ⟨k - start - 1, by omega⟩
        rw [if_pos hin, if_pos (by simp only [List.length_cons]; omega)]
        have h₁ : start + 1 + d - (start + 1) = d := by omega
        have h₂ : start + 1 + d - start = d + 1 := by omega
        rw [h₁, h₂, List.getD_cons_succ]
      · rw [if_neg hin, if_neg (by simp only [List.length_cons]; omega)]

/-- A cell of pixel `(x, y)` tells its pixel and its band. -/
theorem cell_div_mod {b : Nat} (hx : x < width) (hb : b < bands) :
    (y * (width * bands) + x * bands + b) / (width * bands) = y ∧
      (y * (width * bands) + x * bands + b) % (width * bands) / bands = x ∧
      (y * (width * bands) + x * bands + b) % (width * bands) % bands = b := by
  have hp : x * bands + b < width * bands := by
    have : x * bands + b < bands * width := place_lt hb hx
    rwa [Nat.mul_comm bands width] at this
  obtain ⟨hrow, hplace⟩ := place_div_mod (y := y) hp
  rw [Nat.add_assoc, hrow, hplace]
  exact ⟨rfl, place_div_mod hb⟩

/-- All cells of a pixel of the image are in the buffer. -/
theorem cells_le (hx : x < width) (hy : y < height) :
    y * (width * bands) + x * bands + bands ≤ width * bands * height := by
  calc y * (width * bands) + x * bands + bands
      = y * (width * bands) + (x + 1) * bands := by rw [Nat.add_mul, Nat.one_mul, Nat.add_assoc]
    _ ≤ y * (width * bands) + width * bands := Nat.add_le_add_left (Nat.mul_le_mul_right bands hx) _
    _ = (y + 1) * (width * bands) := by rw [Nat.add_mul, Nat.one_mul]
    _ ≤ height * (width * bands) := Nat.mul_le_mul_right _ hy
    _ = width * bands * height := Nat.mul_comm _ _

/-- A cell is one of pixel `(x, y)` if it lies behind the first of them by less than the bands. -/
theorem cell_of_pixel_iff (hx : x < width) (k : Nat) (hbands : 0 < bands) :
    (y * (width * bands) + x * bands ≤ k ∧ k < y * (width * bands) + x * bands + bands) ↔
      k % (width * bands) / bands = x ∧ k / (width * bands) = y := by
  constructor
  · rintro ⟨hle, hlt⟩
    obtain ⟨b, rfl⟩ := Nat.exists_eq_add_of_le hle
    obtain ⟨hrow, hcol, -⟩ := cell_div_mod (y := y) hx (show b < bands by omega)
    exact ⟨hcol, hrow⟩
  · rintro ⟨rfl, rfl⟩
    have h₁ := Nat.div_add_mod' k (width * bands)
    have h₂ := Nat.div_add_mod' (k % (width * bands)) bands
    have h₃ := Nat.mod_lt (k % (width * bands)) hbands
    omega

theorem pixel?_of_interleaved {r : Raster} (h : r.layout = .interleaved) {x y place : Nat}
    (hplace : place = y * r.stride + x * r.bands) (hle : place + r.bands ≤ r.cells.size) :
    r.pixel? x y = some (r.cells.extract place (place + r.bands)).toList := by
  subst hplace
  simp only [pixel?, h, hle, if_true]

theorem write?_of_interleaved {r : Raster} (h : r.layout = .interleaved) {x y place : Nat}
    (hplace : place = y * r.stride + x * r.bands) (hle : place + r.bands ≤ r.cells.size)
    {samples : List Nat} (hlen : samples.length = r.bands) :
    r.write? x y samples =
      some { r with cells := writeCells r.cellBits r.cells place samples } := by
  subst hplace
  simp only [write?, h]
  rw [if_pos ⟨hle, fun _ => by omega⟩, List.take_of_length_le (by omega)]

theorem pixel?_interleaved (h : depth = 8 ∨ depth = 16)
    (hrow : bands * width * depth + 7 < levels 64) (hlen : (f x y).length = bands) (hx : x < width)
    (hy : y < height) :
    (ofPixels width height bands depth f).pixel? x y = some (f x y) := by
  have hstride : (ofPixels width height bands depth f).stride = width * bands :=
    (strideOf_eq hrow).trans (rowCells_interleaved h)
  have hle : y * (width * bands) + x * bands + bands ≤
      (ofPixels width height bands depth f).cells.size := by
    rw [size_cells, rowCells_interleaved h]
    exact cells_le hx hy
  rw [pixel?_of_interleaved (r := ofPixels width height bands depth f) (layoutOf_interleaved h)
    (by rw [hstride]; rfl) hle, Option.some_inj]
  -- The cells from the place on are the bands of the pixel.
  apply List.ext_getElem?
  intro b
  rw [Array.getElem?_toList, Array.getElem?_extract, getElem?_cells, rowCells_interleaved h]
  show (if b < min (y * (width * bands) + x * bands + bands) _ -
      (y * (width * bands) + x * bands) then _ else none) = _
  by_cases hb : b < bands
  · obtain ⟨hline, hcol, hband⟩ := cell_div_mod (y := y) hx hb
    have hlt : y * (width * bands) + x * bands + b < width * bands * height := by
      have : y * (width * bands) + x * bands + bands ≤ width * bands * height := cells_le hx hy
      omega
    rw [if_pos (by omega), if_pos hlt, cellOf_interleaved h, hline, hcol, hband,
      List.getD_eq_getElem?_getD, List.getElem?_eq_getElem (by omega)]
    rfl
  · rw [if_neg (by omega), List.getElem?_eq_none (by omega)]

/-- Changing one pixel changes its cells, and no others. -/
theorem cellOf_put_interleaved (h : depth = 8 ∨ depth = 16) (samples : List Nat) (hx : x < width)
    {k : Nat} (hk : k < width * bands * height) :
    cellOf width bands depth (put f x y samples) k =
      if y * (width * bands) + x * bands ≤ k ∧ k < y * (width * bands) + x * bands + bands then
        samples.getD (k - (y * (width * bands) + x * bands)) 0
      else cellOf width bands depth f k := by
  have hbands : 0 < bands := Nat.pos_of_ne_zero fun h0 => by simp [h0] at hk
  rw [cellOf_interleaved h, cellOf_interleaved h]
  simp only [cell_of_pixel_iff hx k hbands, put]
  split
  · next heq =>
    obtain ⟨rfl, rfl⟩ := heq
    have h₁ := Nat.div_add_mod' k (width * bands)
    have h₂ := Nat.div_add_mod' (k % (width * bands)) bands
    have hband : k - (k / (width * bands) * (width * bands) +
        k % (width * bands) / bands * bands) = k % (width * bands) % bands := by omega
    rw [hband]
  · rfl

theorem write?_interleaved (h : depth = 8 ∨ depth = 16)
    (hrow : bands * width * depth + 7 < levels 64) {samples : List Nat}
    (hlen : samples.length = bands) (hx : x < width) (hy : y < height) :
    (ofPixels width height bands depth f).write? x y samples =
      some (ofPixels width height bands depth (put f x y (samples.map (· % levels depth)))) := by
  have hstride : (ofPixels width height bands depth f).stride = width * bands :=
    (strideOf_eq hrow).trans (rowCells_interleaved h)
  have hbits : (ofPixels width height bands depth f).cellBits = depth := by
    obtain rfl | rfl := h <;> rfl
  have hle : y * (width * bands) + x * bands + bands ≤
      (ofPixels width height bands depth f).cells.size := by
    rw [size_cells, rowCells_interleaved h]
    exact cells_le hx hy
  -- A sample is cut to the bits of its cell.
  have hcut : ∀ i, samples.getD i 0 % levels depth = (samples.map (· % levels depth)).getD i 0 := by
    intro i
    rw [List.getD_eq_getElem?_getD, List.getD_eq_getElem?_getD, List.getElem?_map]
    cases samples[i]? with
    | none => exact Nat.zero_mod _
    | some s => rfl
  -- The buffers are the same cell by cell.
  have hcells : writeCells depth (ofPixels width height bands depth f).cells
      (y * (width * bands) + x * bands) samples =
        (ofPixels width height bands depth (put f x y (samples.map (· % levels depth)))).cells := by
    apply Array.ext_getElem?
    intro k
    rw [getElem?_writeCells, getElem?_cells, getElem?_cells, hlen, rowCells_interleaved h]
    by_cases hk : k < width * bands * height
    · rw [if_pos hk, if_pos hk,
        cellOf_put_interleaved h _ hx hk, Option.map_some, hcut]
      split <;> rfl
    · rw [if_neg hk, if_neg hk, Option.map_none, ite_self]
  rw [write?_of_interleaved (r := ofPixels width height bands depth f) (layoutOf_interleaved h)
    (by rw [hstride]; rfl) hle hlen, hbits, hcells]
  rfl

/-! ## Any raster of an image -/

/-- Reading gives the function's value. -/
theorem pixel?_ofPixels (h : Regular bands depth) (hrow : bands * width * depth + 7 < levels 64)
    (hf : Fits width height bands depth f) (hx : x < width) (hy : y < height) :
    (ofPixels width height bands depth f).pixel? x y = some (f x y) := by
  obtain h | ⟨rfl, h⟩ := h
  · exact pixel?_interleaved h hrow (hf x hx y hy).1 hx hy
  · exact pixel?_packed h hrow hf hx hy

/-- Writing changes the function at one place, to the samples cut to their depth. -/
theorem write?_ofPixels (h : Regular bands depth) (hrow : bands * width * depth + 7 < levels 64)
    (hf : Fits width height bands depth f) (hx : x < width) (hy : y < height) {samples : List Nat}
    (hlen : samples.length = bands) :
    (ofPixels width height bands depth f).write? x y samples =
      some (ofPixels width height bands depth (put f x y (samples.map (· % levels depth)))) := by
  obtain h | ⟨rfl, h⟩ := h
  · exact write?_interleaved h hrow hlen hx hy
  · obtain ⟨s, rfl⟩ := List.length_eq_one_iff.1 hlen
    exact write?_packed h hrow hf hx hy s

/-- The raster only depends on the function inside the image. -/
theorem ofPixels_congr (h : Regular bands depth) (hfg : ∀ x < width, ∀ y < height, f x y = g x y) :
    ofPixels width height bands depth f = ofPixels width height bands depth g := by
  apply ofPixels_ext
  intro k hk
  have hrow := row_lt hk
  obtain h | ⟨rfl, h⟩ := h
  · rw [rowCells_interleaved h] at hk hrow
    have hcol : k % (width * bands) / bands < width := by
      apply Nat.div_lt_of_lt_mul
      rw [Nat.mul_comm bands]
      exact Nat.mod_lt _ (Nat.pos_of_mul_pos_right (Nat.zero_lt_of_lt hk))
    rw [cellOf_interleaved h, cellOf_interleaved h, hfg _ hcol _ hrow]
  · rw [cellOf_packed h, cellOf_packed h]
    apply packByte_congr
    intro c _
    simp only [packedSample]
    split
    · next hx => rw [hfg _ hx _ hrow]
    · rfl

/-- The raster of an image before anything is written has zero samples. -/
theorem new_eq_ofPixels (h : Regular bands depth) (hcount : Countable width height bands depth) :
    new width height bands depth =
      ofPixels width height bands depth fun _ _ => List.replicate bands 0 := by
  have hzero : ∀ k, cellOf width bands depth (fun _ _ => List.replicate bands 0) k = 0 := by
    intro k
    obtain h | ⟨rfl, h⟩ := h
    · rw [cellOf_interleaved h]
      simp [List.getD_eq_getElem?_getD, List.getElem?_replicate]
      split <;> rfl
    · rw [cellOf_packed h]
      obtain rfl | rfl | rfl := h <;>
        simp [packedSample, packByte, packBits, List.range, List.range.loop]
  simp only [new, strideOf_eq hcount.row_lt, wrap_eq hcount.cells_lt, ofPixels, mk.injEq, true_and]
  apply Array.ext_getElem?
  intro k
  simp only [Array.getElem?_map, Array.getElem?_range, Array.getElem?_replicate]
  split
  · rw [Option.map_some, hzero]
  · rfl

end

end Png.Raster
