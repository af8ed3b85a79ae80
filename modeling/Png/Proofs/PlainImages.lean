import Png.Libraries.Own
import Png.Proofs.Expansion
import Png.Proofs.Scanlines
import Png.Proofs.WholeFiles

/-!
# Images that are not transformed

Where the samples of a sequential image are kept as they are, the bytes of its raster are those of
the rows of the file, with the bits behind the last sample of every row cleared
(`toBytes_of_decode`). No byte is copied on the way: each sample is read out of its row, and written
to the raster by a function with shifts and strides of its own. That the samples come together to
the same bytes again is shown for each way in which they lie in a row. A packed byte is the byte
that its samples were read from, without the bits that are no samples of the row
(`packByte_front`), and there is a cell for each sample of a row of bytes (`cellRow_bytes`) or words
(`cellRow_words`).
-/

namespace Png

open Raster (Regular ofPixels packByte packedSample cellOf rowCells getBits shiftOf)

/-- A byte with its lowest bits cleared. -/
def clearLow (bits : Nat) (b : UInt8) : UInt8 := (b.toNat / levels bits * levels bits).toUInt8

@[simp]
theorem clearLow_zero : clearLow 0 = id := by
  funext b
  rw [clearLow, levels_zero, Nat.div_one, Nat.mul_one]
  exact UInt8.ofNat_toNat

namespace Header

/-- The bits of a row behind its last sample. -/
def spareBits (h : Header) : Nat := 8 * h.rowBytes h.width - h.channels * h.width * h.depth

/-- A row with the bits behind its last sample cleared: they are the lowest of its last byte. -/
def clearSpare (h : Header) (row : List UInt8) : List UInt8 :=
  row.modify (row.length - 1) (clearLow h.spareBits)

/-- A row of bytes or words has no bits behind its last sample. -/
theorem clearSpare_of_whole {h : Header} (hdepth : h.depth = 8 ∨ h.depth = 16) (row : List UInt8) :
    h.clearSpare row = row := by
  have hspare : h.spareBits = 0 := by
    rw [spareBits, rowBytes]
    obtain hdepth | hdepth := hdepth <;> rw [hdepth] <;> omega
  rw [clearSpare, hspare, clearLow_zero, List.modify_id]

end Header

/-! ## The samples of a pixel -/

/-- The elements of a list that a function gives one by one. -/
theorem getElem?_of_mapM_range {α : Type} {f : Nat → Option α} {n b : Nat} {xs : List α}
    (h : (List.range n).mapM f = some xs) (hb : b < n) : xs[b]? = f b := by
  induction n generalizing f b xs with
  | zero => omega
  | succ n ih =>
    rw [List.range_succ_eq_map, List.mapM_cons, List.mapM_map] at h
    obtain ⟨x, hx, h⟩ := Option.bind_eq_some_iff.1 h
    obtain ⟨ys, hys, h⟩ := Option.bind_eq_some_iff.1 h
    cases h
    cases b with
    | zero => exact hx.symm
    | succ b => exact ih (f := f ∘ Nat.succ) hys (Nat.lt_of_succ_lt_succ hb)

/-- The samples of a pixel are those of its row, from its first one on. -/
theorem Header.getElem?_pixelAt? {h : Header} {row : Array UInt8} {i b : Nat} {pixel : List Nat}
    (hpixel : h.pixelAt? row i = some pixel) (hb : b < h.channels) :
    pixel[b]? = sampleAt? row (i * h.channels + b) h.depth :=
  getElem?_of_mapM_range hpixel hb

/-- A sample that is packed is a field of its byte. -/
theorem sampleAt?_packed {depth i : Nat} {row : List UInt8}
    (hdepth : depth = 1 ∨ depth = 2 ∨ depth = 4) (hbyte : i * depth / 8 < row.length) :
    sampleAt? row.toArray i depth =
      some (getBits depth (shiftOf depth i) (row.getD (i * depth / 8) 0).toNat) := by
  rw [List.getD_eq_getElem?_getD, List.getElem?_eq_getElem hbyte, Option.getD_some]
  have hget : row.toArray[i * depth / 8]? = some row[i * depth / 8] := by simp [hbyte]
  obtain rfl | rfl | rfl := hdepth <;> simp only [sampleAt?, hget, Option.map_some]

/-! ## Bytes row by row -/

/-- What is done to each of the rows is done to all of them. -/
theorem flatMap_range_length {α β : Type} {rows : List α} {g : Nat → List β} {f : α → List β}
    (h : ∀ y row, rows[y]? = some row → g y = f row) :
    (List.range rows.length).flatMap g = rows.flatMap f := by
  induction rows generalizing g with
  | nil => rfl
  | cons row rows ih =>
    rw [List.length_cons, List.range_succ_eq_map, List.flatMap_cons, List.flatMap_cons,
      List.flatMap_map, h 0 row rfl, ih fun y row hrow => h (y + 1) row hrow]

/-- Numbers are counted in rows of `n`. -/
theorem map_range_mul {α : Type} (g : Nat → α) (n height : Nat) :
    (List.range (n * height)).map g =
      (List.range height).flatMap fun y => (List.range n).map fun p => g (y * n + p) := by
  induction height with
  | zero => rfl
  | succ height ih =>
    rw [Nat.mul_succ, List.range_add, List.map_append, ih, List.range_succ, List.flatMap_append,
      List.flatMap_singleton, List.map_map, Nat.mul_comm n]
    rfl

/-- A list of even length is made of pairs. -/
theorem flatMap_words {row : List UInt8} {n : Nat} (hrow : row.length = 2 * n) :
    ((List.range n).flatMap fun p => [row.getD (2 * p) 0, row.getD (2 * p + 1) 0]) = row := by
  induction n generalizing row with
  | zero => exact (List.eq_nil_of_length_eq_zero hrow).symm
  | succ n ih =>
    obtain ⟨a, b, row, rfl⟩ : ∃ a b rest, row = a :: b :: rest := by
      match row, hrow with
      | a :: b :: rest, _ => exact ⟨a, b, rest, rfl⟩
    have hrest := ih (Nat.add_right_cancel (m := 2) hrow)
    rw [List.range_succ_eq_map, List.flatMap_cons, List.flatMap_map]
    exact congrArg (fun rest => a :: b :: rest) hrest

namespace Raster

/-- The bytes of a cell, the most significant one first. -/
def cellBytes (depth cell : Nat) : List UInt8 :=
  if depth = 16 then [(cell / 256).toUInt8, cell.toUInt8] else [cell.toUInt8]

/-- The cells of a row. -/
def cellRow (width bands depth : Nat) (f : Nat → Nat → List Nat) (y : Nat) : List Nat :=
  (List.range (rowCells width bands depth)).map fun p =>
    cellOf width bands depth f (y * rowCells width bands depth + p)

/-- Cells that are no words are bytes. -/
theorem flatMap_cellBytes {depth : Nat} (hdepth : depth ≠ 16) (cells : List Nat) :
    cells.flatMap (cellBytes depth) = cells.map (·.toUInt8) := by
  rw [List.map_eq_flatMap]
  apply List.flatMap_congr
  intro c _
  rw [cellBytes, if_neg hdepth]

/-- A word is written as it was read. -/
theorem cellBytes_word (high low : UInt8) :
    cellBytes 16 (256 * high.toNat + low.toNat) = [high, low] := by
  have hlt : low.toNat < 256 := UInt8.toNat_lt low
  have hfirst : (256 * high.toNat + low.toNat) / 256 = high.toNat := by omega
  have hsecond : (256 * high.toNat + low.toNat).toUInt8 = low := by
    apply UInt8.toNat_inj.1
    rw [Nat.toUInt8_eq, UInt8.toNat_ofNat']
    omega
  rw [cellBytes, if_pos rfl, hfirst, hsecond]
  exact congrArg (fun b => [b, low]) UInt8.ofNat_toNat

theorem toBytes_eq_flatMap (r : Raster) :
    r.toBytes = r.cells.toList.flatMap (cellBytes r.depth) := by
  unfold toBytes
  by_cases hdepth : r.depth = 16
  · rw [if_pos hdepth]
    apply List.flatMap_congr
    intro c _
    rw [cellBytes, if_pos hdepth]
  · rw [if_neg hdepth, flatMap_cellBytes hdepth]

/-- The bytes of a raster are those of its rows. -/
theorem toBytes_ofPixels (width height bands depth : Nat) (f : Nat → Nat → List Nat) :
    (ofPixels width height bands depth f).toBytes =
      (List.range height).flatMap fun y =>
        (cellRow width bands depth f y).flatMap (cellBytes depth) := by
  rw [toBytes_eq_flatMap, ← List.flatMap_assoc]
  show ((Array.range _).map _).toList.flatMap (cellBytes depth) = _
  rw [Array.toList_map, Array.toList_range, map_range_mul]
  rfl

/-! ## Packed rows -/

section

variable {width depth : Nat} {f : Nat → Nat → List Nat} {y : Nat} {row : List UInt8}

/-- The first `k` samples of a byte make up the byte without the bits behind them. -/
theorem packByte_front (hdepth : depth = 1 ∨ depth = 2 ∨ depth = 4) {k n : Nat} (hk : k ≤ 8 / depth)
    (hn : n < 256) :
    packByte depth (fun c => if c < k then getBits depth (8 - depth - c * depth) n else 0) =
      n / levels (8 - k * depth) * levels (8 - k * depth) := by
  obtain ⟨rest, hrest⟩ := Nat.exists_eq_add_of_le hk
  have hbits : 8 - k * depth = depth * rest ∧ 8 = depth * rest + depth * k := by
    rw [Nat.mul_comm depth k]
    obtain rfl | rfl | rfl := hdepth <;> omega
  obtain ⟨hspare, hbits⟩ := hbits
  -- The samples in front are fields above the spare bits.
  have hfront : ((List.range k).map fun c =>
        if c < k then getBits depth (8 - depth - c * depth) n else 0) =
      (List.range k).map fun c => getBits depth (depth * rest + depth * (k - 1 - c)) n := by
    apply List.map_congr_left
    intro c hc
    have hc := List.mem_range.1 hc
    have hplace : depth * (8 / depth - 1 - c) = depth * rest + depth * (k - 1 - c) := by
      rw [← Nat.mul_add]
      congr 1
      omega
    rw [if_pos hc, shift_eq hdepth (by omega), hplace]
  have hlt : n / levels (depth * rest) < levels (depth * k) := by
    apply Nat.div_lt_of_lt_mul
    rw [← levels_add, ← hbits]
    exact hn
  rw [packByte_of_zero hk fun c hc => if_neg (Nat.not_lt.2 hc), hfront, packBits_getBits,
    Nat.mod_eq_of_lt hlt, hrest, Nat.add_sub_cancel_left, hspare]

/-- A byte of a packed row is the byte that its samples were read from, without the bits behind the
last sample of the row. -/
theorem cellOf_of_packed (hdepth : depth = 1 ∨ depth = 2 ∨ depth = 4)
    (hf : ∀ x < width, (f x y).headD 0 =
      getBits depth (shiftOf depth x) (row.getD (x * depth / 8) 0).toNat)
    {p : Nat} (hp : p < rowCells width 1 depth) :
    cellOf width 1 depth f (y * rowCells width 1 depth + p) =
      (row.getD p 0).toNat / levels (8 * (p + 1) - width * depth) *
        levels (8 * (p + 1) - width * depth) := by
  obtain ⟨hrow, hplace⟩ := place_div_mod (y := y) hp
  have hk : min (8 / depth) (width - p * (8 / depth)) ≤ 8 / depth := Nat.min_le_left _ _
  have hspare : 8 - min (8 / depth) (width - p * (8 / depth)) * depth =
      8 * (p + 1) - width * depth := by
    rw [rowCells, if_neg (by omega)] at hp
    obtain rfl | rfl | rfl := hdepth <;> omega
  -- Both sides are the same samples, packed: as many as the row has from this byte on.
  rw [← hspare, ← packByte_front hdepth hk (UInt8.toNat_lt _), cellOf_packed hdepth, hrow, hplace]
  apply packByte_congr
  intro c hc
  obtain ⟨hcolumn, hshift, -⟩ := column_eq hdepth (p * (8 / depth) + c)
  obtain ⟨hbyte, hsample⟩ := place_div_mod (y := p) hc
  rw [hbyte] at hcolumn
  rw [hsample] at hshift
  rw [packedSample]
  by_cases hx : p * (8 / depth) + c < width
  · rw [if_pos hx, if_pos (by omega), hf _ hx, hcolumn, hshift]
  · rw [if_neg hx, if_neg (by omega)]

end

end Raster

/-! ## The bytes of a row -/

section

open Raster (cellRow cellBytes)

variable {h : Header} {f : Nat → Nat → List Nat} {y : Nat} {row : List UInt8}
  (hrow : row.length = h.rowBytes h.width)
  (hpixels : ∀ x < h.width, h.pixelAt? row.toArray x = some (f x y))

include hrow hpixels

/-- The sample of a packed pixel is a field of a byte of the row. -/
theorem headD_of_packed (hdepth : h.depth = 1 ∨ h.depth = 2 ∨ h.depth = 4) (hone : h.channels = 1)
    {x : Nat} (hx : x < h.width) :
    (f x y).headD 0 =
      getBits h.depth (shiftOf h.depth x) (row.getD (x * h.depth / 8) 0).toNat := by
  have hbyte : x * h.depth / 8 < row.length := by
    rw [hrow, Header.rowBytes, hone]
    obtain hdepth | hdepth | hdepth := hdepth <;> rw [hdepth] <;> omega
  have hsample := Header.getElem?_pixelAt? (b := 0) (hpixels x hx) (by omega)
  rw [hone, Nat.mul_one, Nat.add_zero, sampleAt?_packed hdepth hbyte] at hsample
  rw [List.headD_eq_head?_getD, List.head?_eq_getElem?, hsample, Option.getD_some]

/-- The bytes of a packed row are those of the row that its pixels come from, without the bits
behind the last one. -/
theorem cellRow_packed (hdepth : h.depth = 1 ∨ h.depth = 2 ∨ h.depth = 4) (hone : h.channels = 1) :
    (cellRow h.width h.channels h.depth f y).flatMap (cellBytes h.depth) = h.clearSpare row := by
  have hsize : row.length = (h.width * h.depth + 7) / 8 := by
    rw [hrow, Header.rowBytes, hone, Nat.one_mul]
  have hcells : rowCells h.width 1 h.depth = row.length := by
    rw [hsize, rowCells, if_neg (by omega), Nat.one_mul]
  have hsamples (x : Nat) (hx : x < h.width) := headD_of_packed hrow hpixels hdepth hone hx
  rw [Raster.flatMap_cellBytes (by omega), cellRow, hone, List.map_map]
  apply List.ext_getElem
  · rw [List.length_map, List.length_range, Header.clearSpare, List.length_modify, hcells]
  intro p hp hp'
  have hin : p < rowCells h.width 1 h.depth := by simpa using hp
  have hlt : p < row.length := hcells ▸ hin
  have hbyte : row.getD p 0 = row[p] := by simp [List.getD_eq_getElem?_getD, hlt]
  have hcell := Raster.cellOf_of_packed (y := y) hdepth hsamples hin
  rw [hbyte] at hcell
  simp only [List.getElem_map, List.getElem_range, Function.comp_apply, hcell, Header.clearSpare,
    List.getElem_modify]
  show clearLow (8 * (p + 1) - h.width * h.depth) row[p] = _
  by_cases hlast : row.length - 1 = p
  · -- The last byte ends with the spare bits of the row.
    have hspare : 8 * (p + 1) - h.width * h.depth = h.spareBits := by
      rw [Header.spareBits, ← hrow, hone, Nat.one_mul]
      omega
    rw [if_pos hlast, hspare]
  · have hspare : 8 * (p + 1) - h.width * h.depth = 0 := by omega
    rw [if_neg hlast, hspare, clearLow_zero]
    rfl

omit hrow

/-- A cell of a row of whole cells is a sample of the row that its pixels come from. -/
theorem cellOf_of_whole (hdepth : h.depth = 8 ∨ h.depth = 16) {p : Nat}
    (hp : p < h.width * h.channels) :
    cellOf h.width h.channels h.depth f (y * (h.width * h.channels) + p) =
      (sampleAt? row.toArray p h.depth).getD 0 := by
  have hchannels : 0 < h.channels := Nat.pos_of_mul_pos_left (Nat.zero_lt_of_lt hp)
  have hx : p / h.channels < h.width := Nat.div_lt_of_lt_mul (Nat.mul_comm _ _ ▸ hp)
  obtain ⟨hcellRow, hcell⟩ := Raster.place_div_mod (y := y) hp
  have hsample := Header.getElem?_pixelAt? (hpixels _ hx) (Nat.mod_lt p hchannels)
  rw [Nat.div_add_mod'] at hsample
  rw [Raster.cellOf_interleaved hdepth, hcellRow, hcell, List.getD_eq_getElem?_getD, hsample]

include hrow

/-- The bytes of a row of bytes are those of the row that its pixels come from. -/
theorem cellRow_bytes (hdepth : h.depth = 8) :
    (cellRow h.width h.channels h.depth f y).flatMap (cellBytes h.depth) = row := by
  have hsize : row.length = h.width * h.channels := by
    rw [hrow, Header.rowBytes, hdepth, Nat.mul_comm h.channels]
    omega
  rw [Raster.flatMap_cellBytes (by omega), cellRow, Raster.rowCells_interleaved (.inl hdepth),
    List.map_map]
  apply List.ext_getElem
  · rw [List.length_map, List.length_range, hsize]
  intro p hp hp'
  have hcell := cellOf_of_whole (y := y) hpixels (.inl hdepth) (hsize ▸ hp')
  have hsample : sampleAt? row.toArray p h.depth = some row[p].toNat := by
    simp [hdepth, sampleAt?, hp']
  rw [hsample, Option.getD_some] at hcell
  simp only [List.getElem_map, List.getElem_range, Function.comp_apply, hcell]
  exact UInt8.ofNat_toNat

/-- The bytes of a row of words are those of the row that its pixels come from, in their order. -/
theorem cellRow_words (hdepth : h.depth = 16) :
    (cellRow h.width h.channels h.depth f y).flatMap (cellBytes h.depth) = row := by
  have hsize : row.length = 2 * (h.width * h.channels) := by
    rw [hrow, Header.rowBytes, hdepth, Nat.mul_comm h.channels]
    omega
  rw [cellRow, Raster.rowCells_interleaved (.inr hdepth), List.flatMap_map, ← flatMap_words hsize]
  apply List.flatMap_congr
  intro p hp
  have hp := List.mem_range.1 hp
  have hhigh : row.toArray[2 * p]? = some (row.getD (2 * p) 0) := by
    simp [List.getD_eq_getElem?_getD, (by omega : 2 * p < row.length)]
  have hlow : row.toArray[2 * p + 1]? = some (row.getD (2 * p + 1) 0) := by
    simp [List.getD_eq_getElem?_getD, (by omega : 2 * p + 1 < row.length)]
  have hsample : (sampleAt? row.toArray p h.depth).getD 0 =
      256 * (row.getD (2 * p) 0).toNat + (row.getD (2 * p + 1) 0).toNat := by
    rw [hdepth, sampleAt?, hhigh, hlow]
    rfl
  rw [cellOf_of_whole hpixels (.inr hdepth) hp, hsample, hdepth, Raster.cellBytes_word]

end

/-- The bytes of a raster are those of the rows that its pixels come from, without the bits behind
the last sample of each. -/
theorem Raster.toBytes_eq_rows {h : Header} (hregular : Regular h.channels h.depth)
    {f : Nat → Nat → List Nat} {rows : List (List UInt8)} (hheight : rows.length = h.height)
    (hrows : ∀ row ∈ rows, row.length = h.rowBytes h.width)
    (hpixels : ∀ x < h.width, ∀ y row, rows[y]? = some row →
      h.pixelAt? row.toArray x = some (f x y)) :
    (ofPixels h.width h.height h.channels h.depth f).toBytes = rows.flatMap h.clearSpare := by
  rw [toBytes_ofPixels, ← hheight]
  apply flatMap_range_length
  intro y row hy
  have hrow := hrows row (List.mem_of_getElem? hy)
  have hpixels (x : Nat) (hx : x < h.width) := hpixels x hx y row hy
  obtain (hbyte | hword) | ⟨hone, hpacked⟩ := hregular
  · rw [Header.clearSpare_of_whole (.inl hbyte), cellRow_bytes hrow hpixels hbyte]
  · rw [Header.clearSpare_of_whole (.inr hword), cellRow_words hrow hpixels hword]
  · exact cellRow_packed hrow hpixels hpacked hone

/-! ## Samples that are kept -/

/-- Where samples are kept and gray is not repeated, the output has the form of the input. -/
theorem Transform.form_of_copy {h : Header} {o : Options} {transparency : Option Transparency}
    (hmode : (select h o transparency).mode = .copy)
    (hreplicate : (select h o transparency).replicate = false) :
    (select h o transparency).bands = h.channels ∧
      (select h o transparency).depth h o = h.depth := by
  have hchannels : h.channels = h.color.channels := rfl
  have hdepth (hgray : h.color ≠ .gray) (hpalette : h.color ≠ .palette) :=
    depth_of_ne (select h o transparency) o hgray hpalette
  rw [hchannels]
  cases hcolor : h.color with
  | gray =>
    obtain ⟨-, -, ht⟩ | ⟨-, -, ht⟩ | ⟨-, -, ht⟩ | ⟨-, hdepth, ht⟩ :=
      select_gray hcolor o transparency
    · simp [ht] at hmode
    · simp [ht] at hmode
    · simp [ht] at hmode
    · exact ⟨by rw [ht]; rfl, hdepth⟩
  | palette =>
    obtain ⟨-, ht⟩ | ⟨-, ht⟩ | ⟨hdepth, -, hbands⟩ := select_palette hcolor o transparency
    · simp [ht] at hmode
    · simp [ht] at hmode
    · exact ⟨hbands, hdepth⟩
  | rgb =>
    refine ⟨?_, hdepth (by simp [hcolor]) (by simp [hcolor])⟩
    obtain ht | ht := select_rgb hcolor o transparency
    · simp [ht] at hmode
    · rw [ht]
      rfl
  | grayAlpha =>
    refine ⟨?_, hdepth (by simp [hcolor]) (by simp [hcolor])⟩
    obtain ht | ht := select_grayAlpha hcolor o transparency
    · simp [ht] at hmode
    · -- With four bands, gray would be repeated.
      rw [ht] at hreplicate ⊢
      cases hexpand : o.expandGrayAlpha with
      | true => simp [hexpand, withGrayAlpha] at hreplicate
      | false => rfl
  | rgba =>
    refine ⟨?_, hdepth (by simp [hcolor]) (by simp [hcolor])⟩
    obtain ht | ht := select_rgba hcolor o transparency
    · simp [ht] at hmode
    · rw [ht]
      rfl

/-- A pixel that is kept is its own output. -/
theorem PixelMap.map?_kept {m : PixelMap} (hmode : m.transform.mode = .copy)
    (hreplicate : m.transform.replicate = false) (pixel : List Nat) :
    m.map? pixel = some pixel := by
  unfold map?
  split <;> simp_all [grayAlpha]

/-! ## Images that are accepted -/

/-- A header that is read has a size. -/
theorem Header.size_pos_of_parse {o : Options} {data : List UInt8} {h : Header}
    (hparse : parse o data = .ok h) : 0 < h.width ∧ 0 < h.height := by
  simp only [parse, bind_eq_ok_iff, require_eq_ok_iff, demand_eq_ok_iff, pure, Except.pure,
    Except.ok.injEq] at hparse
  obtain ⟨_, -, width, -, height, -, _, hsize, _, -, _, -, depth, -, _, -, code, -, color, -,
    _, -, _, -, _, -, _, -, _, -, _, -, interlace, -, rfl⟩ := hparse
  exact ⟨Nat.pos_of_ne_zero hsize.1, Nat.pos_of_ne_zero hsize.2⟩

/-- The image of chunks that are accepted has a size. -/
theorem Metadata.size_pos_of_acceptAll [Libraries] {chunks : List Chunk} {o : Options}
    {m : Metadata} {h : Header} (haccept : acceptAll chunks (.new o) = .ok () m)
    (hheader : m.header = some h) :
    0 < h.width ∧ 0 < h.height := by
  refine acceptAll_induction (P := fun m => ∀ h, m.header = some h → 0 < h.width ∧ 0 < h.height)
    (fun {c m f} hm hread => ?_) haccept nofun h hheader
  rw [header_keep]
  have hof := of_read hread
  cases f
  case header hd =>
    have hkind : c.kind = .header := hof
    simp only [read, hkind] at hread
    obtain ⟨-, hd', hparse, hf⟩ := readHeader_eq_ok hread
    cases hf
    rintro _ ⟨⟩
    exact Header.size_pos_of_parse hparse
  all_goals exact hm

/-- The raster of an image whose samples are kept has the bytes of the rows that were read. -/
theorem Metadata.Coherent.toBytes_drawn {m : Metadata} {h : Header} {t : Transform} {s : Reading}
    (hm : m.Coherent) (hheader : m.header = some h) (htransform : m.transform = some t)
    (hmode : t.mode = .copy) (hreplicate : t.replicate = false) {data : List UInt8}
    (hread : h.readPixels data = .ok s) {rows : List (List UInt8)}
    (hrows : h.Reconstructs data rows)
    (hstored : ∀ x < h.width, ∀ y row, rows[y]? = some row →
      s.pixels x y = h.pixelAt? row.toArray x) :
    (m.drawn h s).raster.toBytes = rows.flatMap h.clearSpare ∧
      (h.depth < 8 → (m.drawn h s).raster.layout = .packed ∧
        (m.drawn h s).raster.stride = h.rowBytes h.width) := by
  have hlengths : ∀ row ∈ rows, row.length = h.rowBytes h.width := fun row hrow =>
    (hrows.2.length_row row hrow).trans List.length_replicate
  have hregular := hm.regular hheader htransform
  have hrow := hm.row_lt hheader htransform
  obtain rfl := hm.transform_select hheader htransform
  obtain ⟨hbands, hdepth⟩ := Transform.form_of_copy hmode hreplicate
  have hraster : (m.drawn h s).raster = ofPixels h.width h.height h.channels h.depth
      (outputOf (m.pixelMap h (.select h m.options m.transparency)) h.channels s.pixels) := by
    simp only [drawn, hbands, hdepth]
  -- The output has the form of the input.
  rw [hbands, hdepth] at hregular hrow
  rw [hraster]
  constructor
  · refine Raster.toBytes_eq_rows hregular hrows.1 hlengths fun x hx y row hrow => ?_
    obtain ⟨hy, -⟩ := List.getElem?_eq_some_iff.1 hrow
    obtain ⟨pixel, hpixel, -⟩ :=
      pixels_of_readPixels (hm.legal h hheader).depth_mem (hm.sized h hheader) hread hx
        (hrows.1 ▸ hy)
    -- A pixel is its own output, and is read off its row.
    have hkept : (m.pixelMap h (.select h m.options m.transparency)).map? pixel = some pixel :=
      PixelMap.map?_kept hmode hreplicate pixel
    rw [← hstored x hx y row hrow, hpixel, outputOf, hpixel]
    simp only [hkept, Option.getD_some]
  · intro hnarrow
    refine ⟨Raster.layoutOf_packed (hregular.resolve_left (by omega)), ?_⟩
    exact (Raster.strideOf_eq hrow).trans (if_neg (by omega : h.depth ≠ 16))

namespace Decoder

section

variable [Libraries]

/-- An image is made of what the chunks of its file tell, which have all been accepted. -/
theorem of_decode {source : Source} {o : Options} {image : Image} {d : Decoder}
    (h : decode (.new source o) = .ok image d) :
    ∃ chunks, Metadata.acceptAll chunks (.new o) = .ok () d.metadata ∧
      d.metadata.render = .ok image := by
  have hstage : (new source o).stage ≠ .decoded := nofun
  rw [decode, if_neg hstage] at h
  cases hread : readHeaders (.new source o) with
  | error e d' =>
    rw [hread] at h
    cases h
  | ok u d' =>
    obtain ⟨chunks, -, -, haccept⟩ := exists_carries hread
    rw [hread] at h
    cases hrender : d'.metadata.render with
    | error e =>
      simp only [hrender] at h
      cases h
    | ok image' =>
      simp only [hrender] at h
      cases h
      exact ⟨chunks, haccept, hrender⟩

/-- An image that is not transformed comes out byte for byte. The inflated data of a sequential
image are the scanlines of its rows, in one way only. Where samples are kept and gray is not
repeated, the bytes of its raster are these rows, one behind the other, with only the bits behind
the last sample of each row cleared. Narrow samples stay packed, in rows of as many bytes. -/
theorem toBytes_of_decode {source : Source} {o : Options} {image : Image} {d : Decoder}
    {t : Transform} (h : decode (.new source o) = .ok image d)
    (hsequential : image.header.interlace = .sequential)
    (htransform : d.metadata.transform = some t) (hmode : t.mode = .copy)
    (hreplicate : t.replicate = false) :
    ∃ data rows, d.metadata.inflated = .ok data ∧ image.header.Reconstructs data rows ∧
      (∀ rows', image.header.Reconstructs data rows' → rows' = rows) ∧
      image.raster.toBytes = rows.flatMap image.header.clearSpare ∧
      (image.header.depth < 8 → image.raster.layout = .packed ∧
        image.raster.stride = image.header.rowBytes image.header.width) := by
  obtain ⟨chunks, haccept, hrender⟩ := of_decode h
  have hm := Metadata.coherent_of_acceptAll haccept
  rw [hm.render_eq] at hrender
  obtain ⟨⟨header, s⟩, hread, rfl⟩ := exists_of_map_eq_ok hrender
  replace hsequential : header.interlace = .sequential := hsequential
  obtain ⟨hheader, data, hdata, hpixels⟩ := Metadata.inflated_of_readStored hread
  obtain ⟨hwidth, hheight⟩ := Metadata.size_pos_of_acceptAll haccept hheader
  obtain ⟨rows, hrows, hstored⟩ :=
    Header.exists_reconstructs hsequential hwidth hheight hpixels
  have hbytes := hm.toBytes_drawn hheader htransform hmode hreplicate hpixels hrows hstored
  exact ⟨data, rows, hdata, hrows, fun rows' hrows' => hrows'.unique hrows, hbytes⟩

end

/-- Two rows of five gray samples of two bits, filtered in two ways, with ones behind the last
samples. -/
theorem toBytes_of_decode_ragged_rows :
    let chunk (tag : ChunkTag) (data : List UInt8) : Chunk := { tag, data }
    let source : Source :=
      .ofChunks [chunk (.ofChars 'I' 'H' 'D' 'R') [0, 0, 0, 5, 0, 0, 0, 2, 2, 0, 0, 0, 0],
        chunk (.ofChars 'I' 'D' 'A' 'T')
          [0x78, 1, 1, 6, 0, 0xF9, 0xFF, 1, 0x1B, 0x64, 2, 0xC9, 0x40, 3, 0xFB, 1, 0x8C],
        chunk (.ofChars 'I' 'E' 'N' 'D') []]
    ∃ image d t, decode (.new source {}) = .ok image d ∧
      image.header.interlace = .sequential ∧ d.metadata.transform = some t ∧ t.mode = .copy ∧
      t.replicate = false ∧ image.raster.toBytes = [0x1B, 0x40, 0xE4, 0x80] ∧
      ∃ data rows, d.metadata.inflated = .ok data ∧ image.header.Reconstructs data rows ∧
        rows = [[0x1B, 0x7F], [0xE4, 0xBF]] ∧
        image.raster.toBytes = rows.flatMap image.header.clearSpare := by
  intro chunk source
  -- What is seen of an image, and of the decoder behind it.
  let seen (image : Image) (d : Decoder) :=
    (image.header, d.metadata.transform, image.raster.toBytes, d.metadata.inflated)
  let look (image : Image) : Step _ := fun d => .ok (seen image d) d
  obtain ⟨d, hlook⟩ := exists_of_run' (x := decode >>= look) (s := .new source {})
    (a := (⟨5, 2, 2, .gray, .sequential⟩,
      some { mode := .copy, bands := 1, gray8 := false, fullOpacity := 3 },
      [0x1B, 0x40, 0xE4, 0x80], .ok [1, 0x1B, 0x64, 2, 0xC9, 0x40])) (by decide +kernel)
  obtain ⟨image, hdecode, hseen⟩ : ∃ image, decode (.new source {}) = .ok image d ∧
      seen image d = _ := by
    simp only [bind, EStateM.bind] at hlook
    cases hdecode : decode (.new source {}) with
    | error e d' =>
      rw [hdecode] at hlook
      cases hlook
    | ok image d' =>
      rw [hdecode] at hlook
      obtain ⟨hview, rfl⟩ := EStateM.Result.ok.inj hlook
      exact ⟨image, rfl, hview⟩
  simp only [seen, Prod.mk.injEq] at hseen
  obtain ⟨hheader, htransform, hbytes, hinflated⟩ := hseen
  obtain ⟨data, rows, hdata, hrows, honly, hcleared, -⟩ :=
    toBytes_of_decode hdecode (by rw [hheader]) htransform rfl rfl
  cases hdata.symm.trans hinflated
  have hpair : image.header.Reconstructs [1, 0x1B, 0x64, 2, 0xC9, 0x40]
      [[0x1B, 0x7F], [0xE4, 0xBF]] := by
    rw [hheader]
    exact ⟨rfl, rfl, .sub, [2, 0xC9, 0x40], by decide, rfl, .up, [], by decide, trivial⟩
  exact ⟨image, d, _, hdecode, by rw [hheader], htransform, rfl, rfl, hbytes, _, rows, hdata, hrows,
    (honly _ hpair).symm, hcleared⟩

end Decoder

end Png
