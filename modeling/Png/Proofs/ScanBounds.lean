import Png.Proofs.StoredPixels

/-!
# Bounds of a scan

What a scan reads and writes is there, as long as the scanlines are (`Header.InBounds`): the bytes
of the lines and of every sample, the entries of the tables and the cells of the raster. The map and
the raster come from functions of their own, whose results are bounded here one by one: the bands
and the modes of `Transform.select`, the tables of `PixelMap.ofTable`, and the stride of a raster.
`Metadata.Coherent.inBounds` puts them together for the files that a decoder accepts.
-/

namespace Png

/-- What a scan asks for is there: in data of `size` bytes, in the rows that it takes from them, in
the pixels and tables of the map and in the raster. -/
structure Header.InBounds (h : Header) (m : PixelMap) (raster : Raster) (size : Nat) : Prop where
  /-- Every line ends inside the data. -/
  line : ∀ n ≤ h.lineLengths.length, (h.lineLengths.take n).sum ≤ size
  /-- The bytes of every sample are in its row, and the shift of a sample narrower than a byte is
  not negative. -/
  sample : ∀ p ∈ h.passes, ∀ i < p.width, ∀ b < h.channels,
    let index := i * h.channels + b
    (h.depth = 16 → 2 * index + 1 < h.rowBytes p.width) ∧
      (h.depth = 8 → index < h.rowBytes p.width) ∧
      (h.depth < 8 → index * h.depth / 8 < h.rowBytes p.width ∧
        h.depth + index * h.depth % 8 ≤ 8)
  /-- There is room for the samples of a pixel, stored and mapped. -/
  channels_le : h.channels ≤ 4
  bands_le : raster.bands ≤ 4
  /-- The map uses the samples that a pixel has, and gives as many as the raster takes. -/
  mapped : ∀ pixel, IsPixel h.channels h.depth pixel →
    ∃ samples, m.map? pixel = some samples ∧ samples.length = raster.bands
  /-- Levels are only spread below eight bits, which is as far as there are factors. -/
  spread : m.transform.mode = .grayTable ∨ m.transform.mode = .grayTableKeyed → h.depth < 8
  /-- The table that levels are spread with has an entry for every level. -/
  gray : m.transform.mode = .grayTable ∨ m.transform.mode = .grayTableKeyed →
    levels h.depth ≤ m.gray.size
  /-- The table that samples are corrected with has an entry for every sample. -/
  gamma : ∀ table, m.gamma = some table → levels h.depth ≤ table.size
  /-- The cells of every pixel are in the raster, and the shift of a packed sample is not
  negative. -/
  cell : ∀ p ∈ h.passes, ∀ i < p.width, ∀ j < p.height,
    let (x, y) := p.position i j
    match raster.layout with
    | .packed => y * raster.stride + x * raster.depth / 8 < raster.cells.size ∧
        raster.depth + x * raster.depth % 8 ≤ 8
    | .interleaved => y * raster.stride + x * raster.bands + raster.bands ≤ raster.cells.size
  /-- The cells of the raster can be counted. -/
  cells_lt : raster.cells.size < levels 64

namespace Header

/-- All prefixes of the lines are no longer than the lines. -/
theorem sum_take_le (ns : List Nat) (n : Nat) : (ns.take n).sum ≤ ns.sum := by
  have h := congrArg List.sum (List.take_append_drop n ns)
  rw [List.sum_append] at h
  omega

/-- The samples of a pixel are at places of their row. -/
theorem sample_inBounds {h : Header} (hdepth : h.depth ∈ depths) {width i b : Nat} (hi : i < width)
    (hb : b < h.channels) :
    let index := i * h.channels + b
    (h.depth = 16 → 2 * index + 1 < h.rowBytes width) ∧
      (h.depth = 8 → index < h.rowBytes width) ∧
      (h.depth < 8 → index * h.depth / 8 < h.rowBytes width ∧
        h.depth + index * h.depth % 8 ≤ 8) := by
  have hwithin := h.sample_within hi hb
  simp only [depths, List.mem_cons, List.not_mem_nil, or_false] at hdepth
  generalize i * h.channels + b = index at hwithin ⊢
  obtain hd | hd | hd | hd | hd := hdepth <;> rw [hd] at hwithin ⊢ <;> omega

end Header

namespace Transform

variable {h : Header} {o : Options} {transparency : Option Transparency}

/-- Only gray below eight bits has a mode that spreads levels. -/
theorem depth_lt_of_spread (hmode : (select h o transparency).mode = .grayTable ∨
    (select h o transparency).mode = .grayTableKeyed) : h.depth < 8 := by
  -- Without a table of levels there are two modes left, and neither is one of these.
  have hplain : ¬((if o.correctGamma then TransformMode.gamma else .copy) = .grayTable ∨
      (if o.correctGamma then TransformMode.gamma else .copy) = .grayTableKeyed) := by
    cases o.correctGamma <;> simp
  cases hcolor : h.color with
  | gray =>
    obtain ⟨hd, -⟩ | ⟨-, -, ht⟩ | ⟨hd, -⟩ | ⟨-, -, ht⟩ := select_gray hcolor o transparency
    · exact hd
    · simp [ht] at hmode
    · exact hd
    · rw [ht] at hmode
      exact absurd hmode hplain
  | rgb =>
    obtain ht | ht := select_rgb hcolor o transparency <;> rw [ht] at hmode
    · simp at hmode
    · exact absurd hmode hplain
  | palette =>
    obtain ⟨-, ht⟩ | ⟨-, ht⟩ | ⟨-, hcopy, -⟩ := select_palette hcolor o transparency
    · simp [ht] at hmode
    · simp [ht] at hmode
    · simp [hcopy] at hmode
  | grayAlpha =>
    obtain ht | ht := select_grayAlpha hcolor o transparency <;> rw [ht] at hmode
    · simp at hmode
    · rw [mode_withGrayAlpha] at hmode
      exact absurd hmode hplain
  | rgba =>
    obtain ht | ht := select_rgba hcolor o transparency <;> rw [ht] at hmode
    · simp at hmode
    · exact absurd hmode hplain

end Transform

namespace PixelMap

/-- The tables of a map have an entry for every sample that is looked up in them. -/
theorem size_gray_ofTable {h : Header} {o : Options} {t : Transform} {gamma : Option (Array Nat)}
    {palette : List Rgb} {transparency : Option Transparency} (hgamma : Corrects o h.depth gamma)
    (hmode : t.mode = .grayTable ∨ t.mode = .grayTableKeyed) :
    (ofTable h t gamma palette transparency).gray.size = levels h.depth := by
  have heven : ((spreadLevels h.depth).map (·.toNat)).toArray.size = levels h.depth := by
    simp [spreadLevels]
  unfold ofTable
  -- With correction the levels are spread by its table, and evenly otherwise.
  cases gamma with
  | none => obtain hmode | hmode := hmode <;> simpa only [hmode] using heven
  | some table =>
    have hcorrected := hgamma.size_eq table rfl
    obtain hmode | hmode := hmode <;> simpa only [hmode] using hcorrected

end PixelMap

namespace Raster

variable {width height bands depth : Nat}

/-- The cells of a raster that can be counted are those of its rows. -/
theorem size_new (hcount : Countable width height bands depth) :
    (Raster.new width height bands depth).cells.size = rowCells width bands depth * height := by
  rw [new, Array.size_replicate, strideOf_eq hcount.row_lt, wrap_eq hcount.cells_lt]

/-- The cells of a pixel of the image are in its raster. -/
theorem cell_inBounds {x y : Nat} (h : Regular bands depth)
    (hcount : Countable width height bands depth) (hx : x < width) (hy : y < height) :
    let raster := Raster.new width height bands depth
    match raster.layout with
    | .packed => y * raster.stride + x * raster.depth / 8 < raster.cells.size ∧
        raster.depth + x * raster.depth % 8 ≤ 8
    | .interleaved => y * raster.stride + x * raster.bands + raster.bands ≤ raster.cells.size := by
  intro raster
  have hstride : raster.stride = rowCells width bands depth := strideOf_eq hcount.row_lt
  have hlayout : raster.layout = layoutOf bands depth := rfl
  rw [size_new hcount, hstride, hlayout]
  obtain h | ⟨rfl, h⟩ := h
  · rw [layoutOf_interleaved h, rowCells_interleaved h]
    exact cells_le hx hy
  · obtain ⟨hcolumn, -, -⟩ := column_eq h x
    rw [layoutOf_packed ⟨rfl, h⟩]
    show y * _ + x * depth / 8 < _ ∧ depth + x * depth % 8 ≤ 8
    rw [hcolumn]
    refine ⟨place_lt (lt_rowCells_packed h hx) hy, ?_⟩
    obtain rfl | rfl | rfl := h <;> omega

end Raster

namespace Metadata

variable {m : Metadata} {h : Header} {t : Transform}

/-- Nothing that a scan of long enough data asks for is missing. -/
theorem Coherent.inBounds (hm : m.Coherent) (hheader : m.header = some h)
    (htransform : m.transform = some t) {size : Nat} (hsize : h.lineLengths.sum ≤ size)
    (hlimit : h.lineLengths.sum < levels 59) :
    h.InBounds (m.pixelMap h t) (m.blankRaster h t) size := by
  have hlegal := hm.legal h hheader
  have hdraws := hm.draws hheader htransform
  have hcount := hm.countable hheader htransform h.interlace hlimit
  have hselect := hm.transform_select hheader htransform
  have hcorrects := m.response.corrects m.options h.depth
  exact {
    line := fun n _ => Nat.le_trans (Header.sum_take_le h.lineLengths n) hsize
    sample := fun p _ i hi b hb => Header.sample_inBounds hlegal.depth_mem hi hb
    channels_le := h.color.channels_le_four
    bands_le := hm.bands_le hheader htransform
    mapped := by
      intro pixel hpixel
      obtain ⟨samples, hmap, hform⟩ := hdraws.maps pixel hpixel
      exact ⟨samples, hmap, hform.1⟩
    spread := by
      intro hmode
      have hmode' : t.mode = .grayTable ∨ t.mode = .grayTableKeyed := hmode
      rw [hselect] at hmode'
      exact Transform.depth_lt_of_spread hmode'
    gray := fun hmode => Nat.le_of_eq (PixelMap.size_gray_ofTable hcorrects hmode).symm
    gamma := fun table htable => Nat.le_of_eq (hcorrects.size_eq table htable).symm
    cell := by
      intro p hp i hi j hj
      obtain ⟨hx, hy⟩ := Pass.position_lt hp hi hj
      exact Raster.cell_inBounds hdraws.regular hcount hx hy
    cells_lt := by
      have hsize : (m.blankRaster h t).cells.size = _ := Raster.size_new hcount
      rw [hsize]
      exact hcount.cells_lt }

end Metadata

end Png
