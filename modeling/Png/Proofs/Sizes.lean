import Png.Libraries.Own
import Png.Proofs.ScanBounds

/-!
# Sizes that are counted in advance

Two sizes are counted before a pixel is drawn: that of all filtered scanlines (`Header.dataSize`),
with sums and products that stop at a limit, and that of the raster. For a header that is read, the
first is the length of what an encoder makes of any image of this form, or the limit where that is
longer (`dataSize_eq_min`). The second is at most 32 times the first (`storageBytes_le`), since a
stored pixel has one bit at least and an output pixel four bytes at most, or sixteen bits and eight
bytes. `sizes_exact` puts the two together for all that a decoder accepts.
-/

namespace Png

/-! ## The size of a header that is read -/

/-- No row of a pass is longer than those of the image. -/
theorem Pass.width_le {width height : Nat} {interlace : Interlace} {p : Pass}
    (hp : p ∈ ofImage width height interlace) : p.width ≤ width := by
  rw [ofImage_eq_map, List.mem_map] at hp
  obtain ⟨grid, hgrid, rfl⟩ := hp
  have hlast := (lt_of_lt_ofGrid width height hgrid).1 width
  have hsteps : width ≤ width * grid.2.2.1 := Nat.le_mul_of_pos_right width (step_pos hgrid).1
  by_contra h
  have := hlast (Nat.lt_of_not_le h)
  omega

namespace Header

/-- The rows of a header that is read are counted in full. -/
theorem countedRowBytes_eq_of_parse {o : Options} {data : List UInt8} {h : Header}
    (hparse : parse o data = .ok h) {width : Nat} (hwidth : width ≤ h.width) :
    h.countedRowBytes width = h.rowBytes width := by
  have hlimit : sizeLimit = 2 ^ 64 - 1 := rfl
  have h32 : levels 32 = 2 ^ 32 := rfl
  have hdepth : h.depth ≤ 16 := by
    have := (legal_of_parse hparse).depth_cases
    omega
  have hwidth' : width ≤ 2 ^ 32 := by
    have := (sized_of_parse hparse).width_lt
    omega
  have hbits : h.channels * width * h.depth ≤ 4 * 2 ^ 32 * 16 :=
    Nat.mul_le_mul (Nat.mul_le_mul h.color.channels_le_four hwidth') hdepth
  rw [countedRowBytes_eq_min, Nat.min_eq_left (by omega), rowBytes]

/-- The size that is counted for a header is the length of what an encoder makes of an image, or the
limit where that is longer. -/
theorem dataSize_eq_min {o : Options} {data : List UInt8} {h : Header}
    (hparse : parse o data = .ok h) (c : RowChoices) (pixels : Nat → Nat → List Nat) :
    h.dataSize = min (h.encode c pixels).length sizeLimit := by
  have hpasses : ∀ p ∈ h.passes.filter (!·.isEmpty),
      p.height * (h.countedRowBytes p.width + 1) = p.height * (h.rowBytes p.width + 1) := by
    intro p hp
    rw [countedRowBytes_eq_of_parse hparse (Pass.width_le (List.mem_filter.1 hp).1)]
  rw [dataSize_eq_min_sum, length_encode h c pixels (sized_of_parse hparse), sum_lineLengths,
    List.map_congr_left hpasses]

end Header

/-! ## The raster -/

/-- The bytes that the cells of a raster take. -/
def Raster.storageBytes (r : Raster) : Nat := r.cells.size * (r.cellBits / 8)

namespace Raster

variable {width height bands depth : Nat}

/-- Cells are bytes, and words at sixteen bits. -/
theorem storageBytes_eq (r : Raster) :
    r.storageBytes = if r.depth = 16 then r.cells.size * 2 else r.cells.size := by
  unfold storageBytes cellBits
  split
  · rfl
  · exact Nat.mul_one _

/-- A row of packed samples has as many bytes as their bits need. -/
theorem rowCells_packed_le_iff (h : depth = 1 ∨ depth = 2 ∨ depth = 4) (n : Nat) :
    rowCells width 1 depth ≤ n ↔ width * depth ≤ 8 * n := by
  rw [rowCells, if_neg (by omega), Nat.one_mul]
  omega

/-- The cells of a raster row by row, as bytes of packed samples or one for every sample. -/
theorem stride_new (h : Regular bands depth) (hcount : Countable width height bands depth) :
    let raster := Raster.new width height bands depth
    raster.cells.size = raster.stride * height ∧
      (raster.layout = .interleaved → raster.stride = bands * width) ∧
      (raster.layout = .packed → ∀ n, raster.stride ≤ n ↔ width * depth ≤ 8 * n) := by
  intro raster
  have hstride : raster.stride = rowCells width bands depth := strideOf_eq hcount.row_lt
  have hlayout : raster.layout = layoutOf bands depth := rfl
  rw [hstride]
  refine ⟨size_new hcount, fun hcells => ?_, fun hcells n => ?_⟩
  · obtain h | h := h
    · exact (rowCells_interleaved h).trans (Nat.mul_comm _ _)
    · rw [hlayout, layoutOf_packed h] at hcells
      cases hcells
  · obtain h | ⟨rfl, h⟩ := h
    · rw [hlayout, layoutOf_interleaved h] at hcells
      cases hcells
    · exact rowCells_packed_le_iff h n

end Raster

namespace Transform

/-- The depth of the output is a byte, or the stored depth. -/
theorem depth_cases (t : Transform) (h : Header) (o : Options) :
    t.depth h o = 8 ∨ t.depth h o = h.depth := by
  unfold depth
  split
  · exact ite_eq_or_eq _ _ _
  · exact ite_eq_or_eq _ _ _
  · exact .inr rfl

end Transform

namespace Metadata

variable {m : Metadata} {h : Header} {t : Transform}

/-- An image that is ready has a header and a transform. -/
theorem of_readiness (hready : m.readiness = .ok (h, t)) :
    m.header = some h ∧ m.transform = some t := by
  simp only [readiness, requireHeader, bind_eq_ok_iff, demand_eq_ok_iff, pure, Except.pure,
    Except.ok.injEq, Prod.mk.injEq] at hready
  obtain ⟨_, hheader, _, htransform, _, -, rfl, rfl⟩ := hready
  exact ⟨hheader, htransform⟩

/-- The raster of an image has at most 32 bytes for each byte of its scanlines. -/
theorem Coherent.storageBytes_le (hm : m.Coherent) (hheader : m.header = some h)
    (htransform : m.transform = some t) (hlimit : h.lineLengths.sum < levels 59) :
    (m.blankRaster h t).storageBytes ≤ 32 * h.lineLengths.sum := by
  have hsized := hm.sized h hheader
  have hbits := Header.bits_le_lines hsized
  have hpixels := Header.pixels_le_lines hsized (hm.legal h hheader).depth_pos
  have hcount := hm.countable hheader htransform h.interlace hlimit
  have hcells : (m.blankRaster h t).cells.size ≤ t.bands * (h.width * h.height) :=
    Nat.le_trans (Nat.le_of_eq (Raster.size_new hcount))
      (Raster.rowCells_mul_le (hm.regular hheader htransform))
  have hfour := Nat.mul_le_mul_right (h.width * h.height) (hm.bands_le hheader htransform)
  have hdepth : (m.blankRaster h t).depth = t.depth h m.options := rfl
  rw [Raster.storageBytes_eq, hdepth]
  split
  · next hword =>
    -- Samples of sixteen bits are stored as such.
    have hstored : h.depth = 16 := by
      have := t.depth_cases h m.options
      omega
    rw [hstored] at hbits
    omega
  · omega

end Metadata

/-- The sizes that are counted before anything is drawn. For every header that is read, the size of
the data is the length of what an encoder makes of an image, whatever its pixels and filters are, as
far as sizes go. When a raster is made for data of at least this size, it takes at most 32 bytes for
each of them, its cells are those of its rows, and a row has a cell for every sample or the bytes
that its bits need. -/
theorem sizes_exact [Libraries] (o : Options) :
    (∀ data h, Header.parse o data = .ok h → ∀ c pixels,
      h.dataSize = min (h.encode c pixels).length (levels 64 - 1)) ∧
    ∀ chunks m h t data, Metadata.acceptAll chunks (.new o) = .ok () m →
      m.readiness = .ok (h, t) → m.inflated = .ok data → h.dataSize ≤ data.length →
      data.length < levels 59 →
      let raster := m.blankRaster h t
      raster.storageBytes ≤ 32 * h.dataSize ∧ raster.storageBytes ≤ 32 * data.length ∧
        raster.storageBytes < levels 64 ∧
        raster.cells.size = raster.stride * h.height ∧
        (raster.layout = .interleaved → raster.stride = t.bands * h.width) ∧
        (raster.layout = .packed → ∀ n, raster.stride ≤ n ↔ h.width * raster.depth ≤ 8 * n) := by
  refine ⟨fun data h hparse => Header.dataSize_eq_min hparse, ?_⟩
  intro chunks m h t data hm hready hinflated hsize hlimit raster
  have hcoherent := Metadata.coherent_of_acceptAll hm
  obtain ⟨hheader, htransform⟩ := Metadata.of_readiness hready
  have hlines := Header.dataSize_eq (Nat.lt_of_le_of_lt hsize hlimit)
  have hshort : h.lineLengths.sum < levels 59 := by omega
  have hregular := hcoherent.regular hheader htransform
  have hcount := hcoherent.countable hheader htransform h.interlace hshort
  have hstorage : raster.storageBytes ≤ _ := hcoherent.storageBytes_le hheader htransform hshort
  rw [← hlines] at hstorage
  have h59 : levels 59 = 2 ^ 59 := rfl
  have h64 : levels 64 = 2 ^ 64 := rfl
  exact ⟨hstorage, by omega, by omega, Raster.stride_new hregular hcount⟩

/-- The largest header of all asks for more bytes than can be counted. Eight indices of one bit take
two bytes, and their colours with opacities take 32. -/
theorem sizes_exact_extremes :
    let chunk (tag : ChunkTag) (data : List UInt8) : Chunk := { tag, data }
    let o : Options := { expandPalette := true, maxWidth := 4294967295, maxHeight := 4294967295 }
    let largest : List UInt8 := List.replicate 8 255 ++ [16, 6, 0, 0, 0]
    let chunks := [chunk (.ofChars 'I' 'H' 'D' 'R') [0, 0, 0, 8, 0, 0, 0, 1, 1, 3, 0, 0, 0],
      chunk (.ofChars 'P' 'L' 'T' 'E') [1, 2, 3], chunk (.ofChars 't' 'R' 'N' 'S') [4],
      chunk (.ofChars 'I' 'D' 'A' 'T') [0x78, 1, 1, 2, 0, 0xFD, 0xFF, 0, 0x70, 0, 0x72, 0, 0x71]]
    (∃ h, Header.parse o largest = .ok h ∧ h.dataSize = levels 64 - 1 ∧
      ∀ c pixels, levels 64 - 1 ≤ (h.encode c pixels).length) ∧
    ∃ m h t data, Metadata.acceptAll chunks (.new o) = .ok () m ∧ m.readiness = .ok (h, t) ∧
      m.inflated = .ok data ∧ h.dataSize = 2 ∧ data.length = 2 ∧
      (m.blankRaster h t).storageBytes = 32 ∧
      (m.blankRaster h t).storageBytes ≤ 32 * h.dataSize := by
  intro chunk o largest chunks
  constructor
  · obtain ⟨h, hparse, hsize⟩ : ∃ h, Header.parse o largest = .ok h ∧
        h.dataSize = levels 64 - 1 :=
      ⟨{ width := 4294967295, height := 4294967295, depth := 16, color := .rgba,
         interlace := .sequential }, by decide, by decide⟩
    refine ⟨h, hparse, hsize, fun c pixels => ?_⟩
    have hexact := (sizes_exact o).1 largest h hparse c pixels
    omega
  · let h : Header := ⟨8, 1, 1, .palette, .sequential⟩
    let t : Transform := { mode := .paletteRgba, bands := 4, gray8 := false, fullOpacity := 1 }
    obtain ⟨m, hm, hready, hinflated, hstorage⟩ : ∃ m,
        Metadata.acceptAll chunks (.new o) = .ok () m ∧ m.readiness = .ok (h, t) ∧
          m.inflated = .ok [0, 0x70] ∧ (m.blankRaster h t).storageBytes = 32 := by
      subst chunks o chunk
      refine ⟨_, rfl, rfl, ?_, ?_⟩ <;> decide +kernel
    have hsize : h.dataSize = 2 := by decide
    have hbounds := (sizes_exact o).2 chunks m h t [0, 0x70] hm hready hinflated
      (Nat.le_of_eq hsize) (by decide)
    exact ⟨m, h, t, _, hm, hready, hinflated, hsize, rfl, hstorage, hbounds.1⟩

end Png
