import Png.Proofs.Filtering
import Png.Proofs.PackedRows
import Png.Proofs.PassGeometry
import Png.Scan

/-!
# Encoding image data

What an encoder makes of the pixels of an image before it compresses them. It takes the rows of one
pass after another, packs their samples and filters the bytes below those of the row of the pass in
front (`Header.encodeRows`). It is free to choose a filter and the padding for every row
(`RowChoices`). `encode_eq` says that these are the rows of the passes that a scan goes through.
-/

namespace Png

/-- What an encoder is free to choose for the row that starts at a place. -/
structure RowChoices where
  filter : Nat × Nat → Filter
  /-- A number whose low bits fill the last byte of the row. -/
  padding : Nat × Nat → Nat

/-- The place of the first pixel of a row. -/
def startOf (row : List (Nat × Nat)) : Nat × Nat := row.headD (0, 0)

/-- Elements that are filtered out give nothing. -/
theorem flatMap_filter {α β : Type} (q : α → Bool) (f : α → List β) (l : List α) :
    (l.filter q).flatMap f = l.flatMap fun a => if q a then f a else [] := by
  induction l with
  | nil => rfl
  | cons a l ih =>
    rw [List.filter_cons, List.flatMap_cons, ← ih]
    split
    · rw [List.flatMap_cons]
    · rw [List.nil_append]

namespace Header

/-- The bytes of the pixels at the places of a row, before they are filtered. -/
def packedRow (h : Header) (c : RowChoices) (pixels : Nat → Nat → List Nat)
    (row : List (Nat × Nat)) : List UInt8 :=
  h.packRow (row.map fun (x, y) => pixels x y) (c.padding (startOf row))

/-- The rows of a pass below the bytes `above`: each is filtered below the one in front of it, and
stands behind its filter byte. -/
def encodeRows (h : Header) (c : RowChoices) (pixels : Nat → Nat → List Nat) :
    (above : List UInt8) → List (List (Nat × Nat)) → List UInt8
  | _, [] => []
  | above, row :: rows =>
    let bytes := h.packedRow c pixels row
    let f := c.filter (startOf row)
    f.code :: f.apply h.pixelBytes above bytes ++ encodeRows h c pixels bytes rows

/-- The row of zeroes above the first row of a pass. -/
def zeroRow (h : Header) (row : List (Nat × Nat)) : List UInt8 :=
  List.replicate (h.rowBytes row.length) 0

/-- The rows of a pass. -/
def encodePass (h : Header) (c : RowChoices) (pixels : Nat → Nat → List Nat)
    (rows : List (List (Nat × Nat))) : List UInt8 :=
  h.encodeRows c pixels (h.zeroRow (rows.headD [])) rows

/-- The rows of all passes. -/
def encode (h : Header) (c : RowChoices) (pixels : Nat → Nat → List Nat) : List UInt8 :=
  (List.range h.interlace.passCount).flatMap fun k =>
    h.encodePass c pixels (h.interlace.passRows h.width h.height k)

/-- The bytes above row `j` of a pass. -/
def rowAbove (h : Header) (c : RowChoices) (pixels : Nat → Nat → List Nat) (p : Pass) :
    Nat → List UInt8
  | 0 => h.zeroRow (p.rowPlaces 0)
  | j + 1 => h.packedRow c pixels (p.rowPlaces j)

section

variable (h : Header) (c : RowChoices) (pixels : Nat → Nat → List Nat)

@[simp]
theorem length_packedRow (row : List (Nat × Nat)) :
    (h.packedRow c pixels row).length = h.rowBytes row.length := by
  rw [packedRow, length_packRow, List.length_map]

@[simp]
theorem length_rowAbove (p : Pass) (j : Nat) :
    (h.rowAbove c pixels p j).length = h.rowBytes p.width := by
  cases j with
  | zero => rw [rowAbove, zeroRow, List.length_replicate, p.length_rowPlaces]
  | succ j => rw [rowAbove, length_packedRow, p.length_rowPlaces]

/-- The rows of pass `k` are those of its grid, unless the grid has no pixels. -/
theorem encodePass_eq {interlace : Interlace} {k : Nat} {grid : Nat × Nat × Nat × Nat}
    (hcount : Pass.Countable interlace h.width h.height)
    (hk : (grid, k) ∈ (Pass.grids interlace).zipIdx) {p : Pass}
    (hp : Pass.ofGrid h.width h.height interlace grid = p) :
    h.encodePass c pixels (interlace.passRows h.width h.height k) =
      if !p.isEmpty then h.encodeRows c pixels (h.rowAbove c pixels p 0) (p.rowsFrom 0)
      else [] := by
  rw [Pass.passRows_eq hcount hk, hp]
  cases hempty : p.isEmpty with
  | true => rfl
  | false =>
    have hheight : 0 < p.height := by
      simp only [Pass.isEmpty, Bool.or_eq_false_iff, beq_eq_false_iff_ne] at hempty
      omega
    show h.encodePass c pixels (p.rowsFrom 0) =
      h.encodeRows c pixels (h.rowAbove c pixels p 0) (p.rowsFrom 0)
    rw [encodePass, Pass.rowsFrom_of_lt hheight, List.headD_cons, rowAbove]

/-- The encoded rows are those of the passes that have pixels. -/
theorem encode_eq (hcount : Pass.Countable h.interlace h.width h.height) :
    h.encode c pixels = (h.passes.filter (!·.isEmpty)).flatMap fun p =>
      h.encodeRows c pixels (h.rowAbove c pixels p 0) (p.rowsFrom 0) := by
  -- Both go through the grids with their numbers.
  have hnumbers : List.range h.interlace.passCount = (Pass.grids h.interlace).zipIdx.map (·.2) := by
    cases h.interlace <;> rfl
  have hpasses : h.passes = (Pass.grids h.interlace).zipIdx.map fun gridk =>
      Pass.ofGrid h.width h.height h.interlace gridk.1 := by
    have hgrids := List.zipIdx_map_fst 0 (Pass.grids h.interlace)
    rw [passes, Pass.ofImage_eq_map, ← Function.comp_def, ← List.map_map, hgrids]
  rw [encode, hnumbers, flatMap_filter, hpasses, List.flatMap_map, List.flatMap_map]
  exact List.flatMap_congr fun gridk hk => h.encodePass_eq c pixels hcount hk rfl

end

/-- Every pixel of a row is read back from its packed bytes. -/
theorem pixelAt?_packedRow {h : Header} (hdepth : h.depth ∈ depths) (c : RowChoices)
    {pixels : Nat → Nat → List Nat} {row : List (Nat × Nat)}
    (hpixels : ∀ place ∈ row, IsPixel h.channels h.depth (pixels place.1 place.2)) {i : Nat}
    (hi : i < row.length) :
    h.pixelAt? (h.packedRow c pixels row).toArray i = some (pixels row[i].1 row[i].2) := by
  have hmem : ∀ pixel ∈ row.map fun (x, y) => pixels x y, IsPixel h.channels h.depth pixel := by
    intro pixel hpixel
    obtain ⟨place, hplace, rfl⟩ := List.mem_map.1 hpixel
    exact hpixels place hplace
  have hlength : i < (row.map fun (x, y) => pixels x y).length := by
    rwa [List.length_map]
  rw [packedRow, pixelAt?_packRow hdepth hmem _ hlength, List.getElem_map]

end Header

end Png
