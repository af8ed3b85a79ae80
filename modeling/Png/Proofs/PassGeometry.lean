import Mathlib.Data.List.Sort
import Mathlib.Data.Set.Function
import Png.Pass

/-!
# The pixels of the passes

The format tells the passes of Adam7 by a tile of eight by eight pixels with the pass of each
(`Interlace.tile`), and the rows of a pass are what is left of the rows of the image when the pixels
of other passes are taken out (`Interlace.passRows`). A `Pass` has a grid instead. `passRows_eq`
says that the rows of its grid are those rows. No pass has a pixel outside the image
(`position_lt`), and a place tells the pass and the pixel there that it comes from
(`injOn_placeOf`). As long as the sizes of the passes can be counted (`Countable`), every pixel of
the image is on the grid of one of them (`exists_position`), so that they are a partition of the
image; a width or height that leaves no room for rounding up loses pixels (`partition_exact`).
-/

namespace Png

namespace Interlace

/-- The passes of the pixels of a tile, counted from zero. -/
def tile : Interlace → List (List Nat)
  | sequential => List.replicate 8 (List.replicate 8 0)
  | adam7 =>
    [[0, 5, 3, 5, 1, 5, 3, 5],
      [6, 6, 6, 6, 6, 6, 6, 6],
      [4, 5, 4, 5, 4, 5, 4, 5],
      [6, 6, 6, 6, 6, 6, 6, 6],
      [2, 5, 3, 5, 2, 5, 3, 5],
      [6, 6, 6, 6, 6, 6, 6, 6],
      [4, 5, 4, 5, 4, 5, 4, 5],
      [6, 6, 6, 6, 6, 6, 6, 6]]

/-- The pass of a pixel. The tile is repeated over the image. -/
def passOf (interlace : Interlace) (x y : Nat) : Nat :=
  (interlace.tile.getD (y % 8) []).getD (x % 8) 0

/-- The places of the pixels in row `y` of an image that are in pass `k`. -/
def passRow (interlace : Interlace) (width k y : Nat) : List (Nat × Nat) :=
  ((List.range width).filter fun x => interlace.passOf x y = k).map fun x => (x, y)

/-- The rows of pass `k`, without those that have no pixels. -/
def passRows (interlace : Interlace) (width height k : Nat) : List (List (Nat × Nat)) :=
  ((List.range height).map (interlace.passRow width k)).filter (!·.isEmpty)

/-- The number of passes. -/
def passCount : Interlace → Nat
  | sequential => 1
  | adam7 => 7

end Interlace

namespace Pass

variable {width height : Nat}

/-- The places in the image of the pixels in row `j` of the pass. -/
def rowPlaces (p : Pass) (j : Nat) : List (Nat × Nat) :=
  (List.range p.width).map fun i => p.position i j

/-- The places in the image of all pixels of the pass. -/
def places (p : Pass) : List (Nat × Nat) :=
  (List.range p.height).flatMap p.rowPlaces

/-- The rows of the pass from row `j` on. -/
def rowsFrom (p : Pass) (j : Nat) : List (List (Nat × Nat)) :=
  (List.range' j (p.height - j)).map p.rowPlaces

@[simp]
theorem length_rowPlaces (p : Pass) (j : Nat) : (p.rowPlaces j).length = p.width := by
  rw [rowPlaces, List.length_map, List.length_range]

/-- The first of the rows that are left stands in front of the others. -/
theorem rowsFrom_of_lt {p : Pass} {j : Nat} (hj : j < p.height) :
    p.rowsFrom j = p.rowPlaces j :: p.rowsFrom (j + 1) := by
  have hcount : p.height - j = p.height - (j + 1) + 1 := by omega
  rw [rowsFrom, hcount, List.range'_succ, List.map_cons, rowsFrom]

theorem rowsFrom_height (p : Pass) : p.rowsFrom p.height = [] := by
  rw [rowsFrom, Nat.sub_self, List.range'_zero, List.map_nil]

/-- A number of steps from the offset that is counted ends below the size, also if a sum has gone
round. -/
theorem lt_of_lt_extent {size offset step i : Nat} (hstep : 0 < step)
    (h : i < extent size offset step) : offset + i * step < size := by
  unfold extent at h
  split at h
  · omega
  · have hle : wrap (size - offset + step - 1) ≤ size - offset + step - 1 := Nat.mod_le _ _
    rw [Nat.lt_div_iff_mul_lt hstep] at h
    omega

/-- A number of steps from the offset is counted if it ends below the size. -/
theorem lt_extent_iff {size offset step : Nat} (hstep : 0 < step)
    (hsize : size + step ≤ levels 64) (i : Nat) :
    i < extent size offset step ↔ offset + i * step < size := by
  refine ⟨lt_of_lt_extent hstep, fun h => ?_⟩
  rw [extent, if_neg (by omega), wrap_eq (by omega), Nat.lt_div_iff_mul_lt hstep]
  omega

/-- The grids of an image. -/
def grids : Interlace → List (Nat × Nat × Nat × Nat)
  | .sequential => [(0, 0, 1, 1)]
  | .adam7 => adam7Grids

/-- Every grid starts within its first step, and a tile is a whole number of steps. -/
theorem grid_facts {interlace : Interlace} {grid : Nat × Nat × Nat × Nat}
    (h : grid ∈ grids interlace) :
    (grid.1 < grid.2.2.1 ∧ grid.2.2.1 ∣ 8) ∧ grid.2.1 < grid.2.2.2 ∧ grid.2.2.2 ∣ 8 := by
  revert grid
  cases interlace <;> decide

/-- Every grid moves on. -/
theorem step_pos {interlace : Interlace} {grid : Nat × Nat × Nat × Nat}
    (h : grid ∈ grids interlace) : 0 < grid.2.2.1 ∧ 0 < grid.2.2.2 := by
  have := grid_facts h
  omega

/-- The pass of an image on a grid. A sequential image has its own size for a pass, and nothing is
rounded up. -/
def ofGrid (width height : Nat) (interlace : Interlace) (grid : Nat × Nat × Nat × Nat) : Pass :=
  match interlace with
  | .sequential => whole width height
  | .adam7 => onGrid width height grid

theorem ofImage_eq_map (width height : Nat) (interlace : Interlace) :
    ofImage width height interlace = (grids interlace).map (ofGrid width height interlace) := by
  cases interlace <;> rfl

/-- Rounding up to whole tiles of Adam7 does not leave the words. -/
def Countable (interlace : Interlace) (width height : Nat) : Prop :=
  interlace = .adam7 → width + 7 < levels 64 ∧ height + 7 < levels 64

section

variable {interlace : Interlace} {grid : Nat × Nat × Nat × Nat}

/-- Steps on the grid lead from pixel to pixel of the pass. -/
theorem position_ofGrid (width height : Nat) (h : grid ∈ grids interlace) (i j : Nat) :
    (ofGrid width height interlace grid).position i j =
      (grid.1 + i * grid.2.2.1, grid.2.1 + j * grid.2.2.2) := by
  cases interlace with
  | sequential =>
    obtain rfl : grid = (0, 0, 1, 1) := List.mem_singleton.1 h
    rfl
  | adam7 => rfl

theorem lt_of_lt_ofGrid (width height : Nat) (h : grid ∈ grids interlace) :
    (∀ i < (ofGrid width height interlace grid).width, grid.1 + i * grid.2.2.1 < width) ∧
      ∀ j < (ofGrid width height interlace grid).height, grid.2.1 + j * grid.2.2.2 < height := by
  cases interlace with
  | sequential =>
    obtain rfl : grid = (0, 0, 1, 1) := List.mem_singleton.1 h
    simp [ofGrid, whole]
  | adam7 =>
    obtain ⟨hxStep, hyStep⟩ := step_pos h
    exact ⟨fun _ => lt_of_lt_extent hxStep, fun _ => lt_of_lt_extent hyStep⟩

theorem lt_ofGrid_iff (hcount : Countable interlace width height) (h : grid ∈ grids interlace) :
    (∀ i, i < (ofGrid width height interlace grid).width ↔ grid.1 + i * grid.2.2.1 < width) ∧
      ∀ j, j < (ofGrid width height interlace grid).height ↔
        grid.2.1 + j * grid.2.2.2 < height := by
  cases interlace with
  | sequential =>
    obtain rfl : grid = (0, 0, 1, 1) := List.mem_singleton.1 h
    simp [ofGrid, whole]
  | adam7 =>
    obtain ⟨hwidth, hheight⟩ := hcount rfl
    obtain ⟨⟨-, hx⟩, -, hy⟩ := grid_facts h
    obtain ⟨hxStep, hyStep⟩ := step_pos h
    have hxSize : width + grid.2.2.1 ≤ levels 64 := by
      have := Nat.le_of_dvd (by decide) hx
      omega
    have hySize : height + grid.2.2.2 ≤ levels 64 := by
      have := Nat.le_of_dvd (by decide) hy
      omega
    exact ⟨lt_extent_iff hxStep hxSize, lt_extent_iff hyStep hySize⟩

/-- The pixel of a grid at a place that the grid's steps reach from its offsets. -/
theorem exists_ofGrid (hcount : Countable interlace width height) (h : grid ∈ grids interlace)
    {x y : Nat} (hx : x < width) (hy : y < height) (hxOffset : grid.1 ≤ x) (hyOffset : grid.2.1 ≤ y)
    (hxGrid : (x - grid.1) % grid.2.2.1 = 0) (hyGrid : (y - grid.2.1) % grid.2.2.2 = 0) :
    let p := ofGrid width height interlace grid
    ∃ i < p.width, ∃ j < p.height, p.position i j = (x, y) := by
  have hi : grid.1 + (x - grid.1) / grid.2.2.1 * grid.2.2.1 = x := by
    have := Nat.div_add_mod' (x - grid.1) grid.2.2.1
    omega
  have hj : grid.2.1 + (y - grid.2.1) / grid.2.2.2 * grid.2.2.2 = y := by
    have := Nat.div_add_mod' (y - grid.2.1) grid.2.2.2
    omega
  obtain ⟨hcolumns, hrows⟩ := lt_ofGrid_iff hcount h
  refine ⟨(x - grid.1) / grid.2.2.1, ?_, (y - grid.2.1) / grid.2.2.2, ?_, ?_⟩
  · exact (hcolumns _).2 (hi.symm ▸ hx)
  · exact (hrows _).2 (hj.symm ▸ hy)
  · rw [position_ofGrid _ _ h]
    exact Prod.ext hi hj

end

/-- The numbers below `n` on a grid, as many as there are. -/
theorem filter_range_eq_map {offset step count n : Nat} (h : offset < step)
    (hcount : ∀ i, i < count ↔ offset + i * step < n) :
    (List.range n).filter (fun x => x % step = offset) =
      (List.range count).map fun i => offset + i * step := by
  have hstep : 0 < step := Nat.zero_lt_of_lt h
  -- Both lists ascend, and they have the same members.
  have hgrid : ((List.range n).filter fun x => x % step = offset).Pairwise (· < ·) :=
    List.pairwise_lt_range.filter _
  have hsteps : ((List.range count).map fun i => offset + i * step).Pairwise (· < ·) := by
    refine List.pairwise_map.2 (List.pairwise_lt_range.imp ?_)
    intro i j hij
    exact Nat.add_lt_add_left (Nat.mul_lt_mul_of_pos_right hij hstep) offset
  refine hgrid.eq_of_mem_iff hsteps fun x => ?_
  simp only [List.mem_filter, List.mem_range, decide_eq_true_eq, List.mem_map, hcount]
  constructor
  · rintro ⟨hx, hmod⟩
    have hplace : offset + x / step * step = x := by
      have := Nat.div_add_mod' x step
      omega
    exact ⟨x / step, by rwa [hplace], hplace⟩
  · rintro ⟨i, hi, rfl⟩
    exact ⟨hi, by rw [Nat.add_mul_mod_self_right, Nat.mod_eq_of_lt h]⟩

/-- In a tile the pixels of pass `k` are those on grid `k`. -/
theorem tile_eq_iff {interlace : Interlace} {k : Nat} {grid : Nat × Nat × Nat × Nat}
    (h : (grid, k) ∈ (grids interlace).zipIdx) {x y : Nat} (hx : x < 8) (hy : y < 8) :
    (interlace.tile.getD y []).getD x 0 = k ↔
      x % grid.2.2.1 = grid.1 ∧ y % grid.2.2.2 = grid.2.1 := by
  have htile : ∀ gridk ∈ (grids interlace).zipIdx, ∀ x < 8, ∀ y < 8,
      ((interlace.tile.getD y []).getD x 0 = gridk.2 ↔
        x % gridk.1.2.2.1 = gridk.1.1 ∧ y % gridk.1.2.2.2 = gridk.1.2.1) := by
    cases interlace <;> decide
  exact htile (grid, k) h x hx y hy

/-- The pixels of pass `k` are those on grid `k`. -/
theorem passOf_eq_iff {interlace : Interlace} {k : Nat} {grid : Nat × Nat × Nat × Nat}
    (h : (grid, k) ∈ (grids interlace).zipIdx) (x y : Nat) :
    interlace.passOf x y = k ↔ x % grid.2.2.1 = grid.1 ∧ y % grid.2.2.2 = grid.2.1 := by
  obtain ⟨⟨-, hx⟩, -, hy⟩ := grid_facts (List.fst_mem_of_mem_zipIdx h)
  have hmod : x % 8 < 8 ∧ y % 8 < 8 := by omega
  rw [Interlace.passOf, tile_eq_iff h hmod.1 hmod.2, Nat.mod_mod_of_dvd x hx,
    Nat.mod_mod_of_dvd y hy]

section

variable {interlace : Interlace} {k : Nat} {grid : Nat × Nat × Nat × Nat}
  (hcount : Countable interlace width height) (h : (grid, k) ∈ (grids interlace).zipIdx)

include hcount h

/-- A row of the image has the columns of the grid, or no pixels of the pass at all. -/
theorem passRow_eq (y : Nat) :
    interlace.passRow width k y =
      if y % grid.2.2.2 = grid.2.1 then
        (List.range (ofGrid width height interlace grid).width).map fun i =>
          (grid.1 + i * grid.2.2.1, y)
      else [] := by
  have hmem := List.fst_mem_of_mem_zipIdx h
  obtain ⟨⟨hxOffset, -⟩, -⟩ := grid_facts hmem
  have hcolumns := filter_range_eq_map hxOffset (lt_ofGrid_iff hcount hmem).1
  simp only [Interlace.passRow, passOf_eq_iff h]
  split
  · next hy =>
    simp only [hy, and_true, hcolumns, List.map_map]
    rfl
  · next hy => simp [hy]

/-- The rows of pass `k` of an image are those of its grid, unless the grid has no pixels. -/
theorem passRows_eq :
    interlace.passRows width height k =
      if (ofGrid width height interlace grid).isEmpty then []
      else (ofGrid width height interlace grid).rowsFrom 0 := by
  have hmem := List.fst_mem_of_mem_zipIdx h
  obtain ⟨-, hyOffset, -⟩ := grid_facts hmem
  have hrows := filter_range_eq_map hyOffset (lt_ofGrid_iff hcount hmem).2
  have hrow := passRow_eq hcount h
  have hposition := position_ofGrid width height hmem
  generalize ofGrid width height interlace grid = p at hrows hrow hposition ⊢
  rw [Interlace.passRows]
  -- Without columns all rows of the pass are empty, and none is kept.
  by_cases hwidth : p.width = 0
  · rw [if_pos (by simp [isEmpty, hwidth]), List.filter_eq_nil_iff]
    intro row hmem
    obtain ⟨y, -, rfl⟩ := List.mem_map.1 hmem
    simp [hrow, hwidth]
  · have hempty : ∀ y, (!(interlace.passRow width k y).isEmpty) =
        decide (y % grid.2.2.2 = grid.2.1) := by
      intro y
      by_cases hy : y % grid.2.2.2 = grid.2.1 <;> simp [hrow, hy, hwidth]
    -- These rows, in order, are the rows of the pass.
    have hplaces : p.rowsFrom 0 =
        ((List.range height).filter fun y => y % grid.2.2.2 = grid.2.1).map
          (interlace.passRow width k) := by
      rw [hrows, List.map_map, rowsFrom, Nat.sub_zero, ← List.range_eq_range']
      refine List.map_congr_left fun j _ => ?_
      have hy : (grid.2.1 + j * grid.2.2.2) % grid.2.2.2 = grid.2.1 := by
        rw [Nat.add_mul_mod_self_right, Nat.mod_eq_of_lt hyOffset]
      simp only [Function.comp_apply, hrow, hy, if_true, rowPlaces, hposition]
    have hkept : ((List.range height).map (interlace.passRow width k)).filter (!·.isEmpty) =
        p.rowsFrom 0 := by
      rw [List.filter_map, hplaces]
      congr 1
      exact List.filter_congr fun y _ => hempty y
    rw [hkept]
    split
    · next hp =>
      have hheight : p.height = 0 := by simpa [isEmpty, hwidth] using hp
      rw [rowsFrom, hheight]
      rfl
    · rfl

end

/-- Every pixel of the image is a pixel of one of its passes. -/
theorem exists_position {interlace : Interlace} (hcount : Countable interlace width height)
    {x y : Nat} (hx : x < width) (hy : y < height) :
    ∃ p ∈ ofImage width height interlace, ∃ i < p.width, ∃ j < p.height,
      p.position i j = (x, y) := by
  -- The grid is found by how often two divides the column and the row, up to three times.
  obtain ⟨xOffset, yOffset, xStep, yStep, hmem, hxOffset, hyOffset, hxGrid, hyGrid⟩ :
      ∃ xOffset yOffset xStep yStep, (xOffset, yOffset, xStep, yStep) ∈ grids interlace ∧
        xOffset ≤ x ∧ yOffset ≤ y ∧ (x - xOffset) % xStep = 0 ∧ (y - yOffset) % yStep = 0 := by
    cases interlace with
    | sequential => exact ⟨0, 0, 1, 1, by decide, by omega⟩
    | adam7 =>
      by_cases h₇ : y % 2 = 1
      · exact ⟨0, 1, 1, 2, by decide, by omega⟩
      by_cases h₆ : x % 2 = 1
      · exact ⟨1, 0, 2, 2, by decide, by omega⟩
      by_cases h₅ : y % 4 = 2
      · exact ⟨0, 2, 2, 4, by decide, by omega⟩
      by_cases h₄ : x % 4 = 2
      · exact ⟨2, 0, 4, 4, by decide, by omega⟩
      by_cases h₃ : y % 8 = 4
      · exact ⟨0, 4, 4, 8, by decide, by omega⟩
      by_cases h₂ : x % 8 = 4
      · exact ⟨4, 0, 8, 8, by decide, by omega⟩
      exact ⟨0, 0, 8, 8, by decide, by omega⟩
  refine ⟨ofGrid width height interlace (xOffset, yOffset, xStep, yStep), ?_, ?_⟩
  · rw [ofImage_eq_map]
    exact List.mem_map_of_mem hmem
  · exact exists_ofGrid hcount hmem hx hy hxOffset hyOffset hxGrid hyGrid

/-- Every pixel of a pass is in the image. -/
theorem position_lt {interlace : Interlace} {p : Pass} (hp : p ∈ ofImage width height interlace)
    {i j : Nat} (hi : i < p.width) (hj : j < p.height) :
    (p.position i j).1 < width ∧ (p.position i j).2 < height := by
  rw [ofImage_eq_map, List.mem_map] at hp
  obtain ⟨grid, hgrid, rfl⟩ := hp
  obtain ⟨hcolumns, hrows⟩ := lt_of_lt_ofGrid width height hgrid
  rw [position_ofGrid _ _ hgrid]
  exact ⟨hcolumns i hi, hrows j hj⟩

/-! ## The partition -/

/-- The place is on the grid of the pass, whose steps go on past the edges of the image. -/
def OnGrid (p : Pass) (x y : Nat) : Prop := ∃ i j, p.position i j = (x, y)

/-- The pixels of passes, each told by the number of its pass and its column and row there. -/
def pixelsOf (passes : List Pass) : Set (Fin passes.length × Nat × Nat) :=
  {a | a.2.1 < passes[a.1].width ∧ a.2.2 < passes[a.1].height}

/-- The place in the image of a pixel that is told in this way. -/
def placeOf (passes : List Pass) (a : Fin passes.length × Nat × Nat) : Nat × Nat :=
  passes[a.1].position a.2.1 a.2.2

/-- Passes are a partition of the pixels of an image. -/
structure IsPartition (passes : List Pass) (width height : Nat) : Prop where
  /-- Every pixel of a pass has its place in the image, and every place comes from one of them. -/
  bijOn : Set.BijOn (placeOf passes) (pixelsOf passes)
    {place | place.1 < width ∧ place.2 < height}
  /-- A pass is empty exactly if no pixel of the image is on its grid. -/
  isEmpty_iff : ∀ k : Fin passes.length,
    passes[k].isEmpty = true ↔ ¬∃ x < width, ∃ y < height, passes[k].OnGrid x y

/-- The pass of each number is the one on the grid of that number. -/
theorem exists_grid {interlace : Interlace}
    (k : Fin (ofImage width height interlace).length) :
    ∃ grid, (grid, k.val) ∈ (grids interlace).zipIdx ∧
      (ofImage width height interlace)[k] = ofGrid width height interlace grid := by
  have hlength : (ofImage width height interlace).length = (grids interlace).length := by
    rw [ofImage_eq_map, List.length_map]
  have hk : k.val < (grids interlace).length := hlength ▸ k.isLt
  refine ⟨(grids interlace)[k.val], ?_, ?_⟩
  · rw [List.mem_zipIdx_iff_getElem?]
    exact List.getElem?_eq_getElem hk
  · simp only [Fin.getElem_fin, ofImage_eq_map, List.getElem_map]

/-- Each place on a grid is in the pass of that grid. -/
theorem passOf_position (width height : Nat) {interlace : Interlace} {k : Nat}
    {grid : Nat × Nat × Nat × Nat} (h : (grid, k) ∈ (grids interlace).zipIdx) (i j : Nat) :
    let place := (ofGrid width height interlace grid).position i j
    interlace.passOf place.1 place.2 = k := by
  have hmem := List.fst_mem_of_mem_zipIdx h
  obtain ⟨⟨hx, -⟩, hy, -⟩ := grid_facts hmem
  rw [position_ofGrid _ _ hmem]
  refine (passOf_eq_iff h _ _).2 ⟨?_, ?_⟩
  · rw [Nat.add_mul_mod_self_right, Nat.mod_eq_of_lt hx]
  · rw [Nat.add_mul_mod_self_right, Nat.mod_eq_of_lt hy]

/-- On one grid different steps lead to different places. -/
theorem position_injective {interlace : Interlace} {grid : Nat × Nat × Nat × Nat}
    (hgrid : grid ∈ grids interlace) {i j i' j' : Nat}
    (h : (ofGrid width height interlace grid).position i j =
      (ofGrid width height interlace grid).position i' j') : i = i' ∧ j = j' := by
  rw [position_ofGrid _ _ hgrid, position_ofGrid _ _ hgrid] at h
  obtain ⟨hx, hy⟩ := step_pos hgrid
  obtain ⟨hcolumn, hrow⟩ := Prod.ext_iff.1 h
  exact ⟨Nat.eq_of_mul_eq_mul_right hx (Nat.add_left_cancel hcolumn),
    Nat.eq_of_mul_eq_mul_right hy (Nat.add_left_cancel hrow)⟩

variable (width height : Nat) (interlace : Interlace)

/-- Pixels of the passes have their places in the image. -/
theorem mapsTo_placeOf :
    Set.MapsTo (placeOf (ofImage width height interlace))
      (pixelsOf (ofImage width height interlace)) {place | place.1 < width ∧ place.2 < height} := by
  rintro ⟨k, i, j⟩ ⟨hi, hj⟩
  exact position_lt (List.getElem_mem k.isLt) hi hj

/-- No place comes from two pixels: the pass is told by the tile, and the steps by the grid. -/
theorem injOn_placeOf :
    Set.InjOn (placeOf (ofImage width height interlace))
      (pixelsOf (ofImage width height interlace)) := by
  rintro ⟨k, i, j⟩ - ⟨k', i', j'⟩ - h
  obtain ⟨grid, hgrid, hpass⟩ := exists_grid k
  obtain ⟨grid', hgrid', hpass'⟩ := exists_grid k'
  simp only [placeOf] at h
  have hk : k = k' := by
    let place := (ofGrid width height interlace grid).position i j
    let place' := (ofGrid width height interlace grid').position i' j'
    refine Fin.ext ?_
    calc k.val
      _ = interlace.passOf place.1 place.2 := (passOf_position width height hgrid i j).symm
      _ = interlace.passOf place'.1 place'.2 := by simp only [place, place', ← hpass, ← hpass', h]
      _ = k'.val := passOf_position width height hgrid' i' j'
  subst hk
  rw [hpass] at h
  obtain ⟨rfl, rfl⟩ := position_injective (List.fst_mem_of_mem_zipIdx hgrid) h
  rfl

variable {width height interlace}

/-- A pass has no pixels if none of the image is on its grid: the first of the pass would be one. -/
theorem isEmpty_of_no_pixel {p : Pass} (hp : p ∈ ofImage width height interlace)
    (hnone : ¬∃ x < width, ∃ y < height, p.OnGrid x y) : p.isEmpty = true := by
  by_contra hempty
  simp only [isEmpty, Bool.or_eq_true, beq_iff_eq, not_or] at hempty
  obtain ⟨hx, hy⟩ := position_lt hp (Nat.pos_of_ne_zero hempty.1) (Nat.pos_of_ne_zero hempty.2)
  exact hnone ⟨_, hx, _, hy, 0, 0, rfl⟩

/-- An image without pixels has passes without pixels. -/
theorem isPartition_of_no_pixel (h : width = 0 ∨ height = 0) :
    IsPartition (ofImage width height interlace) width height := by
  refine ⟨⟨mapsTo_placeOf width height interlace, injOn_placeOf width height interlace, ?_⟩, ?_⟩
  · rintro ⟨x, y⟩ ⟨hx, hy⟩
    omega
  · intro k
    have hnone : ¬∃ x < width, ∃ y < height,
        ((ofImage width height interlace)[k]).OnGrid x y := by
      rintro ⟨x, hx, y, hy, -⟩
      omega
    simp only [hnone, not_false_eq_true, iff_true]
    exact isEmpty_of_no_pixel (List.getElem_mem k.isLt) hnone

/-- As long as their sizes can be counted, the passes are a partition of the image. -/
theorem isPartition_of_countable (hcount : Countable interlace width height) :
    IsPartition (ofImage width height interlace) width height where
  bijOn := by
    refine ⟨mapsTo_placeOf width height interlace, injOn_placeOf width height interlace, ?_⟩
    rintro ⟨x, y⟩ ⟨hx, hy⟩
    obtain ⟨p, hp, i, hi, j, hj, hplace⟩ := exists_position hcount hx hy
    obtain ⟨k, hk, rfl⟩ := List.getElem_of_mem hp
    exact ⟨(⟨k, hk⟩, i, j), ⟨hi, hj⟩, hplace⟩
  isEmpty_iff k := by
    refine ⟨?_, isEmpty_of_no_pixel (List.getElem_mem k.isLt)⟩
    rintro hempty ⟨x, hx, y, hy, i, j, hplace⟩
    obtain ⟨grid, hgrid, hpass⟩ := exists_grid k
    have hmem : grid ∈ grids interlace := List.fst_mem_of_mem_zipIdx hgrid
    obtain ⟨hcolumns, hrows⟩ := lt_ofGrid_iff hcount hmem
    rw [hpass] at hempty hplace
    rw [position_ofGrid _ _ hmem] at hplace
    obtain ⟨rfl, rfl⟩ := Prod.ext_iff.1 hplace
    have hi := (hcolumns i).2 hx
    have hj := (hrows j).2 hy
    simp only [isEmpty, Bool.or_eq_true, beq_iff_eq] at hempty
    omega

/-- A size that leaves no room for rounding up has no step of the first grid. -/
theorem extent_of_wrapped {size : Nat} (hsize : size < levels 64) (h : levels 64 ≤ size + 7) :
    extent size 0 8 = 0 := by
  have hlevels : levels 64 = 18446744073709551616 := by decide
  rw [hlevels] at hsize h
  unfold extent wrap
  rw [hlevels]
  split
  · rfl
  · omega

/-- Where the passes are a partition of an image with pixels, their sizes can be counted: the first
pixel of an image that is too large is on the first grid only, which has no pixels then. -/
theorem countable_of_isPartition (hwidth : width < levels 64) (hheight : height < levels 64)
    (h : IsPartition (ofImage width height interlace) width height) (hx : 0 < width)
    (hy : 0 < height) : Countable interlace width height := by
  rintro rfl
  obtain ⟨⟨k, i, j⟩, ⟨hi, hj⟩, hplace⟩ := h.bijOn.surjOn (show (0, 0) ∈ _ from ⟨hx, hy⟩)
  obtain ⟨grid, hgrid, hpass⟩ := exists_grid k
  simp only [placeOf, hpass] at hi hj hplace
  have hk : Interlace.adam7.passOf 0 0 = k.val := by
    have hpassOf := passOf_position width height hgrid i j
    rwa [hplace] at hpassOf
  obtain rfl : grid = (0, 0, 8, 8) := by
    have hfirst : (grids .adam7)[(0 : Nat)]? = some grid := by
      rw [List.mem_zipIdx_iff_getElem?, ← hk] at hgrid
      exact hgrid
    exact (Option.some_inj.1 hfirst).symm
  constructor
  · by_contra hlarge
    have hzero := extent_of_wrapped hwidth (Nat.le_of_not_lt hlarge)
    simp only [ofGrid, onGrid, hzero, Nat.not_lt_zero] at hi
  · by_contra hlarge
    have hzero := extent_of_wrapped hheight (Nat.le_of_not_lt hlarge)
    simp only [ofGrid, onGrid, hzero, Nat.not_lt_zero] at hj

/-- A program that stops gets the passes of an image whose sizes can be counted. -/
theorem of_ofImage? {passes : List Pass} (h : ofImage? width height interlace = some passes) :
    passes = ofImage width height interlace ∧ Countable interlace width height := by
  unfold ofImage? at h
  split at h
  · next hcount =>
    refine ⟨(Option.some_inj.1 h).symm, fun hadam7 => ?_⟩
    -- The first grid has the longest steps, and starts at the first pixel.
    have hfirst := List.all_eq_true.1 (hcount.resolve_left (by simp [hadam7])) (0, 0, 8, 8)
      (List.mem_cons_self)
    have hlevels : levels 64 = 18446744073709551616 := by decide
    simp only [addsUp, Bool.and_eq_true, Bool.or_eq_true, decide_eq_true_eq, hlevels] at hfirst ⊢
    omega
  · cases h

/-- The passes are a partition of the image, whatever its size, if a program stops where a sum
leaves the words: it has no passes otherwise. If sums go round there, they are one unless the image
has pixels and is too large for its width and height to be rounded up. -/
theorem partition_exact (width height : Nat) (interlace : Interlace) (hwidth : width < levels 64)
    (hheight : height < levels 64) :
    (∀ passes, ofImage? width height interlace = some passes →
      IsPartition passes width height) ∧
    (IsPartition (ofImage width height interlace) width height ↔
      width = 0 ∨ height = 0 ∨ Countable interlace width height) := by
  refine ⟨fun passes hpasses => ?_, fun h => ?_, ?_⟩
  · obtain ⟨rfl, hcount⟩ := of_ofImage? hpasses
    exact isPartition_of_countable hcount
  · by_cases hx : width = 0
    · exact .inl hx
    by_cases hy : height = 0
    · exact .inr (.inl hy)
    exact .inr (.inr (countable_of_isPartition hwidth hheight h (Nat.pos_of_ne_zero hx)
      (Nat.pos_of_ne_zero hy)))
  · rintro (hx | hy | hcount)
    · exact isPartition_of_no_pixel (.inl hx)
    · exact isPartition_of_no_pixel (.inr hy)
    · exact isPartition_of_countable hcount

/-- An image of five by three pixels, and the widest that can be rounded up. -/
theorem partition_exact_widest :
    (∃ passes, ofImage? 5 3 .adam7 = some passes ∧ IsPartition passes 5 3) ∧
    IsPartition (ofImage (levels 64 - 8) 1 .adam7) (levels 64 - 8) 1 := by
  refine ⟨⟨ofImage 5 3 .adam7, by decide, ?_⟩, ?_⟩
  · exact (partition_exact 5 3 .adam7 (by decide) (by decide)).1 _ (by decide)
  · exact (partition_exact (levels 64 - 8) 1 .adam7 (by decide) (by decide)).2.2
      (.inr (.inr fun _ => by decide))

/-- The widest image there is has a first pass without pixels, or no passes at all. -/
theorem not_isPartition_widest :
    ¬IsPartition (ofImage (levels 64 - 1) 1 .adam7) (levels 64 - 1) 1 ∧
      ofImage? (levels 64 - 1) 1 .adam7 = none := by
  refine ⟨fun h => ?_, by decide⟩
  have hcount := countable_of_isPartition (by decide) (by decide) h (by decide) (by decide)
  exact absurd (hcount rfl).1 (by decide)

end Pass

end Png
