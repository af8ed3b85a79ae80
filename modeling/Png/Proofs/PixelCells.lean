import Png.Proofs.PixelRaster

/-!
# Pixels that are written

A raster is written pixel by pixel, in any order and as often as one likes. What is read at a place
is what was written there last, cut to the depth of the raster, and zero where nothing was written
(`cells_independent`): though narrow samples share bytes, no write shows anywhere else. The bits
behind the last pixel of a packed row belong to no place, and stay zero. A run of writes is a run of
changes to the function that the raster stands for (`writeAll?_ofPixels`), and such a function only
remembers the last change at a place (`putAll_eq`).

All of this needs a raster whose cells can be counted. A program that stops where a product leaves
the words makes no other raster (`of_new?`), and one that goes on may make a raster in which two
pixels share a cell (`cells_shared`).
-/

namespace Png.Raster

/-- A pixel that is written at a place. -/
structure Write where
  x : Nat
  y : Nat
  samples : List Nat

/-- The place is in the image, and there is a sample of sixteen bits for every band. -/
def Write.Inside (width height bands : Nat) (w : Write) : Prop :=
  w.x < width ∧ w.y < height ∧ IsPixel bands 16 w.samples

/-- Writes pixels one after the other. -/
def writeAll? (r : Raster) (writes : List Write) : Option Raster :=
  writes.foldlM (fun r w => r.write? w.x w.y w.samples) r

/-- The samples that were written last at a place. -/
def lastAt? (writes : List Write) (x y : Nat) : Option (List Nat) :=
  (writes.reverse.find? fun w => w.x = x ∧ w.y = y).map (·.samples)

/-- The pixel at a place behind some writes: the samples that were written last, cut to `depth`
bits, or else zeroes. -/
def written (bands depth : Nat) (writes : List Write) (x y : Nat) : List Nat :=
  match lastAt? writes x y with
  | some samples => samples.map (· % levels depth)
  | none => List.replicate bands 0

/-- What is read from a raster behind some writes to it. -/
structure Remembers (width height bands depth : Nat) (writes : List Write) (r : Raster) : Prop where
  /-- At every place there are the samples that were written last, cut to the depth, and zeroes if
  nothing was written. -/
  read_eq : ∀ x < width, ∀ y < height, ∀ buffer : List Nat, bands ≤ buffer.length →
    r.read? x y buffer = some (written bands depth writes x y ++ buffer.drop bands)
  /-- Samples of sixteen bits are not cut. -/
  written_eq : depth = 16 → ∀ x y,
    written bands depth writes x y = (lastAt? writes x y).getD (List.replicate bands 0)
  /-- One more write changes nothing at any other place. -/
  write_apart : ∀ w : Write, w.Inside width height bands →
    ∃ r', r.write? w.x w.y w.samples = some r' ∧ ∀ x < width, ∀ y < height,
      (x, y) ≠ (w.x, w.y) → ∀ buffer, r'.read? x y buffer = r.read? x y buffer
  /-- In a packed row the bits behind the last pixel are zero. -/
  spare_zero : r.layout = .packed → ∀ y < height, ∀ bit, width * depth ≤ bit →
    bit < 8 * r.stride →
      ∃ byte, r.cells[y * r.stride + bit / 8]? = some byte ∧ getBits 1 (7 - bit % 8) byte = 0

/-- The function changed by writes, whose samples are cut to `depth` bits. -/
def putAll (depth : Nat) (f : Nat → Nat → List Nat) (writes : List Write) : Nat → Nat → List Nat :=
  writes.foldl (fun f w => put f w.x w.y (w.samples.map (· % levels depth))) f

section

variable {width height bands depth : Nat} {f : Nat → Nat → List Nat} {writes : List Write}

/-! ## One write after the other -/

theorem fits_put (hf : Fits width height bands depth f) {w : Write}
    (hw : w.Inside width height bands) :
    Fits width height bands depth (put f w.x w.y (w.samples.map (· % levels depth))) := by
  intro x hx y hy
  rw [put]
  split
  · refine ⟨(List.length_map _).trans hw.2.2.1, fun s hs => ?_⟩
    obtain ⟨sample, -, rfl⟩ := List.mem_map.1 hs
    exact Nat.mod_lt _ (levels_pos depth)
  · exact hf x hx y hy

/-- Writes inside the image all succeed, and change the function one by one. -/
theorem writeAll?_ofPixels (h : Regular bands depth)
    (hrow : bands * width * depth + 7 < levels 64) (hf : Fits width height bands depth f)
    (hwrites : ∀ w ∈ writes, w.Inside width height bands) :
    (ofPixels width height bands depth f).writeAll? writes =
        some (ofPixels width height bands depth (putAll depth f writes)) ∧
      Fits width height bands depth (putAll depth f writes) := by
  induction writes generalizing f with
  | nil => exact ⟨rfl, hf⟩
  | cons w writes ih =>
    obtain ⟨hw, hwrites⟩ := List.forall_mem_cons.1 hwrites
    obtain ⟨hall, hfits⟩ := ih (fits_put hf hw) hwrites
    refine ⟨?_, hfits⟩
    rw [writeAll?, List.foldlM_cons, write?_ofPixels h hrow hf hw.1 hw.2.1 hw.2.2.1]
    exact hall

/-- Behind some writes a place has the samples that were written last there, or those it had. -/
theorem putAll_eq (depth : Nat) (f : Nat → Nat → List Nat) (writes : List Write) (x y : Nat) :
    putAll depth f writes x y =
      ((lastAt? writes x y).map (·.map (· % levels depth))).getD (f x y) := by
  induction writes generalizing f with
  | nil => rfl
  | cons w writes ih =>
    rw [putAll, List.foldl_cons, ← putAll, ih, lastAt?, lastAt?, List.reverse_cons,
      List.find?_append]
    cases writes.reverse.find? fun w => w.x = x ∧ w.y = y with
    | some last => rfl
    | none =>
      by_cases hplace : w.x = x ∧ w.y = y
      · simp [put, hplace]
      · simp [put, hplace, eq_comm (a := x), eq_comm (a := y)]

@[simp]
theorem putAll_zero (writes : List Write) (x y : Nat) :
    putAll depth (fun _ _ => List.replicate bands 0) writes x y =
      written bands depth writes x y := by
  rw [putAll_eq, written]
  cases lastAt? writes x y <;> rfl

/-- Samples of sixteen bits are written as they are. -/
theorem written_sixteen (hwrites : ∀ w ∈ writes, w.Inside width height bands) (x y : Nat) :
    written bands 16 writes x y = (lastAt? writes x y).getD (List.replicate bands 0) := by
  rw [written]
  cases hlast : lastAt? writes x y with
  | none => rfl
  | some samples =>
    obtain ⟨w, hw, rfl⟩ := Option.map_eq_some_iff.1 hlast
    have hinside := hwrites w (List.mem_reverse.1 (List.mem_of_find?_eq_some hw))
    have hsame : ∀ s ∈ w.samples, s % levels 16 = s := fun s hs =>
      Nat.mod_eq_of_lt (hinside.2.2.2 s hs)
    exact (List.map_congr_left hsame).trans (List.map_id _)

/-- A write is not seen at any other place. -/
theorem read?_of_write? (h : Regular bands depth) (hrow : bands * width * depth + 7 < levels 64)
    (hf : Fits width height bands depth f) {w : Write} (hw : w.Inside width height bands) :
    ∃ r', (ofPixels width height bands depth f).write? w.x w.y w.samples = some r' ∧
      ∀ x < width, ∀ y < height, (x, y) ≠ (w.x, w.y) → ∀ buffer,
        r'.read? x y buffer = (ofPixels width height bands depth f).read? x y buffer := by
  refine ⟨_, write?_ofPixels h hrow hf hw.1 hw.2.1 hw.2.2.1, ?_⟩
  intro x hx y hy hne buffer
  have hput : put f w.x w.y (w.samples.map (· % levels depth)) x y = f x y :=
    if_neg fun heq => hne (Prod.ext heq.1 heq.2)
  have hsame := pixel?_ofPixels h hrow (fits_put hf hw) hx hy
  rw [hput, ← pixel?_ofPixels h hrow hf hx hy] at hsame
  simp only [read?, hsame]
  rfl

/-! ## Bits behind the last pixel -/

/-- The bits below a number that is shifted up are zero. -/
theorem getBits_shifted {spare bit : Nat} (h : bit < spare) (n : Nat) :
    getBits 1 bit (n * levels spare) = 0 := by
  obtain ⟨more, rfl⟩ := Nat.exists_eq_add_of_lt h
  rw [getBits, Nat.add_assoc, levels_add, Nat.mul_left_comm, Nat.mul_div_cancel_left _ (levels_pos _),
    levels_add, ← Nat.mul_assoc, Nat.mul_mod_left]

/-- The bits of a packed row that belong to no pixel are zero. -/
theorem getBits_behind (h : depth = 1 ∨ depth = 2 ∨ depth = 4) {y bit : Nat}
    (hbit : width * depth ≤ bit) (hrow : bit < 8 * rowCells width 1 depth) :
    getBits 1 (7 - bit % 8)
      (cellOf width 1 depth f (y * rowCells width 1 depth + bit / 8)) = 0 := by
  obtain ⟨hy, hplace⟩ := place_div_mod (y := y) (show bit / 8 < rowCells width 1 depth by omega)
  -- The pixels of the byte are those in front of the end of the row.
  have hk : width - bit / 8 * (8 / depth) ≤ 8 / depth := by
    obtain rfl | rfl | rfl := h <;> omega
  have hspare : 7 - bit % 8 < depth * (8 / depth - (width - bit / 8 * (8 / depth))) := by
    obtain rfl | rfl | rfl := h <;> omega
  rw [cellOf_packed h, hy, hplace, packByte_of_zero hk, getBits_shifted hspare]
  intro c hc
  exact if_neg (by omega)

/-! ## Independent cells -/

/-- A program that stops makes a raster whose cells can be counted. -/
theorem of_new? {r : Raster} (h : new? width height bands depth = some r) :
    r = new width height bands depth ∧ Countable width height bands depth := by
  unfold new? at h
  split at h
  · next hcount =>
    obtain ⟨-, hrow, hcells⟩ := hcount
    rw [strideOf_eq hrow] at hcells
    exact ⟨(Option.some_inj.1 h).symm, hrow, hcells⟩
  · cases h

/-- Writes inside the image succeed, and are remembered. -/
theorem remembers_of_countable (h : Regular bands depth)
    (hcount : Countable width height bands depth)
    (hwrites : ∀ w ∈ writes, w.Inside width height bands) :
    ∃ r, (new width height bands depth).writeAll? writes = some r ∧
      Remembers width height bands depth writes r := by
  have hrow := hcount.row_lt
  have hzero : Fits width height bands depth fun _ _ => List.replicate bands 0 := by
    refine fun x _ y _ => ⟨List.length_replicate, fun s hs => ?_⟩
    rw [List.eq_of_mem_replicate hs]
    exact levels_pos depth
  -- The raster behind the writes is that of a function, which has what was written last.
  obtain ⟨hall, hfits⟩ := writeAll?_ofPixels h hrow hzero hwrites
  have hwritten : ∀ x y, putAll depth (fun _ _ => List.replicate bands 0) writes x y =
      written bands depth writes x y := putAll_zero writes
  generalize putAll depth (fun _ _ => List.replicate bands 0) writes = g at hall hfits hwritten
  rw [new_eq_ofPixels h hcount]
  refine ⟨_, hall, ?_, ?_, ?_, ?_⟩
  · intro x hx y hy buffer hbuffer
    rw [read?_of_le (pixel?_ofPixels h hrow hfits hx hy) (hfits x hx y hy).1 hbuffer, hwritten]
    rfl
  · rintro rfl
    exact written_sixteen hwrites
  · intro w hw
    exact read?_of_write? h hrow hfits hw
  · intro hlayout y hy bit hbit hend
    obtain h | ⟨rfl, h⟩ := h
    · exact absurd (hlayout.symm.trans (layoutOf_interleaved h)) (by decide)
    · have hstride : (ofPixels width height 1 depth g).stride = rowCells width 1 depth :=
        strideOf_eq hrow
      rw [hstride] at hend ⊢
      have hplace : bit / 8 < rowCells width 1 depth := by omega
      have hcell : (ofPixels width height 1 depth g).cells[y * rowCells width 1 depth + bit / 8]? =
          some (cellOf width 1 depth g (y * rowCells width 1 depth + bit / 8)) := by
        rw [getElem?_cells, if_pos (place_lt hplace hy)]
      exact ⟨_, hcell, getBits_behind h hbit hend⟩

/-- Pixels are cells of their own: writes inside the image succeed, in any number and order, and
each place remembers the last of them there. So it is in every raster that a program makes which
stops where a product or a sum leaves the words, and in every raster whose cells can be counted. -/
theorem cells_independent (h : Regular bands depth)
    (hwrites : ∀ w ∈ writes, w.Inside width height bands) :
    (∀ blank, new? width height bands depth = some blank →
      ∃ r, blank.writeAll? writes = some r ∧ Remembers width height bands depth writes r) ∧
    (Countable width height bands depth →
      ∃ r, (new width height bands depth).writeAll? writes = some r ∧
        Remembers width height bands depth writes r) := by
  refine ⟨fun blank hblank => ?_, fun hcount => remembers_of_countable h hcount hwrites⟩
  obtain ⟨rfl, hcount⟩ := of_new? hblank
  exact remembers_of_countable h hcount hwrites

end

/-- Four writes to a row of five samples of two bits, three of them to one byte and two to one
place. The samples are cut to two bits. -/
theorem cells_independent_shared_byte :
    let writes : List Write := [⟨3, 1, [3]⟩, ⟨2, 1, [5]⟩, ⟨4, 1, [3]⟩, ⟨3, 1, [0xFFFE]⟩]
    Regular 1 2 ∧ (∀ w ∈ writes, w.Inside 5 2 1) ∧
      ∃ blank r, new? 5 2 1 2 = some blank ∧ blank.writeAll? writes = some r ∧
        r.cells = #[0, 0, 6, 0xC0] ∧ r.read? 3 1 [0, 7] = some [2, 7] ∧
        r.read? 2 1 [0] = some [1] ∧ r.read? 1 1 [9] = some [0] ∧
        (∃ r', r.write? 0 1 [3] = some r' ∧ r'.read? 3 1 [0] = r.read? 3 1 [0]) ∧
        ∃ byte, r.cells[3]? = some byte ∧ getBits 1 0 byte = 0 := by
  intro writes
  have hregular : Regular 1 2 := .inr ⟨rfl, .inr (.inl rfl)⟩
  have hinside : ∀ w ∈ writes, w.Inside 5 2 1 := by
    simp [writes, Write.Inside, levels]
  have hblank : new? 5 2 1 2 = some (new 5 2 1 2) := if_pos (by decide)
  -- The writes succeed, and what they leave is read off the theorem.
  obtain ⟨hmade, -⟩ := cells_independent hregular hinside
  obtain ⟨r, hall, hr⟩ := hmade _ hblank
  have hcells : ((new 5 2 1 2).writeAll? writes).map (·.cells) = some #[0, 0, 6, 0xC0] := by
    decide +kernel
  have hform : ((new 5 2 1 2).writeAll? writes).map (fun r => (r.layout, r.stride)) =
      some (.packed, 2) := by
    decide +kernel
  rw [hall, Option.map_some, Option.some_inj] at hcells hform
  obtain ⟨hlayout, hstride⟩ := Prod.mk.inj hform
  obtain ⟨r', hwrite, hsame⟩ := hr.write_apart ⟨0, 1, [3]⟩ (by simp [Write.Inside, levels])
  refine ⟨hregular, hinside, new 5 2 1 2, r, hblank, hall, hcells, ?_, ?_, ?_, ?_, ?_⟩
  · exact hr.read_eq 3 (by decide) 1 (by decide) [0, 7] (by decide)
  · exact hr.read_eq 2 (by decide) 1 (by decide) [0] (by decide)
  · exact hr.read_eq 1 (by decide) 1 (by decide) [9] (by decide)
  · exact ⟨r', hwrite, hsame 3 (by decide) 1 (by decide) (by decide) [0]⟩
  · have hbit := hr.spare_zero hlayout 1 (by decide) 15 (by decide) (by rw [hstride]; decide)
    rw [hstride] at hbit
    exact hbit

/-- A row of so many bytes that the count of its bits goes round is one byte long. Its second pixel
is the first of the next row, which shows what was written to the other. -/
theorem cells_shared :
    let width := levels 61 + 1
    let writes : List Write := [⟨1, 0, [5]⟩]
    Regular 1 8 ∧ (∀ w ∈ writes, w.Inside width 2 1) ∧ new? width 2 1 8 = none ∧
      ¬∃ r, (new width 2 1 8).writeAll? writes = some r ∧ Remembers width 2 1 8 writes r := by
  intro width writes
  have hinside : ∀ w ∈ writes, w.Inside width 2 1 := by
    simp [writes, width, Write.Inside, levels]
  refine ⟨.inl (.inl rfl), hinside, by decide, ?_⟩
  rintro ⟨r, hall, hr⟩
  have hshown : ((new width 2 1 8).writeAll? writes).bind (·.read? 0 1 [0]) = some [5] := by
    decide +kernel
  rw [hall, Option.bind_some, hr.read_eq 0 (by decide) 1 (by decide) [0] (by decide)] at hshown
  exact absurd hshown (by decide)

end Png.Raster
