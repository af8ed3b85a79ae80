import Png.Proofs.Scanning

/-!
# Reading pixels and drawing them

A scan does two things with every row: it reads the stored pixels out of the data, and it maps them
and writes them to the raster. The second part cannot fail and has no effect on the first, so that a
scan is a reading of pixels (`Header.readPixels`), which knows nothing of the options, followed by a
drawing of what has been read (`Reading.toScan`): this is `scan_eq_map`, for any data whatsoever.
`pixels_of_readPixels` says that a reading which comes to its end has a pixel of the header's form
at every place of the image.
-/

namespace Png

open Raster (Fits Regular ofPixels put)

section

variable {σ τ α : Type} {P : σ → Prop} {f : σ → α → Except Error σ} {as : List α} {s s' : σ}

/-- A loop whose steps keep a property, and do what the steps of another loop do to what it stands
for, does what the other loop does. -/
theorem foldlM_eq_map {g : τ → α → Except Error τ} {abs : σ → τ}
    (hkeep : ∀ s s' a, a ∈ as → P s → f s a = .ok s' → P s')
    (hstep : ∀ s a, a ∈ as → P s → g (abs s) a = (f s a).map abs) (hs : P s) :
    as.foldlM g (abs s) = (as.foldlM f s).map abs := by
  induction as generalizing s with
  | nil => rfl
  | cons a as ih =>
    rw [List.foldlM_cons, List.foldlM_cons, hstep s a List.mem_cons_self hs]
    cases hf : f s a with
    | error e => rfl
    | ok t =>
      exact ih (fun s s' b hb => hkeep s s' b (List.mem_cons_of_mem a hb))
        (fun s b hb => hstep s b (List.mem_cons_of_mem a hb)) (hkeep s t a List.mem_cons_self hs hf)

/-- What each step brings about for its own element, and every other one keeps, holds for all
elements after the loop. -/
theorem foldlM_forall {Q : α → σ → Prop}
    (hkeep : ∀ s s' a, a ∈ as → P s → f s a = .ok s' → P s')
    (hown : ∀ s s' a, a ∈ as → P s → f s a = .ok s' → Q a s')
    (hothers : ∀ s s' a b, a ∈ as → P s → f s a = .ok s' → Q b s → Q b s')
    (h : as.foldlM f s = .ok s') (hs : P s) : ∀ a ∈ as, Q a s' := by
  induction as generalizing s with
  | nil => nofun
  | cons a as ih =>
    rw [List.foldlM_cons, bind_eq_ok_iff] at h
    obtain ⟨t, ht, h⟩ := h
    have hmem : ∀ {b}, b ∈ as → b ∈ a :: as := List.mem_cons_of_mem a
    have hPt := hkeep s t a List.mem_cons_self hs ht
    -- What the first step has brought about is kept by those behind it.
    have hfirst : P s' ∧ Q a s' := by
      refine foldlM_keeps (P := fun s => P s ∧ Q a s) (fun s s' b hb hP hf => ⟨?_, ?_⟩) h
        ⟨hPt, hown s t a List.mem_cons_self hs ht⟩
      · exact hkeep s s' b (hmem hb) hP.1 hf
      · exact hothers s s' b a (hmem hb) hP.1 hf hP.2
    have hrest := ih (fun s s' b hb => hkeep s s' b (hmem hb))
      (fun s s' b hb => hown s s' b (hmem hb))
      (fun s s' b c hb => hothers s s' b c (hmem hb)) h hPt
    exact List.forall_mem_cons.2 ⟨hfirst.2, hrest⟩

end

/-! ## Rows keep their size -/

@[simp]
theorem Filter.size_undoFrom (f : Filter) (t : Trail) (raw above row : List UInt8)
    (done : Array UInt8) :
    (f.undoFrom t raw above row done).size = done.size + row.length := by
  fun_induction f.undoFrom t raw above row done with
  | case1 t x raw b above old row done y ih =>
    rw [ih, Array.size_push, List.length_cons]
    omega
  | case2 raw above t row done =>
    rw [← Array.length_toList, Array.toList_appendList, List.length_append, Array.length_toList]

/-- The row that is written has the size of the one that it is written over. -/
@[simp]
theorem Filter.size_undo (f : Filter) (distance : Nat) (raw : List UInt8)
    (above row : Array UInt8) : (f.undo distance raw above row).size = row.size := by
  rw [undo, size_undoFrom]
  simp

/-- Both rows at work have this many bytes. -/
def Rows.Sized (r : Rows) (n : Nat) : Prop := r.current.size = n ∧ r.previous.size = n

theorem Rows.sized_start (r : Rows) (n : Nat) : (r.start n).Sized n := by
  simp [start, Sized]

theorem Rows.sized_next {r r' : Rows} {n : Nat} {code : UInt8} {raw : List UInt8} (hr : r.Sized n)
    (h : r.next code raw = .ok r') : r'.Sized n := by
  obtain ⟨f, -, rfl⟩ := Rows.next_eq_ok_iff.1 h
  exact ⟨(f.size_undo _ _ _ _).trans hr.2, hr.1⟩

/-! ## The pixels of a row -/

section

variable {depth index : Nat} {row : Array UInt8}

/-- A sample that lies within its row is there, and is below the limit of its depth. -/
theorem exists_sampleAt? (hdepth : depth ∈ Header.depths)
    (hin : (index + 1) * depth ≤ 8 * row.size) :
    ∃ s, sampleAt? row index depth = some s ∧ s < levels depth := by
  have hcases : (depth = 1 ∨ depth = 2 ∨ depth = 4) ∨ depth = 8 ∨ depth = 16 := by
    simp only [Header.depths, List.mem_cons, List.not_mem_nil, or_false] at hdepth
    omega
  obtain hnarrow | rfl | rfl := hcases
  · -- A sample below eight bits does not cross a byte.
    have hbyte : index * depth / 8 < row.size := by
      obtain rfl | rfl | rfl := hnarrow <;> omega
    have hget : row[index * depth / 8]? = some row[index * depth / 8] :=
      Array.getElem?_eq_getElem hbyte
    refine ⟨Raster.getBits depth (Raster.shiftOf depth index) row[index * depth / 8].toNat, ?_,
      Nat.mod_lt _ (levels_pos depth)⟩
    obtain rfl | rfl | rfl := hnarrow <;> simp only [sampleAt?, hget, Option.map_some]
  · have hget : row[index]? = some row[index] := Array.getElem?_eq_getElem (by omega)
    exact ⟨row[index].toNat, by simp only [sampleAt?, hget, Option.map_some], UInt8.toNat_lt _⟩
  · have hhigh : row[2 * index]? = some row[2 * index] := Array.getElem?_eq_getElem (by omega)
    have hlow : row[2 * index + 1]? = some row[2 * index + 1] :=
      Array.getElem?_eq_getElem (by omega)
    have h₁ : row[2 * index].toNat < 256 := UInt8.toNat_lt _
    have h₂ : row[2 * index + 1].toNat < 256 := UInt8.toNat_lt _
    refine ⟨256 * row[2 * index].toNat + row[2 * index + 1].toNat, ?_, ?_⟩
    · simp only [sampleAt?, hhigh, hlow]
      rfl
    · show _ < 65536
      omega

/-- Results that are there one by one are there together. -/
theorem exists_mapM_range {f : Nat → Option Nat} {n limit : Nat}
    (h : ∀ b < n, ∃ s, f b = some s ∧ s < limit) :
    ∃ samples, (List.range n).mapM f = some samples ∧ samples.length = n ∧
      ∀ s ∈ samples, s < limit := by
  refine ⟨(List.range n).map fun b => (f b).getD 0, ?_, by simp, ?_⟩
  · refine mapM_range_eq_some (by simp) fun b hb => ?_
    obtain ⟨s, hs, -⟩ := h b (by simpa using hb)
    simp [hs]
  · intro s hs
    obtain ⟨b, hb, rfl⟩ := List.mem_map.1 hs
    obtain ⟨s, hs, hlt⟩ := h b (List.mem_range.1 hb)
    rw [hs]
    exact hlt

/-- The samples of a pixel lie within its row. -/
theorem Header.sample_within (h : Header) {width i b : Nat} (hi : i < width) (hb : b < h.channels) :
    (i * h.channels + b + 1) * h.depth ≤ 8 * h.rowBytes width := by
  have hsample : i * h.channels + b + 1 ≤ h.channels * width := by
    calc i * h.channels + b + 1 ≤ i * h.channels + h.channels := by omega
      _ = h.channels * (i + 1) := by rw [Nat.mul_succ, Nat.mul_comm]
      _ ≤ h.channels * width := Nat.mul_le_mul_left _ hi
  have hbits := Nat.mul_le_mul_right h.depth hsample
  rw [rowBytes]
  omega

/-- A pixel of a row of the right size is there, and has the form that the header says. -/
theorem Header.exists_pixelAt? {h : Header} (hdepth : h.depth ∈ depths) {width i : Nat}
    (hrow : row.size = h.rowBytes width) (hi : i < width) :
    ∃ pixel, h.pixelAt? row i = some pixel ∧ IsPixel h.channels h.depth pixel :=
  exists_mapM_range fun _ hb => exists_sampleAt? hdepth (hrow ▸ h.sample_within hi hb)

end

/-! ## Reading -/

/-- A reading under way: the data left, the rows at work and the stored pixels so far. -/
structure Reading where
  rest : List UInt8
  rows : Rows
  pixels : Nat → Nat → Option (List Nat)

namespace Reading

/-- Takes the filter byte and the `length` filtered bytes of a row. -/
def takeLine (length : Nat) (rest : List UInt8) (rows : Rows) :
    Except Error (Rows × List UInt8) := do
  let (line, rest) := rest.splitAt (length + 1)
  require (line.length = length + 1) (.truncated .imageData)
  let rows ← match line with
    | code :: raw => rows.next code raw
    | [] => .error (.truncated .imageData)
  return (rows, rest)

/-- The pixels with the one at `place` replaced. -/
def store (pixels : Nat → Nat → Option (List Nat)) (place : Nat × Nat)
    (pixel : Option (List Nat)) (x y : Nat) : Option (List Nat) :=
  if x = place.1 ∧ y = place.2 then pixel else pixels x y

/-- The pixels with the first `n` of row `j` of a pass. -/
def storeRow (h : Header) (p : Pass) (row : Array UInt8) (j n : Nat)
    (pixels : Nat → Nat → Option (List Nat)) : Nat → Nat → Option (List Nat) :=
  (List.range n).foldl (fun pixels i => store pixels (p.position i j) (h.pixelAt? row i)) pixels

/-- Reads row `j` of a pass. -/
def readRow (h : Header) (p : Pass) (s : Reading) (j : Nat) : Except Error Reading := do
  let (rows, rest) ← takeLine (h.rowBytes p.width) s.rest s.rows
  return { rest, rows, pixels := storeRow h p rows.current j p.width s.pixels }

/-- The reading at the start of a pass. -/
def startPass (h : Header) (p : Pass) (s : Reading) : Reading :=
  { s with rows := s.rows.start (h.rowBytes p.width) }

/-- Reads all rows of a pass. -/
def readPass (h : Header) (s : Reading) (p : Pass) : Except Error Reading :=
  (List.range p.height).foldlM (readRow h p) (s.startPass h p)

/-- The reading before the first pass. -/
def start (h : Header) (data : List UInt8) : Reading :=
  { rest := data, rows := .new h.pixelBytes, pixels := fun _ _ => none }

end Reading

/-- Reads all passes that have pixels. -/
def Header.readPixels (h : Header) (data : List UInt8) : Except Error Reading :=
  (h.passes.filter (!·.isEmpty)).foldlM (Reading.readPass h) (.start h data)

namespace Reading

/-- All pixels that have been read have the form that the header says. -/
def Formed (h : Header) (s : Reading) : Prop :=
  ∀ x y pixel, s.pixels x y = some pixel → IsPixel h.channels h.depth pixel

theorem storeRow_succ (h : Header) (p : Pass) (row : Array UInt8) (j n : Nat)
    (pixels : Nat → Nat → Option (List Nat)) :
    storeRow h p row j (n + 1) pixels =
      store (storeRow h p row j n pixels) (p.position n j) (h.pixelAt? row n) := by
  rw [storeRow, List.range_succ, List.foldl_append]
  rfl

section

variable {h : Header} {p : Pass} {row : Array UInt8} {pixels : Nat → Nat → Option (List Nat)}
  {s s' : Reading} {j : Nat}

/-- A row only stores pixels of the header's form. -/
theorem formed_storeRow (hdepth : h.depth ∈ Header.depths) (hrow : row.size = h.rowBytes p.width)
    {n : Nat} (hn : n ≤ p.width)
    (hpixels : ∀ x y pixel, pixels x y = some pixel → IsPixel h.channels h.depth pixel) :
    ∀ x y pixel, storeRow h p row j n pixels x y = some pixel →
      IsPixel h.channels h.depth pixel := by
  induction n with
  | zero => exact hpixels
  | succ n ih =>
    intro x y pixel hpixel
    rw [storeRow_succ, store] at hpixel
    split at hpixel
    · obtain ⟨pixel', hread, hform⟩ := Header.exists_pixelAt? hdepth hrow (Nat.lt_of_succ_le hn)
      cases hread.symm.trans hpixel
      exact hform
    · exact ih (Nat.le_of_succ_le hn) x y pixel hpixel

/-- A row stores a pixel at each of its places, and takes none away. -/
theorem isSome_storeRow (hdepth : h.depth ∈ Header.depths) (hrow : row.size = h.rowBytes p.width)
    {n : Nat} (hn : n ≤ p.width) {x y : Nat}
    (hxy : (∃ i < n, p.position i j = (x, y)) ∨ (pixels x y).isSome) :
    (storeRow h p row j n pixels x y).isSome := by
  induction n with
  | zero =>
    obtain ⟨i, hi, -⟩ | hsome := hxy
    · omega
    · exact hsome
  | succ n ih =>
    rw [storeRow_succ, store]
    split
    · obtain ⟨pixel, hread, -⟩ := Header.exists_pixelAt? hdepth hrow (Nat.lt_of_succ_le hn)
      rw [hread]
      rfl
    · next hother =>
      refine ih (Nat.le_of_succ_le hn) (hxy.imp_left ?_)
      rintro ⟨i, hi, hplace⟩
      refine ⟨i, ?_, hplace⟩
      -- The last pixel of the row is somewhere else.
      have hne : i ≠ n := by
        rintro rfl
        exact hother (by rw [hplace]; exact ⟨rfl, rfl⟩)
      omega

theorem sized_of_takeLine {length : Nat} {rest rest' : List UInt8} {rows rows' : Rows}
    (hrows : rows.Sized length) (htake : takeLine length rest rows = .ok (rows', rest')) :
    rows'.Sized length := by
  simp only [takeLine, bind_eq_ok_iff, pure, Except.pure] at htake
  obtain ⟨_, -, htake⟩ := htake
  split at htake
  · obtain ⟨next, hnext, htake⟩ := bind_eq_ok_iff.1 htake
    cases htake
    exact Rows.sized_next hrows hnext
  · cases htake

/-- The state between the rows of a pass. -/
def Ready (h : Header) (p : Pass) (s : Reading) : Prop :=
  s.rows.Sized (h.rowBytes p.width) ∧ s.Formed h

/-- What reading a row does: the row has the right size, and its pixels are stored. -/
theorem of_readRow (hs : s.Ready h p) (hread : readRow h p s j = .ok s') :
    ∃ row : Array UInt8, row.size = h.rowBytes p.width ∧
      s'.rows.Sized (h.rowBytes p.width) ∧ s'.pixels = storeRow h p row j p.width s.pixels := by
  simp only [readRow, bind_eq_ok_iff, pure, Except.pure, Except.ok.injEq] at hread
  obtain ⟨⟨rows, rest⟩, htake, rfl⟩ := hread
  have hsized := sized_of_takeLine hs.1 htake
  exact ⟨rows.current, hsized.1, hsized, rfl⟩

theorem ready_readRow (hdepth : h.depth ∈ Header.depths) (hs : s.Ready h p)
    (hread : readRow h p s j = .ok s') : s'.Ready h p := by
  obtain ⟨row, hrow, hsized, hpixels⟩ := of_readRow hs hread
  refine ⟨hsized, ?_⟩
  rw [Formed, hpixels]
  exact formed_storeRow hdepth hrow (Nat.le_refl _) hs.2

theorem ready_startPass (hs : s.Formed h) : (s.startPass h p).Ready h p :=
  ⟨s.rows.sized_start _, hs⟩

theorem formed_readPass (hdepth : h.depth ∈ Header.depths) (hs : s.Formed h)
    (hread : readPass h s p = .ok s') : s'.Formed h :=
  (foldlM_keeps (P := Ready h p) (fun _ _ _ _ hs hread => ready_readRow hdepth hs hread) hread
    (ready_startPass hs)).2

/-- A pass has a pixel at each of its places, and takes none away. -/
theorem isSome_readPass (hdepth : h.depth ∈ Header.depths) (hs : s.Formed h)
    (hread : readPass h s p = .ok s') {x y : Nat}
    (hxy : (x, y) ∈ p.places ∨ (s.pixels x y).isSome) : (s'.pixels x y).isSome := by
  have hkeep : ∀ s s' j, j ∈ List.range p.height → Ready h p s → readRow h p s j = .ok s' →
      Ready h p s' := fun _ _ _ _ hs hread => ready_readRow hdepth hs hread
  have hstays : ∀ s s' j, Ready h p s → readRow h p s j = .ok s' →
      (s.pixels x y).isSome → (s'.pixels x y).isSome := by
    intro s s' j hs hread hsome
    obtain ⟨row, hrow, -, hpixels⟩ := of_readRow hs hread
    rw [hpixels]
    exact isSome_storeRow hdepth hrow (Nat.le_refl _) (.inr hsome)
  obtain hplace | hsome := hxy
  · rw [Pass.places, List.mem_flatMap] at hplace
    obtain ⟨j, hj, hplace⟩ := hplace
    -- The row of the place stores it, and the rows behind keep it.
    refine foldlM_forall (P := Ready h p)
      (Q := fun j s => (x, y) ∈ p.rowPlaces j → (s.pixels x y).isSome) hkeep ?_ ?_ hread
      (ready_startPass hs) j hj hplace
    · intro s s' j _ hs hread hplace
      obtain ⟨row, hrow, -, hpixels⟩ := of_readRow hs hread
      obtain ⟨i, hi, hplace⟩ := List.mem_map.1 hplace
      rw [hpixels]
      exact isSome_storeRow hdepth hrow (Nat.le_refl _) (.inl ⟨i, List.mem_range.1 hi, hplace⟩)
    · exact fun s s' _ _ _ hs hread hsome hplace => hstays s s' _ hs hread (hsome hplace)
  · exact (foldlM_keeps (P := fun s => Ready h p s ∧ (s.pixels x y).isSome)
      (fun s s' j hj hs hread => ⟨hkeep s s' j hj hs.1 hread, hstays s s' j hs.1 hread hs.2⟩) hread
      ⟨ready_startPass hs, hsome⟩).2

end

end Reading

section

variable {h : Header} (hdepth : h.depth ∈ Header.depths)

include hdepth

theorem Reading.formed_of_readPixels {data : List UInt8} {s : Reading}
    (hread : h.readPixels data = .ok s) : s.Formed h :=
  foldlM_keeps (fun _ _ _ _ hs hread => formed_readPass hdepth hs hread) hread
    (show (start h data).Formed h from nofun)

/-- A reading that comes to its end has a pixel of the header's form at every place of the image. -/
theorem pixels_of_readPixels (hsize : h.Sized) {data : List UInt8} {s : Reading}
    (hread : h.readPixels data = .ok s) {x y : Nat} (hx : x < h.width) (hy : y < h.height) :
    ∃ pixel, s.pixels x y = some pixel ∧ IsPixel h.channels h.depth pixel := by
  obtain ⟨p, hp, hplace⟩ := List.mem_flatMap.1 (Header.mem_places hsize hx hy)
  have hsome : (s.pixels x y).isSome := by
    refine foldlM_forall (P := Reading.Formed h)
      (Q := fun p s => (x, y) ∈ p.places → (s.pixels x y).isSome)
      (fun _ _ _ _ hs hread => Reading.formed_readPass hdepth hs hread) ?_ ?_ hread
      (show (Reading.start h data).Formed h from nofun) p hp hplace
    · exact fun s s' p _ hs hread hplace => Reading.isSome_readPass hdepth hs hread (.inl hplace)
    · exact fun s s' p q _ hs hread hsome hplace =>
        Reading.isSome_readPass hdepth hs hread (.inr (hsome hplace))
  obtain ⟨pixel, hpixel⟩ := Option.isSome_iff_exists.1 hsome
  exact ⟨pixel, hpixel, Reading.formed_of_readPixels hdepth hread x y pixel hpixel⟩

end

/-! ## Drawing -/

/-- A map that has an output pixel for every stored pixel of a header, and a raster that has room
for it. -/
structure Draws (h : Header) (m : PixelMap) (bands depth : Nat) : Prop where
  depth_mem : h.depth ∈ Header.depths
  maps : ∀ pixel, IsPixel h.channels h.depth pixel → m.Maps pixel bands depth
  regular : Regular bands depth
  row_lt : bands * h.width * depth + 7 < levels 64

/-- The output pixels of what has been read: zero where nothing has been. -/
def outputOf (m : PixelMap) (bands : Nat) (pixels : Nat → Nat → Option (List Nat)) (x y : Nat) :
    List Nat :=
  match pixels x y with
  | some pixel => (m.map? pixel).getD []
  | none => List.replicate bands 0

/-- The scan that has drawn what has been read. -/
def Reading.toScan (h : Header) (m : PixelMap) (bands depth : Nat) (s : Reading) : Scan where
  rest := s.rest
  rows := s.rows
  raster := ofPixels h.width h.height bands depth (outputOf m bands s.pixels)

theorem outputOf_store (m : PixelMap) (bands : Nat) (pixels : Nat → Nat → Option (List Nat))
    (place : Nat × Nat) (pixel : List Nat) :
    outputOf m bands (Reading.store pixels place (some pixel)) =
      put (outputOf m bands pixels) place.1 place.2 ((m.map? pixel).getD []) := by
  funext x y
  by_cases h : x = place.1 ∧ y = place.2 <;> simp only [outputOf, Reading.store, put, h, if_true,
    if_false, and_self]

/-- A pixel of the raster's form is written as it is. -/
theorem Raster.write?_of_isPixel {width height bands depth x y : Nat} {f : Nat → Nat → List Nat}
    {samples : List Nat} (h : Regular bands depth) (hrow : bands * width * depth + 7 < levels 64)
    (hf : Fits width height bands depth f) (hx : x < width) (hy : y < height)
    (hsamples : IsPixel bands depth samples) :
    (ofPixels width height bands depth f).write? x y samples =
      some (ofPixels width height bands depth (put f x y samples)) := by
  have hwhole : samples.map (· % levels depth) = samples := by
    rw [List.map_congr_left fun s hs => Nat.mod_eq_of_lt (hsamples.2 s hs), List.map_id']
  rw [write?_ofPixels h hrow hf hx hy hsamples.1, hwhole]

section

variable {h : Header} {m : PixelMap} {bands depth : Nat} (hd : Draws h m bands depth)

include hd

/-- The output of formed pixels fits the raster. -/
theorem fits_outputOf {pixels : Nat → Nat → Option (List Nat)}
    (hpixels : ∀ x y pixel, pixels x y = some pixel → IsPixel h.channels h.depth pixel) :
    Fits h.width h.height bands depth (outputOf m bands pixels) := by
  intro x _ y _
  unfold outputOf
  split
  · next pixel hpixel =>
    obtain ⟨samples, hmap, hform⟩ := hd.maps pixel (hpixels x y pixel hpixel)
    rw [hmap]
    exact hform
  · refine ⟨List.length_replicate, fun s hs => ?_⟩
    rw [(List.mem_replicate.1 hs).2]
    exact levels_pos depth

/-- The pixels of a row are drawn. -/
theorem foldlM_putPixel_eq {p : Pass} (hp : p ∈ h.passes) {j : Nat} (hj : j < p.height)
    {row : Array UInt8} (hrow : row.size = h.rowBytes p.width)
    {pixels : Nat → Nat → Option (List Nat)}
    (hpixels : ∀ x y pixel, pixels x y = some pixel → IsPixel h.channels h.depth pixel) :
    (List.range p.width).foldlM (Scan.putPixel h m p row j)
        (ofPixels h.width h.height bands depth (outputOf m bands pixels)) =
      .ok (ofPixels h.width h.height bands depth
        (outputOf m bands (Reading.storeRow h p row j p.width pixels))) := by
  -- Before each pixel, the raster is the drawing of those stored so far.
  refine foldlM_range_eq_ok (n := p.width) (f := Scan.putPixel h m p row j) (fun n =>
    ofPixels h.width h.height bands depth
      (outputOf m bands (Reading.storeRow h p row j n pixels))) ?_
  intro i hi
  have hfits := fits_outputOf hd
    (Reading.formed_storeRow (j := j) hd.depth_mem hrow (Nat.le_of_lt hi) hpixels)
  obtain ⟨pixel, hread, hform⟩ := Header.exists_pixelAt? hd.depth_mem hrow hi
  obtain ⟨samples, hmap, hsamples⟩ := hd.maps pixel hform
  obtain ⟨hx, hy⟩ := Pass.position_lt hp hi hj
  have hwrite := Raster.write?_of_isPixel hd.regular hd.row_lt hfits hx hy hsamples
  rw [Reading.storeRow_succ, hread, outputOf_store, hmap]
  simp only [Scan.putPixel, hread, hmap, demand, bind, Except.bind]
  rw [hwrite]
  rfl

/-- A row is scanned by reading it and drawing its pixels. -/
theorem takeRow_toScan {p : Pass} (hp : p ∈ h.passes) {j : Nat} (hj : j < p.height) {s : Reading}
    (hs : s.Ready h p) :
    Scan.takeRow h m p (s.toScan h m bands depth) j =
      (Reading.readRow h p s j).map (Reading.toScan h m bands depth) := by
  obtain ⟨line, rest, hparts⟩ : ∃ line rest,
      s.rest.splitAt (h.rowBytes p.width + 1) = (line, rest) := ⟨_, _, rfl⟩
  simp only [Scan.takeRow, Reading.readRow, Reading.takeLine, Reading.toScan, hparts]
  -- Reading fails where scanning does, so that only rows that are read are drawn.
  cases require (line.length = h.rowBytes p.width + 1) (.truncated .imageData) with
  | error e => rfl
  | ok u =>
    cases line with
    | nil => rfl
    | cons code raw =>
      cases hnext : s.rows.next code raw with
      | error e =>
        simp only [bind, Except.bind, hnext]
        rfl
      | ok rows =>
        have hsized := Rows.sized_next hs.1 hnext
        have hdraw := foldlM_putPixel_eq hd hp hj hsized.1 hs.2
        simp only [bind, Except.bind, hnext, hdraw]
        rfl

/-- A pass is scanned by reading it and drawing its pixels. -/
theorem takePass_toScan {p : Pass} (hp : p ∈ h.passes) {s : Reading} (hs : s.Formed h) :
    Scan.takePass h m (s.toScan h m bands depth) p =
      (Reading.readPass h s p).map (Reading.toScan h m bands depth) := by
  have hstep : ∀ s j, j ∈ List.range p.height → Reading.Ready h p s →
      Scan.takeRow h m p (s.toScan h m bands depth) j =
        (Reading.readRow h p s j).map (Reading.toScan h m bands depth) :=
    fun s j hj hs => takeRow_toScan hd hp (List.mem_range.1 hj) hs
  have hloop := foldlM_eq_map
    (fun _ _ _ _ hs hread => Reading.ready_readRow hd.depth_mem hs hread) hstep
    (Reading.ready_startPass (p := p) hs)
  exact hloop

/-- A scan is a reading of the stored pixels, which are then drawn. -/
theorem scan_eq_map (hcount : Raster.Countable h.width h.height bands depth) (data : List UInt8) :
    scan h m data (Raster.new h.width h.height bands depth) =
      (h.readPixels data).map fun s =>
        (ofPixels h.width h.height bands depth (outputOf m bands s.pixels), s.rest) := by
  have hstep : ∀ s p, p ∈ h.passes.filter (!·.isEmpty) → Reading.Formed h s →
      Scan.takePass h m (s.toScan h m bands depth) p =
        (Reading.readPass h s p).map (Reading.toScan h m bands depth) :=
    fun s p hp hs => takePass_toScan hd (List.mem_of_mem_filter hp) hs
  have hformed : (Reading.start h data).Formed h := nofun
  have hloop := foldlM_eq_map
    (fun _ _ _ _ hs hread => Reading.formed_readPass hd.depth_mem hs hread) hstep hformed
  -- An empty raster is the drawing of no pixels.
  have hstart : Scan.start h data (Raster.new h.width h.height bands depth) =
      Reading.toScan h m bands depth (.start h data) := by
    rw [Scan.start, Raster.new_eq_ofPixels hd.regular hcount]
    rfl
  rw [scan, Scan.takePasses, hstart, hloop, Header.readPixels]
  generalize (h.passes.filter (!·.isEmpty)).foldlM (Reading.readPass h) (.start h data) = result
  cases result <;> rfl

end

namespace Metadata

/-- The map of a file and the raster of its image are made for each other. -/
theorem Coherent.draws {m : Metadata} {h : Header} {t : Transform} (hm : m.Coherent)
    (hheader : m.header = some h) (htransform : m.transform = some t) :
    Draws h (m.pixelMap h t) t.bands (t.depth h m.options) where
  depth_mem := (hm.legal h hheader).depth_mem
  maps _ hpixel := hm.maps hheader htransform hpixel
  regular := hm.regular hheader htransform
  row_lt := hm.row_lt hheader htransform

end Metadata

end Png
