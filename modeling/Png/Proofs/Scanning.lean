import Png.Libraries.Own
import Png.Proofs.DataSize

/-!
# Scanning encoded image data

A scan gives back every pixel that was encoded, whatever the filters, the padding and the order of
the pixels. Its raster is that of a function throughout (`Raster.ofPixels`), and what a step does is
to paint the output pixels over more places (`Raster.paint`): `putPixel_eq` one, `takeRow_eq` those
of a row, `takePass_eq` those of a pass and `scan_encode` all of them. What holds in front of every
row is `Scan.beforeRow`: the rest of the pass is still to come, and the rows at work are the last
one and the one above it as they were before they were filtered, which is what the next filter byte
refers to. `Metadata.scan_encode_eq_map` draws it together for the files that a decoder accepts.
-/

namespace Png

/-- Steps that lead through a sequence of states end in the last of them. -/
theorem foldlM_range'_eq_pure {m : Type → Type} [Monad m] [LawfulMonad m] {σ : Type}
    {f : σ → Nat → m σ} {start n : Nat} (state : Nat → σ)
    (hstep : ∀ i, start ≤ i → i < start + n → f (state i) i = pure (state (i + 1))) :
    (List.range' start n).foldlM f (state start) = pure (state (start + n)) := by
  induction n generalizing start with
  | zero => rfl
  | succ n ih =>
    have hfirst := hstep start (Nat.le_refl start) (by omega)
    have hrest := ih fun i (hi : start + 1 ≤ i) hlt => hstep i (by omega) (by omega)
    rw [List.range'_succ, List.foldlM_cons, hfirst, pure_bind, hrest, Nat.add_right_comm,
      Nat.add_assoc]

theorem foldlM_range_eq_ok {σ : Type} {f : σ → Nat → Except Error σ} {n : Nat} (state : Nat → σ)
    (hstep : ∀ i < n, f (state i) i = .ok (state (i + 1))) :
    (List.range n).foldlM f (state 0) = .ok (state n) := by
  have hloop := foldlM_range'_eq_pure state fun i (_ : 0 ≤ i) (hi : i < 0 + n) =>
    hstep i (by omega)
  rwa [← List.range_eq_range', Nat.zero_add] at hloop

namespace Raster

/-- The function with the pixels of another one at some places. -/
def paint (output f : Nat → Nat → List Nat) (places : List (Nat × Nat)) (x y : Nat) : List Nat :=
  if (x, y) ∈ places then output x y else f x y

section

variable {width height bands depth : Nat} {output f : Nat → Nat → List Nat}

@[simp]
theorem paint_nil : paint output f [] = f := by
  funext x y
  exact if_neg List.not_mem_nil

theorem paint_paint (places places' : List (Nat × Nat)) :
    paint output (paint output f places) places' = paint output f (places ++ places') := by
  funext x y
  simp only [paint, List.mem_append]
  by_cases h : (x, y) ∈ places' <;> simp [h]

/-- One more place is painted by a change there. -/
theorem put_paint (places : List (Nat × Nat)) (place : Nat × Nat) :
    put (paint output f places) place.1 place.2 (output place.1 place.2) =
      paint output f (places ++ [place]) := by
  funext x y
  simp only [put, paint, List.mem_append, List.mem_singleton, Prod.ext_iff]
  by_cases h : x = place.1 ∧ y = place.2
  · rw [if_pos h, if_pos (.inr h), h.1, h.2]
  · simp [h]

theorem fits_paint (ho : Fits width height bands depth output)
    (hf : Fits width height bands depth f) (places : List (Nat × Nat)) :
    Fits width height bands depth (paint output f places) := by
  intro x hx y hy
  unfold paint
  split
  · exact ho x hx y hy
  · exact hf x hx y hy

end

end Raster

open Raster (Fits Regular ofPixels paint)

/-- The stored pixels of an image and the output pixels that they become, in rasters that have room
for them. -/
structure Renders (h : Header) (m : PixelMap) (bands depth : Nat)
    (stored output : Nat → Nat → List Nat) : Prop where
  depth_mem : h.depth ∈ Header.depths
  stored_fits : Fits h.width h.height h.channels h.depth stored
  map?_stored : ∀ x < h.width, ∀ y < h.height, m.map? (stored x y) = some (output x y)
  output_fits : Fits h.width h.height bands depth output
  regular : Regular bands depth
  sized : h.Sized
  countable : Raster.Countable h.width h.height bands depth

namespace Scan

/-- The rows at work before row `j` of a pass. -/
def rowsBefore (h : Header) (c : RowChoices) (stored : Nat → Nat → List Nat) (p : Pass) (j : Nat) :
    Rows where
  distance := h.pixelBytes
  current := (h.rowAbove c stored p j).toArray
  previous := (h.rowAbove c stored p (j - 1)).toArray

/-- The scan in front of row `j` of a pass, with the pixels of `f` so far and `rest` behind it. -/
def beforeRow (h : Header) (c : RowChoices) (bands depth : Nat) (stored f : Nat → Nat → List Nat)
    (p : Pass) (rest : List UInt8) (j : Nat) : Scan where
  rest := h.encodeRows c stored (h.rowAbove c stored p j) (p.rowsFrom j) ++ rest
  rows := rowsBefore h c stored p j
  raster := ofPixels h.width h.height bands depth f

/-- The next row is given back by its filter byte and its filtered bytes. -/
theorem next_apply (h : Header) (c : RowChoices) (stored : Nat → Nat → List Nat) (f : Filter)
    (p : Pass) (j : Nat) :
    (rowsBefore h c stored p j).next f.code
        (f.apply h.pixelBytes (h.rowAbove c stored p j) (h.packedRow c stored (p.rowPlaces j))) =
      .ok (rowsBefore h c stored p (j + 1)) := by
  have hdistance : 0 < (rowsBefore h c stored p j).distance := Nat.le_max_left 1 _
  have hrow : (h.packedRow c stored (p.rowPlaces j)).length = h.rowBytes p.width := by
    rw [h.length_packedRow, p.length_rowPlaces]
  have hcurrent : (rowsBefore h c stored p j).current.size =
      (h.packedRow c stored (p.rowPlaces j)).length := by
    rw [hrow]
    exact h.length_rowAbove c stored p j
  have hprevious : (rowsBefore h c stored p j).previous.size =
      (h.packedRow c stored (p.rowPlaces j)).length := by
    rw [hrow]
    exact h.length_rowAbove c stored p (j - 1)
  exact Rows.next_apply f hdistance hcurrent hprevious

section

variable {h : Header} {m : PixelMap} {bands depth : Nat} {stored output f : Nat → Nat → List Nat}
  (hr : Renders h m bands depth stored output) (c : RowChoices)

include hr

/-- A pixel of a pass is read, mapped and written to its place. -/
theorem putPixel_eq {p : Pass} (hp : p ∈ h.passes) {i j : Nat} (hi : i < p.width)
    (hj : j < p.height) (hf : Fits h.width h.height bands depth f) :
    putPixel h m p (h.packedRow c stored (p.rowPlaces j)).toArray j
        (ofPixels h.width h.height bands depth f) i =
      .ok (ofPixels h.width h.height bands depth (Raster.put f (p.position i j).1 (p.position i j).2
        (output (p.position i j).1 (p.position i j).2))) := by
  have hplace : ∀ i < p.width,
      (p.position i j).1 < h.width ∧ (p.position i j).2 < h.height :=
    fun i hi => Pass.position_lt hp hi hj
  have hstored : ∀ place ∈ p.rowPlaces j,
      IsPixel h.channels h.depth (stored place.1 place.2) := by
    intro place hmem
    obtain ⟨i, hi, rfl⟩ := List.mem_map.1 hmem
    obtain ⟨hx, hy⟩ := hplace i (List.mem_range.1 hi)
    exact hr.stored_fits _ hx _ hy
  -- The three steps of a pixel: it is read as it was packed, mapped, and written in bounds.
  have hread := Header.pixelAt?_packedRow hr.depth_mem c hstored
    (show i < (p.rowPlaces j).length by rwa [p.length_rowPlaces])
  simp only [Pass.rowPlaces, List.getElem_map, List.getElem_range] at hread
  obtain ⟨hx, hy⟩ := hplace i hi
  have hmap := hr.map?_stored _ hx _ hy
  obtain ⟨hlength, hlt⟩ := hr.output_fits _ hx _ hy
  have hwrite := Raster.write?_ofPixels hr.regular hr.countable.row_lt hf hx hy hlength
  -- No sample is cut, as all are below the limit of the depth.
  have hwhole : (output (p.position i j).1 (p.position i j).2).map (· % levels depth) =
      output (p.position i j).1 (p.position i j).2 := by
    rw [List.map_congr_left fun s hs => Nat.mod_eq_of_lt (hlt s hs), List.map_id']
  rw [hwhole] at hwrite
  simp only [putPixel, Pass.rowPlaces, hread, hmap, demand, bind, Except.bind]
  rw [hwrite]

/-- The pixels of a row are painted. -/
theorem foldlM_putPixel {p : Pass} (hp : p ∈ h.passes) {j : Nat} (hj : j < p.height)
    (hf : Fits h.width h.height bands depth f) :
    (List.range p.width).foldlM
        (putPixel h m p (h.packedRow c stored (p.rowPlaces j)).toArray j)
        (ofPixels h.width h.height bands depth f) =
      .ok (ofPixels h.width h.height bands depth (paint output f (p.rowPlaces j))) := by
  have hloop := foldlM_range_eq_ok (n := p.width)
    (f := putPixel h m p (h.packedRow c stored (p.rowPlaces j)).toArray j) (fun i =>
      ofPixels h.width h.height bands depth
        (paint output f ((List.range i).map fun i => p.position i j))) (by
    intro i hi
    rw [putPixel_eq hr c hp hi hj (Raster.fits_paint hr.output_fits hf _), Raster.put_paint,
      List.range_succ, List.map_append, List.map_singleton])
  rwa [List.range_zero, List.map_nil, Raster.paint_nil] at hloop

/-- A row of a pass is taken off the data and painted. -/
theorem takeRow_eq {p : Pass} (hp : p ∈ h.passes) {j : Nat} (hj : j < p.height) (rest : List UInt8)
    (hf : Fits h.width h.height bands depth f) :
    takeRow h m p (beforeRow h c bands depth stored f p rest j) j =
      .ok (beforeRow h c bands depth stored (paint output f (p.rowPlaces j)) p rest (j + 1)) := by
  rw [beforeRow, Pass.rowsFrom_of_lt hj, Header.encodeRows]
  generalize c.filter (startOf (p.rowPlaces j)) = filter
  have hnext := next_apply h c stored filter p j
  have hpixels := foldlM_putPixel hr c hp hj hf
  have hlength : (filter.code :: filter.apply h.pixelBytes (h.rowAbove c stored p j)
      (h.packedRow c stored (p.rowPlaces j))).length = h.rowBytes p.width + 1 := by
    rw [List.length_cons, Filter.length_apply, h.length_packedRow, p.length_rowPlaces]
  -- The line that is split off is the filter byte with the filtered bytes of the row.
  simp only [takeRow, List.append_assoc, List.splitAt_eq, List.take_left' hlength,
    List.drop_left' hlength, hlength, require, if_true, bind, Except.bind, hnext]
  have hcurrent : (rowsBefore h c stored p (j + 1)).current =
      (h.packedRow c stored (p.rowPlaces j)).toArray := rfl
  rw [hcurrent, hpixels]
  rfl

/-- The rows of a pass are taken off the data and painted. -/
theorem takePass_eq {p : Pass} (hp : p ∈ h.passes) (rest : List UInt8) {rows : Rows}
    (hrows : rows.distance = h.pixelBytes) (hf : Fits h.width h.height bands depth f) :
    takePass h m
        { rest := h.encodeRows c stored (h.rowAbove c stored p 0) (p.rowsFrom 0) ++ rest
          rows
          raster := ofPixels h.width h.height bands depth f } p =
      .ok { rest
            rows := rowsBefore h c stored p p.height
            raster := ofPixels h.width h.height bands depth (paint output f p.places) } := by
  have hstart : rows.start (h.rowBytes p.width) = rowsBefore h c stored p 0 := by
    simp [Rows.start, rowsBefore, Header.rowAbove, Header.zeroRow, p.length_rowPlaces, hrows]
  -- The rows are taken one by one, each painted over what those before it have left.
  have hloop := foldlM_range_eq_ok (n := p.height) (f := takeRow h m p) (fun j =>
      beforeRow h c bands depth stored (paint output f ((List.range j).flatMap p.rowPlaces)) p rest
        j) (by
    intro j hj
    rw [takeRow_eq hr c hp hj rest (Raster.fits_paint hr.output_fits hf _), Raster.paint_paint,
      List.range_succ, List.flatMap_append, List.flatMap_singleton])
  rw [List.range_zero, List.flatMap_nil, Raster.paint_nil] at hloop
  have hend : beforeRow h c bands depth stored (paint output f p.places) p rest p.height =
      { rest
        rows := rowsBefore h c stored p p.height
        raster := ofPixels h.width h.height bands depth (paint output f p.places) } := by
    rw [beforeRow, p.rowsFrom_height, Header.encodeRows, List.nil_append]
  rw [← hend]
  simp only [takePass, hstart]
  exact hloop

/-- Passes of the image are taken off the data and painted, one after the other. -/
theorem foldlM_takePass {ps : List Pass} (hps : ∀ p ∈ ps, p ∈ h.passes) (rest : List UInt8)
    {rows : Rows} (hrows : rows.distance = h.pixelBytes)
    (hf : Fits h.width h.height bands depth f) :
    ∃ rows', ps.foldlM (takePass h m)
        { rest := (ps.flatMap fun p =>
            h.encodeRows c stored (h.rowAbove c stored p 0) (p.rowsFrom 0)) ++ rest
          rows
          raster := ofPixels h.width h.height bands depth f } =
      .ok { rest
            rows := rows'
            raster := ofPixels h.width h.height bands depth
              (paint output f (ps.flatMap Pass.places)) } := by
  induction ps generalizing rows f with
  | nil =>
    rw [List.flatMap_nil, List.flatMap_nil, Raster.paint_nil]
    exact ⟨rows, rfl⟩
  | cons p ps ih =>
    have hfirst := takePass_eq hr c (hps p List.mem_cons_self)
      ((ps.flatMap fun p =>
        h.encodeRows c stored (h.rowAbove c stored p 0) (p.rowsFrom 0)) ++ rest) hrows hf
    have hdistance : (rowsBefore h c stored p p.height).distance = h.pixelBytes := rfl
    obtain ⟨rows', hothers⟩ := ih (fun q hq => hps q (List.mem_cons_of_mem p hq)) hdistance
      (Raster.fits_paint hr.output_fits hf p.places)
    -- The first pass leaves rows of its own behind, which the next one starts anew.
    rw [Raster.paint_paint] at hothers
    refine ⟨rows', ?_⟩
    rw [List.flatMap_cons, List.flatMap_cons, List.append_assoc, List.foldlM_cons, hfirst]
    exact hothers

end

end Scan

/-- A scan of encoded pixels ends in the raster of the output pixels, with the bytes behind them
left over. -/
theorem scan_encode {h : Header} {m : PixelMap} {bands depth : Nat}
    {stored output : Nat → Nat → List Nat} (hr : Renders h m bands depth stored output)
    (c : RowChoices) (trailing : List UInt8) :
    scan h m (h.encode c stored ++ trailing) (Raster.new h.width h.height bands depth) =
      .ok (ofPixels h.width h.height bands depth output, trailing) := by
  have hblank : Fits h.width h.height bands depth fun _ _ => List.replicate bands 0 := by
    refine fun x _ y _ => ⟨List.length_replicate, fun s hs => ?_⟩
    rw [(List.mem_replicate.1 hs).2]
    exact levels_pos depth
  have hdistance : (Rows.new h.pixelBytes).distance = h.pixelBytes :=
    Nat.max_eq_right (Nat.le_max_left 1 _)
  have hmem : ∀ p ∈ h.passes.filter (!·.isEmpty), p ∈ h.passes :=
    fun p hp => (List.mem_filter.1 hp).1
  obtain ⟨rows, hpasses⟩ := Scan.foldlM_takePass hr c hmem trailing hdistance hblank
  -- All pixels are painted in the end.
  have hall : ofPixels h.width h.height bands depth
      (paint output (fun _ _ => List.replicate bands 0)
        ((h.passes.filter (!·.isEmpty)).flatMap Pass.places)) =
        ofPixels h.width h.height bands depth output :=
    Raster.ofPixels_congr hr.regular fun x hx y hy => if_pos (Header.mem_places hr.sized hx hy)
  rw [hall] at hpasses
  rw [scan, Scan.takePasses, Raster.new_eq_ofPixels hr.regular hr.countable, Scan.start,
    Header.encode_eq h c stored hr.sized.countable, hpasses]
  rfl

namespace Metadata

/-- The output of the pixels of an image fits its raster. -/
theorem Coherent.output_fits {m : Metadata} {h : Header} {t : Transform} (hm : m.Coherent)
    (hheader : m.header = some h) (htransform : m.transform = some t)
    {stored : Nat → Nat → List Nat}
    (hstored : Fits h.width h.height h.channels h.depth stored) :
    Fits h.width h.height t.bands (t.depth h m.options) fun x y =>
      ((m.pixelMap h t).map? (stored x y)).getD [] := by
  intro x hx y hy
  obtain ⟨samples, hsamples, hpixel⟩ := hm.maps hheader htransform (hstored x hx y hy)
  simp only [hsamples]
  exact hpixel

/-- The pixels of an image and what they are mapped to, for any order of the pixels in which the
scanlines are short. -/
theorem Coherent.renders {m : Metadata} {h : Header} {t : Transform} (hm : m.Coherent)
    (hheader : m.header = some h) (htransform : m.transform = some t)
    {stored : Nat → Nat → List Nat}
    (hstored : Fits h.width h.height h.channels h.depth stored) (interlace : Interlace)
    (hlimit : ({ h with interlace } : Header).lineLengths.sum < levels 59) :
    Renders { h with interlace } (m.pixelMap h t) t.bands (t.depth h m.options) stored
      fun x y => ((m.pixelMap h t).map? (stored x y)).getD [] where
  depth_mem := (hm.legal h hheader).depth_mem
  stored_fits := hstored
  map?_stored x hx y hy := by
    obtain ⟨samples, hsamples, -⟩ := hm.maps hheader htransform (hstored x hx y hy)
    rw [hsamples]
    rfl
  output_fits := hm.output_fits hheader htransform hstored
  regular := hm.regular hheader htransform
  sized := ⟨(hm.sized h hheader).width_lt, (hm.sized h hheader).height_lt⟩
  countable := by
    have hcount := hm.countable hheader htransform interlace hlimit
    exact hcount

/-- Encoding and scanning gives every pixel back. There is one raster that all encodings of the same
pixels are scanned to, in either order of the pixels, with any filters, any padding and any bytes
behind them, as long as the encoded pixels are shorter than `levels 59` bytes; and it has the mapped
pixel at every place of the image, with all its samples whole. -/
theorem scan_encode_eq_map [Libraries] {chunks : List Chunk} {o : Options} {m : Metadata}
    {h : Header} {stored : Nat → Nat → List Nat} (hm : acceptAll chunks (.new o) = .ok () m)
    (hheader : m.header = some h)
    (hstored : ∀ x < h.width, ∀ y < h.height, (stored x y).length = h.channels ∧
      ∀ s ∈ stored x y, s < levels h.depth) :
    ∃ t, m.transform = some t ∧ ∃ raster : Raster,
      (∀ (interlace : Interlace) (c : RowChoices) (trailing : List UInt8),
        let h' : Header := { h with interlace }
        (h'.encode c stored).length < levels 59 →
          scan h' (m.pixelMap h' t) (h'.encode c stored ++ trailing) (m.blankRaster h' t) =
            .ok (raster, trailing)) ∧
      ∀ x < h.width, ∀ y < h.height, ∃ samples,
        (m.pixelMap h t).map? (stored x y) = some samples ∧
        samples.length = t.bands ∧ (∀ s ∈ samples, s < levels (t.depth h m.options)) ∧
        ∀ buffer : List Nat, buffer.length = t.bands → raster.read? x y buffer = some samples := by
  have hcoherent := coherent_of_acceptAll hm
  obtain ⟨t, htransform⟩ := hcoherent.exists_transform hheader
  have hregular := hcoherent.regular hheader htransform
  have hrow := hcoherent.row_lt hheader htransform
  have houtput := hcoherent.output_fits hheader htransform hstored
  -- The raster has the mapped pixel at each place, whatever the order of the pixels.
  refine ⟨t, htransform, ofPixels h.width h.height t.bands (t.depth h m.options) fun x y =>
    ((m.pixelMap h t).map? (stored x y)).getD [], ?_, ?_⟩
  · intro interlace c trailing h' hlimit
    have hsize := hcoherent.sized h hheader
    rw [Header.length_encode h' c stored ⟨hsize.width_lt, hsize.height_lt⟩] at hlimit
    exact scan_encode (hcoherent.renders hheader htransform hstored interlace hlimit) c trailing
  · intro x hx y hy
    obtain ⟨samples, hsamples, -⟩ := hcoherent.maps hheader htransform (hstored x hx y hy)
    obtain ⟨hlength, hlt⟩ := houtput x hx y hy
    have hpixel := Raster.pixel?_ofPixels hregular hrow houtput hx hy
    simp only [hsamples, Option.getD_some] at hlength hlt hpixel
    exact ⟨samples, hsamples, hlength, hlt,
      fun buffer hbuffer => Raster.read?_of_pixel? hpixel hlength hbuffer⟩

/-- A checkerboard of gray levels of two bits, spread over bytes: the pixel in the last column of
the last row is white in either order of the pixels. -/
theorem scan_encode_eq_map_checkerboard :
    let chunks : List Chunk :=
      [{ tag := .ofChars 'I' 'H' 'D' 'R', data := [0, 0, 0, 4, 0, 0, 0, 3, 2, 0, 0, 0, 1] }]
    let h : Header := { width := 4, height := 3, depth := 2, color := .gray, interlace := .adam7 }
    let stored : Nat → Nat → List Nat := fun x y => [3 * ((x + y) % 2)]
    ∃ m, acceptAll chunks (.new { promoteGray := true }) = .ok () m ∧ m.header = some h ∧
      (∀ x < h.width, ∀ y < h.height, (stored x y).length = h.channels ∧
        ∀ s ∈ stored x y, s < levels h.depth) ∧
      ∃ t, m.transform = some t ∧ ∃ raster : Raster,
        (∀ (interlace : Interlace) (c : RowChoices),
          let h' : Header := { h with interlace }
          scan h' (m.pixelMap h' t) (h'.encode c stored ++ [1, 2, 3]) (m.blankRaster h' t) =
            .ok (raster, [1, 2, 3])) ∧
        raster.read? 3 2 [0] = some [255] := by
  intro chunks h stored
  have haccept : acceptAll chunks (.new { promoteGray := true }) = .ok () _ := rfl
  have hstored : ∀ x < h.width, ∀ y < h.height, (stored x y).length = h.channels ∧
      ∀ s ∈ stored x y, s < levels h.depth := by decide
  have hshort : ∀ (interlace : Interlace) (c : RowChoices),
      (({ h with interlace } : Header).encode c stored).length < levels 59 := by
    intro interlace c
    have hsize : ({ h with interlace } : Header).Sized := ⟨by simp [h, levels], by simp [h, levels]⟩
    rw [Header.length_encode _ c stored hsize]
    cases interlace <;> decide
  refine ⟨_, haccept, rfl, hstored, ?_⟩
  obtain ⟨t, htransform, raster, hscan, hpixels⟩ := scan_encode_eq_map haccept rfl hstored
  refine ⟨t, htransform, raster, fun interlace c => hscan interlace c [1, 2, 3] (hshort _ c), ?_⟩
  cases htransform
  obtain ⟨samples, hmap, hlength, -, hread⟩ := hpixels 3 (by decide) 2 (by decide)
  cases hmap
  exact hread [0] rfl

end Metadata

end Png
