import Png.Proofs.RowHistory

/-!
# Scanlines

The data of an image stored row by row are its scanlines: each row behind a filter byte, filtered
below the row above it (`Scanlines`). No filter loses anything, so that the data determine the rows
(`Scanlines.unique`). A reading of such an image that comes to its end has gone through the
scanlines of some rows, with whatever data behind them, and has stored the pixels of these rows
(`exists_reconstructs`).
-/

namespace Png

/-- The data begin with the scanlines of these rows, top down: each row is behind its filter byte,
filtered below the row above it, and the first one is filtered below `above`. -/
def Scanlines (distance : Nat) :
    (above : List UInt8) → (rows : List (List UInt8)) → (data : List UInt8) → Prop
  | _, [], _ => True
  | above, row :: rows, data =>
    row.length = above.length ∧ ∃ (f : Filter) (rest : List UInt8),
      data = f.code :: (f.apply distance above row ++ rest) ∧ Scanlines distance row rows rest

/-- The rows of a sequential image that its data hold the scanlines of: above the first row there
are zeroes. -/
def Header.Reconstructs (h : Header) (data : List UInt8) (rows : List (List UInt8)) : Prop :=
  rows.length = h.height ∧
    Scanlines h.pixelBytes (List.replicate (h.rowBytes h.width) 0) rows data

theorem Header.pixelBytes_pos (h : Header) : 0 < h.pixelBytes := Nat.le_max_left 1 _

theorem Filter.code_injective {f g : Filter} (h : f.code = g.code) : f = g := by
  have hf := ofCode?_code f
  rw [h, ofCode?_code] at hf
  exact (Option.some.inj hf).symm

namespace Scanlines

variable {distance : Nat} {above data : List UInt8} {rows rows' : List (List UInt8)}

/-- All rows are as long as the row above them. -/
theorem length_row (h : Scanlines distance above rows data) :
    ∀ row ∈ rows, row.length = above.length := by
  induction rows generalizing above data with
  | nil => nofun
  | cons row rows ih =>
    obtain ⟨hrow, f, rest, -, hrows⟩ := h
    exact List.forall_mem_cons.2 ⟨hrow, fun other hother => (ih hrows other hother).trans hrow⟩

/-- The data determine so many rows. -/
theorem unique (hd : 0 < distance) (h : Scanlines distance above rows data)
    (h' : Scanlines distance above rows' data) (hlength : rows.length = rows'.length) :
    rows = rows' := by
  induction rows generalizing above rows' data with
  | nil => exact (List.length_eq_zero_iff.1 hlength.symm).symm
  | cons row rows ih =>
    cases rows' with
    | nil => cases hlength
    | cons row' rows' =>
      obtain ⟨hrow, f, rest, hdata, hrows⟩ := h
      obtain ⟨hrow', f', rest', hdata', hrows'⟩ := h'
      obtain ⟨hcode, hbytes⟩ := List.cons.inj (hdata.symm.trans hdata')
      obtain rfl := Filter.code_injective hcode
      -- Both rows have been filtered in the same way, and take the same part of the data.
      have hsize : (f.apply distance above row).length = (f.apply distance above row').length := by
        rw [f.length_apply, f.length_apply, hrow, hrow']
      obtain ⟨hfiltered, rfl⟩ := List.append_inj hbytes hsize
      obtain rfl := f.apply_injective hd hrow hrow' hfiltered
      rw [ih hrows hrows' (Nat.succ.inj hlength)]

end Scanlines

/-- The rows that the data hold are the only ones. -/
theorem Header.Reconstructs.unique {h : Header} {data : List UInt8} {rows rows' : List (List UInt8)}
    (hrows : h.Reconstructs data rows) (hrows' : h.Reconstructs data rows') : rows = rows' :=
  hrows.2.unique h.pixelBytes_pos hrows'.2 (hrows.1.trans hrows'.1.symm)

/-! ## Rows that are read -/

/-- A row that is taken was filtered below the row above, which it then is itself. -/
theorem Rows.Stands.of_next {r r' : Rows} {distance : Nat} {above raw : List UInt8} {code : UInt8}
    (hr : r.Stands distance above) (hd : 0 < distance) (hraw : raw.length = above.length)
    (hnext : r.next code raw = .ok r') :
    ∃ (f : Filter) (row : List UInt8), row.length = above.length ∧ code = f.code ∧
      raw = f.apply distance above row ∧ r'.current = row.toArray ∧ r'.Stands distance row := by
  obtain ⟨f, hf, -⟩ := next_eq_ok_iff.1 hnext
  obtain rfl := Filter.eq_of_ofCode? hf
  obtain ⟨row, hrow, rfl⟩ := f.exists_apply_eq hd hraw
  -- The call has one answer, that of a row which was filtered.
  have hcall : r.call (.next f.code (f.apply distance above row)) =
      (.answered f.code (f.apply distance above row) (.ok r'.current.toList), r') :=
    call_of_next_ok hnext
  have hanswer := hcall.symm.trans (hr.call_apply hd f hrow)
  have hstands := hr.call (.next f.code (f.apply distance above row))
  rw [hr.call_apply hd f hrow] at hstands
  obtain rfl := (Prod.ext_iff.1 hanswer).2
  exact ⟨f, row, hrow, rfl, rfl, rfl, hstands⟩

namespace Reading

/-- The parts of a line that is taken. -/
theorem takeLine_eq_ok {length : Nat} {rest rest' : List UInt8} {rows rows' : Rows}
    (htake : takeLine length rest rows = .ok (rows', rest')) :
    ∃ code raw, rest = code :: (raw ++ rest') ∧ raw.length = length ∧
      rows.next code raw = .ok rows' := by
  simp only [takeLine, List.splitAt_eq, bind_eq_ok_iff, require_eq_ok_iff, pure,
    Except.pure] at htake
  obtain ⟨-, hlength, htake⟩ := htake
  have hparts := List.take_append_drop (length + 1) rest
  split at htake
  · next code raw hline =>
    obtain ⟨next, hnext, htake⟩ := bind_eq_ok_iff.1 htake
    cases htake
    rw [hline] at hparts hlength
    exact ⟨code, raw, hparts.symm, Nat.succ.inj hlength, hnext⟩
  · cases htake

/-- The pixels with those of the rows of a pass from row `j` on. -/
def storeRows (h : Header) (p : Pass) :
    Nat → List (List UInt8) → (Nat → Nat → Option (List Nat)) → Nat → Nat → Option (List Nat)
  | _, [], pixels => pixels
  | j, row :: rows, pixels =>
    storeRows h p (j + 1) rows (storeRow h p row.toArray j p.width pixels)

section

variable {h : Header} {p : Pass} {s s' : Reading} {above : List UInt8} {j : Nat}

/-- Reading a row takes its scanline off the data. -/
theorem readRow_eq_ok (hs : s.rows.Stands h.pixelBytes above)
    (habove : above.length = h.rowBytes p.width) (hread : readRow h p s j = .ok s') :
    ∃ (f : Filter) (row : List UInt8), row.length = above.length ∧
      s.rest = f.code :: (f.apply h.pixelBytes above row ++ s'.rest) ∧
      s'.rows.Stands h.pixelBytes row ∧
      s'.pixels = storeRow h p row.toArray j p.width s.pixels := by
  simp only [readRow, bind_eq_ok_iff, pure, Except.pure, Except.ok.injEq] at hread
  obtain ⟨⟨rows, rest⟩, htake, rfl⟩ := hread
  obtain ⟨code, raw, hrest, hraw, hnext⟩ := takeLine_eq_ok htake
  obtain ⟨f, row, hrow, rfl, rfl, hcurrent, hstands⟩ :=
    hs.of_next h.pixelBytes_pos (hraw.trans habove.symm) hnext
  exact ⟨f, row, hrow, hrest, hstands, by rw [hcurrent]⟩

/-- Reading rows takes their scanlines off the data. -/
theorem exists_scanlines (n : Nat) (hs : s.rows.Stands h.pixelBytes above)
    (habove : above.length = h.rowBytes p.width)
    (hread : (List.range' j n).foldlM (readRow h p) s = .ok s') :
    ∃ rows, rows.length = n ∧ Scanlines h.pixelBytes above rows s.rest ∧
      s'.pixels = storeRows h p j rows s.pixels := by
  induction n generalizing s above j with
  | zero =>
    cases hread
    exact ⟨[], rfl, trivial, rfl⟩
  | succ n ih =>
    rw [List.range'_succ, List.foldlM_cons, bind_eq_ok_iff] at hread
    obtain ⟨t, hfirst, hread⟩ := hread
    obtain ⟨f, row, hrow, hrest, hstands, hpixels⟩ := readRow_eq_ok hs habove hfirst
    obtain ⟨rows, hlength, hlines, hstored⟩ := ih hstands (hrow.trans habove) hread
    refine ⟨row :: rows, congrArg (· + 1) hlength, ⟨hrow, f, t.rest, hrest, hlines⟩, ?_⟩
    rw [hstored, hpixels, storeRows]

end

end Reading

/-! ## Images stored row by row -/

@[simp]
theorem Pass.position_whole (width height i j : Nat) :
    (whole width height).position i j = (i, j) := by
  simp [position, whole]

namespace Reading

variable {h : Header} {width height : Nat} {pixels : Nat → Nat → Option (List Nat)} {x y : Nat}

/-- A row of a whole image is stored in its place. -/
theorem storeRow_whole (row : Array UInt8) (j n : Nat) :
    storeRow h (.whole width height) row j n pixels x y =
      if x < n ∧ y = j then h.pixelAt? row x else pixels x y := by
  induction n with
  | zero => simp [storeRow]
  | succ n ih =>
    rw [storeRow_succ, store, Pass.position_whole, ih]
    by_cases hlast : x = n ∧ y = j
    · obtain ⟨rfl, rfl⟩ := hlast
      simp
    · have hbefore : x < n ∧ y = j ↔ x < n + 1 ∧ y = j := by omega
      simp only [hlast, if_false, hbefore]

/-- The rows of a whole image leave those above them. -/
theorem storeRows_whole_of_lt {rows : List (List UInt8)} {j : Nat} (hy : y < j) :
    storeRows h (.whole width height) j rows pixels x y = pixels x y := by
  induction rows generalizing j pixels with
  | nil => rfl
  | cons row rows ih =>
    rw [storeRows, ih (Nat.lt_succ_of_lt hy), storeRow_whole, if_neg (by omega)]

/-- The rows of a whole image are stored one below the other. -/
theorem storeRows_whole {rows : List (List UInt8)} {j k : Nat} {row : List UInt8}
    (hrow : rows[k]? = some row) (hx : x < width) :
    storeRows h (.whole width height) j rows pixels x (j + k) = h.pixelAt? row.toArray x := by
  induction rows generalizing j k pixels with
  | nil => cases hrow
  | cons first rows ih =>
    rw [storeRows]
    cases k with
    | zero =>
      cases hrow
      rw [Nat.add_zero j, storeRows_whole_of_lt (Nat.lt_add_one j), storeRow_whole,
        if_pos ⟨hx, rfl⟩]
    | succ k =>
      have hplace : j + (k + 1) = j + 1 + k := by omega
      rw [hplace]
      exact ih hrow

end Reading

/-- A reading of a sequential image that comes to its end has gone through the scanlines of its
rows, and has stored their pixels. -/
theorem Header.exists_reconstructs {h : Header} {data : List UInt8} {s : Reading}
    (hsequential : h.interlace = .sequential) (hwidth : 0 < h.width) (hheight : 0 < h.height)
    (hread : h.readPixels data = .ok s) :
    ∃ rows, h.Reconstructs data rows ∧ ∀ x < h.width, ∀ y row, rows[y]? = some row →
      s.pixels x y = h.pixelAt? row.toArray x := by
  have hpasses : h.passes.filter (!·.isEmpty) = [.whole h.width h.height] := by
    rw [passes, hsequential, Pass.ofImage, List.filter_cons_of_pos, List.filter_nil]
    simp only [Pass.isEmpty, Pass.whole, Bool.not_eq_true', Bool.or_eq_false_iff,
      beq_eq_false_iff_ne]
    omega
  rw [readPixels, hpasses, List.foldlM_cons, bind_eq_ok_iff] at hread
  obtain ⟨s', hread, hs'⟩ := hread
  cases hs'
  rw [Reading.readPass, List.range_eq_range'] at hread
  -- The pass starts below a row of zeroes.
  have hstands := (Rows.stands_new h.pixelBytes_pos).call (.start (h.rowBytes h.width))
  obtain ⟨rows, hlength, hlines, hpixels⟩ :=
    Reading.exists_scanlines _ hstands List.length_replicate hread
  refine ⟨rows, ⟨hlength, hlines⟩, fun x hx y row hrow => ?_⟩
  rw [hpixels, ← Nat.zero_add y]
  exact Reading.storeRows_whole hrow hx

end Png
