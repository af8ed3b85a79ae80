import Mathlib.Data.List.GetD
import Png.Proofs.RowHistory

/-!
# Rows of different lengths

A filter may be undone with filtered bytes, a row above and a row to write over of any lengths
(`Filter.undo_exact`). It goes as far as the shortest of those that it uses (`Filter.reach`), and
what lies behind that is neither looked at nor changed (`undoFrom_append`). Up to there the three
are rows of one length, so that what is written is the one row whose filtering the filtered bytes
are (`exists_restored`), whatever it is written over. The same bytes come out of loops that write
them in place, one by one, and ask for each byte by its position (`overwrite?`): no position is
outside of its row. What a loop carries along is how far the row has been written (`partly`).
-/

namespace Png.Filter

/-- How many bytes are written: as many as the filtered bytes, the row that they are written over
and, for a filter that looks up, the row above all have. -/
def reach (f : Filter) (raw : List UInt8) (above row : Array UInt8) : Nat :=
  if f.looksUp then min (min raw.length above.size) row.size else min raw.length row.size

/-- The bytes above that are predicted from: zeroes for a filter that does not look up. -/
def seenAbove (f : Filter) (raw : List UInt8) (above : Array UInt8) : List UInt8 :=
  if f.looksUp then above.toList else List.replicate raw.length 0

/-- The row whose filtering the filtered bytes are, as far as the filter goes. -/
structure Restores (f : Filter) (distance : Nat) (raw : List UInt8) (above row : Array UInt8)
    (restored : List UInt8) : Prop where
  length : restored.length = f.reach raw above row
  filtered : f.apply distance (f.seenAbove raw above) restored = raw.take (f.reach raw above row)

theorem reach_eq (f : Filter) (raw : List UInt8) (above row : Array UInt8) :
    f.reach raw above row = min (min raw.length (f.seenAbove raw above).length) row.size := by
  rw [reach, seenAbove]
  split <;> simp

/-! ## Rows that are written over -/

theorem getElem?_eq_getD {bytes : List UInt8} {k : Nat} (hk : k < bytes.length) :
    bytes[k]? = some (bytes.getD k 0) := by
  rw [List.getElem?_eq_getElem hk, List.getD_eq_getElem _ _ hk]

/-- The row that is written over, once its first `k` bytes are those of `restored`. -/
def partly (restored : List UInt8) (row : Array UInt8) (k : Nat) : Array UInt8 :=
  (restored.take k ++ row.toList.drop k).toArray

@[simp]
theorem partly_zero (restored : List UInt8) (row : Array UInt8) : partly restored row 0 = row := by
  rw [partly, List.take_zero, List.drop_zero, List.nil_append, Array.toArray_toList]

section

variable {restored : List UInt8} {row : Array UInt8} {k : Nat}

theorem size_partly (hrestored : k ≤ restored.length) (hrow : k ≤ row.size) :
    (partly restored row k).size = row.size := by
  have hsize : row.toList.length = row.size := Array.length_toList
  rw [partly, List.size_toArray, List.length_append, List.length_take, List.length_drop]
  omega

/-- The bytes in front are written. -/
theorem getElem?_partly {j : Nat} (hj : j < k) (hrestored : k ≤ restored.length) :
    (partly restored row k)[j]? = some (restored.getD j 0) := by
  rw [partly, List.getElem?_toArray, List.getElem?_append_left (by rw [List.length_take]; omega),
    List.getElem?_take_of_lt hj, getElem?_eq_getD (by omega)]

/-- One more byte is written. -/
theorem setIfInBounds_partly (hrestored : k < restored.length) (hrow : k < row.size) :
    (partly restored row k).setIfInBounds k (restored.getD k 0) = partly restored row (k + 1) := by
  have hrow : k < row.toList.length := hrow
  have htake : (restored.take k).length = k := List.length_take_of_le (Nat.le_of_lt hrestored)
  have hbyte : restored.getD k 0 = restored[k] := List.getD_eq_getElem _ _ hrestored
  rw [partly, List.setIfInBounds_toArray, List.set_append_right _ _ (Nat.le_of_eq htake), htake,
    Nat.sub_self, List.drop_eq_getElem_cons hrow, List.set_cons_zero, hbyte, partly,
    List.take_succ_eq_append_getElem hrestored, List.append_assoc, List.singleton_append]

/-- The bytes behind stay. -/
theorem getElem?_partly_of_le {j : Nat} (hj : k ≤ j) (hrestored : k ≤ restored.length) :
    (partly restored row k)[j]? = row[j]? := by
  have htake : (restored.take k).length = k := List.length_take_of_le hrestored
  rw [partly, List.getElem?_toArray, List.getElem?_append_right (by omega), htake,
    List.getElem?_drop, Nat.add_sub_cancel' hj, Array.getElem?_toList]

theorem toList_partly (hrestored : restored.length = k) (hrow : row.size = k) :
    (partly restored row k).toList = restored := by
  rw [partly, List.toList_toArray, List.take_of_length_le (Nat.le_of_eq hrestored),
    List.drop_of_length_le (by rw [Array.length_toList, hrow]), List.append_nil]

theorem take_partly (hrestored : restored.length = k) :
    (partly restored row k).toList.take k = restored := by
  rw [partly, List.toList_toArray, List.take_left' (List.length_take_of_le (by omega)),
    List.take_of_length_le (by omega)]

end

/-! ## What is written -/

/-- What lies behind the shortest of the three is not looked at, and stays. -/
theorem undoFrom_append (f : Filter) (t : Trail) (raw above row : List UInt8) (done : Array UInt8)
    {n : Nat} (hn : n = min (min raw.length above.length) row.length) :
    (f.undoFrom t raw above row done).toList =
      (f.undoFrom t (raw.take n) (above.take n) (row.take n) done).toList ++ row.drop n := by
  subst hn
  fun_induction f.undoFrom t raw above row done with
  | case1 t x raw b above old row done y ih =>
    simp only [List.length_cons, Nat.add_min_add_right, List.take_succ_cons, List.drop_succ_cons]
    rw [ih, undoFrom]
  | case2 raw above t row done hshort =>
    have hzero : min (min raw.length above.length) row.length = 0 := by
      cases raw with
      | nil => simp
      | cons x raw =>
        cases above with
        | nil => simp
        | cons b above =>
          cases row with
          | nil => simp
          | cons old row => exact (hshort x raw b above old row rfl rfl rfl).elim
    rw [hzero, List.take_zero, List.take_zero, List.take_zero, List.drop_zero, undoFrom] <;> simp

/-- What lies above behind the end of a row is not looked at. -/
theorem apply_take (f : Filter) (distance : Nat) (above : List UInt8) {row : List UInt8} {n : Nat}
    (hn : row.length ≤ n) : f.apply distance (above.take n) row = f.apply distance above row := by
  have hsame : ∀ k < n, (above.take n).getD k 0 = above.getD k 0 := by
    intro k hk
    rw [List.getD_eq_getElem?_getD, List.getElem?_take_of_lt hk, List.getD_eq_getElem?_getD]
  have hback : ∀ k < n, back distance (above.take n) k = back distance above k := by
    intro k hk
    rw [back, back, hsame (k - distance) (by omega)]
  rw [apply, apply]
  apply List.map_congr_left
  intro k hk
  have hk : k < n := Nat.lt_of_lt_of_le (List.mem_range.1 hk) hn
  rw [hsame k hk, hback k hk]

/-- The bytes that are written are those of the row whose filtering the filtered bytes are. Behind
them the row that is written over stays. -/
theorem exists_restored (f : Filter) {distance : Nat} (hd : 0 < distance) (raw : List UInt8)
    (above row : Array UInt8) :
    ∃ restored, f.Restores distance raw above row restored ∧
      f.undo distance raw above row = partly restored row (f.reach raw above row) := by
  obtain ⟨n, hn⟩ : ∃ n, f.reach raw above row = n := ⟨_, rfl⟩
  have hreach := reach_eq f raw above row
  rw [hn] at hreach
  have habove : ((f.seenAbove raw above).take n).length = n :=
    List.length_take_of_le (by omega)
  have hraw : (raw.take n).length = ((f.seenAbove raw above).take n).length := by
    rw [habove]
    exact List.length_take_of_le (by omega)
  -- Some row of this length is filtered to the bytes that are used.
  obtain ⟨restored, hlength, hrestored⟩ := f.exists_apply_eq hd hraw
  rw [habove] at hlength
  rw [f.apply_take distance _ (Nat.le_of_eq hlength)] at hrestored
  have hcut := f.undoFrom_append (.start (min distance raw.length)) raw (f.seenAbove raw above)
    row.toList #[] hreach
  have hundo : (f.undoFrom (.start (min distance raw.length))
      (f.apply (min distance raw.length) ((f.seenAbove raw above).take n) restored)
      ((f.seenAbove raw above).take n) (row.toList.take n) #[]).toList = restored := by
    refine f.undoFrom_start (fun h => by omega) (habove.trans hlength.symm) ?_
    rw [List.length_take, Array.length_toList]
    omega
  -- Pixels that end behind the filtered bytes end behind the row that is restored.
  rw [f.apply_min distance _ (by omega), f.apply_take distance _ (by omega), hrestored] at hundo
  refine ⟨restored, ⟨hlength.trans hn.symm, by rwa [hn]⟩, ?_⟩
  apply Array.toList_inj.1
  rw [hn, undo, ← seenAbove, hcut, hundo, partly, List.take_of_length_le (Nat.le_of_eq hlength)]

theorem reach_congr (f : Filter) (raw : List UInt8) (above : Array UInt8) {row old : Array UInt8}
    (hold : old.size = row.size) : f.reach raw above old = f.reach raw above row := by
  rw [reach_eq, reach_eq, hold]

/-- The reach of what is cut to the reach is all of it. -/
theorem reach_take (f : Filter) {raw : List UInt8} {above row old : Array UInt8}
    (hold : old.size = f.reach raw above row) :
    f.reach (raw.take (f.reach raw above row)) (above.take (f.reach raw above row)) old =
      f.reach raw above row := by
  generalize hn : f.reach raw above row = n at hold ⊢
  rw [reach] at hn ⊢
  split at hn
  · next hup =>
    rw [if_pos hup, List.length_take, Array.take_eq_extract, Array.size_extract]
    omega
  · next hup =>
    rw [if_neg hup, List.length_take]
    omega

theorem seenAbove_take (f : Filter) {raw : List UInt8} {above row : Array UInt8} :
    f.seenAbove (raw.take (f.reach raw above row)) (above.take (f.reach raw above row)) =
      (f.seenAbove raw above).take (f.reach raw above row) := by
  have hreach := reach_eq f raw above row
  unfold seenAbove at hreach ⊢
  split
  · simp
  · rw [List.take_replicate, List.length_take]

section

variable {f : Filter} {distance : Nat} {raw restored restored' : List UInt8}
  {above row old : Array UInt8}

/-- Rows that are filtered alike are equal. -/
theorem Restores.unique (hd : 0 < distance) (h : f.Restores distance raw above row restored)
    (h' : f.Restores distance raw above row restored') : restored = restored' := by
  have hreach := reach_eq f raw above row
  have habove : ((f.seenAbove raw above).take (f.reach raw above row)).length =
      f.reach raw above row := List.length_take_of_le (by omega)
  apply f.apply_injective hd (h.length.trans habove.symm) (h'.length.trans habove.symm)
  rw [f.apply_take distance _ (Nat.le_of_eq h.length), h.filtered,
    f.apply_take distance _ (Nat.le_of_eq h'.length), h'.filtered]

theorem Restores.undo_eq (hd : 0 < distance) (h : f.Restores distance raw above row restored) :
    f.undo distance raw above row = partly restored row (f.reach raw above row) := by
  obtain ⟨restored', h', hundo⟩ := f.exists_restored hd raw above row
  rwa [h.unique hd h']

/-- The row that is written over does not matter. -/
theorem Restores.over (h : f.Restores distance raw above row restored)
    (hold : old.size = row.size) : f.Restores distance raw above old restored := by
  have hreach := f.reach_congr raw above hold
  exact ⟨h.length.trans hreach.symm, h.filtered.trans (by rw [hreach])⟩

/-- Nor does what lies behind the reach. -/
theorem Restores.cut (h : f.Restores distance raw above row restored)
    (hold : old.size = f.reach raw above row) :
    f.Restores distance (raw.take (f.reach raw above row)) (above.take (f.reach raw above row)) old
      restored := by
  refine ⟨h.length.trans (f.reach_take hold).symm, ?_⟩
  rw [seenAbove_take, f.apply_take distance _ (Nat.le_of_eq h.length), h.filtered,
    f.reach_take hold, List.take_take, Nat.min_self]

end

/-! ## Writing in place -/

/-- The byte a pixel in front of byte `k`. There is none in front of the row, or behind it. -/
def back? (distance : Nat) (row : Array UInt8) (k : Nat) : Option UInt8 :=
  if distance ≤ k then row[k - distance]? else Option.none

/-- Byte `k` of the first pixel, which has no neighbours to the left. -/
def leading? (f : Filter) (raw : List UInt8) (above : Array UInt8) (k : Nat) : Option UInt8 :=
  match f with
  | none | sub => raw[k]?
  | up | paeth => do return (← raw[k]?) + (← above[k]?)
  | average => do return (← raw[k]?) + ((← above[k]?) >>> 1)

/-- Byte `k` behind the first pixel, from the row as it is by then. -/
def later? (f : Filter) (distance : Nat) (raw : List UInt8) (above row : Array UInt8) (k : Nat) :
    Option UInt8 :=
  match f with
  | none | up => f.leading? raw above k
  | sub => do return (← raw[k]?) + (← back? distance row k)
  | average => do
    let a ← back? distance row k
    let b ← above[k]?
    return (← raw[k]?) + ((a.toNat + b.toNat) / 2).toUInt8
  | paeth => do
    let a ← back? distance row k
    let b ← above[k]?
    let c ← back? distance above k
    return (← raw[k]?) + Png.paeth a b c

/-- Writes byte `k` in its place, made from the row as it is by then. Fails where the byte cannot be
made or has no place. -/
def write? (byte? : Array UInt8 → Nat → Option UInt8) (row : Array UInt8) (k : Nat) :
    Option (Array UInt8) := do
  let y ← byte? row k
  guard (k < row.size)
  return row.setIfInBounds k y

/-- Writes the bytes from `first` up to `stop` one after another. -/
def writeRange? (byte? : Array UInt8 → Nat → Option UInt8) (first stop : Nat) (row : Array UInt8) :
    Option (Array UInt8) :=
  (List.range' first (stop - first)).foldlM (write? byte?) row

/-- Undoes a filter with a loop for each part of the row: one for the whole of it where the filter
does not look to the left, and else one for the first pixel and one for what is behind it. What is
shorter than a pixel is only copied where the byte to the left is all that counts. -/
def overwrite? (f : Filter) (distance : Nat) (raw : List UInt8) (above row : Array UInt8) :
    Option (Array UInt8) :=
  let stop := f.reach raw above row
  let byte? := fun (_ : Array UInt8) => f.leading? raw above
  match f with
  | none | up => writeRange? byte? 0 stop row
  | sub =>
    if row.size < distance ∨ raw.length < distance then
      writeRange? byte? 0 stop row
    else do
      let row ← writeRange? byte? 0 distance row
      writeRange? (f.later? distance raw above) distance stop row
  | average | paeth => do
    let first := min distance stop
    let row ← writeRange? byte? 0 first row
    writeRange? (f.later? distance raw above) first stop row

/-- A loop that makes the bytes of a row writes that row. -/
theorem writeRange?_eq {restored : List UInt8} {row : Array UInt8}
    {byte? : Array UInt8 → Nat → Option UInt8} {first stop : Nat}
    (hfirst : first ≤ stop) (hrestored : stop ≤ restored.length) (hrow : stop ≤ row.size)
    (hbyte : ∀ k, first ≤ k → k < stop →
      byte? (partly restored row k) k = some (restored.getD k 0)) :
    writeRange? byte? first stop (partly restored row first) = some (partly restored row stop) := by
  have hstep : ∀ k, first ≤ k → k < first + (stop - first) →
      write? byte? (partly restored row k) k = pure (partly restored row (k + 1)) := by
    -- The place is there because the row keeps its length.
    intro k hk hlt
    have hplace : k < (partly restored row k).size := by
      rw [size_partly (by omega) (by omega)]
      omega
    simp only [write?, hbyte k hk (by omega), bind, Option.bind, guard, hplace, if_true, pure]
    rw [setIfInBounds_partly (by omega) (by omega)]
  have hloop := foldlM_range'_eq_pure (partly restored row) hstep
  rwa [Nat.add_sub_cancel' hfirst] at hloop

section

variable (f : Filter) {distance k : Nat} {raw restored : List UInt8} {above row : Array UInt8}

theorem raw_of_lt (hk : k < f.reach raw above row) : raw[k]? = some (raw.getD k 0) := by
  have hreach := reach_eq f raw above row
  exact getElem?_eq_getD (by omega)

/-- The bytes above that are asked for are there. -/
theorem above_of_lt (hup : f.looksUp = true) (hk : k < f.reach raw above row) :
    above[k]? = some ((f.seenAbove raw above).getD k 0) := by
  rw [reach, if_pos hup] at hk
  have hlt : k < above.toList.length := by
    rw [Array.length_toList]
    omega
  rw [seenAbove, if_pos hup, ← Array.getElem?_toList, getElem?_eq_getD hlt]

theorem back?_eq {bytes : List UInt8} (hk : distance ≤ k)
    (h : row[k - distance]? = some (bytes.getD (k - distance) 0)) :
    back? distance row k = some (back distance bytes k) := by
  rw [back?, if_pos hk, h, back, if_neg (Nat.not_lt.2 hk)]

/-- Half the byte above is the mean with a left neighbour of zero. -/
@[simp]
theorem predict_average_zero (b c : UInt8) : average.predict 0 b c = b >>> 1 := by
  apply UInt8.toNat_inj.1
  have hb := b.toNat_lt
  have hone : (1 : UInt8).toNat % 8 = 1 := rfl
  rw [predict, UInt8.toNat_zero, Nat.zero_add, UInt8.toNat_shiftRight, hone, Nat.shiftRight_one]
  exact UInt8.toNat_ofNat_of_lt (show b.toNat / 2 < 256 by omega)

/-- Without neighbours to the left the byte above is the nearest. -/
@[simp]
theorem predict_paeth_zero (b : UInt8) : paeth.predict 0 b 0 = b := by
  rw [predict, Png.paeth]
  split
  · next h =>
    -- Left is as near only where the byte above is zero as well.
    apply UInt8.toNat_inj.1
    rw [UInt8.toNat_zero] at h ⊢
    omega
  · exact if_pos (by rw [UInt8.toNat_zero]; omega)

/-- A byte of the first pixel is predicted from the byte above alone. -/
theorem leading?_eq (hk : k < f.reach raw above row) :
    f.leading? raw above k =
      some (raw.getD k 0 + f.predict 0 ((f.seenAbove raw above).getD k 0) 0) := by
  have hraw := f.raw_of_lt hk
  cases f with
  | none => simpa only [leading?, predict, UInt8.add_zero] using hraw
  | sub => simpa only [leading?, predict, UInt8.add_zero] using hraw
  | up =>
    rw [leading?, hraw, above_of_lt up rfl hk]
    rfl
  | average =>
    rw [leading?, hraw, above_of_lt average rfl hk, predict_average_zero]
    rfl
  | paeth =>
    rw [leading?, hraw, above_of_lt paeth rfl hk, predict_paeth_zero]
    rfl

/-- A byte behind the first pixel is predicted from all that is near. -/
theorem later?_eq (hd : 0 < distance) (hk : k < f.reach raw above row) (hfar : distance ≤ k)
    (hrestored : k < restored.length) :
    f.later? distance raw above (partly restored row k) k =
      some (raw.getD k 0 + f.predict (back distance restored k) ((f.seenAbove raw above).getD k 0)
        (back distance (f.seenAbove raw above) k)) := by
  have hraw := f.raw_of_lt hk
  have hleft : back? distance (partly restored row k) k = some (back distance restored k) :=
    back?_eq hfar (getElem?_partly (by omega) (Nat.le_of_lt hrestored))
  cases f with
  | none => exact leading?_eq none hk
  | sub =>
    rw [later?, hraw, hleft]
    rfl
  | up => exact leading?_eq up hk
  | average =>
    rw [later?, hraw, hleft, above_of_lt average rfl hk]
    rfl
  | paeth =>
    have hupper : back? distance above k = some (back distance (paeth.seenAbove raw above) k) :=
      back?_eq hfar (above_of_lt paeth rfl (Nat.lt_of_le_of_lt (Nat.sub_le k distance) hk))
    rw [later?, hraw, hleft, above_of_lt paeth rfl hk, hupper]
    rfl

end

namespace Restores

variable {f : Filter} {distance k : Nat} {raw restored : List UInt8} {above row : Array UInt8}

/-- The filtered bytes with their predictions are the row that is restored. -/
theorem getD_add (h : f.Restores distance raw above row restored)
    (hk : k < f.reach raw above row) :
    raw.getD k 0 + f.predict (back distance restored k) ((f.seenAbove raw above).getD k 0)
      (back distance (f.seenAbove raw above) k) = restored.getD k 0 := by
  have hreach := reach_eq f raw above row
  have habove : k < (f.seenAbove raw above).length := by omega
  have hrestored : k < restored.length := hk.trans_eq h.length.symm
  have hfiltered : k < (f.apply distance (f.seenAbove raw above) restored).length := by
    rwa [length_apply]
  have hraw : raw.getD k 0 = (f.apply distance (f.seenAbove raw above) restored)[k] := by
    have hlt : k < raw.length := by omega
    simp only [h.filtered, List.getElem_take, List.getD_eq_getElem _ _ hlt]
  rw [hraw, List.getD_eq_getElem _ _ habove, getElem_apply_add hrestored habove hfiltered,
    List.getD_eq_getElem _ _ hrestored]

theorem leading?_eq (h : f.Restores distance raw above row restored)
    (hk : k < f.reach raw above row) (hnear : k < distance) :
    f.leading? raw above k = some (restored.getD k 0) := by
  rw [f.leading?_eq hk, ← h.getD_add hk, back, back, if_pos hnear, if_pos hnear]

theorem later?_eq (h : f.Restores distance raw above row restored) (hd : 0 < distance)
    (hk : k < f.reach raw above row) (hfar : distance ≤ k) :
    f.later? distance raw above (partly restored row k) k = some (restored.getD k 0) := by
  rw [f.later?_eq hd hk hfar (hk.trans_eq h.length.symm), h.getD_add hk]

/-- The loop over the first pixel writes it. -/
theorem writeRange?_leading (h : f.Restores distance raw above row restored) {stop : Nat}
    (hstop : stop ≤ f.reach raw above row) (hnear : stop ≤ distance) :
    writeRange? (fun _ => f.leading? raw above) 0 stop row = some (partly restored row stop) := by
  have hreach := reach_eq f raw above row
  have hlength := h.length
  have hloop : writeRange? (fun _ => f.leading? raw above) 0 stop (partly restored row 0) =
      some (partly restored row stop) :=
    writeRange?_eq (Nat.zero_le stop) (by omega) (by omega) fun k _ hk =>
      h.leading?_eq (by omega) (by omega)
  rwa [partly_zero] at hloop

/-- The loop behind the first pixel writes the rest, if there is any. -/
theorem writeRange?_later (h : f.Restores distance raw above row restored) (hd : 0 < distance)
    {first : Nat} (hfirst : first ≤ f.reach raw above row)
    (hfar : first < f.reach raw above row → distance ≤ first) :
    writeRange? (f.later? distance raw above) first (f.reach raw above row)
      (partly restored row first) = some (partly restored row (f.reach raw above row)) := by
  have hreach := reach_eq f raw above row
  exact writeRange?_eq hfirst (Nat.le_of_eq h.length.symm) (by omega) fun k _ hk =>
    h.later?_eq hd hk (by omega)

/-- Where no byte has to do with the one to its left, one loop writes them all. -/
theorem writeRange?_whole (h : f.Restores distance raw above row restored) (hd : 0 < distance)
    (hsame : ∀ row k, f.later? distance raw above row k = f.leading? raw above k) :
    writeRange? (fun _ => f.leading? raw above) 0 (f.reach raw above row) row =
      some (partly restored row (f.reach raw above row)) := by
  have hreach := reach_eq f raw above row
  have hbyte : ∀ k, 0 ≤ k → k < f.reach raw above row →
      f.leading? raw above k = some (restored.getD k 0) := by
    intro k _ hk
    rcases Nat.lt_or_ge k distance with hnear | hfar
    · exact h.leading?_eq hk hnear
    · rw [← hsame (partly restored row k), h.later?_eq hd hk hfar]
  have hloop : writeRange? (fun _ => f.leading? raw above) 0 (f.reach raw above row)
      (partly restored row 0) = some (partly restored row (f.reach raw above row)) :=
    writeRange?_eq (Nat.zero_le _) (Nat.le_of_eq h.length.symm) (by omega) hbyte
  rwa [partly_zero] at hloop

/-- Writing in place never asks for a byte that is not there. -/
theorem overwrite?_eq (h : f.Restores distance raw above row restored) (hd : 0 < distance) :
    f.overwrite? distance raw above row =
      some (partly restored row (f.reach raw above row)) := by
  have hnear := Nat.min_le_left distance (f.reach raw above row)
  have hfirst := Nat.min_le_right distance (f.reach raw above row)
  cases f with
  | none => exact h.writeRange?_whole hd fun _ _ => rfl
  | up => exact h.writeRange?_whole hd fun _ _ => rfl
  | sub =>
    -- What is only copied ends within the first pixel, where nothing is predicted.
    have hsub : sub.reach raw above row = min raw.length row.size := rfl
    rw [overwrite?]
    split
    · next hshort => exact h.writeRange?_leading (Nat.le_refl _) (by omega)
    · next hlong =>
      rw [h.writeRange?_leading (by omega) (Nat.le_refl distance)]
      exact h.writeRange?_later hd (by omega) fun _ => Nat.le_refl distance
  | average =>
    rw [overwrite?, h.writeRange?_leading hfirst hnear]
    exact h.writeRange?_later hd hfirst (by omega)
  | paeth =>
    rw [overwrite?, h.writeRange?_leading hfirst hnear]
    exact h.writeRange?_later hd hfirst (by omega)

end Restores

/-- Filters may be undone with rows of any lengths. Written in place, no byte is asked for that is
not there, and the row that is written over keeps its length and all that lies behind the shortest
of the rows that the filter uses. In front of that there are the bytes that come out where the
rows are cut to the shortest, whatever was there before, even if that is less than a pixel. -/
theorem undo_exact (f : Filter) {distance : Nat} (hd : 1 ≤ distance) (raw : List UInt8)
    (above row : Array UInt8) :
    let n := f.reach raw above row
    let out := f.undo distance raw above row
    f.overwrite? distance raw above row = some out ∧
    out.size = row.size ∧
    (∀ k, n ≤ k → out[k]? = row[k]?) ∧
    (∀ old : Array UInt8, old.size = n →
      (f.undo distance (raw.take n) (above.take n) old).toList = out.toList.take n) ∧
    ∀ old : Array UInt8, old.size = row.size →
      (f.undo distance raw above old).toList.take n = out.toList.take n := by
  intro n out
  -- What comes out is `restored`, and behind it the row as it was.
  obtain ⟨restored, h, hundo⟩ := f.exists_restored hd raw above row
  have hout : out = partly restored row n := hundo
  have hreach := reach_eq f raw above row
  have hrow : n ≤ row.size := by omega
  have hrestored : n ≤ restored.length := Nat.le_of_eq h.length.symm
  have hfront : out.toList.take n = restored := by
    rw [hout, take_partly h.length]
  refine ⟨?_, ?_, ?_, ?_, ?_⟩
  · rw [h.overwrite?_eq hd, hout]
  · rw [hout, size_partly hrestored hrow]
  · intro k hk
    rw [hout, getElem?_partly_of_le hk hrestored]
  · intro old hold
    have hcut := (h.cut hold).undo_eq hd
    rw [f.reach_take hold] at hcut
    rw [hcut, hfront, toList_partly h.length hold]
  · intro old hold
    have hover := (h.over hold).undo_eq hd
    rw [f.reach_congr raw above hold] at hover
    rw [hover, hfront, take_partly h.length]

/-- Pixels of four bytes, and rows of five, three and six: the row above ends within the first
pixel. -/
theorem undo_exact_short_pixel :
    1 ≤ 4 ∧ paeth.reach [1, 2, 3, 4, 5] #[10, 20, 30] #[7, 7, 7, 7, 7, 7] = 3 ∧
      paeth.overwrite? 4 [1, 2, 3, 4, 5] #[10, 20, 30] #[7, 7, 7, 7, 7, 7] =
        some #[11, 22, 33, 7, 7, 7] ∧
      (paeth.undo 4 [1, 2, 3] #[10, 20, 30] #[0, 0, 0]).toList = [11, 22, 33] := by
  have hd : 1 ≤ 4 := by decide
  have hout : paeth.undo 4 [1, 2, 3, 4, 5] #[10, 20, 30] #[7, 7, 7, 7, 7, 7] =
      #[11, 22, 33, 7, 7, 7] := by decide +kernel
  obtain ⟨hplace, -, -, hcut, -⟩ :=
    undo_exact paeth hd [1, 2, 3, 4, 5] #[10, 20, 30] #[7, 7, 7, 7, 7, 7]
  rw [hout] at hplace hcut
  exact ⟨hd, rfl, hplace, hcut #[0, 0, 0] rfl⟩

end Png.Filter
