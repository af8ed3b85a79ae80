import Png.Filter

/-!
# Filtering undone

`Filter.apply` is the filtering of a row as it is written down in terms of byte positions: from
every byte the prediction from its three neighbours is taken, where a neighbour in front of the row
counts as zero. The predictions are those of whole numbers (`estimate`), without the bounds of a
byte. `undo_apply` says that `undo` gives the row back. What it keeps at each byte is that its two
queues hold the last pixel's bytes of the row and of the row above (`Trail.before`), so that their
heads are the left and the upper left neighbour.
-/

namespace Png

namespace Filter

/-- The byte `distance` in front of byte `k` of a row, zero if the row starts behind it. -/
def back (distance : Nat) (row : List UInt8) (k : Nat) : UInt8 :=
  if k < distance then 0 else row.getD (k - distance) 0

/-- The one of the three neighbours that is nearest to `left + above - upperLeft`: left before above
before upper left where they are equally near. -/
def nearest (left above upperLeft : Int) : Int :=
  let target := left + above - upperLeft
  if (target - left).natAbs ≤ (target - above).natAbs ∧
      (target - left).natAbs ≤ (target - upperLeft).natAbs then left
  else if (target - above).natAbs ≤ (target - upperLeft).natAbs then above
  else upperLeft

/-- What a filter expects a byte to be, given its three neighbours as numbers. -/
def estimate (f : Filter) (left above upperLeft : Int) : Int :=
  match f with
  | none => 0
  | sub => left
  | up => above
  | average => (left + above) / 2
  | paeth => nearest left above upperLeft

theorem ofInt_of_lt {n : Nat} (h : n < 256) : UInt8.ofInt n = n.toUInt8 := by
  have hmod : ((n : Int) % 2 ^ 8).toNat = n := by omega
  rw [UInt8.ofInt, hmod]

theorem ofInt_toNat (b : UInt8) : UInt8.ofInt b.toNat = b := by
  rw [ofInt_of_lt b.toNat_lt]
  exact UInt8.ofNat_toNat

/-- The prediction of a byte is the estimate from the numbers that its neighbours stand for. -/
theorem ofInt_estimate (f : Filter) (a b c : UInt8) :
    UInt8.ofInt (f.estimate a.toNat b.toNat c.toNat) = f.predict a b c := by
  cases f with
  | none => rfl
  | sub => exact ofInt_toNat a
  | up => exact ofInt_toNat b
  | average =>
    have ha := a.toNat_lt
    have hb := b.toNat_lt
    have hmean : ((a.toNat : Int) + b.toNat) / 2 = ((a.toNat + b.toNat) / 2 : Nat) := by omega
    rw [estimate, hmean, ofInt_of_lt (by omega), predict]
  | paeth =>
    -- The distances from the target are those between the other two neighbours.
    have hleft : (a.toNat + b.toNat - c.toNat - a.toNat : Int) = b.toNat - c.toNat := by omega
    have habove : (a.toNat + b.toNat - c.toNat - b.toNat : Int) = a.toNat - c.toNat := by omega
    have hupper : (a.toNat + b.toNat - c.toNat - c.toNat : Int) =
        a.toNat + b.toNat - 2 * c.toNat := by omega
    simp only [predict, estimate, Png.paeth, nearest, hleft, habove, hupper]
    split
    · exact ofInt_toNat a
    · split
      · exact ofInt_toNat b
      · exact ofInt_toNat c

/-- The filtered bytes of a row below `above`. -/
def apply (f : Filter) (distance : Nat) (above row : List UInt8) : List UInt8 :=
  (List.range row.length).map fun k =>
    row.getD k 0 - UInt8.ofInt (f.estimate (back distance row k).toNat (above.getD k 0).toNat
      (back distance above k).toNat)

@[simp]
theorem length_apply (f : Filter) (distance : Nat) (above row : List UInt8) :
    (f.apply distance above row).length = row.length := by
  rw [apply, List.length_map, List.length_range]

/-- A filter that does not look up predicts from the left alone. -/
theorem predict_of_not_looksUp {f : Filter} (h : f.looksUp = false) (a b c b' c' : UInt8) :
    f.predict a b c = f.predict a b' c' := by
  cases f <;> first | rfl | cases h

end Filter

namespace Trail

/-- The last `distance` bytes in front of byte `k` of a row that starts behind a pixel of zeroes. -/
def window (distance : Nat) (row : List UInt8) (k : Nat) : List UInt8 :=
  (List.replicate distance 0 ++ row.take k).drop k

/-- The queues in front of byte `k` of a row below `above`. -/
def before (distance : Nat) (above row : List UInt8) (k : Nat) : Trail where
  left := window distance row k
  upperLeft := window distance above k

theorem start_eq_before (distance : Nat) (above row : List UInt8) :
    start distance = before distance above row 0 := by
  simp [start, before, window]

theorem getElem?_window {distance k : Nat} (row : List UInt8) (hd : 0 < distance)
    (hk : k < row.length) : (window distance row k)[0]? = some (Filter.back distance row k) := by
  rw [window, List.getElem?_drop, Nat.add_zero, Filter.back]
  split
  · next h =>
    rw [List.getElem?_append_left (by rwa [List.length_replicate]), List.getElem?_replicate,
      if_pos h]
  · next h =>
    rw [List.getElem?_append_right (by rw [List.length_replicate]; omega), List.length_replicate,
      List.getElem?_take, if_pos (by omega), List.getD_eq_getElem?_getD,
      List.getElem?_eq_getElem (by omega)]
    rfl

/-- The head of the queue is the byte a pixel to the left. -/
theorem headD_window {distance k : Nat} (row : List UInt8) (hd : 0 < distance)
    (hk : k < row.length) (default : UInt8) :
    (window distance row k).headD default = Filter.back distance row k := by
  rw [List.headD_eq_head?_getD, List.head?_eq_getElem?, getElem?_window row hd hk]
  rfl

/-- The queue moves on with the byte that comes next. -/
theorem shift_window {distance k : Nat} {row : List UInt8} (hd : 0 < distance)
    (hk : k < row.length) : shift row[k] (window distance row k) = window distance row (k + 1) := by
  have hlength : (List.replicate distance (0 : UInt8) ++ row.take k).length = distance + k := by
    rw [List.length_append, List.length_replicate, List.length_take]
    omega
  have hnext : List.replicate distance 0 ++ row.take (k + 1) =
      (List.replicate distance 0 ++ row.take k) ++ [row[k]] := by
    rw [List.append_assoc, ← List.take_succ_eq_append_getElem hk]
  rw [window, window, hnext]
  generalize List.replicate distance 0 ++ row.take k = bytes at hlength
  rw [List.drop_append_of_le_length (by omega), List.drop_eq_getElem_cons (by omega)]
  rfl

theorem push_before {distance k : Nat} {above row : List UInt8} (hd : 0 < distance)
    (hk : k < row.length) (ha : k < above.length) :
    (before distance above row k).push row[k] above[k] = before distance above row (k + 1) := by
  rw [push, before, shift_window hd hk, shift_window hd ha, before]

end Trail

namespace Filter

/-- A filtered byte with the prediction added back. -/
theorem getElem_apply_add {f : Filter} {distance k : Nat} {above row : List UInt8}
    (hk : k < row.length) (ha : k < above.length)
    (hk' : k < (f.apply distance above row).length) :
    (f.apply distance above row)[k] +
      f.predict (back distance row k) above[k] (back distance above k) = row[k] := by
  have hrow : row.getD k 0 = row[k] := by simp [List.getD_eq_getElem?_getD, hk]
  have habove : above.getD k 0 = above[k] := by simp [List.getD_eq_getElem?_getD, ha]
  simp only [apply, List.getElem_map, List.getElem_range, hrow, habove, ofInt_estimate]
  exact UInt8.sub_add_cancel _ _

/-- From byte `k` on, behind the bytes in front of it, the row is given back. -/
theorem undoFrom_apply (f : Filter) {distance : Nat} (hd : 0 < distance)
    {above row old : List UInt8} (ha : above.length = row.length) (hold : old.length = row.length)
    {k : Nat} (hk : k ≤ row.length) {done : Array UInt8} (hdone : done.toList = row.take k) :
    (undoFrom f (.before distance above row k) ((f.apply distance above row).drop k) (above.drop k)
      (old.drop k) done).toList = row := by
  have hraw := length_apply f distance above row
  generalize hm : row.length - k = m
  induction m generalizing k done with
  | zero =>
    obtain rfl : k = row.length := by omega
    rw [List.drop_of_length_le (by omega : (f.apply distance above row).length ≤ row.length),
      List.drop_of_length_le (by omega : old.length ≤ row.length), undoFrom]
    · simpa using hdone
    · nofun
  | succ m ih =>
    have hlt : k < row.length := by omega
    rw [List.drop_eq_getElem_cons (by omega : k < (f.apply distance above row).length),
      List.drop_eq_getElem_cons (by omega : k < above.length),
      List.drop_eq_getElem_cons (by omega : k < old.length), undoFrom]
    have hlta : k < above.length := by omega
    have hbyte := getElem_apply_add hlt hlta (by omega : k < (f.apply distance above row).length)
    -- Both queues have the neighbours of byte `k` in front.
    have hleft := Trail.headD_window row hd hlt old[k]
    have hupper := Trail.headD_window above hd hlta above[k]
    rw [show (Trail.before distance above row k).left = Trail.window distance row k from rfl,
      show (Trail.before distance above row k).upperLeft = Trail.window distance above k from rfl,
      hleft, hupper, hbyte, Trail.push_before hd hlt hlta]
    refine ih (by omega) ?_ (by omega)
    rw [Array.toList_push, hdone, List.take_succ_eq_append_getElem hlt]

theorem back_min (distance : Nat) (row : List UInt8) {k n : Nat} (hk : k < n) :
    back (min distance n) row k = back distance row k := by
  unfold back
  by_cases h : distance ≤ n
  · rw [Nat.min_eq_left h]
  · rw [if_pos (by omega), if_pos (by omega)]

/-- Pixels that are longer than the row may as well end with it, or anywhere behind it. -/
theorem apply_min (f : Filter) (distance : Nat) (above : List UInt8) {row : List UInt8} {n : Nat}
    (hn : row.length ≤ n) : f.apply (min distance n) above row = f.apply distance above row := by
  rw [apply, apply]
  apply List.map_congr_left
  intro k hk
  have hk : k < n := Nat.lt_of_lt_of_le (List.mem_range.1 hk) hn
  rw [back_min distance row hk, back_min distance above hk]

/-- A filter that does not look up filters below any row alike. -/
theorem apply_of_not_looksUp {f : Filter} (h : f.looksUp = false) (distance : Nat)
    (above above' row : List UInt8) : f.apply distance above row = f.apply distance above' row := by
  rw [apply, apply]
  apply List.map_congr_left
  intro k _
  rw [ofInt_estimate, ofInt_estimate, predict_of_not_looksUp h _ (above.getD k 0)
    (back distance above k) (above'.getD k 0) (back distance above' k)]

/-- From the start of the row it is given back. A row of no bytes needs no pixels. -/
theorem undoFrom_start (f : Filter) {distance : Nat} {above row old : List UInt8}
    (hd : 0 < row.length → 0 < distance) (ha : above.length = row.length)
    (hold : old.length = row.length) :
    (undoFrom f (.start distance) (f.apply distance above row) above old #[]).toList = row := by
  cases row with
  | nil =>
    rw [List.eq_nil_of_length_eq_zero (f.length_apply distance above []),
      List.eq_nil_of_length_eq_zero hold, undoFrom]
    · rfl
    · nofun
  | cons x row =>
    have hdone : (#[] : Array UInt8).toList = (x :: row).take 0 := rfl
    have hstart := undoFrom_apply f (hd (Nat.succ_pos _)) ha hold (Nat.zero_le _) hdone
    rwa [List.drop_zero, List.drop_zero, List.drop_zero, ← Trail.start_eq_before] at hstart

/-- A row is given back by its filtered bytes, whatever was in its place. -/
theorem undo_apply (f : Filter) {distance : Nat} (hd : 0 < distance) {above row : List UInt8}
    {old : Array UInt8} (ha : above.length = row.length) (hold : old.size = row.length) :
    f.undo distance (f.apply distance above row) above.toArray old = row.toArray := by
  have hmin : 0 < row.length → 0 < min distance row.length := fun hrow => by omega
  have hold : old.toList.length = row.length := hold
  apply Array.toList_inj.1
  rw [List.toList_toArray, undo, length_apply]
  cases hf : f.looksUp with
  | true =>
    have hrow := f.undoFrom_start hmin ha hold
    rwa [apply_min f distance above (Nat.le_refl _)] at hrow
  | false =>
    have hrow := f.undoFrom_start hmin (List.length_replicate (a := (0 : UInt8))) hold
    rwa [apply_min f distance _ (Nat.le_refl _), apply_of_not_looksUp hf distance _ above] at hrow

end Filter

@[simp]
theorem Filter.ofCode?_code (f : Filter) : ofCode? f.code = some f := by
  cases f <;> rfl

theorem Filter.eq_of_ofCode? {code : UInt8} {f : Filter} (h : ofCode? code = some f) :
    code = f.code := by
  unfold ofCode? at h
  split at h <;> cases h <;> rfl

/-- The filter bytes that there are. -/
theorem Filter.ofCode?_eq_none_iff (code : UInt8) : ofCode? code = Option.none ↔ 4 < code := by
  unfold ofCode?
  split
  · decide
  · decide
  · decide
  · decide
  · decide
  · next h₀ h₁ h₂ h₃ h₄ =>
    -- What is not one of the five codes is above them.
    simp only [← UInt8.toNat_inj, UInt8.reduceToNat, imp_false] at h₀ h₁ h₂ h₃ h₄
    simp only [UInt8.lt_iff_toNat_lt, UInt8.reduceToNat, true_iff]
    omega

/-- The rows at work after a row that was filtered below the current one. -/
theorem Rows.next_apply {r : Rows} (f : Filter) {row : List UInt8} (hd : 0 < r.distance)
    (hcurrent : r.current.size = row.length) (hprevious : r.previous.size = row.length) :
    r.next f.code (f.apply r.distance r.current.toList row) =
      .ok { r with current := row.toArray, previous := r.current } := by
  have habove : r.current.toList.length = row.length := by simpa using hcurrent
  have hundo := f.undo_apply hd habove hprevious
  rw [Array.toArray_toList] at hundo
  exact next_eq_ok_iff.2 ⟨f, Filter.ofCode?_code f, by rw [hundo]⟩

end Png
