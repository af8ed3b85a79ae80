import Mathlib.Data.Set.Finite.List
import Png.Proofs.StoredPixels

/-!
# Rows undone one after another

`Rows` is an object with a history: passes are started on it and rows are handed to it, in any
number and order, and a row whose filter byte is unknown is refused. What it remembers of all that
is the row above the next one (`rowAbove`), which can be read off from what was answered: the last
row since the pass started, or zeroes. `Rows.Stands` says so of its two buffers, and every call
keeps it (`Rows.Stands.call`), so the older of the two, which the next row is written over, never
shows.

Filtering below a given row loses nothing (`Filter.apply_injective`), and the rows of one length are
finitely many, so that each is the filtering of exactly one (`Filter.exists_apply_eq`): the one that
is answered.
-/

namespace Png

/-! ## Filtering as a one-to-one map -/

namespace Filter

/-- Rows that are filtered alike below the same row are equal. -/
theorem apply_injective (f : Filter) {distance : Nat} (hd : 0 < distance)
    {above row row' : List UInt8} (hrow : row.length = above.length)
    (hrow' : row'.length = above.length)
    (h : f.apply distance above row = f.apply distance above row') : row = row' := by
  have hundo : f.undo distance (f.apply distance above row) above.toArray row.toArray =
      row.toArray := f.undo_apply hd hrow.symm List.size_toArray
  have hundo' : f.undo distance (f.apply distance above row') above.toArray row.toArray =
      row'.toArray := f.undo_apply hd hrow'.symm (List.size_toArray.trans (hrow.trans hrow'.symm))
  rw [h] at hundo
  exact List.toArray_inj (hundo.symm.trans hundo')

/-- All bytes of the length of the row above are the filtering of a row. -/
theorem exists_apply_eq (f : Filter) {distance : Nat} (hd : 0 < distance) {above raw : List UInt8}
    (hraw : raw.length = above.length) :
    ∃ row, row.length = above.length ∧ f.apply distance above row = raw := by
  have : Finite UInt8 := .of_injective UInt8.toFin fun _ _ => UInt8.toFin_inj.1
  have : Finite { row : List UInt8 // row.length = above.length } :=
    (List.finite_length_eq UInt8 above.length).to_subtype
  let filtered (row : { row : List UInt8 // row.length = above.length }) :
      { row : List UInt8 // row.length = above.length } :=
    ⟨f.apply distance above row, (f.length_apply _ _ _).trans row.2⟩
  have hinjective : Function.Injective filtered := fun row row' h =>
    Subtype.ext (f.apply_injective hd row.2 row'.2 (Subtype.ext_iff.1 h))
  obtain ⟨row, hrow⟩ := Finite.surjective_of_injective hinjective ⟨raw, hraw⟩
  exact ⟨row, row.2, Subtype.ext_iff.1 hrow⟩

end Filter

/-! ## Calls and what they answer -/

/-- A call to the rows at work. -/
inductive RowCall where
  | start (rowBytes : Nat)
  | next (code : UInt8) (raw : List UInt8)

/-- A call that was made, with its answer. -/
inductive RowEvent where
  | started (rowBytes : Nat)
  | answered (code : UInt8) (raw : List UInt8) (answer : Except Error (List UInt8))

/-- The length of a row behind a call, from that in front of it. -/
def RowCall.rowBytes (before : Nat) : RowCall → Nat
  | .start n => n
  | .next .. => before

/-- The length of the rows of the pass that is read behind these calls, no bytes in front of all
passes. -/
def passBytes (calls : List RowCall) : Nat :=
  calls.foldl RowCall.rowBytes 0

/-- Each row that is handed over is as long as the rows of its pass, from a pass of rows of `n`
bytes on. -/
def RowCall.Fit : Nat → List RowCall → Prop
  | _, [] => True
  | _, .start n :: calls => Fit n calls
  | n, .next _ raw :: calls => raw.length = n ∧ Fit n calls

/-- The row above the next one, from the row above before an event: a pass starts with zeroes, and
a call that fails counts for nothing. -/
def RowEvent.leaves (above : List UInt8) : RowEvent → List UInt8
  | .started rowBytes => List.replicate rowBytes 0
  | .answered _ _ (.ok row) => row
  | .answered _ _ (.error _) => above

/-- The row above the next one: the last row that was answered since the pass started, and zeroes
if there is none. -/
def rowAbove (events : List RowEvent) : List UInt8 :=
  events.foldl RowEvent.leaves []

namespace Rows

/-- Makes a call: what happens, and the rows behind it, with all that has been done to them also if
the call fails. -/
def call (r : Rows) : RowCall → RowEvent × Rows
  | .start rowBytes => (.started rowBytes, r.start rowBytes)
  | .next code raw =>
    match take code raw r with
    | .ok () r' => (.answered code raw (.ok r'.current.toList), r')
    | .error e r' => (.answered code raw (.error e), r')

/-- What happens in a sequence of calls. -/
def history (r : Rows) : List RowCall → List RowEvent
  | [] => []
  | c :: calls => (r.call c).1 :: (r.call c).2.history calls

/-- The rows behind a sequence of calls. -/
def after (r : Rows) (calls : List RowCall) : Rows :=
  calls.foldl (fun r c => (r.call c).2) r

theorem history_append (r : Rows) (calls calls' : List RowCall) :
    r.history (calls ++ calls') = r.history calls ++ (r.after calls).history calls' := by
  induction calls generalizing r with
  | nil => rfl
  | cons c calls ih => simp only [List.cons_append, history, ih, after, List.foldl_cons]

/-! ## What the rows remember -/

/-- Both rows at work are as long as `above`, and the one last finished is `above`. -/
structure Stands (r : Rows) (distance : Nat) (above : List UInt8) : Prop where
  distance : r.distance = distance
  sized : r.Sized above.length
  current : r.current.toList = above

theorem stands_new {distance : Nat} (hd : 1 ≤ distance) : (new distance).Stands distance [] :=
  ⟨Nat.max_eq_right hd, ⟨rfl, rfl⟩, rfl⟩

variable {r r' : Rows} {distance : Nat} {above : List UInt8}

theorem call_of_next_ok {code : UInt8} {raw : List UInt8} (h : r.next code raw = .ok r') :
    r.call (.next code raw) = (.answered code raw (.ok r'.current.toList), r') := by
  obtain ⟨f, hf, rfl⟩ := next_eq_ok_iff.1 h
  rw [call, take_eq, hf]

/-- The filter byte is looked at before anything is done, so that a call that fails leaves the rows
as they were. -/
theorem call_of_next_error {code : UInt8} {raw : List UInt8} {e : Error}
    (h : r.next code raw = .error e) :
    r.call (.next code raw) = (.answered code raw (.error e), r) := by
  rw [next_eq] at h
  rw [call, take_eq]
  cases hf : Filter.ofCode? code with
  | none =>
    rw [hf] at h
    cases h
    rfl
  | some f =>
    rw [hf] at h
    cases h

/-- A filter byte that there is not is refused, and the rows stay. -/
theorem call_unknown (r : Rows) {code : UInt8} (hcode : 4 < code) (raw : List UInt8) :
    r.call (.next code raw) = (.answered code raw (.error (.unknownFilter code.toNat)), r) := by
  refine call_of_next_error ?_
  rw [next_eq, (Filter.ofCode?_eq_none_iff code).2 hcode]

/-- A row that was filtered below the row above is answered. -/
theorem Stands.call_apply (hr : r.Stands distance above) (hd : 0 < distance) (f : Filter)
    {row : List UInt8} (hrow : row.length = above.length) :
    r.call (.next f.code (f.apply distance above row)) =
      (.answered f.code (f.apply distance above row) (.ok row),
        { r with current := row.toArray, previous := r.current }) := by
  obtain ⟨rfl, ⟨hcurrent, hprevious⟩, rfl⟩ := hr
  exact call_of_next_ok (next_apply f hd (hcurrent.trans hrow.symm) (hprevious.trans hrow.symm))

/-- What a call leaves as the row above is as long as the rows of the pass. -/
theorem Stands.length_leaves (hr : r.Stands distance above) (c : RowCall) :
    ((r.call c).1.leaves above).length = c.rowBytes above.length := by
  cases c with
  | start n => exact List.length_replicate
  | next code raw =>
    cases hnext : r.next code raw with
    | error e => simp only [call_of_next_error hnext, RowEvent.leaves, RowCall.rowBytes]
    | ok r' =>
      simp only [call_of_next_ok hnext, RowEvent.leaves, RowCall.rowBytes, Array.length_toList]
      exact (sized_next hr.sized hnext).1

/-- Each call keeps that the rows remember the row above. -/
theorem Stands.call (hr : r.Stands distance above) (c : RowCall) :
    (r.call c).2.Stands distance ((r.call c).1.leaves above) := by
  cases c with
  | start n =>
    refine ⟨hr.distance, ?_, Array.toList_replicate⟩
    rw [Rows.call, RowEvent.leaves, List.length_replicate]
    exact r.sized_start n
  | next code raw =>
    cases hnext : r.next code raw with
    | error e =>
      simp only [call_of_next_error hnext, RowEvent.leaves]
      exact hr
    | ok r' =>
      simp only [call_of_next_ok hnext, RowEvent.leaves]
      have hsized := sized_next hr.sized hnext
      have hlength : r'.current.toList.length = above.length :=
        Array.length_toList.trans hsized.1
      refine ⟨?_, hlength ▸ hsized, rfl⟩
      obtain ⟨f, -, rfl⟩ := next_eq_ok_iff.1 hnext
      exact hr.distance

/-- So does any sequence of calls. -/
theorem Stands.after (hr : r.Stands distance above) (calls : List RowCall) :
    (r.after calls).Stands distance ((r.history calls).foldl RowEvent.leaves above) ∧
      ((r.history calls).foldl RowEvent.leaves above).length =
        calls.foldl RowCall.rowBytes above.length := by
  induction calls generalizing r above with
  | nil => exact ⟨hr, rfl⟩
  | cons c calls ih =>
    have hlength := hr.length_leaves c
    have := ih (hr.call c)
    rwa [hlength] at this

/-- Behind any calls the rows remember the row above, and it is as long as the rows of the pass. -/
theorem stands_after_new (hd : 1 ≤ distance) (calls : List RowCall) :
    ((new distance).after calls).Stands distance (rowAbove ((new distance).history calls)) ∧
      (rowAbove ((new distance).history calls)).length = passBytes calls :=
  (stands_new hd).after calls

/-- Rows that remember the same row above answer alike to all that fits. -/
theorem Stands.history_eq (hd : 0 < distance) (hr : r.Stands distance above)
    (hr' : r'.Stands distance above) {calls : List RowCall}
    (hcalls : RowCall.Fit above.length calls) : r.history calls = r'.history calls := by
  induction calls generalizing r r' above with
  | nil => rfl
  | cons c calls ih =>
    have hsame : (r.call c).1 = (r'.call c).1 := by
      cases c with
      | start n => rfl
      | next code raw =>
        cases hf : Filter.ofCode? code with
        | none =>
          have hcode := (Filter.ofCode?_eq_none_iff code).1 hf
          rw [call_unknown r hcode, call_unknown r' hcode]
        | some f =>
          obtain rfl := Filter.eq_of_ofCode? hf
          obtain ⟨row, hrow, rfl⟩ := f.exists_apply_eq hd hcalls.1
          rw [hr.call_apply hd f hrow, hr'.call_apply hd f hrow]
    have hfit : RowCall.Fit ((r.call c).1.leaves above).length calls := by
      rw [hr.length_leaves c]
      cases c with
      | start n => exact hcalls
      | next code raw => exact hcalls.2
    rw [history, history, hsame, ih (hr.call c) (hsame ▸ hr'.call c) hfit]

/-- The rows behind any calls undo the filters exactly, and show nothing else of what was before.
An unknown filter byte is refused and leaves no trace. Any other row is answered with the one row
whose filtering below the row above is what was handed over, so that filtering a row and handing it
over answers the row. Two histories with the same row above have the same answers before them. -/
theorem history_exact {pixelBytes : Nat} (hbytes : 1 ≤ pixelBytes) (calls : List RowCall) :
    let r := new pixelBytes
    let events := r.history calls
    let above := rowAbove events
    (∀ code raw later, 4 < code →
      r.history (calls ++ .next code raw :: later) =
        events ++ .answered code raw (.error (.unknownFilter code.toNat)) ::
          (r.after calls).history later ∧
      r.history (calls ++ later) = events ++ (r.after calls).history later) ∧
    (∀ code raw, ¬ 4 < code → raw.length = passBytes calls → ∃ f row,
      Filter.code f = code ∧
      (row.length = passBytes calls ∧ f.apply pixelBytes above row = raw) ∧
      (∀ other, other.length = passBytes calls → f.apply pixelBytes above other = raw →
        other = row) ∧
      ∀ later, events ++ [.answered code raw (.ok row)] <+:
        r.history (calls ++ .next code raw :: later)) ∧
    (∀ (f : Filter) row, row.length = passBytes calls → ∀ later,
      events ++ [.answered f.code (f.apply pixelBytes above row) (.ok row)] <+:
        r.history (calls ++ .next f.code (f.apply pixelBytes above row) :: later)) ∧
    ∀ calls', rowAbove (r.history calls') = above → ∀ later, RowCall.Fit (passBytes calls) later →
      (r.after calls').history later = (r.after calls).history later := by
  intro r events above
  obtain ⟨hstands, hlength⟩ := stands_after_new hbytes calls
  -- A row that was filtered below the row above comes back, whatever follows it.
  have hback (f : Filter) (row : List UInt8) (hrow : row.length = passBytes calls)
      (later : List RowCall) :
      events ++ [.answered f.code (f.apply pixelBytes above row) (.ok row)] <+:
        r.history (calls ++ .next f.code (f.apply pixelBytes above row) :: later) := by
    rw [history_append, history, hstands.call_apply hbytes f (hrow.trans hlength.symm)]
    exact List.prefix_append_right_inj _ |>.2 (List.prefix_append [_] _)
  refine ⟨fun code raw later hcode => ⟨?_, history_append r calls later⟩,
    fun code raw hcode hraw => ?_, hback, fun calls' habove later hlater => ?_⟩
  · rw [history_append, history, call_unknown _ hcode]
  · obtain ⟨f, hf⟩ := Option.ne_none_iff_exists'.1 (mt (Filter.ofCode?_eq_none_iff code).1 hcode)
    obtain rfl := Filter.eq_of_ofCode? hf
    obtain ⟨row, hrow, rfl⟩ := f.exists_apply_eq hbytes (hraw.trans hlength.symm)
    refine ⟨f, row, rfl, ⟨hrow.trans hlength, rfl⟩, fun other hother hsame => ?_,
      hback f row (hrow.trans hlength)⟩
    exact f.apply_injective hbytes (hother.trans hlength.symm) hrow hsame
  · have hstands' := (stands_after_new hbytes calls').1
    rw [habove] at hstands'
    exact hstands'.history_eq hbytes hstands (hlength.symm ▸ hlater)

/-- Pixels longer than the rows, and a row refused between two others: the second is undone below
the first. -/
theorem history_exact_refused_row :
    let calls := [.start 2, .next 2 [3, 4], .next 7 [9, 9]]
    1 ≤ 3 ∧ rowAbove ((new 3).history calls) = [3, 4] ∧
      (new 3).history calls ++ [.answered 4 [1, 1] (.ok [4, 5])] <+:
        (new 3).history (calls ++ .next 4 [1, 1] :: [.start 1]) := by
  intro calls
  have habove : rowAbove ((new 3).history calls) = [3, 4] := by decide +kernel
  have hraw : Filter.paeth.apply 3 (rowAbove ((new 3).history calls)) [4, 5] = [1, 1] := by
    rw [habove]
    decide +kernel
  have hbytes : 1 ≤ 3 := by decide
  refine ⟨hbytes, habove, ?_⟩
  have hback := (history_exact hbytes calls).2.2.1 .paeth [4, 5] rfl [.start 1]
  rwa [hraw] at hback

end Rows

end Png
