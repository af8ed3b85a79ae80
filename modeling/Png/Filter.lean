import Png.Error

/-!
# Scanline filters

Before compression each byte of a row is replaced by its difference from a prediction, made from the
byte a pixel to the left, the byte above and the byte above that left one. `Filter.undo` adds the
predictions back, and `Rows` does so for the rows of one pass after another.
-/

namespace Png

/-- The Paeth predictor: of left, above and upper left the one nearest to `left + above -
upperLeft`, the earlier of the three on ties. -/
def paeth (left above upperLeft : UInt8) : UInt8 :=
  let a : Int := left.toNat
  let b : Int := above.toNat
  let c : Int := upperLeft.toNat
  let fromLeft := (b - c).natAbs
  let fromAbove := (a - c).natAbs
  let fromUpperLeft := (a + b - 2 * c).natAbs
  if fromLeft ≤ fromAbove ∧ fromLeft ≤ fromUpperLeft then left
  else if fromAbove ≤ fromUpperLeft then above
  else upperLeft

/-- How the bytes of a row are predicted. -/
inductive Filter where
  /-- Nothing is subtracted. -/
  | none
  /-- The byte to the left. -/
  | sub
  /-- The byte above. -/
  | up
  /-- The mean of left and above, rounded down. -/
  | average
  /-- The Paeth predictor. -/
  | paeth
  deriving DecidableEq

namespace Filter

/-- The filter of a filter byte. -/
def ofCode? : UInt8 → Option Filter
  | 0 => some none
  | 1 => some sub
  | 2 => some up
  | 3 => some average
  | 4 => some paeth
  | _ => Option.none

/-- The filter byte. -/
def code : Filter → UInt8
  | none => 0
  | sub => 1
  | up => 2
  | average => 3
  | paeth => 4

/-- The prediction from the three neighbours. The mean is of nine bits before it is halved. -/
def predict (f : Filter) (left above upperLeft : UInt8) : UInt8 :=
  match f with
  | none => 0
  | sub => left
  | up => above
  | average => ((left.toNat + above.toNat) / 2).toUInt8
  | paeth => Png.paeth left above upperLeft

/-- Whether the prediction looks at the row above. -/
def looksUp : Filter → Bool
  | none | sub => false
  | up | average | paeth => true

end Filter

/-- The last pixel's bytes of the row at hand and of the row above, oldest first: the heads are the
left and the upper left neighbour of the next byte. -/
structure Trail where
  left : List UInt8
  upperLeft : List UInt8

namespace Trail

/-- At the start of a row both neighbours are zero for a whole pixel of `distance` bytes. -/
def start (distance : Nat) : Trail :=
  { left := List.replicate distance 0, upperLeft := List.replicate distance 0 }

/-- Drops the oldest entry for a new one; an empty queue stays empty. -/
def shift (x : UInt8) : List UInt8 → List UInt8
  | [] => []
  | _ :: queue => queue ++ [x]

/-- Moves on by one byte, `x` in the row at hand and `b` above it. -/
def push (t : Trail) (x b : UInt8) : Trail :=
  { left := shift x t.left, upperLeft := shift b t.upperLeft }

end Trail

namespace Filter

/-- Adds the predictions to the bytes `raw` while `raw`, `above` and `row` last, and keeps what is
left of `row` behind them. With pixels of no bytes, a byte's left neighbour is the byte that `row`
has at its place. -/
def undoFrom (f : Filter) : Trail → (raw above row : List UInt8) → Array UInt8 → Array UInt8
  | t, x :: raw, b :: above, old :: row, done =>
    let y := x + f.predict (t.left.headD old) b (t.upperLeft.headD b)
    undoFrom f (t.push y b) raw above row (done.push y)
  | _, _, _, row, done => done ++ row

/-- The row whose filtering against `above` is `raw`, written over `row`. Neighbours further back
than `raw` is long are never asked for, so that a pixel may as well end there. -/
def undo (f : Filter) (distance : Nat) (raw : List UInt8) (above row : Array UInt8) : Array UInt8 :=
  let above := if f.looksUp then above.toList else List.replicate raw.length 0
  undoFrom f (.start (min distance raw.length)) raw above row.toList #[]

end Filter

/-- The two rows at work while a pass is read: the one last finished and the one above it. Each row
is written over the older of the two. -/
structure Rows where
  /-- Bytes per pixel, at least one. -/
  distance : Nat
  current : Array UInt8 := #[]
  previous : Array UInt8 := #[]

namespace Rows

/-- No rows yet, of pixels of `pixelBytes` bytes. -/
def new (pixelBytes : Nat) : Rows :=
  { distance := max 1 pixelBytes }

/-- The start of a pass whose rows have `rowBytes` bytes: the row above the first is all zeroes. -/
def start (r : Rows) (rowBytes : Nat) : Rows :=
  { r with current := Array.replicate rowBytes 0, previous := Array.replicate rowBytes 0 }

/-- The two rows trade places, so that the one last finished is the row above. -/
def swap (r : Rows) : Rows := { r with current := r.previous, previous := r.current }

/-- Takes the next row, from its filter byte and its filtered bytes. What has been done to the rows
stays where a step fails. -/
def take (code : UInt8) (raw : List UInt8) : EStateM Error Rows Unit := do
  match Filter.ofCode? code with
  | none => throw (.unknownFilter code.toNat)
  | some f =>
    modify swap
    modify fun r => { r with current := f.undo r.distance raw r.previous r.current }

/-- The rows behind the next one, where nothing is done with them if it fails. -/
def next (r : Rows) (code : UInt8) (raw : List UInt8) : Except Error Rows :=
  match take code raw r with
  | .ok () r => .ok r
  | .error e _ => .error e

theorem take_eq (r : Rows) (code : UInt8) (raw : List UInt8) :
    take code raw r =
      match Filter.ofCode? code with
      | none => .error (.unknownFilter code.toNat) r
      | some f =>
        .ok () { r with
          current := f.undo r.distance raw r.current r.previous
          previous := r.current } := by
  unfold take
  cases Filter.ofCode? code <;> rfl

theorem next_eq (r : Rows) (code : UInt8) (raw : List UInt8) :
    r.next code raw =
      match Filter.ofCode? code with
      | none => .error (.unknownFilter code.toNat)
      | some f =>
        .ok { r with
          current := f.undo r.distance raw r.current r.previous
          previous := r.current } := by
  rw [next, take_eq]
  cases Filter.ofCode? code <;> rfl

/-- A row that is taken has a filter, and the row above takes its place. -/
theorem next_eq_ok_iff {r r' : Rows} {code : UInt8} {raw : List UInt8} :
    r.next code raw = .ok r' ↔ ∃ f, Filter.ofCode? code = some f ∧
      { r with
        current := f.undo r.distance raw r.current r.previous
        previous := r.current } = r' := by
  rw [next_eq]
  cases Filter.ofCode? code <;> simp

end Rows

end Png
