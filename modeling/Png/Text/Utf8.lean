/-!
# UTF-8

Reading bytes as UTF-8. Ill-formed bytes are told from characters, a whole start of a sequence at a
time: `decode` gives nothing for each of them, `utf8?` refuses them all, and `utf8Lossy` puts the
replacement character in their place.
-/

namespace Png.Text

/-- The bits that a first byte contributes, and the ranges of the bytes that must follow it. -/
def sequenceForm? (lead : Nat) : Option (Nat × List (Nat × Nat)) :=
  let any := (0x80, 0xBF)
  if lead < 0x80 then some (lead, [])
  else if lead < 0xC2 then none
  else if lead < 0xE0 then some (lead - 0xC0, [any])
  else if lead = 0xE0 then some (0, [(0xA0, 0xBF), any])
  else if lead = 0xED then some (0xD, [(0x80, 0x9F), any])
  else if lead < 0xF0 then some (lead - 0xE0, [any, any])
  else if lead = 0xF0 then some (0, [(0x90, 0xBF), any, any])
  else if lead < 0xF4 then some (lead - 0xF0, [any, any, any])
  else if lead = 0xF4 then some (4, [(0x80, 0x8F), any, any])
  else none

/-- Adds the following bytes to the bits so far. Stops in front of a byte that does not belong. -/
def takeFollowing (bits : Nat) : List (Nat × Nat) → List UInt8 → Option Nat × List UInt8
  | [], bytes => (some bits, bytes)
  | (low, high) :: ranges, byte :: bytes =>
    if low ≤ byte.toNat ∧ byte.toNat ≤ high then
      takeFollowing (64 * bits + (byte.toNat - 0x80)) ranges bytes
    else (none, byte :: bytes)
  | _ :: _, [] => (none, [])

theorem length_takeFollowing_le (bits : Nat) (ranges : List (Nat × Nat)) (bytes : List UInt8) :
    (takeFollowing bits ranges bytes).2.length ≤ bytes.length := by
  induction ranges generalizing bits bytes with
  | nil => simp [takeFollowing]
  | cons range ranges ih =>
    cases bytes with
    | nil => simp [takeFollowing]
    | cons byte bytes =>
      simp only [takeFollowing]
      split
      · exact Nat.le_succ_of_le (ih _ _)
      · exact Nat.le_refl _

/-- The first character, or nothing for an ill-formed start, and the bytes behind it. -/
def takeChar (lead : UInt8) (bytes : List UInt8) : Option Char × List UInt8 :=
  match sequenceForm? lead.toNat with
  | some (bits, ranges) =>
    let (code, rest) := takeFollowing bits ranges bytes
    (code.map Char.ofNat, rest)
  | none => (none, bytes)

theorem length_takeChar_le (lead : UInt8) (bytes : List UInt8) :
    (takeChar lead bytes).2.length ≤ bytes.length := by
  unfold takeChar
  split
  · exact length_takeFollowing_le _ _ _
  · exact Nat.le_refl _

/-- The characters, with nothing for every ill-formed start. -/
def decode : List UInt8 → List (Option Char)
  | [] => []
  | lead :: bytes =>
    have := length_takeChar_le lead bytes
    (takeChar lead bytes).1 :: decode (takeChar lead bytes).2
termination_by bytes => bytes.length

/-- The text of well-formed bytes. -/
def utf8? (bytes : List UInt8) : Option String :=
  ((decode bytes).mapM id).map String.ofList

/-- The text of the bytes with the replacement character for every ill-formed start. -/
def utf8Lossy (bytes : List UInt8) : String :=
  String.ofList ((decode bytes).map (·.getD '\uFFFD'))

end Png.Text
