import Png.Proofs.Framing
import Png.Raster

/-!
# Numbers made of bit fields

The samples of a pixel are numbers of some bits each (`IsPixel`), and they are stored side by side.
`packBits` puts fields of some number of bits side by side, the first on top. A field is read by
`getBits` at the place where it was put, whatever stands around it (`getBits_packBits`), and
`putBits` replaces that field alone (`putBits_packBits`). The other way round, the fields of a
number side by side make that number again (`packBits_getBits`). Since the bytes of a big endian
number are fields of eight bits, a field that does not cross a byte boundary is also read from its
byte (`getBits_byte`).
-/

namespace Png

open Raster

/-- A pixel of so many samples, all below the depth's limit. -/
def IsPixel (bands depth : Nat) (samples : List Nat) : Prop :=
  samples.length = bands ∧ ∀ s ∈ samples, s < levels depth

@[simp]
theorem isPixel_nil (depth : Nat) : IsPixel 0 depth [] := by
  simp [IsPixel]

@[simp]
theorem isPixel_cons {bands depth s : Nat} {samples : List Nat} :
    IsPixel (bands + 1) depth (s :: samples) ↔ s < levels depth ∧ IsPixel bands depth samples := by
  simp only [IsPixel, List.length_cons, Nat.add_right_cancel_iff, List.forall_mem_cons]
  exact and_left_comm

/-- The number whose fields of `depth` bits are these, the first one on top. -/
def packBits (depth : Nat) (fields : List Nat) : Nat :=
  fields.foldl (fun n s => n * levels depth + s) 0

/-- Packing on from `n` shifts `n` up. -/
theorem foldl_packBits (depth n : Nat) (fields : List Nat) :
    fields.foldl (fun n s => n * levels depth + s) n =
      n * levels (depth * fields.length) + packBits depth fields := by
  induction fields generalizing n with
  | nil => simp [packBits, levels_zero]
  | cons s fields ih =>
    have hcons : packBits depth (s :: fields) =
        s * levels (depth * fields.length) + packBits depth fields := by
      rw [packBits, List.foldl_cons, ih, Nat.zero_mul, Nat.zero_add]
    have hlevels : levels (depth * (fields.length + 1)) =
        levels (depth * fields.length) * levels depth := by
      rw [Nat.mul_succ, levels_add]
    rw [List.foldl_cons, ih, hcons, List.length_cons, hlevels, Nat.add_mul, Nat.add_assoc,
      Nat.mul_assoc, Nat.mul_comm (levels depth)]

theorem packBits_append (depth : Nat) (xs ys : List Nat) :
    packBits depth (xs ++ ys) =
      packBits depth xs * levels (depth * ys.length) + packBits depth ys := by
  rw [packBits, List.foldl_append, foldl_packBits, ← packBits]

theorem packBits_cons (depth s : Nat) (fields : List Nat) :
    packBits depth (s :: fields) = s * levels (depth * fields.length) + packBits depth fields := by
  have := packBits_append depth [s] fields
  simpa [packBits] using this

/-- Fields that are below the limit of the depth make a number of so many bits. -/
theorem packBits_lt {depth : Nat} {fields : List Nat} (h : ∀ s ∈ fields, s < levels depth) :
    packBits depth fields < levels (depth * fields.length) := by
  induction fields with
  | nil => exact levels_pos 0
  | cons s fields ih =>
    have hs : s + 1 ≤ levels depth := h s List.mem_cons_self
    have hrest := ih fun t ht => h t (List.mem_cons_of_mem s ht)
    rw [packBits_cons, List.length_cons, Nat.mul_succ, levels_add]
    calc s * levels (depth * fields.length) + packBits depth fields
        < s * levels (depth * fields.length) + levels (depth * fields.length) := by omega
      _ = (s + 1) * levels (depth * fields.length) := by rw [Nat.add_mul, Nat.one_mul]
      _ ≤ levels depth * levels (depth * fields.length) := Nat.mul_le_mul_right _ hs
      _ = levels (depth * fields.length) * levels depth := Nat.mul_comm _ _

/-- What stands below the bits `low` of a number is not seen by a field above them. -/
theorem getBits_above (depth shift : Nat) {n low bits : Nat} (h : low < levels bits) :
    getBits depth (bits + shift) (n * levels bits + low) = getBits depth shift n := by
  have hdiv : (n * levels bits + low) / levels bits = n := by
    rw [Nat.mul_comm, Nat.mul_add_div (levels_pos bits), Nat.div_eq_of_lt h, Nat.add_zero]
  rw [getBits, levels_add, ← Nat.div_div_eq_div_mul, hdiv, getBits]

/-- The lowest field of a number, whatever stands above it. -/
theorem getBits_lowest {depth s : Nat} (n : Nat) (h : s < levels depth) :
    getBits depth 0 (n * levels depth + s) = s := by
  rw [getBits, levels_zero, Nat.div_one, Nat.mul_comm, Nat.mul_add_mod, Nat.mod_eq_of_lt h]

/-- The field in front of `ys` and behind `xs` is read where it stands. -/
theorem getBits_middle {depth s : Nat} (xs ys : List Nat) (hs : s < levels depth)
    (hys : ∀ t ∈ ys, t < levels depth) :
    getBits depth (depth * ys.length) (packBits depth (xs ++ s :: ys)) = s := by
  have hsplit : packBits depth (xs ++ s :: ys) =
      (packBits depth xs * levels depth + s) * levels (depth * ys.length) + packBits depth ys := by
    rw [packBits_append, packBits_cons, List.length_cons, Nat.mul_succ, levels_add, Nat.add_mul,
      Nat.add_assoc, Nat.mul_assoc, Nat.mul_comm (levels depth)]
  have habove := getBits_above depth 0 (n := packBits depth xs * levels depth + s) (packBits_lt hys)
  rw [Nat.add_zero] at habove
  rw [hsplit, habove, getBits_lowest _ hs]

/-- Every field is read at the place where it was put. -/
theorem getBits_packBits {depth : Nat} {fields : List Nat} (h : ∀ s ∈ fields, s < levels depth)
    {i : Nat} (hi : i < fields.length) :
    getBits depth (depth * (fields.length - 1 - i)) (packBits depth fields) = fields[i] := by
  have hmiddle := getBits_middle (fields.take i) (fields.drop (i + 1))
    (h fields[i] (List.getElem_mem hi)) fun t ht => h t (List.mem_of_mem_drop ht)
  have hlength : fields.length - 1 - i = (fields.drop (i + 1)).length := by
    rw [List.length_drop]
    omega
  rw [hlength]
  rwa [← List.drop_eq_getElem_cons hi, List.take_append_drop] at hmiddle

/-- Fields of zeroes make zero. -/
theorem packBits_replicate_zero (depth n : Nat) : packBits depth (List.replicate n 0) = 0 := by
  induction n with
  | zero => rfl
  | succ n ih => rw [List.replicate_succ, packBits_cons, ih, Nat.zero_mul]

/-- The fields of a number above its lowest `spare` bits, put side by side again. -/
theorem packBits_getBits (depth spare k n : Nat) :
    packBits depth ((List.range k).map fun c => getBits depth (spare + depth * (k - 1 - c)) n) =
      n / levels spare % levels (depth * k) := by
  induction k generalizing spare with
  | zero => exact (Nat.mod_one _).symm
  | succ k ih =>
    -- Without the last field, the one behind it is spare as well.
    have hfront : ((List.range k).map fun c =>
          getBits depth (spare + depth * (k + 1 - 1 - c)) n) =
        (List.range k).map fun c => getBits depth (spare + depth + depth * (k - 1 - c)) n := by
      apply List.map_congr_left
      intro c hc
      obtain ⟨d, rfl⟩ := Nat.exists_eq_add_of_lt (List.mem_range.1 hc)
      have hplace : spare + depth * (c + d + 1 + 1 - 1 - c) =
          spare + depth + depth * (c + d + 1 - 1 - c) := by
        have h₁ : c + d + 1 + 1 - 1 - c = d + 1 := by omega
        have h₂ : c + d + 1 - 1 - c = d := by omega
        rw [h₁, h₂, Nat.mul_succ]
        omega
      rw [hplace]
    have hlast : packBits depth [getBits depth (spare + depth * (k + 1 - 1 - k)) n] =
        n / levels spare % levels depth := by
      simp [packBits, getBits]
    rw [List.range_succ, List.map_append, packBits_append, hfront, ih, List.map_singleton, hlast,
      List.length_singleton, Nat.mul_one, levels_add, ← Nat.div_div_eq_div_mul, Nat.mul_succ,
      levels_add, Nat.mul_comm (levels (depth * k)), Nat.mod_mul]
    rw [Nat.mul_comm, Nat.add_comm]

/-- Putting a field in front of `ys` and behind `xs` replaces the one that stands there. -/
theorem putBits_middle {depth s : Nat} (xs ys : List Nat) (new : Nat)
    (hs : s < levels depth) (hys : ∀ t ∈ ys, t < levels depth) :
    putBits depth (depth * ys.length) (packBits depth (xs ++ s :: ys)) new =
      packBits depth (xs ++ new % levels depth :: ys) := by
  have hget := getBits_middle xs ys hs hys
  rw [getBits] at hget
  rw [putBits, hget, packBits_append, packBits_append, packBits_cons, packBits_cons]
  simp only [List.length_cons]
  omega

/-- Putting a field replaces it. -/
theorem putBits_packBits {depth : Nat} {fields : List Nat} (h : ∀ s ∈ fields, s < levels depth)
    {i : Nat} (hi : i < fields.length) (new : Nat) :
    putBits depth (depth * (fields.length - 1 - i)) (packBits depth fields) new =
      packBits depth (fields.set i (new % levels depth)) := by
  have hmiddle := putBits_middle (fields.take i) (fields.drop (i + 1)) new
    (h fields[i] (List.getElem_mem hi)) fun t ht => h t (List.mem_of_mem_drop ht)
  have hlength : fields.length - 1 - i = (fields.drop (i + 1)).length := by
    rw [List.length_drop]
    omega
  rw [hlength, List.set_eq_take_append_cons_drop, if_pos hi]
  rwa [← List.drop_eq_getElem_cons hi, List.take_append_drop] at hmiddle

/-- A field within a byte of a number is a field of the number. -/
theorem getBits_byte {depth shift : Nat} (n bits : Nat) (h : shift + depth ≤ 8) :
    getBits depth shift (n / levels bits % 256) = getBits depth (bits + shift) n := by
  obtain ⟨k, hk⟩ : ∃ k, 8 = shift + (depth + k) := ⟨8 - shift - depth, by omega⟩
  have h256 : 256 = levels shift * (levels depth * levels k) := by
    rw [← levels_add, ← levels_add, ← hk]
    rfl
  rw [getBits, getBits, levels_add, ← Nat.div_div_eq_div_mul, h256, Nat.mod_mul_right_div_self,
    Nat.mod_mod_of_dvd _ (Nat.dvd_mul_right _ _)]

/-- The bytes of a big endian number are its digits, most significant first. -/
theorem BigEndian.getElem?_encode (width n : Nat) {k : Nat} (hk : k < width) :
    (encode width n)[k]?.map (·.toNat) = some (n / levels (8 * (width - 1 - k)) % 256) := by
  induction width generalizing k with
  | zero => omega
  | succ w ih =>
    cases k with
    | zero => rw [encode, List.getElem?_cons_zero, Option.map_some, toNat_digit]; rfl
    | succ k =>
      rw [encode, List.getElem?_cons_succ, ih (by omega)]
      congr 5
      omega

end Png
