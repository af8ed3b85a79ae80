import Png.Proofs.BitFields
import Png.Scan

/-!
# Rows of samples in bytes

A row is written as one big endian number: its samples are fields of the header's depth, the first
on top, and what is left of the last byte is padding (`Header.packRow`). This is the packing of
narrow samples, most significant bits first, and the high byte first of wide ones.
`pixelAt?_packRow` says that the pixels of the row are read back, whatever the padding is.
-/

namespace Png

/-- The bytes of a row of pixels, with the low bits of `padding` behind the last sample. -/
def Header.packRow (h : Header) (pixels : List (List Nat)) (padding : Nat) : List UInt8 :=
  let samples := pixels.flatten
  let spare := 8 * h.rowBytes pixels.length - h.depth * samples.length
  BigEndian.encode (h.rowBytes pixels.length)
    (packBits h.depth samples * levels spare + padding % levels spare)

@[simp]
theorem Header.length_packRow (h : Header) (pixels : List (List Nat)) (padding : Nat) :
    (h.packRow pixels padding).length = h.rowBytes pixels.length :=
  BigEndian.length_encode _ _

section

variable {depth width spare padding i : Nat} {samples : List Nat}

/-- The field of a sample, counted from the lowest bit of the row. -/
theorem getBits_row (hlt : ∀ s ∈ samples, s < levels depth) (hp : padding < levels spare)
    (hi : i < samples.length) :
    Raster.getBits depth (spare + depth * (samples.length - 1 - i))
      (packBits depth samples * levels spare + padding) = samples[i] := by
  rw [getBits_above depth _ hp, getBits_packBits hlt hi]

/-- A byte of a row, as a number. -/
theorem byte_row (n : Nat) {k : Nat} (hk : k < width) :
    ∃ b : UInt8, (BigEndian.encode width n).toArray[k]? = some b ∧
      b.toNat = n / levels (8 * (width - 1 - k)) % 256 := by
  have h := BigEndian.getElem?_encode width n hk
  rw [List.getElem?_toArray]
  cases hb : (BigEndian.encode width n)[k]? with
  | none => simp [hb] at h
  | some b =>
    rw [hb, Option.map_some, Option.some_inj] at h
    exact ⟨b, rfl, h⟩

/-- A sample that fits in a byte is read from the bits of that byte. -/
theorem sampleAt?_narrow (hdepth : depth = 1 ∨ depth = 2 ∨ depth = 4)
    (hlt : ∀ s ∈ samples, s < levels depth) (hp : padding < levels spare)
    (hwidth : 8 * width = depth * samples.length + spare) (hi : i < samples.length) :
    sampleAt? (BigEndian.encode width (packBits depth samples * levels spare + padding)).toArray i
      depth = some samples[i] := by
  have hk : i * depth / 8 < width := by
    obtain rfl | rfl | rfl := hdepth <;> omega
  obtain ⟨b, hb, hvalue⟩ :=
    byte_row (packBits depth samples * levels spare + padding) hk
  have hfield := getBits_row hlt hp hi
  have hshift : Raster.shiftOf depth i + depth ≤ 8 := by
    rw [Raster.shiftOf]
    obtain rfl | rfl | rfl := hdepth <;> omega
  -- Bits are counted from the lowest of the row here, and from the lowest of the byte there.
  have hplace : 8 * (width - 1 - i * depth / 8) + Raster.shiftOf depth i =
      spare + depth * (samples.length - 1 - i) := by
    rw [Raster.shiftOf]
    obtain rfl | rfl | rfl := hdepth <;> omega
  have hread : sampleAt? (BigEndian.encode width
      (packBits depth samples * levels spare + padding)).toArray i depth =
        some (Raster.getBits depth (Raster.shiftOf depth i) b.toNat) := by
    obtain rfl | rfl | rfl := hdepth <;> simp only [sampleAt?, hb, Option.map_some]
  rw [hread, hvalue, getBits_byte _ _ hshift, hplace, hfield]

/-- A sample of one byte is that byte. -/
theorem sampleAt?_byte (hlt : ∀ s ∈ samples, s < levels 8) (hp : padding < levels spare)
    (hwidth : 8 * width = 8 * samples.length + spare) (hi : i < samples.length) :
    sampleAt? (BigEndian.encode width (packBits 8 samples * levels spare + padding)).toArray i 8 =
      some samples[i] := by
  obtain ⟨b, hb, hvalue⟩ :=
    byte_row (packBits 8 samples * levels spare + padding) (show i < width by omega)
  have hfield := getBits_row hlt hp hi
  have hplace : spare + 8 * (samples.length - 1 - i) = 8 * (width - 1 - i) := by omega
  rw [hplace, Raster.getBits] at hfield
  simp only [sampleAt?, hb, Option.map_some, hvalue]
  exact congrArg some hfield

/-- A sample of two bytes has its high byte first. -/
theorem sampleAt?_word (hlt : ∀ s ∈ samples, s < levels 16) (hp : padding < levels spare)
    (hwidth : 8 * width = 16 * samples.length + spare) (hi : i < samples.length) :
    sampleAt? (BigEndian.encode width (packBits 16 samples * levels spare + padding)).toArray i 16 =
      some samples[i] := by
  have hfield := getBits_row hlt hp hi
  generalize packBits 16 samples * levels spare + padding = n at hfield ⊢
  -- The two bytes are neighbours, and their places differ by eight bits.
  obtain ⟨high, hhigh, hhighValue⟩ := byte_row n (show 2 * i < width by omega)
  obtain ⟨low, hlow, hlowValue⟩ := byte_row n (show 2 * i + 1 < width by omega)
  have hplace : spare + 16 * (samples.length - 1 - i) = 8 * (width - 1 - (2 * i + 1)) := by omega
  have hup : 8 * (width - 1 - 2 * i) = 8 * (width - 1 - (2 * i + 1)) + 8 := by omega
  have h16 : levels 16 = 65536 := rfl
  have h8 : levels 8 = 256 := rfl
  rw [hplace, Raster.getBits, h16] at hfield
  rw [hup, levels_add, ← Nat.div_div_eq_div_mul, h8] at hhighValue
  simp only [sampleAt?, hhigh, hlow]
  show some (256 * high.toNat + low.toNat) = _
  rw [hhighValue, hlowValue, ← hfield, Option.some_inj]
  omega

/-- A sample of any depth is read from the bytes of its row. -/
theorem sampleAt?_encode (hdepth : depth ∈ Header.depths) (hlt : ∀ s ∈ samples, s < levels depth)
    (hp : padding < levels spare) (hwidth : 8 * width = depth * samples.length + spare)
    (hi : i < samples.length) :
    sampleAt? (BigEndian.encode width (packBits depth samples * levels spare + padding)).toArray i
      depth = some samples[i] := by
  have hcases : (depth = 1 ∨ depth = 2 ∨ depth = 4) ∨ depth = 8 ∨ depth = 16 := by
    simp only [Header.depths, List.mem_cons, List.not_mem_nil, or_false] at hdepth
    omega
  obtain hnarrow | rfl | rfl := hcases
  · exact sampleAt?_narrow hnarrow hlt hp hwidth hi
  · exact sampleAt?_byte hlt hp hwidth hi
  · exact sampleAt?_word hlt hp hwidth hi

end

/-! ## The pixels of a row -/

section

variable {h : Header} {pixels : List (List Nat)}

/-- The samples of pixels that all have `n` of them, one after the other. -/
theorem length_flatten_of_forall {n : Nat} (hlen : ∀ p ∈ pixels, p.length = n) :
    pixels.flatten.length = pixels.length * n := by
  induction pixels with
  | nil => simp
  | cons p pixels ih =>
    have hp := hlen p List.mem_cons_self
    have hrest := ih fun q hq => hlen q (List.mem_cons_of_mem p hq)
    rw [List.flatten_cons, List.length_append, hrest, hp, List.length_cons, Nat.succ_mul,
      Nat.add_comm]

/-- Sample `b` of pixel `i`, counted from the start of the row. -/
theorem getElem?_flatten {n i b : Nat} (hlen : ∀ p ∈ pixels, p.length = n) (hb : b < n)
    (hi : i < pixels.length) : pixels.flatten[i * n + b]? = pixels[i][b]? := by
  induction pixels generalizing i with
  | nil => exact absurd hi (Nat.not_lt_zero i)
  | cons p pixels ih =>
    have hp := hlen p List.mem_cons_self
    rw [List.flatten_cons]
    cases i with
    | zero =>
      rw [Nat.zero_mul, Nat.zero_add, List.getElem?_append_left (by omega), List.getElem_cons_zero]
    | succ i =>
      have hat : (i + 1) * n + b = p.length + (i * n + b) := by
        rw [Nat.succ_mul, hp]
        omega
      rw [hat, List.getElem?_append_right (Nat.le_add_right _ _), Nat.add_sub_cancel_left,
        ih (fun q hq => hlen q (List.mem_cons_of_mem p hq)) (Nat.lt_of_succ_lt_succ hi),
        List.getElem_cons_succ]

/-- A function that gives the elements of a list one by one gives the list. -/
theorem mapM_range_eq_some {α : Type} {f : Nat → Option α} {n : Nat} {xs : List α}
    (hlen : xs.length = n) (hf : ∀ i (hi : i < xs.length), f i = some xs[i]) :
    (List.range n).mapM f = some xs := by
  subst hlen
  induction xs generalizing f with
  | nil => rfl
  | cons x xs ih =>
    have hrest : (List.range xs.length).mapM (fun i => f (i + 1)) = some xs :=
      ih fun i hi => hf (i + 1) (Nat.succ_lt_succ hi)
    have hx : f 0 = some x := hf 0 (Nat.succ_pos _)
    rw [List.length_cons, List.range_succ_eq_map, List.mapM_cons, hx, List.mapM_map]
    show (do let ys ← (List.range xs.length).mapM fun i => f (i + 1); some (x :: ys)) = _
    rw [hrest]
    rfl

/-- Every pixel of a row is read back, whatever its padding is. -/
theorem Header.pixelAt?_packRow (hdepth : h.depth ∈ depths)
    (hpixels : ∀ p ∈ pixels, IsPixel h.channels h.depth p) (padding : Nat) {i : Nat}
    (hi : i < pixels.length) :
    h.pixelAt? (h.packRow pixels padding).toArray i = some pixels[i] := by
  have hlen : ∀ p ∈ pixels, p.length = h.channels := fun p hp => (hpixels p hp).1
  have hcount := length_flatten_of_forall hlen
  have hsamples : ∀ s ∈ pixels.flatten, s < levels h.depth := by
    intro s hs
    obtain ⟨p, hp, hs⟩ := List.mem_flatten.1 hs
    exact (hpixels p hp).2 s hs
  have hpixel : pixels[i].length = h.channels := hlen _ (List.getElem_mem hi)
  -- The padding fills the last byte.
  have hwidth : 8 * h.rowBytes pixels.length = h.depth * pixels.flatten.length +
      (8 * h.rowBytes pixels.length - h.depth * pixels.flatten.length) := by
    have : h.depth * pixels.flatten.length = h.channels * pixels.length * h.depth := by
      rw [hcount, Nat.mul_comm pixels.length, Nat.mul_comm]
    rw [rowBytes]
    omega
  refine mapM_range_eq_some hpixel fun b hb => ?_
  have hat := getElem?_flatten hlen (hpixel ▸ hb) hi
  rw [List.getElem?_eq_getElem hb] at hat
  obtain ⟨hin, hat⟩ := List.getElem?_eq_some_iff.1 hat
  rw [← hat]
  exact sampleAt?_encode hdepth hsamples (Nat.mod_lt _ (levels_pos _)) hwidth hin

end

end Png
