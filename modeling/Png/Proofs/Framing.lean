import Png.Decoder

/-!
# Chunks in the bytes of a file

A chunk whose length and check value fit their four bytes is read back from its bytes, whatever
follows them. `takeChunk_of_holds` says so for a stream at the start of a chunk, with the chunk's
head pending or still in the source, and `takeOpening_of_rest` for the opening of a file, which
leaves the head of the first chunk pending.
-/

namespace Png

namespace BigEndian

/-- A digit in base 256 is the number shifted down to it, without what stands above. -/
theorem toNat_digit (n width : Nat) :
    (n >>> (8 * width)).toUInt8.toNat = n / levels (8 * width) % 256 := by
  rw [Nat.shiftRight_eq_div_pow, levels, Nat.one_shiftLeft]
  exact UInt8.toNat_ofNat'

/-- Reading on from `acc` through the digits of `n` shifts `acc` up and adds what the digits keep of
`n`. -/
theorem foldl_encode (width n acc : Nat) :
    (encode width n).foldl (fun n b => 256 * n + b.toNat) acc =
      acc * levels (8 * width) + n % levels (8 * width) := by
  induction width generalizing acc with
  | zero => simp [encode, levels_zero, Nat.mod_one]
  | succ w ih =>
    have hl : levels (8 * (w + 1)) = levels (8 * w) * 256 := by rw [Nat.mul_succ, levels_add]; rfl
    rw [encode, List.foldl_cons, ih, toNat_digit, hl, Nat.mod_mul, Nat.add_mul, Nat.mul_comm 256 acc,
      Nat.mul_assoc, Nat.mul_comm 256, Nat.mul_comm (levels (8 * w)) (_ % 256)]
    omega

/-- A number that fits in `width` bytes is read back from them. -/
theorem decode_encode (width n : Nat) (h : n < levels (8 * width)) :
    decode (encode width n) = n := by
  rw [decode, foldl_encode, Nat.zero_mul, Nat.zero_add, Nat.mod_eq_of_lt h]

/-- Bytes behind others shift these up. -/
theorem foldl_decode (bytes : List UInt8) (acc : Nat) :
    bytes.foldl (fun n b => 256 * n + b.toNat) acc =
      acc * levels (8 * bytes.length) + decode bytes := by
  induction bytes generalizing acc with
  | nil => simp [decode, levels_zero]
  | cons b bytes ih =>
    have hl : levels (8 * (bytes.length + 1)) = 256 * levels (8 * bytes.length) := by
      rw [Nat.mul_succ, Nat.add_comm, levels_add]
      rfl
    have hdecode : decode (b :: bytes) = b.toNat * levels (8 * bytes.length) + decode bytes := by
      rw [decode, List.foldl_cons, ih, Nat.mul_zero, Nat.zero_add]
    rw [List.foldl_cons, ih, hdecode, List.length_cons, hl, Nat.add_mul, Nat.mul_comm 256 acc,
      Nat.mul_assoc, Nat.add_assoc]

/-- The first byte counts for the most. -/
theorem decode_cons (b : UInt8) (bytes : List UInt8) :
    decode (b :: bytes) = b.toNat * levels (8 * bytes.length) + decode bytes := by
  rw [decode, List.foldl_cons, foldl_decode, Nat.mul_zero, Nat.zero_add]

/-- The number that some bytes write is below the levels of their bits. -/
theorem decode_lt (bytes : List UInt8) : decode bytes < levels (8 * bytes.length) := by
  induction bytes with
  | nil => exact levels_pos 0
  | cons b bytes ih =>
    have hl : levels (8 * (bytes.length + 1)) = 256 * levels (8 * bytes.length) := by
      rw [Nat.mul_succ, Nat.add_comm, levels_add]
      rfl
    have hb : b.toNat < 256 := b.toNat_lt
    rw [decode_cons, List.length_cons, hl]
    calc b.toNat * levels (8 * bytes.length) + decode bytes
        < b.toNat * levels (8 * bytes.length) + levels (8 * bytes.length) := by omega
      _ = (b.toNat + 1) * levels (8 * bytes.length) := by rw [Nat.add_mul, Nat.one_mul]
      _ ≤ 256 * levels (8 * bytes.length) := Nat.mul_le_mul_right _ hb

end BigEndian

/-- A source that holds `bytes` in front gives them to a read of their number. -/
theorem Source.take_append {s : Source} {bytes rest : List UInt8} (h : s.rest = bytes ++ rest) :
    s.take bytes.length = (.ok bytes, { s with rest }) := by
  rw [Source.take_eq, if_pos (by simp [h])]
  simp [Source.skip, h]

/-- The length of the data and the check value fit the four bytes that a file has for each. -/
structure Chunk.Fits (c : Chunk) : Prop where
  length_lt : c.data.length < levels 32
  crc_lt : c.crc < levels 32

instance (c : Chunk) : Decidable c.Fits :=
  decidable_of_iff (c.data.length < levels 32 ∧ c.crc < levels 32)
    ⟨fun h => ⟨h.1, h.2⟩, fun h => ⟨h.length_lt, h.crc_lt⟩⟩

/-- The head in front of the chunk's data. -/
def Chunk.head (c : Chunk) : ChunkHead := { length := c.data.length, tag := c.tag }

/-- The bytes of a chunk in front of others: its head, its data, its check value. -/
theorem Chunk.toBytes_append (c : Chunk) (rest : List UInt8) :
    c.toBytes ++ rest = BigEndian.encode 4 c.head.length ++ c.head.tag.toBytes ++
      (c.data ++ (BigEndian.encode 4 c.crc ++ rest)) := by
  simp [Chunk.toBytes, Chunk.head]

namespace ChunkStream

/-- The stream of the same source that has only `rest` of its bytes left, and no head pending. -/
def jump (s : ChunkStream) (rest : List UInt8) : ChunkStream :=
  { source := { s.source with rest } }

/-- The bytes up to the first pause are `bytes`, those of a pending head included. -/
def Holds (s : ChunkStream) (bytes : List UInt8) : Prop :=
  match s.pending with
  | none => s.source.rest = bytes
  | some head =>
    head.length < levels 32 ∧
      BigEndian.encode 4 head.length ++ head.tag.toBytes ++ s.source.rest = bytes

theorem takeBytes_append {s : ChunkStream} {bytes rest : List UInt8}
    {onFailure : ReadFailure → Error} (h : s.source.rest = bytes ++ rest) :
    takeBytes bytes.length onFailure s =
      .ok bytes { s with source := { s.source with rest } } := by
  rw [takeBytes, Source.take_append h]

/-- Taking `n` bytes where `n` is written apart from the bytes. -/
theorem takeBytes_of_length {s : ChunkStream} {n : Nat} {bytes rest : List UInt8}
    {onFailure : ReadFailure → Error} (hn : bytes.length = n) (h : s.source.rest = bytes ++ rest) :
    takeBytes n onFailure s = .ok bytes { s with source := { s.source with rest } } := by
  subst hn
  exact takeBytes_append h

/-- A head in front of the source is taken. -/
theorem takeHead_of_rest {s : ChunkStream} {head : ChunkHead} {rest : List UInt8}
    (hlt : head.length < levels 32)
    (h : s.source.rest = BigEndian.encode 4 head.length ++ head.tag.toBytes ++ rest) :
    takeHead s = .ok head { s with source := { s.source with rest } } := by
  rw [List.append_assoc] at h
  rw [takeHead, bind_eq_ok]
  refine ⟨_, _, takeBytes_of_length (BigEndian.length_encode 4 _) h, ?_⟩
  rw [bind_eq_ok]
  refine ⟨_, _, takeBytes_of_length (rfl : head.tag.toBytes.length = 4) rfl, ?_⟩
  simp [ofExcept, demand, ChunkTag.ofBytes?_toBytes, bind, EStateM.bind, pure, EStateM.pure,
    BigEndian.decode_encode 4 _ hlt]

/-- Looking at a head in front of the source makes it pending. -/
theorem peekHead_of_rest {s : ChunkStream} {head : ChunkHead} {rest : List UInt8}
    (hnone : s.pending = none) (hlt : head.length < levels 32)
    (h : s.source.rest = BigEndian.encode 4 head.length ++ head.tag.toBytes ++ rest) :
    peekHead s = .ok head { source := { s.source with rest }, pending := some head } := by
  simp only [peekHead, hnone, takeHead_of_rest hlt h]

/-- A head is taken where it is pending as where it is in front of the source. -/
theorem popHead_of_holds {s : ChunkStream} {head : ChunkHead} {rest : List UInt8}
    (hlt : head.length < levels 32)
    (h : s.Holds (BigEndian.encode 4 head.length ++ head.tag.toBytes ++ rest)) :
    popHead s = .ok head (s.jump rest) := by
  unfold Holds at h
  cases hp : s.pending with
  | none =>
    simp only [hp] at h
    simp only [popHead, hp, takeHead_of_rest hlt h, jump]
  | some other =>
    simp only [hp] at h
    obtain ⟨hother, h⟩ := h
    obtain ⟨hhead, hrest⟩ := List.append_inj h (by simp [BigEndian.length_encode, ChunkTag.toBytes])
    obtain ⟨hlen, htag⟩ := List.append_inj hhead (by simp [BigEndian.length_encode])
    -- Both fields of the pending head are read back from the same bytes.
    have elen : other.length = head.length := by
      rw [← BigEndian.decode_encode 4 _ hother, hlen, BigEndian.decode_encode 4 _ hlt]
    have etag : other.tag = head.tag := by
      have := congrArg ChunkTag.ofBytes? htag
      rwa [ChunkTag.ofBytes?_toBytes, ChunkTag.ofBytes?_toBytes, Option.some_inj] at this
    obtain ⟨length, tag⟩ := other
    subst elen etag
    simp only [popHead, hp, jump, ← hrest]

/-- A chunk in front is taken, and what follows it stays. -/
theorem takeChunk_of_holds {s : ChunkStream} {c : Chunk} {rest : List UInt8} (hc : c.Fits)
    (h : s.Holds (c.toBytes ++ rest)) : takeChunk s = .ok c (s.jump rest) := by
  rw [Chunk.toBytes_append] at h
  rw [takeChunk, bind_eq_ok]
  refine ⟨_, _, popHead_of_holds hc.length_lt h, ?_⟩
  rw [bind_eq_ok]
  refine ⟨_, _, takeBytes_of_length rfl rfl, ?_⟩
  rw [bind_eq_ok]
  refine ⟨_, _, takeBytes_of_length (BigEndian.length_encode 4 _) rfl, ?_⟩
  rw [BigEndian.decode_encode 4 _ hc.crc_lt]
  rfl

/-- The stream behind a chunk holds what follows it. -/
theorem holds_jump (s : ChunkStream) (rest : List UInt8) : (s.jump rest).Holds rest := by
  rfl

/-- The signature in front of the source is taken. -/
theorem takeSignature_of_rest {s : ChunkStream} {rest : List UInt8}
    (h : s.source.rest = signature ++ rest) :
    takeSignature s = .ok () { s with source := { s.source with rest } } := by
  rw [takeSignature, bind_eq_ok]
  refine ⟨_, _, takeBytes_of_length rfl h, ?_⟩
  rfl

/-- The opening of a file looks at the head of the first chunk, which stays pending, and succeeds if
that is a header. -/
theorem takeOpening_of_rest {s : ChunkStream} {head : ChunkHead} {rest : List UInt8}
    (hnone : s.pending = none) (hlt : head.length < levels 32)
    (h : s.source.rest =
      signature ++ (BigEndian.encode 4 head.length ++ head.tag.toBytes ++ rest)) :
    takeOpening s =
      let opened := { source := { s.source with rest }, pending := some head }
      if head.tag.kind = .header then .ok () opened else .error .missingHeader opened := by
  generalize hb : BigEndian.encode 4 head.length ++ head.tag.toBytes ++ rest = bytes at h
  have hpeek := peekHead_of_rest (s := { s with source := { s.source with rest := bytes } })
    hnone hlt hb.symm
  simp only [takeOpening, takeSignature_of_rest h, hpeek]

/-- The opening of a file looks at its first chunk and takes nothing of it. -/
theorem takeOpening_of_chunk {s : ChunkStream} {c : Chunk} {rest : List UInt8}
    (hnone : s.pending = none) (hc : c.Fits)
    (h : s.source.rest = signature ++ (c.toBytes ++ rest)) :
    ∃ opened : ChunkStream, opened.Holds (c.toBytes ++ rest) ∧
      takeOpening s =
        if c.kind = .header then .ok () opened else .error .missingHeader opened := by
  rw [Chunk.toBytes_append] at h ⊢
  refine ⟨{
    source := { s.source with rest := c.data ++ (BigEndian.encode 4 c.crc ++ rest) }
    pending := some c.head }, ⟨hc.length_lt, rfl⟩, takeOpening_of_rest hnone hc.length_lt h⟩

end ChunkStream

end Png
