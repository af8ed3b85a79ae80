import Mathlib.Algebra.GroupWithZero.Nat
import Png.Proofs.ChunkRuns
import Png.Proofs.ImageDataChunks

/-!
# The bytes behind a run of chunks

The converse of `Framing.lean`: a step of reading that succeeds has found the bytes of what it gives
in front of the stream, and has moved on by exactly these. For a chunk this is `of_takeChunk`, for a
run of chunks `Takes.bytes_eq`, and for the opening of a file `of_takeOpening`. So a file whose
headers can be read is the signature followed by its chunks (`bytes_of_readHeaders`), and how long a
run may be is known from the length of the file (`length_of_opened_run`).
-/

namespace Png

namespace BigEndian

/-- The low digits do not depend on what stands above them. -/
theorem encode_add (width n above : Nat) :
    encode width (above * levels (8 * width) + n) = encode width n := by
  induction width generalizing above with
  | zero => rfl
  | succ w ih =>
    have hl : above * levels (8 * (w + 1)) = above * 256 * levels (8 * w) := by
      rw [Nat.mul_succ, levels_add, Nat.mul_comm (levels _), Nat.mul_assoc]
      rfl
    have hdigit : ((above * 256 * levels (8 * w) + n) >>> (8 * w)).toUInt8 =
        (n >>> (8 * w)).toUInt8 := by
      apply UInt8.toNat_inj.1
      rw [toNat_digit, toNat_digit, Nat.mul_comm _ (levels _),
        Nat.mul_add_div (levels_pos _), Nat.add_comm, Nat.add_mul_mod_self_right]
    rw [hl, encode, encode, hdigit, ih]

/-- The number that some bytes write is written by these bytes. -/
@[simp]
theorem encode_decode (bytes : List UInt8) : encode bytes.length (decode bytes) = bytes := by
  induction bytes with
  | nil => rfl
  | cons b bytes ih =>
    have hdigit : (decode (b :: bytes) >>> (8 * bytes.length)).toUInt8 = b := by
      apply UInt8.toNat_inj.1
      have hb : b.toNat < 256 := b.toNat_lt
      rw [toNat_digit, decode_cons, Nat.mul_comm, Nat.mul_add_div (levels_pos _),
        Nat.div_eq_of_lt (decode_lt bytes), Nat.add_zero, Nat.mod_eq_of_lt hb]
    rw [List.length_cons, encode, hdigit, decode_cons, encode_add, ih]

end BigEndian

theorem ChunkTag.toBytes_of_ofBytes? {bytes : List UInt8} {tag : ChunkTag}
    (h : ofBytes? bytes = some tag) : tag.toBytes = bytes := by
  unfold ofBytes? at h
  split at h
  · cases h
    rfl
  · cases h

/-- A chunk takes twelve bytes more than its data. -/
@[simp]
theorem Chunk.length_toBytes (c : Chunk) : c.toBytes.length = 12 + c.data.length := by
  simp only [toBytes, List.length_append, BigEndian.length_encode, ChunkTag.toBytes,
    List.length_cons, List.length_nil]
  omega

/-- The length of the signature and the chunks behind it. -/
def fileLength (cs : List Chunk) : Nat := 8 + (cs.map fun c => 12 + c.data.length).sum

theorem twelve_mul_length_le (cs : List Chunk) : 8 + 12 * cs.length ≤ fileLength cs := by
  induction cs with
  | nil => exact Nat.le_refl 8
  | cons c cs ih =>
    rw [fileLength] at ih ⊢
    rw [List.map_cons, List.sum_cons, List.length_cons]
    omega

namespace ChunkStream

variable {s s' t : ChunkStream} {bytes : List UInt8}

/-! ## One step -/

/-- A read that succeeds has split its bytes from the front of the source. -/
theorem of_takeBytes {n : Nat} {onFailure : ReadFailure → Error} {taken : List UInt8}
    (h : takeBytes n onFailure s = .ok taken s') :
    taken.length = n ∧ ∃ rest, s.source.rest = taken ++ rest ∧
      s' = { s with source := { s.source with rest } } := by
  rw [takeBytes, Source.take_eq] at h
  split at h
  · next hread =>
    split at hread
    · next hn =>
      cases hread
      cases h
      exact ⟨List.length_take_of_le hn, s.source.rest.drop n, (List.take_append_drop n _).symm, rfl⟩
    · cases hread
  · cases h

/-- A head that is taken from the source stood in front of it. -/
theorem of_takeHead {head : ChunkHead} (h : takeHead s = .ok head s') :
    head.length < levels 32 ∧ ∃ rest,
      s.source.rest = BigEndian.encode 4 head.length ++ head.tag.toBytes ++ rest ∧
        s' = { s with source := { s.source with rest } } := by
  simp only [takeHead, bind_eq_ok] at h
  obtain ⟨length, t, hlength, type, u, htype, tag, v, htag, h⟩ := h
  obtain ⟨hlen, rest, hrest, rfl⟩ := of_takeBytes hlength
  obtain ⟨-, rest', hrest', rfl⟩ := of_takeBytes htype
  have hsome : demand (ChunkTag.ofBytes? type) (.truncated .chunkType) = .ok tag := by
    unfold ofExcept at htag
    split at htag
    · next htag' =>
      cases htag
      exact htag'
    · cases htag
  obtain rfl := state_of_ofExcept htag
  cases h
  -- Writing the length that the four bytes are read as gives these bytes again.
  have hlt := BigEndian.decode_lt length
  have hbytes := BigEndian.encode_decode length
  rw [hlen] at hlt hbytes
  refine ⟨hlt, rest', ?_, rfl⟩
  rw [hbytes, ChunkTag.toBytes_of_ofBytes? (demand_eq_ok_iff.1 hsome), List.append_assoc, hrest]
  exact congrArg (length ++ ·) hrest'

/-- A head that is taken stood in front, pending or not. -/
theorem of_popHead {head : ChunkHead} (hs : s.Holds bytes) (h : popHead s = .ok head s') :
    head.length < levels 32 ∧ ∃ rest,
      bytes = BigEndian.encode 4 head.length ++ head.tag.toBytes ++ rest ∧ s' = s.jump rest := by
  unfold Holds at hs
  unfold popHead at h
  cases hp : s.pending with
  | some other =>
    simp only [hp] at hs h
    obtain ⟨hlt, rfl⟩ := hs
    cases h
    exact ⟨hlt, s.source.rest, rfl, rfl⟩
  | none =>
    simp only [hp] at hs h
    obtain ⟨hlt, rest, hrest, rfl⟩ := of_takeHead h
    refine ⟨hlt, rest, hs.symm.trans hrest, ?_⟩
    rw [jump, hp]

/-- A chunk that is taken stood in front with all of its bytes. -/
theorem of_takeChunk {c : Chunk} (hs : s.Holds bytes) (h : takeChunk s = .ok c s') :
    c.Fits ∧ ∃ rest, bytes = c.toBytes ++ rest ∧ s' = s.jump rest := by
  simp only [takeChunk, bind_eq_ok] at h
  obtain ⟨head, t, hhead, data, u, hdata, crc, v, hcrc, h⟩ := h
  obtain ⟨hlt, rest, rfl, rfl⟩ := of_popHead hs hhead
  obtain ⟨hlength, rest', hrest', rfl⟩ := of_takeBytes hdata
  obtain ⟨hfour, rest'', hrest'', rfl⟩ := of_takeBytes hcrc
  cases h
  have hcrclt := BigEndian.decode_lt crc
  have hcrcbytes := BigEndian.encode_decode crc
  rw [hfour] at hcrclt hcrcbytes
  have hrest' : rest = data ++ rest' := hrest'
  have hrest'' : rest' = crc ++ rest'' := hrest''
  refine ⟨⟨hlength ▸ hlt, hcrclt⟩, rest'', ?_, rfl⟩
  rw [Chunk.toBytes_append, Chunk.head, hcrcbytes, ← hrest'', ← hrest', hlength]

/-! ## A run of chunks -/

/-- A run has taken the bytes of its chunks, and nothing else. -/
theorem Takes.bytes_eq {cs : List Chunk} (h : s.Takes cs t) (hs : s.Holds bytes) :
    (∀ c ∈ cs, c.Fits) ∧ ∃ rest, bytes = cs.flatMap Chunk.toBytes ++ rest ∧ t.Holds rest ∧
      (cs ≠ [] → t = s.jump rest) := by
  induction h generalizing bytes with
  | nil s => exact ⟨nofun, bytes, rfl, hs, fun hne => absurd rfl hne⟩
  | @cons s t u c cs htaken _ ih =>
    obtain ⟨hc, rest, rfl, rfl⟩ := of_takeChunk hs htaken
    obtain ⟨hcs, rest', rfl, hholds, hjump⟩ := ih (holds_jump s rest)
    refine ⟨List.forall_mem_cons.2 ⟨hc, hcs⟩, rest', ?_, hholds, fun _ => ?_⟩
    · rw [List.flatMap_cons, List.append_assoc]
    · cases cs with
      | nil =>
        cases ‹Takes _ [] _›
        rfl
      | cons d ds => exact hjump (List.cons_ne_nil d ds)

/-- Chunks that stand in front of a stream are taken from it. -/
theorem takes_of_holds {cs : List Chunk} {rest : List UInt8} (hfits : ∀ c ∈ cs, c.Fits)
    (hs : s.Holds (cs.flatMap Chunk.toBytes ++ rest)) :
    ∃ t, s.Takes cs t ∧ t.Holds rest ∧ t.source.failure = s.source.failure ∧
      (cs ≠ [] → t = s.jump rest) := by
  induction cs generalizing s with
  | nil => exact ⟨s, .nil s, hs, rfl, fun hne => absurd rfl hne⟩
  | cons c cs ih =>
    rw [List.flatMap_cons, List.append_assoc] at hs
    have htaken := takeChunk_of_holds (hfits c List.mem_cons_self) hs
    have hjump := s.holds_jump (cs.flatMap Chunk.toBytes ++ rest)
    obtain ⟨t, hrun, ht, hfailure, hmove⟩ :=
      ih (fun d hd => hfits d (List.mem_cons_of_mem c hd)) hjump
    -- Where the stream ends up depends on the last chunk only.
    refine ⟨t, .cons htaken hrun, ht, hfailure, fun _ => ?_⟩
    cases cs with
    | nil =>
      cases hrun
      rfl
    | cons d ds => exact hmove (List.cons_ne_nil d ds)

/-! ## The opening of a file -/

/-- An opening that succeeds has found the signature, and the head of a header chunk, in front. -/
theorem of_takeOpening {source : Source} {opened : ChunkStream}
    (h : takeOpening { source } = .ok () opened) :
    ∃ bytes, source.rest = signature ++ bytes ∧ opened.Holds bytes ∧
      (∀ rest, opened.jump rest = { source := { source with rest } }) := by
  unfold takeOpening at h
  split at h
  · cases h
  · next t hsig =>
    simp only [takeSignature, bind_eq_ok] at hsig
    obtain ⟨taken, u, htaken, hsig⟩ := hsig
    obtain ⟨-, bytes, hbytes, rfl⟩ := of_takeBytes htaken
    split at hsig
    · cases hsig
    · next hsame =>
      obtain rfl : taken = signature := Decidable.not_not.1 hsame
      cases hsig
      -- The head that is looked at stays pending, so that nothing of it is lost.
      simp only [peekHead] at h
      split at h
      · next head s hpeek =>
        split at hpeek
        · next head' s' hhead =>
          cases hpeek
          obtain ⟨hlt, rest, hrest, rfl⟩ := of_takeHead hhead
          split at h
          · cases h
            exact ⟨bytes, hbytes, ⟨hlt, hrest.symm⟩, fun _ => rfl⟩
          · cases h
        · cases hpeek
      · cases h
      · cases h

/-- The chunks that can be taken behind the opening of a file, however many, are no longer than the
file: twelve bytes each beside their data, behind a signature of eight. -/
theorem length_of_opened_run {source : Source} {opened : ChunkStream} {cs : List Chunk}
    (hopen : takeOpening { source } = .ok () opened) (hrun : opened.Takes cs t) :
    fileLength cs ≤ source.rest.length := by
  obtain ⟨bytes, hbytes, hholds, -⟩ := of_takeOpening hopen
  obtain ⟨-, rest, rfl, -⟩ := hrun.bytes_eq hholds
  simp only [hbytes, List.length_append, List.length_flatMap, Chunk.length_toBytes]
  exact Nat.add_le_add_left (Nat.le_add_right _ _) 8

end ChunkStream

theorem length_signature_append (cs : List Chunk) :
    (signature ++ cs.flatMap Chunk.toBytes).length = fileLength cs := by
  simp only [List.length_append, List.length_flatMap, Chunk.length_toBytes]
  rfl

namespace Source

variable {source other : Source} {cs : List Chunk}

/-- The bytes of a file that are read. -/
theorem Carries.take_eq (h : source.Carries cs) :
    source.rest.take (fileLength cs) = signature ++ cs.flatMap Chunk.toBytes := by
  obtain ⟨tail, hrest⟩ := h.rest
  rw [hrest, ← List.append_assoc, List.take_left' (length_signature_append cs)]

/-- Another file that starts with the same bytes carries the same chunks. -/
theorem Carries.of_take (h : source.Carries cs)
    (hother : other.rest.take (fileLength cs) = source.rest.take (fileLength cs)) :
    other.Carries cs := by
  refine ⟨h.fits, ⟨other.rest.drop (fileLength cs), ?_⟩, h.ends⟩
  rw [← List.append_assoc, ← h.take_eq, ← hother, List.take_append_drop]

end Source

namespace Decoder

open ChunkStream (of_takeOpening takes_of_holds)

variable {source : Source} {o : Options} {cs : List Chunk}

/-- What stands behind the opening of a file that carries chunks. -/
theorem opened_of_carries (h : source.Carries cs)
    (hheader : cs.head?.map Chunk.kind = some .header) :
    ∃ opened tail, ChunkStream.takeOpening { source } = .ok () opened ∧
      opened.Holds (cs.flatMap Chunk.toBytes ++ tail) ∧
      opened.jump tail = { source := source.skip (fileLength cs) } := by
  obtain ⟨tail, hrest⟩ := h.rest
  cases cs with
  | nil => cases hheader
  | cons c cs =>
    -- The first chunk is a header, so that the opening does not refuse it.
    have hkind : c.kind = .header := by simpa using hheader
    rw [List.flatMap_cons, List.append_assoc] at hrest
    obtain ⟨opened, hholds, hopen⟩ := ChunkStream.takeOpening_of_chunk (s := { source }) rfl
      (h.fits c List.mem_cons_self) hrest
    rw [if_pos hkind] at hopen
    obtain ⟨-, -, -, hjump⟩ := of_takeOpening hopen
    refine ⟨opened, tail, hopen, ?_, ?_⟩
    · rwa [List.flatMap_cons, List.append_assoc]
    · rw [hjump, Source.skip, hrest, ← List.append_assoc, ← List.append_assoc,
        List.append_assoc signature, ← List.flatMap_cons,
        List.drop_left' (length_signature_append (c :: cs))]

variable [Libraries]

/-- The headers of a file can be read if it carries chunks, a header first, that are all
accepted. -/
theorem readHeaders_of_carries {m : Metadata} (h : source.Carries cs)
    (hheader : cs.head?.map Chunk.kind = some .header)
    (hcs : Metadata.acceptAll cs (.new o) = .ok () m) :
    readHeaders (.new source o) = .ok ()
      { stream := { source := source.skip (fileLength cs) }, metadata := m, stage := .complete } := by
  obtain ⟨opened, tail, hopen, hholds, hjump⟩ := opened_of_carries h hheader
  obtain ⟨t, hrun, -, -, hmove⟩ := takes_of_holds h.fits hholds
  obtain ⟨front, last, rfl, hlast, hfront⟩ := h.ends
  rw [readHeaders_of_opened rfl hopen, metadata_new,
    acceptChunks_of_run_to_end hrun hcs hlast hfront, hmove (by simp), hjump]

/-- A file whose headers can be read carries chunks, a header first, that are all accepted. -/
theorem exists_carries {d : Decoder} (h : readHeaders (.new source o) = .ok () d) :
    ∃ cs, source.Carries cs ∧ cs.head?.map Chunk.kind = some .header ∧
      Metadata.acceptAll cs (.new o) = .ok () d.metadata := by
  have hopened : ∃ opened, ChunkStream.takeOpening { source } = .ok () opened := by
    cases hopen : ChunkStream.takeOpening { source } with
    | ok u opened => exact ⟨opened, rfl⟩
    | error e s =>
      rw [readHeaders_of_opening_failed rfl hopen] at h
      cases h
  obtain ⟨opened, hopen⟩ := hopened
  rw [readHeaders_of_opened rfl hopen] at h
  cases haccept : acceptChunks opened (new source o).metadata with
  | error e r =>
    rw [haccept] at h
    cases h
  | ok u r =>
    obtain ⟨s, m⟩ := r
    rw [haccept] at h
    cases h
    obtain ⟨front, last, hrun, hcs, hlast, hfront⟩ := exists_run_of_ok haccept
    obtain ⟨bytes, hbytes, hholds, -⟩ := of_takeOpening hopen
    obtain ⟨hfits, tail, rfl, -⟩ := hrun.bytes_eq hholds
    refine ⟨front ++ [last], ⟨hfits, ⟨tail, hbytes⟩, front, last, rfl, hlast, hfront⟩, ?_, hcs⟩
    -- The first chunk is the one whose head was looked at.
    have hpending := ChunkStream.pending_of_takeOpening hopen
    cases hlist : front ++ [last] with
    | nil => simp at hlist
    | cons c cs =>
      rw [hlist] at hrun
      cases hrun with
      | cons htaken _ => rw [List.head?_cons, Option.map_some, kind_of_takeChunk hpending htaken]

end Decoder

end Png
