import Png.Libraries.Own
import Png.Proofs.ChunkBytes

/-!
# Files that are cut off

What becomes of a file whose headers can be read when it is cut off before its last chunk ends, or
when its source fails there. Wherever the cut falls, one read asks for more bytes than are left; the
steps behind it are not reached, so that the error is what that one read makes of the reason
(`CutShort`). A cut inside the chunks falls into one of them (`exists_split_take`), in front of
which all are taken and accepted as before. There are two kinds of reads: the data of a chunk are
read as far as they go, and then every failure of the source is reported as such, while everything
else is read in one piece, where a source that says by itself that its bytes have ended too early is
taken at its word (`CutReport`). `readHeaders_exact` puts this together with what `ChunkBytes.lean`
says about files that are whole.
-/

namespace Png

/-- The first elements of a list that is made of pieces are some whole pieces and the beginning of
the next one. -/
theorem exists_split_take {α β : Type} {f : α → List β} {as : List α} {k : Nat}
    (h : k < (as.flatMap f).length) :
    ∃ front a back j, as = front ++ a :: back ∧ j < (f a).length ∧
      k = (front.flatMap f).length + j ∧ (as.flatMap f).take k = front.flatMap f ++ (f a).take j := by
  induction as generalizing k with
  | nil => exact absurd h (Nat.not_lt_zero k)
  | cons a as ih =>
    rw [List.flatMap_cons, List.length_append] at h
    by_cases hk : k < (f a).length
    · refine ⟨[], a, as, k, rfl, hk, (Nat.zero_add k).symm, ?_⟩
      rw [List.flatMap_cons, List.take_append_of_le_length (Nat.le_of_lt hk)]
      rfl
    · obtain ⟨front, b, back, j, rfl, hj, hplace, htake⟩ := ih (k := k - (f a).length) (by omega)
      refine ⟨a :: front, b, back, j, rfl, hj, ?_, ?_⟩
      · rw [List.flatMap_cons, List.length_append]
        omega
      · rw [List.flatMap_cons, List.take_append, List.take_of_length_le (by omega), htake,
          List.flatMap_cons, List.append_assoc]

namespace ChunkStream

/-- The step stopped with this error. -/
def CutShort {α : Type} (result : EStateM.Result Error ChunkStream α) (e : Error) : Prop :=
  ∃ s, result = .error e s

section

variable {α β : Type} {step : ChunkReader α} {next : α → ChunkReader β} {s t : ChunkStream}

theorem bind_of_ok {a : α} (h : step s = .ok a t) : (step >>= next) s = next a t := by
  simp only [bind, EStateM.bind, h]

/-- Where a step is cut short, those behind it are not reached. -/
theorem CutShort.bind {e : Error} (h : CutShort (step s) e) : CutShort ((step >>= next) s) e := by
  obtain ⟨t, h⟩ := h
  refine ⟨t, ?_⟩
  simp only [Bind.bind, EStateM.bind, h]

end

/-- The part of a head that the first byte behind `k` of its bytes belongs to. -/
def headPart (k : Nat) : Part := if k < 4 then .chunkLength else .chunkType

/-- What is reported of a chunk that is cut behind `k` of its bytes. -/
def cutReport (c : Chunk) (k : Nat) : ReadFailure → Error :=
  if k < 8 then shortRead (headPart k)
  else if k < 8 + c.data.length then openRead
  else shortRead .chunkCrc

variable {s : ChunkStream}

/-- A read of more bytes than are left fails for the reason that the source gives. -/
theorem takeBytes_cutShort {n : Nat} {onFailure : ReadFailure → Error}
    (h : s.source.rest.length < n) :
    CutShort (takeBytes n onFailure s) (onFailure s.source.failure) := by
  refine ⟨{ s with source := s.source.resumed }, ?_⟩
  rw [takeBytes, Source.take_eq, if_neg (by omega)]

theorem takeSignature_cutShort (h : s.source.rest.length < 8) :
    CutShort (takeSignature s) (exactRead .badSignature s.source.failure) :=
  (takeBytes_cutShort h).bind

theorem takeHead_cutShort (h : s.source.rest.length < 8) :
    CutShort (takeHead s) (shortRead (headPart s.source.rest.length) s.source.failure) := by
  by_cases hlength : s.source.rest.length < 4
  · rw [headPart, if_pos hlength]
    exact (takeBytes_cutShort hlength).bind
  · -- The length is there, and the type is not.
    have htake : takeBytes 4 (shortRead .chunkLength) s = .ok _ _ :=
      takeBytes_of_length (List.length_take_of_le (by omega)) (List.take_append_drop 4 _).symm
    rw [headPart, if_neg hlength, takeHead, bind_of_ok htake]
    refine CutShort.bind ?_
    exact takeBytes_cutShort
      (s := { s with source := { s.source with rest := s.source.rest.drop 4 } })
      (by show (s.source.rest.drop 4).length < 4; rw [List.length_drop]; omega)

theorem popHead_cutShort {bytes : List UInt8} (hs : s.Holds bytes) (h : bytes.length < 8) :
    CutShort (popHead s) (shortRead (headPart bytes.length) s.source.failure) := by
  unfold Holds at hs
  unfold popHead
  cases hp : s.pending with
  | none =>
    simp only [hp] at hs
    subst hs
    exact takeHead_cutShort h
  | some head =>
    -- A head that is pending has its eight bytes.
    simp only [hp] at hs
    obtain ⟨-, rfl⟩ := hs
    simp only [List.length_append, BigEndian.length_encode, ChunkTag.toBytes, List.length_cons,
      List.length_nil] at h
    omega

/-- A chunk cannot be taken from a part of its bytes. -/
theorem takeChunk_cutShort {c : Chunk} {k : Nat} (hc : c.Fits) (hk : k < c.toBytes.length)
    (hs : s.Holds (c.toBytes.take k)) :
    CutShort (takeChunk s) (cutReport c k s.source.failure) := by
  have htake : (c.toBytes.take k).length = k := List.length_take_of_le (Nat.le_of_lt hk)
  rw [Chunk.length_toBytes] at hk
  by_cases hhead : k < 8
  · -- The cut is inside the head.
    have hpop := popHead_cutShort hs (by omega)
    rw [htake] at hpop
    rw [cutReport, if_pos hhead]
    exact hpop.bind
  · have hlength : (BigEndian.encode 4 c.head.length ++ c.head.tag.toBytes).length = 8 := by
      rw [List.length_append, BigEndian.length_encode]
      rfl
    have hbytes : c.toBytes.take k = BigEndian.encode 4 c.head.length ++ c.head.tag.toBytes ++
        (c.data ++ BigEndian.encode 4 c.crc).take (k - 8) := by
      rw [← List.append_nil c.toBytes, Chunk.toBytes_append, List.append_nil, List.take_append,
        List.take_of_length_le (by omega), hlength]
    -- The head is there, and the data or the check value are cut.
    rw [hbytes] at hs
    rw [cutReport, if_neg hhead, takeChunk, bind_of_ok (popHead_of_holds hc.length_lt hs)]
    generalize hrest : (c.data ++ BigEndian.encode 4 c.crc).take (k - 8) = rest
    by_cases hdata : k < 8 + c.data.length
    · rw [if_pos hdata]
      refine CutShort.bind (takeBytes_cutShort (s := s.jump rest) ?_)
      show rest.length < c.data.length
      rw [← hrest, List.length_take]
      omega
    · -- The data are there, and the check value is not.
      have hparts : (s.jump rest).source.rest =
          c.data ++ (BigEndian.encode 4 c.crc).take (k - 8 - c.data.length) := by
        rw [jump, ← hrest, List.take_append, List.take_of_length_le (by omega)]
      have hlen : c.data.length = c.head.length := rfl
      rw [if_neg hdata, bind_of_ok (takeBytes_of_length hlen hparts)]
      refine CutShort.bind (takeBytes_cutShort
        (s := s.jump ((BigEndian.encode 4 c.crc).take (k - 8 - c.data.length))) ?_)
      show ((BigEndian.encode 4 c.crc).take (k - 8 - c.data.length)).length < 4
      rw [List.length_take]
      omega

end ChunkStream

open ChunkStream (cutReport exactRead openRead shortRead headPart)

/-! ## Where a cut falls -/

/-- The file goes on behind its first `k` bytes with data of one of its chunks. -/
def InsideData (cs : List Chunk) (k : Nat) : Prop :=
  ∃ front c back, cs = front ++ c :: back ∧
    fileLength front + 8 ≤ k ∧ k < fileLength front + 8 + c.data.length

/-- What is reported of a file that stops behind `k` of its bytes. -/
structure CutReport (cs : List Chunk) (k : Nat) (report : ReadFailure → Error) : Prop where
  /-- An end is told by where it is. -/
  ended : if k < 8 then report .ended = .badSignature
    else if k < 16 then report .ended = .missingHeader
    else ∃ part, report .ended = .truncated part
  /-- A failure of the source is its own error. -/
  other : ∀ reason, report (.failed { kind := .other, reason }) = .io reason
  /-- Inside the data of a chunk, so is a failure that says that the bytes have ended too early. -/
  inside : InsideData cs k →
    ∀ reason, report (.failed { kind := .unexpectedEnd, reason }) = .io reason
  /-- Anywhere else it is taken for the end. -/
  outside : ¬InsideData cs k →
    ∀ reason, report (.failed { kind := .unexpectedEnd, reason }) = report .ended

section

variable {cs front back : List Chunk} {c : Chunk} {k : Nat}

theorem fileLength_eq (cs : List Chunk) : fileLength cs = 8 + (cs.flatMap Chunk.toBytes).length := by
  rw [← length_signature_append, List.length_append]
  rfl

theorem fileLength_append_cons_le (front back : List Chunk) (c : Chunk) :
    fileLength front + (12 + c.data.length) ≤ fileLength (front ++ c :: back) := by
  simp only [fileLength, List.map_append, List.map_cons, List.sum_append, List.sum_cons]
  omega

/-- A place in the bytes of a chunk is inside the data of that chunk or of none. -/
theorem insideData_iff (hcs : cs = front ++ c :: back) (hle : fileLength front ≤ k)
    (hlt : k < fileLength front + (12 + c.data.length)) :
    InsideData cs k ↔ fileLength front + 8 ≤ k ∧ k < fileLength front + 8 + c.data.length := by
  refine ⟨?_, fun h => ⟨front, c, back, hcs, h⟩⟩
  rintro ⟨front', c', back', hcs', hle', hlt'⟩
  obtain ⟨more, rfl, hmore⟩ | ⟨more, rfl, hmore⟩ :=
    List.append_eq_append_iff.1 (hcs.symm.trans hcs')
  · cases more with
    | nil =>
      obtain ⟨rfl, -⟩ := List.cons.inj hmore
      rw [List.append_nil] at hle' hlt'
      exact ⟨hle', hlt'⟩
    | cons d more =>
      -- The chunk would be in front of the one whose data the place is inside of.
      obtain ⟨rfl, -⟩ := List.cons.inj hmore
      have := fileLength_append_cons_le front more c
      omega
  · cases more with
    | nil =>
      obtain ⟨rfl, -⟩ := List.cons.inj hmore
      rw [List.append_nil]
      exact ⟨hle', hlt'⟩
    | cons d more =>
      obtain ⟨rfl, -⟩ := List.cons.inj hmore
      have := fileLength_append_cons_le front' more c'
      omega

theorem not_insideData_of_lt (hk : k < 16) : ¬InsideData cs k := by
  rintro ⟨front, c, back, -, hle, -⟩
  rw [fileLength] at hle
  omega

/-- A read in one piece takes a source at its word. -/
theorem CutReport.of_exactRead {atEnd : Error} (hinside : ¬InsideData cs k)
    (hended : if k < 8 then atEnd = .badSignature
      else if k < 16 then atEnd = .missingHeader
      else ∃ part, atEnd = .truncated part) : CutReport cs k (exactRead atEnd) where
  ended := hended
  other _ := rfl
  inside h := absurd h hinside
  outside _ _ := rfl

/-- What is reported of a chunk is reported of its file. -/
theorem CutReport.of_chunk {j : Nat} (hcs : cs = front ++ c :: back) (hk : k = fileLength front + j)
    (hj : j < 12 + c.data.length) (hlong : 16 ≤ k) : CutReport cs k (cutReport c j) := by
  have hinside := insideData_iff (k := k) hcs (by omega) (by omega)
  have hended : ∀ part : Part, if k < 8 then Error.truncated part = .badSignature
      else if k < 16 then Error.truncated part = .missingHeader
      else ∃ other, Error.truncated part = .truncated other := by
    intro part
    rw [if_neg (by omega), if_neg (by omega)]
    exact ⟨part, rfl⟩
  unfold cutReport
  split
  · next hhead => exact .of_exactRead (by rw [hinside]; omega) (hended (headPart j))
  · next hhead =>
    split
    · next hdata =>
      exact {
        ended := hended .chunkData
        other := fun _ => rfl
        inside := fun _ _ => rfl
        outside := fun h => absurd (hinside.2 (by omega)) h }
    · next hdata => exact .of_exactRead (by rw [hinside]; omega) (hended .chunkCrc)

end

namespace Decoder

open ChunkStream (takeOpening)

section

variable {cut : Source} {k : Nat}

/-- The error of a file that ends behind `k` bytes of its opening. -/
def openingError (k : Nat) : Error := if k < 8 then .badSignature else .missingHeader

/-- The opening of a file is cut off inside the signature or inside the first head. -/
theorem takeOpening_cutShort {bytes : List UInt8} (hk : k < 16)
    (hcut : cut.rest = (signature ++ bytes).take k) :
    ∃ s, takeOpening { source := cut } = .error (exactRead (openingError k) cut.failure) s := by
  unfold openingError
  by_cases hsignature : k < 8
  · have hshort : cut.rest.length < 8 := by
      rw [hcut, List.length_take]
      omega
    obtain ⟨s, hfailed⟩ := ChunkStream.takeSignature_cutShort (s := { source := cut }) hshort
    exact ⟨s, by rw [takeOpening, hfailed, if_pos hsignature]⟩
  · have hlength : signature.length = 8 := rfl
    rw [List.take_append, List.take_of_length_le (by omega), hlength] at hcut
    -- The signature is there, and the head is not.
    have hsig := ChunkStream.takeSignature_of_rest (s := { source := cut }) hcut
    obtain ⟨t, hhead⟩ := ChunkStream.takeHead_cutShort
      (s := { source := { cut with rest := bytes.take (k - 8) } }) (by
        show (bytes.take (k - 8)).length < 8
        rw [List.length_take]
        omega)
    have hfailure : ({ cut with rest := bytes.take (k - 8) } : Source).failure = cut.failure := rfl
    rw [hfailure] at hhead
    simp only [takeOpening, hsig, ChunkStream.peekHead, hhead, hsignature, if_false]
    obtain _ | ⟨⟨⟩, reason⟩ := cut.failure <;> exact ⟨t, rfl⟩

/-- The opening of a file that goes on behind its first head succeeds as that of the whole file. -/
theorem takeOpening_long {c : Chunk} {bytes : List UInt8} (hc : c.Fits) (hkind : c.kind = .header)
    (hk : 16 ≤ k) (hcut : cut.rest = (signature ++ (c.toBytes ++ bytes)).take k) :
    ∃ opened, takeOpening { source := cut } = .ok () opened ∧
      opened.Holds ((c.toBytes ++ bytes).take (k - 8)) ∧
        opened.source.failure = cut.failure := by
  have hsignature : signature.length = 8 := rfl
  have hlength : (BigEndian.encode 4 c.head.length ++ c.head.tag.toBytes).length = 8 := by
    rw [List.length_append, BigEndian.length_encode]
    rfl
  have hhead : (c.toBytes ++ bytes).take (k - 8) =
      BigEndian.encode 4 c.head.length ++ c.head.tag.toBytes ++
        (c.data ++ (BigEndian.encode 4 c.crc ++ bytes)).take (k - 8 - 8) := by
    rw [Chunk.toBytes_append, List.take_append, List.take_of_length_le (by omega), hlength]
  rw [List.take_append, List.take_of_length_le (by omega), hsignature, hhead] at hcut
  have hopen := ChunkStream.takeOpening_of_rest (s := { source := cut }) rfl hc.length_lt hcut
  refine ⟨_, hopen.trans (if_pos hkind), ?_, rfl⟩
  rw [hhead]
  exact ⟨hc.length_lt, rfl⟩

end

section

variable [Libraries] {source : Source} {o : Options} {cs : List Chunk} {k : Nat}

/-- Chunks are read as before up to the one that is cut off. -/
theorem acceptChunks_cutShort {m m' : Metadata} (hfits : ∀ c ∈ cs, c.Fits)
    (hcs : Metadata.acceptAll cs m = .ok () m') (hend : ∀ c ∈ cs.dropLast, c.kind ≠ .imageEnd)
    (hk : k < (cs.flatMap Chunk.toBytes).length) :
    ∃ front c back j, cs = front ++ c :: back ∧ j < 12 + c.data.length ∧
      k = (front.flatMap Chunk.toBytes).length + j ∧
      ∀ s : ChunkStream, s.Holds ((cs.flatMap Chunk.toBytes).take k) →
        ∃ r, acceptChunks s m = .error (cutReport c j s.source.failure) r := by
  obtain ⟨front, c, back, j, rfl, hj, hplace, htake⟩ := exists_split_take hk
  have hinside := hj
  rw [Chunk.length_toBytes] at hinside
  refine ⟨front, c, back, j, rfl, hinside, hplace, fun s hs => ?_⟩
  rw [htake] at hs
  obtain ⟨t, hrun, ht, hfailure, -⟩ :=
    ChunkStream.takes_of_holds (fun d hd => hfits d (List.mem_append_left _ hd)) hs
  obtain ⟨u, hcut⟩ := ChunkStream.takeChunk_cutShort (hfits c (by simp)) hj ht
  rw [Metadata.acceptAll_append] at hcs
  cases hm : Metadata.acceptAll front m with
  | error e m₁ =>
    rw [hm] at hcs
    cases hcs
  | ok v m₁ =>
    -- The chunk that is cut may be the last one, and those in front of it are not.
    rw [List.dropLast_append_of_ne_nil (List.cons_ne_nil c back)] at hend
    rw [acceptChunks_of_run hrun hm fun d hd => hend d (List.mem_append_left _ hd),
      acceptChunks_of_refused hcut, hfailure]
    exact ⟨_, rfl⟩

/-- A file whose headers can be read cannot be read when it stops before the end of its last
chunk. -/
theorem exists_cutReport {m : Metadata} (h : source.Carries cs)
    (hheader : cs.head?.map Chunk.kind = some .header)
    (hcs : Metadata.acceptAll cs (.new o) = .ok () m) (hk : k < fileLength cs) :
    ∃ report, CutReport cs k report ∧ ∀ cut : Source, cut.rest = source.rest.take k →
      ∃ d, readHeaders (.new cut o) = .error (report cut.failure) d := by
  have hbytes : source.rest.take k = (signature ++ cs.flatMap Chunk.toBytes).take k := by
    rw [← h.take_eq, List.take_take, Nat.min_eq_left (Nat.le_of_lt hk)]
  by_cases hopening : k < 16
  · have hended : if k < 8 then openingError k = .badSignature
        else if k < 16 then openingError k = .missingHeader
        else ∃ part, openingError k = .truncated part := by
      unfold openingError
      split <;> rfl
    refine ⟨_, .of_exactRead (not_insideData_of_lt hopening) hended, fun cut hcut => ?_⟩
    obtain ⟨s, hfailed⟩ := takeOpening_cutShort hopening (hcut.trans hbytes)
    exact ⟨_, readHeaders_of_opening_failed rfl hfailed⟩
  · -- The cut is inside one of the chunks.
    have hinside : k - 8 < (cs.flatMap Chunk.toBytes).length := by
      rw [fileLength_eq] at hk
      omega
    have hend : ∀ c ∈ cs.dropLast, c.kind ≠ .imageEnd := by
      obtain ⟨front, last, rfl, -, hfront⟩ := h.ends
      rwa [List.dropLast_concat]
    obtain ⟨front, c, back, j, hsplit, hj, hplace, hstops⟩ :=
      acceptChunks_cutShort h.fits hcs hend hinside
    have hplace : k = fileLength front + j := by
      rw [fileLength_eq]
      omega
    refine ⟨_, .of_chunk hsplit hplace hj (by omega), fun cut hcut => ?_⟩
    obtain ⟨first, others, rfl⟩ : ∃ first others, cs = first :: others := by
      cases cs with
      | nil => cases hheader
      | cons first others => exact ⟨first, others, rfl⟩
    have hkind : first.kind = .header := by simpa using hheader
    rw [List.flatMap_cons] at hbytes hstops
    obtain ⟨opened, hopen, hholds, hfailure⟩ := takeOpening_long (h.fits first List.mem_cons_self)
      hkind (by omega) (hcut.trans hbytes)
    obtain ⟨r, hfailed⟩ := hstops opened hholds
    have hread := readHeaders_of_opened (d := .new cut o) rfl hopen
    rw [metadata_new, hfailed, hfailure] at hread
    exact ⟨_, hread⟩

/-- Every reading of headers ends, and the chunks that it hands to their handlers are a run behind
the opening. Behind it there is no further chunk, or the last one is refused, or it is the end
chunk. -/
theorem exists_handled (source : Source) (o : Options) :
    ∃ cs : List Chunk, cs.length ≤ (source.rest.length - 8) / 12 ∧
      (cs = [] ∧ (∃ e s, takeOpening { source } = .error e s) ∨
        ∃ opened t, takeOpening { source } = .ok () opened ∧ opened.Takes cs t ∧
          match readHeaders (.new source o) with
          | .ok () d => cs.forM Metadata.handle (.new o) = .ok () d.metadata ∧ d.stream = t
          | .error e d =>
            cs.forM Metadata.handle (.new o) = .ok () d.metadata ∧ t.takeChunk = .error e d.stream ∨
              cs.forM Metadata.handle (.new o) = .error e d.metadata ∧ d.stream = t) := by
  cases hopen : takeOpening { source } with
  | error e s => exact ⟨[], Nat.zero_le _, .inl ⟨rfl, e, s, rfl⟩⟩
  | ok u opened =>
    have hcount : ∀ cs t, opened.Takes cs t → cs.length ≤ (source.rest.length - 8) / 12 := by
      intro cs t hrun
      have hlength := ChunkStream.length_of_opened_run hopen hrun
      have hchunks := twelve_mul_length_le cs
      omega
    have hread := readHeaders_of_opened (d := .new source o) rfl hopen
    cases haccept : acceptChunks opened (new source o).metadata with
    | ok v r =>
      obtain ⟨s, m⟩ := r
      obtain ⟨front, last, hrun, hcs, -⟩ := exists_run_of_ok haccept
      rw [hread, haccept]
      exact ⟨_, hcount _ _ hrun, .inr ⟨opened, s, rfl, hrun,
        (Metadata.forM_handle _ _).trans hcs, rfl⟩⟩
    | error e r =>
      obtain ⟨s, m⟩ := r
      obtain ⟨cs, t, hrun, hcs, -, hcause⟩ := exists_run_of_failed haccept
      rw [hread, haccept]
      obtain hshort | ⟨c, htaken, hrefused⟩ := hcause
      · exact ⟨cs, hcount _ _ hrun, .inr ⟨opened, t, rfl, hrun,
          .inl ⟨(Metadata.forM_handle _ _).trans hcs, hshort⟩⟩⟩
      · -- The chunk that was refused had been taken, and is counted with the others.
        have hall := hrun.append (.cons htaken (.nil s))
        refine ⟨cs ++ [c], hcount _ _ hall, .inr ⟨opened, s, rfl, hall, .inr ⟨?_, rfl⟩⟩⟩
        have hcs : Metadata.acceptAll cs (.new o) = .ok () m := hcs
        rw [Metadata.forM_handle, Metadata.acceptAll_append, hcs]
        exact (Metadata.acceptAll_singleton c m).trans hrefused

/-- A reading of headers that has succeeded stands behind the first `n` bytes of its source, which
are the signature and the chunks `cs`. -/
structure EndsBehind (source : Source) (o : Options) (d : Decoder) (n : Nat) (cs : List Chunk) :
    Prop where
  length_eq : n = 8 + (cs.map fun c => 12 + c.data.length).sum
  bytes_eq : source.rest.take n = signature ++ cs.flatMap Chunk.toBytes
  fits : ∀ c ∈ cs, c.Fits
  /-- All of the chunks have been handled, and nothing else. -/
  handled : cs.forM Metadata.handle (.new o) = .ok () d.metadata
  stream_eq : d.stream = { source := source.skip n }
  /-- What comes behind these bytes does not matter. -/
  others_eq : ∀ other : Source, other.rest.take n = source.rest.take n →
    readHeaders (.new other o) = .ok () { d with stream := { source := other.skip n } }
  /-- No beginning of these bytes can be read. -/
  cut : ∀ k < n, ∃ e d', readHeaders (.new { rest := source.rest.take k } o) = .error e d' ∧
    if k < 8 then e = .badSignature
    else if k < 16 then e = .missingHeader
    else ∃ part, e = .truncated part
  /-- A source that fails there is told by its own error. -/
  failed : ∀ k < n, ∀ reason, ∃ d',
    readHeaders (.new (.failingAt source.rest k reason) o) = .error (.io reason) d'
  /-- If it fails by saying that its bytes have ended too early, this is so inside the data of a
  chunk. -/
  failed_inside : ∀ k < n, InsideData cs k → ∀ reason, ∃ d',
    readHeaders (.new (.failingAt source.rest k reason .unexpectedEnd) o) = .error (.io reason) d'
  /-- Anywhere else it is then told by the error of a file that has ended. -/
  failed_outside : ∀ k < n, ¬InsideData cs k → ∀ reason, ∃ e d₁ d₂,
    readHeaders (.new { rest := source.rest.take k } o) = .error e d₁ ∧
      readHeaders (.new (.failingAt source.rest k reason .unexpectedEnd) o) = .error e d₂
  /-- A source that fails behind these bytes is read like one that does not. -/
  failed_behind : ∀ k ≥ n, ∀ reason kind,
    readHeaders (.new (.failingAt source.rest k reason kind) o) =
      .ok () { d with stream := { source := (Source.failingAt source.rest k reason kind).skip n } }

/-- A source that starts with accepted chunks is read as far as these, and nothing else of it
matters. -/
theorem endsBehind_of_carries {m : Metadata} (h : source.Carries cs)
    (hheader : cs.head?.map Chunk.kind = some .header)
    (hcs : Metadata.acceptAll cs (.new o) = .ok () m) :
    EndsBehind source o { stream := { source := source.skip (fileLength cs) }
                          metadata := m
                          stage := .complete } (fileLength cs) cs := by
  have hlength : fileLength cs ≤ source.rest.length := by
    have := congrArg List.length h.take_eq
    rw [List.length_take, length_signature_append] at this
    omega
  -- What stops before is reported by the reason, in a way that the place alone determines.
  have hfailing : ∀ k < fileLength cs, ∀ reason kind, Source.failingAt source.rest k reason kind =
      { rest := source.rest.take k, fault := some { kind, reason } } :=
    fun k hk reason kind => if_pos (by omega)
  have hcut : ∀ k < fileLength cs, ∃ report, CutReport cs k report ∧
      (∃ d, readHeaders (.new { rest := source.rest.take k } o) = .error (report .ended) d) ∧
      ∀ reason kind, ∃ d, readHeaders (.new (.failingAt source.rest k reason kind) o) =
        .error (report (.failed { kind, reason })) d := by
    intro k hk
    obtain ⟨report, hreport, hstops⟩ := exists_cutReport h hheader hcs hk
    refine ⟨report, hreport, hstops { rest := source.rest.take k } rfl, fun reason kind => ?_⟩
    rw [hfailing k hk]
    exact hstops { rest := source.rest.take k, fault := some { kind, reason } } rfl
  refine {
    length_eq := rfl
    bytes_eq := h.take_eq
    fits := h.fits
    handled := (Metadata.forM_handle _ _).trans hcs
    stream_eq := rfl
    others_eq := fun other htake => readHeaders_of_carries (h.of_take htake) hheader hcs
    cut := ?_, failed := ?_, failed_inside := ?_, failed_outside := ?_, failed_behind := ?_ }
  · intro k hk
    obtain ⟨report, hreport, ⟨d, hended⟩, -⟩ := hcut k hk
    exact ⟨_, d, hended, hreport.ended⟩
  · intro k hk reason
    obtain ⟨report, hreport, -, hfailed⟩ := hcut k hk
    exact hreport.other reason ▸ hfailed reason .other
  · intro k hk hinside reason
    obtain ⟨report, hreport, -, hfailed⟩ := hcut k hk
    exact hreport.inside hinside reason ▸ hfailed reason .unexpectedEnd
  · intro k hk houtside reason
    obtain ⟨report, hreport, ⟨d₁, hended⟩, hfailed⟩ := hcut k hk
    obtain ⟨d₂, hfailed⟩ := hfailed reason .unexpectedEnd
    exact ⟨report .ended, d₁, d₂, hended, hreport.outside houtside reason ▸ hfailed⟩
  · intro k hk reason kind
    refine readHeaders_of_carries (h.of_take ?_) hheader hcs
    unfold Source.failingAt
    split
    · show (source.rest.take k).take _ = _
      rw [List.take_take, Nat.min_eq_left hk]
    · rfl

/-- How chunks are framed is exact. A reading of headers ends after at most a twelfth as many chunks
as the file has bytes behind the signature. One that succeeds has read the signature and some
chunks, byte by byte, and stands behind them. -/
theorem readHeaders_exact :
    (∀ (source : Source) (o : Options), ∃ cs : List Chunk,
      cs.length ≤ (source.rest.length - 8) / 12 ∧
        (cs = [] ∧ (∃ e s, takeOpening { source } = .error e s) ∨
          ∃ opened t, takeOpening { source } = .ok () opened ∧ opened.Takes cs t ∧
            match readHeaders (.new source o) with
            | .ok () d => cs.forM Metadata.handle (.new o) = .ok () d.metadata ∧ d.stream = t
            | .error e d =>
              cs.forM Metadata.handle (.new o) = .ok () d.metadata ∧
                  t.takeChunk = .error e d.stream ∨
                cs.forM Metadata.handle (.new o) = .error e d.metadata ∧ d.stream = t)) ∧
    ∀ (source : Source) (o : Options) (d : Decoder), readHeaders (.new source o) = .ok () d →
      ∃ n cs, EndsBehind source o d n cs := by
  refine ⟨exists_handled, fun source o ⟨stream, metadata, stage⟩ h => ?_⟩
  obtain ⟨cs, hcarries, hheader, hcs⟩ := exists_carries h
  cases (readHeaders_of_carries hcarries hheader hcs).symm.trans h
  exact ⟨fileLength cs, cs, endsBehind_of_carries hcarries hheader hcs⟩

end

/-- A file of a header chunk, an end chunk and one byte more is read as far as that byte. -/
theorem readHeaders_exact_two_chunks :
    let gray : Header :=
      { width := 1, height := 1, depth := 8, color := .gray, interlace := .sequential }
    let header : Chunk := { tag := .ofChars 'I' 'H' 'D' 'R', data := gray.toBytes }
    let last : Chunk := { tag := .ofChars 'I' 'E' 'N' 'D', data := [] }
    let file : Source := { rest := signature ++ ([header, last].flatMap Chunk.toBytes ++ [7]) }
    ∃ d cs, readHeaders (.new file {}) = .ok () d ∧ EndsBehind file {} d 45 cs := by
  intro gray header last file
  have hcarries : file.Carries [header, last] :=
    ⟨by decide, ⟨[7], rfl⟩, [header], last, rfl, rfl, by decide⟩
  have hcs : Metadata.acceptAll [header, last] (.new {}) =
      .ok () (((Metadata.new {}).keepHeader gray).keepEnd [8]) := by
    subst file header last gray
    rfl
  have hread := readHeaders_of_carries hcarries rfl hcs
  obtain ⟨n, cs, hends⟩ := readHeaders_exact.2 _ _ _ hread
  -- One byte is left, so that all others have been read.
  have hleft := congrArg (·.source.rest.length) hends.stream_eq
  have hlength : file.rest.length = 46 := by decide
  have hsize : fileLength [header, last] = 45 := by decide
  simp only [Source.skip, List.length_drop, hlength, hsize] at hleft
  obtain rfl : n = 45 := by omega
  exact ⟨_, cs, hread, hends⟩

/-- A source that fails inside the signature by saying that its bytes have ended too early is told
as one with a bad signature, and not by its own error. -/
theorem not_failed_of_unexpectedEnd :
    let gray : Header :=
      { width := 1, height := 1, depth := 8, color := .gray, interlace := .sequential }
    let header : Chunk := { tag := .ofChars 'I' 'H' 'D' 'R', data := gray.toBytes }
    let last : Chunk := { tag := .ofChars 'I' 'E' 'N' 'D', data := [] }
    let file : Source := { rest := signature ++ [header, last].flatMap Chunk.toBytes }
    ∃ d, readHeaders (.new file {}) = .ok () d ∧ d.stream = { source := file.skip 45 } ∧
      ¬∀ k < 45, ∀ reason kind, ∃ d',
        readHeaders (.new (.failingAt file.rest k reason kind) {}) = .error (.io reason) d' := by
  intro gray header last file
  have hcarries : file.Carries [header, last] :=
    ⟨by decide, ⟨[], by simp [file]⟩, [header], last, rfl, rfl, by decide⟩
  have hcs : Metadata.acceptAll [header, last] (.new {}) =
      .ok () (((Metadata.new {}).keepHeader gray).keepEnd [8]) := by
    subst file header last gray
    rfl
  have hsize : fileLength [header, last] = 45 := by decide
  have hread := readHeaders_of_carries hcarries rfl hcs
  rw [hsize] at hread
  refine ⟨_, hread, rfl, fun h => ?_⟩
  obtain ⟨d', hfailed⟩ := h 3 (by decide) "failed to fill whole buffer" .unexpectedEnd
  have hcut : (Source.failingAt file.rest 3 "failed to fill whole buffer" .unexpectedEnd).rest =
      (signature ++ [header, last].flatMap Chunk.toBytes).take 3 := rfl
  obtain ⟨s, hopen⟩ := takeOpening_cutShort (by decide) hcut
  rw [readHeaders_of_opening_failed rfl hopen] at hfailed
  cases hfailed

end Decoder

end Png
