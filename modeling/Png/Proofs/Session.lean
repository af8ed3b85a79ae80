import Png.Proofs.Acceptance

/-!
# A decoder that is called again and again

A decoder may be called in any order and any number of times, also after a failure. `Standing` is
what all of its calls keep: as long as the end chunk has not been read, either nothing is known of
the file and the decoder is a new one on what is left of its source, or something of a failed
attempt has stayed, and then every later call fails. `attempts_kept_apart` draws from this that an
attempt which succeeds has nothing of those before it.
-/

namespace Png

namespace ChunkStream

/-! ## What a reading leaves pending -/

/-- The stream behind a step, whether it succeeded or failed. -/
def behind {α : Type} : EStateM.Result Error ChunkStream α → ChunkStream
  | .ok _ s => s
  | .error _ s => s

@[simp]
theorem pending_takeBytes (n : Nat) (onFailure : ReadFailure → Error) (s : ChunkStream) :
    (behind (takeBytes n onFailure s)).pending = s.pending := by
  unfold takeBytes
  split <;> rfl

/-- What two steps keep pending, one after the other keeps pending. -/
theorem pending_bind {α β : Type} {step : ChunkReader α} {next : α → ChunkReader β}
    {s : ChunkStream} {head : Option ChunkHead} (hstep : (behind (step s)).pending = head)
    (hnext : ∀ a t, t.pending = head → (behind (next a t)).pending = head) :
    (behind ((step >>= next) s)).pending = head := by
  simp only [bind, EStateM.bind]
  cases h : step s with
  | ok a t =>
    rw [h] at hstep
    exact hnext a t hstep
  | error e t =>
    rw [h] at hstep
    exact hstep

@[simp]
theorem pending_ofExcept {α : Type} (result : Except Error α) (s : ChunkStream) :
    (behind (ofExcept result s)).pending = s.pending := by
  cases result <;> rfl

/-- Taking the head of a chunk from the source does not touch the pending one. -/
@[simp]
theorem pending_takeHead (s : ChunkStream) : (behind (takeHead s)).pending = s.pending := by
  refine pending_bind (pending_takeBytes _ _ s) fun _ t ht => ?_
  refine pending_bind ((pending_takeBytes _ _ t).trans ht) fun _ u hu => ?_
  exact pending_bind ((pending_ofExcept _ u).trans hu) fun _ _ hv => hv

/-- No head is pending once a chunk has been taken, or could not be. -/
@[simp]
theorem pending_takeChunk (s : ChunkStream) : (behind (takeChunk s)).pending = none := by
  have hpop : (behind (popHead s)).pending = none := by
    unfold popHead
    split
    · rfl
    · next hnone => rw [pending_takeHead, hnone]
  refine pending_bind hpop fun _ t ht => ?_
  refine pending_bind ((pending_takeBytes _ _ t).trans ht) fun _ u hu => ?_
  exact pending_bind ((pending_takeBytes _ _ u).trans hu) fun _ _ hv => hv

@[simp]
theorem pending_takeSignature (s : ChunkStream) :
    (behind (takeSignature s)).pending = s.pending := by
  refine pending_bind (pending_takeBytes _ _ s) fun bytes t ht => ?_
  by_cases hbytes : bytes = signature
  · rw [if_neg (not_not_intro hbytes)]
    exact ht
  · rw [if_pos hbytes]
    exact ht

/-- A chunk whose head is pending has the type that the head names. -/
theorem tag_of_takeChunk {s s' : ChunkStream} {head : ChunkHead} {c : Chunk}
    (hpending : s.pending = some head) (h : takeChunk s = .ok c s') : c.tag = head.tag := by
  simp only [takeChunk, bind_eq_ok] at h
  obtain ⟨head', _, hpop, _, _, -, _, _, -, h⟩ := h
  simp only [popHead, hpending] at hpop
  cases hpop
  cases h
  rfl

/-- A head that is looked at is pending afterwards. -/
theorem pending_of_peekHead {s s' : ChunkStream} {head : ChunkHead}
    (h : peekHead s = .ok head s') : s'.pending = some head := by
  unfold peekHead at h
  split at h
  · next hpending =>
    cases h
    exact hpending
  · split at h <;> cases h
    rfl

/-- Looking for a head in vain leaves none pending. -/
theorem pending_of_peekHead_failed {s s' : ChunkStream} {e : Error}
    (h : peekHead s = .error e s') : s'.pending = s.pending := by
  have hhead := pending_takeHead s
  unfold peekHead at h
  split at h
  · cases h
  · split at h
    · cases h
    · next hfail =>
      cases h
      rwa [hfail] at hhead

/-- An opening that succeeds leaves the head of a header chunk pending. -/
theorem pending_of_takeOpening {s s' : ChunkStream} (h : takeOpening s = .ok () s') :
    ∃ head, s'.pending = some head ∧ head.tag.kind = .header := by
  unfold takeOpening at h
  split at h
  · cases h
  · split at h
    · next head _ hpeek =>
      split at h
      · next hkind =>
        cases h
        exact ⟨head, pending_of_peekHead hpeek, hkind⟩
      · cases h
    · cases h
    · cases h

/-- An opening that fails leaves pending what was, or the head of a chunk that is no header. -/
theorem pending_of_takeOpening_failed {s s' : ChunkStream} {e : Error}
    (h : takeOpening s = .error e s') :
    s'.pending = s.pending ∨ ∃ head, s'.pending = some head ∧ head.tag.kind ≠ .header := by
  have hsig := pending_takeSignature s
  -- The signature fails, or the head behind it is of another kind, or there is none.
  unfold takeOpening at h
  split at h
  · next hfail =>
    cases h
    rw [hfail] at hsig
    exact .inl hsig
  · next htaken =>
    rw [htaken] at hsig
    split at h
    · next head _ hpeek =>
      split at h
      · cases h
      · next hkind =>
        cases h
        exact .inr ⟨head, pending_of_peekHead hpeek, hkind⟩
    · next hpeek =>
      cases h
      exact .inl ((pending_of_peekHead_failed hpeek).trans hsig)
    · next hpeek =>
      cases h
      exact .inl ((pending_of_peekHead_failed hpeek).trans hsig)

/-- A pending head that is no header makes the opening fail, and stays. -/
theorem takeOpening_of_pending {s : ChunkStream} {head : ChunkHead}
    (hpending : s.pending = some head) (hkind : head.tag.kind ≠ .header) :
    ∃ e s', takeOpening s = .error e s' ∧ s'.pending = some head := by
  have hsig := pending_takeSignature s
  rw [hpending] at hsig
  unfold takeOpening
  cases h : takeSignature s with
  | error e t =>
    rw [h] at hsig
    exact ⟨e, t, rfl, hsig⟩
  | ok u t =>
    rw [h] at hsig
    have hpeek : peekHead t = .ok head t := by
      unfold peekHead
      rw [show t.pending = some head from hsig]
    simp only [hpeek, hkind, if_false]
    exact ⟨.missingHeader, t, rfl, hsig⟩

end ChunkStream

/-- A call of a decoder. -/
inductive Call where
  | readHeaders
  | decode
  deriving DecidableEq

/-- The answer to a call. -/
inductive Answer where
  | done
  | image (image : Image)
  | failed (e : Error)

namespace Answer

/-- The answer is an image. -/
def isImage : Answer → Bool
  | image _ => true
  | _ => false

/-- The answer is an error. -/
def isFailure : Answer → Bool
  | failed _ => true
  | _ => false

/-- The answer that an image is, or the error in its place. -/
def ofResult : Except Error Image → Answer
  | .ok i => image i
  | .error e => failed e

end Answer

/-- What a decoder tells about its file when it is asked. -/
structure Report where
  options : Options
  header : Option Header
  dimensions : Option (Nat × Nat)
  properties : Properties
  transform : Option Transform
  encoding : Option EncodeParams

namespace Decoder

/-- What is known so far. -/
def report (d : Decoder) : Report where
  options := d.metadata.options
  header := d.metadata.header
  dimensions := d.dimensions?
  properties := d.metadata.properties
  transform := d.metadata.transform
  encoding := d.metadata.encoding

@[simp]
theorem metadata_new (source : Source) (o : Options) : (new source o).metadata = .new o :=
  rfl

/-- A chunk whose pending head names a header is one. -/
theorem kind_of_takeChunk {s s' : ChunkStream} {c : Chunk}
    (hpending : ∃ head, s.pending = some head ∧ head.tag.kind = .header)
    (h : s.takeChunk = .ok c s') : c.kind = .header := by
  obtain ⟨head, hpending, hkind⟩ := hpending
  rw [Chunk.kind, ChunkStream.tag_of_takeChunk hpending h, hkind]

variable [Libraries]

/-- The answer to a call, and the decoder after it. -/
def perform (d : Decoder) : Call → Answer × Decoder
  | .readHeaders =>
    match readHeaders d with
    | .ok () d' => (.done, d')
    | .error e d' => (.failed e, d')
  | .decode =>
    match decode d with
    | .ok image d' => (.image image, d')
    | .error e d' => (.failed e, d')

/-- The answers to calls, one after the other. -/
def answers (d : Decoder) : List Call → List Answer
  | [] => []
  | c :: cs => (d.perform c).1 :: (d.perform c).2.answers cs

/-- The decoder after calls. -/
def after (d : Decoder) (calls : List Call) : Decoder :=
  calls.foldl (fun d c => (d.perform c).2) d

/-! ## Once the end chunk is read -/

theorem readHeaders_of_read {d : Decoder} (h : d.stage ≠ .reading) : readHeaders d = .ok () d := by
  unfold readHeaders
  cases hs : d.stage with
  | reading => exact absurd hs h
  | complete => rfl
  | decoded => rfl

/-- The image that a decoder has in store: that of its file once, and then no more. -/
def store (d : Decoder) : Except Error Image :=
  if d.stage = .decoded then .error .alreadyDecoded else d.metadata.render

/-- Decoding hands out what is in store, and changes the stage alone. -/
theorem perform_decode_of_read {d : Decoder} (h : d.stage ≠ .reading) :
    d.perform .decode = (.ofResult d.store, { d with stage := .decoded }) := by
  unfold perform decode store
  by_cases hs : d.stage = .decoded
  · obtain ⟨stream, metadata, stage⟩ := d
    cases hs
    rfl
  · simp only [hs, if_false, readHeaders_of_read h]
    cases d.metadata.render <;> rfl

theorem perform_readHeaders_of_read {d : Decoder} (h : d.stage ≠ .reading) :
    d.perform .readHeaders = (.done, d) := by
  simp only [perform, readHeaders_of_read h]

/-- The answers of a decoder that has `image` in store: it is handed out at the first request. -/
def served (image : Except Error Image) : List Call → List Answer
  | [] => []
  | .readHeaders :: calls => .done :: served image calls
  | .decode :: calls => .ofResult image :: served (.error .alreadyDecoded) calls

theorem answers_of_read {d : Decoder} (h : d.stage ≠ .reading) (calls : List Call) :
    d.answers calls = served d.store calls := by
  induction calls generalizing d with
  | nil => rfl
  | cons c calls ih =>
    cases c with
    | readHeaders => simp only [answers, served, perform_readHeaders_of_read h, ih h]
    | decode =>
      have hdecoded : ({ d with stage := .decoded } : Decoder).stage ≠ .reading := nofun
      simp only [answers, served, perform_decode_of_read h, ih hdecoded]
      rfl

theorem after_of_read {d : Decoder} (h : d.stage ≠ .reading) (calls : List Call) :
    (d.after calls).stage ≠ .reading ∧ (d.after calls).metadata = d.metadata := by
  induction calls generalizing d with
  | nil => exact ⟨h, rfl⟩
  | cons c calls ih =>
    rw [after, List.foldl_cons, ← after]
    cases c with
    | readHeaders =>
      rw [perform_readHeaders_of_read h]
      exact ih h
    | decode =>
      rw [perform_decode_of_read h]
      exact ih (d := { d with stage := .decoded }) nofun

/-! ## Before the end chunk is read -/

/-- A call that cannot read the chunks fails with the error of that. -/
theorem perform_of_failed {d d' : Decoder} {e : Error} (hs : d.stage = .reading)
    (h : readHeaders d = .error e d') (c : Call) : d.perform c = (.failed e, d') := by
  cases c with
  | readHeaders => simp only [perform, h]
  | decode => simp only [perform, decode, hs, h, reduceCtorEq, if_false]

/-- A call that reads the chunks goes on as if they had been read before. -/
theorem perform_of_ok {d d' : Decoder} (hs : d.stage = .reading) (h : readHeaders d = .ok () d')
    (hd' : d'.stage = .complete) (c : Call) : d.perform c = d'.perform c := by
  have hread : d'.stage ≠ .reading := by rw [hd']; nofun
  cases c with
  | readHeaders => rw [perform_readHeaders_of_read hread, perform, h]
  | decode =>
    simp only [perform, decode, hs, hd', h, readHeaders_of_read hread, reduceCtorEq, if_false]

theorem readHeaders_of_opening_failed {d : Decoder} {s : ChunkStream} {e : Error}
    (hs : d.stage = .reading) (h : d.stream.takeOpening = .error e s) :
    readHeaders d = .error e { d with stream := s } := by
  simp only [readHeaders, hs, h]

theorem readHeaders_of_opened {d : Decoder} {s : ChunkStream} (hs : d.stage = .reading)
    (h : d.stream.takeOpening = .ok () s) :
    readHeaders d = match acceptChunks s d.metadata with
      | .error e (stream, metadata) => .error e { d with stream, metadata }
      | .ok () (stream, metadata) => .ok () { stream, metadata, stage := .complete } := by
  cases haccept : acceptChunks s d.metadata <;> simp only [readHeaders, hs, h, haccept]

/-- Something of a failed attempt has stayed that makes all later ones fail. -/
def Doomed (d : Decoder) : Prop :=
  d.stage = .reading ∧
    (d.metadata.header.isSome ∨
      ∃ head, d.stream.pending = some head ∧ head.tag.kind ≠ .header)

theorem accept_repeated {c : Chunk} {m : Metadata} (hkind : c.kind = .header)
    (hheader : m.header.isSome) : m.accept c = .error .repeatedHeader := by
  have hsome : m.header.isNone = false := by rw [← Option.not_isSome, hheader]; rfl
  simp only [Metadata.accept, Metadata.read, hkind, Metadata.readHeader, require, hsome]
  rfl

/-- A header that was accepted stays, whatever chunks come after it. -/
theorem header_acceptAll {cs : List Chunk} {m m' : Metadata}
    (h : Metadata.acceptAll cs m = .ok () m') (hm : m.header.isSome) : m'.header.isSome := by
  refine Metadata.acceptAll_induction (P := fun m => m.header.isSome) ?_ h hm
  intro c m f hm _
  cases f <;> simp [hm]

theorem readHeaders_of_doomed {d : Decoder} (h : d.Doomed) :
    ∃ e d', readHeaders d = .error e d' ∧ d'.Doomed := by
  obtain ⟨hs, hcause⟩ := h
  simp only [readHeaders, hs]
  cases hopen : d.stream.takeOpening with
  | error e s =>
    refine ⟨e, _, rfl, rfl, ?_⟩
    obtain hheader | ⟨head, hpending, hkind⟩ := hcause
    · exact .inl hheader
    · obtain ⟨e', s', hopen', hs'⟩ := ChunkStream.takeOpening_of_pending hpending hkind
      cases hopen.symm.trans hopen'
      exact .inr ⟨head, hs', hkind⟩
  | ok u s =>
    have hpending := ChunkStream.pending_of_takeOpening hopen
    obtain hheader | ⟨head, hother, hkind⟩ := hcause
    · -- The chunk that comes now is a second header, if it can be read at all.
      cases htaken : s.takeChunk with
      | error e s' =>
        simp only [acceptChunks_of_refused htaken]
        exact ⟨e, _, rfl, rfl, .inl hheader⟩
      | ok c s' =>
        have hkind := kind_of_takeChunk hpending htaken
        simp only [acceptChunks_of_taken htaken, accept_repeated hkind hheader]
        exact ⟨_, _, rfl, rfl, .inl hheader⟩
    · obtain ⟨e', s', hopen', -⟩ := ChunkStream.takeOpening_of_pending hother hkind
      cases hopen.symm.trans hopen'

/-- Reading the chunks to their end ends the first stage. -/
theorem stage_of_readHeaders {d d' : Decoder} (hs : d.stage = .reading)
    (h : readHeaders d = .ok () d') : d'.stage = .complete := by
  simp only [readHeaders, hs] at h
  split at h
  · cases h
  · split at h <;> cases h
    rfl

/-- A header chunk that is accepted makes the header known. -/
theorem header_of_accept {c : Chunk} {m m' : Metadata} (hkind : c.kind = .header)
    (haccept : m.accept c = .ok m') : m'.header.isSome := by
  obtain ⟨f, hread, rfl⟩ := Metadata.accept_eq_ok_iff.1 haccept
  simp only [Metadata.read, hkind] at hread
  obtain ⟨-, h, -, rfl⟩ := Metadata.readHeader_eq_ok hread
  rfl

/-- A header that is known stays so where the reading of chunks fails. -/
theorem header_of_acceptChunks_failed {s s' : ChunkStream} {m m' : Metadata} {e : Error}
    (hheader : m.header.isSome) (h : acceptChunks s m = .error e (s', m')) :
    m'.header.isSome := by
  obtain ⟨cs, hcs⟩ := exists_acceptAll s m
  rw [h] at hcs
  exact header_acceptAll hcs hheader

/-- A new decoder that fails is a new one again, on what is left of its source, or doomed. -/
theorem readHeaders_new_failed {source : Source} {o : Options} {e : Error} {d : Decoder}
    (h : readHeaders (.new source o) = .error e d) :
    (∃ source', d = .new source' o) ∨ d.Doomed := by
  -- With nothing pending and nothing known, a decoder is a new one.
  have hnew : ∀ s : ChunkStream, s.pending = none →
      ({ stream := s, metadata := .new o } : Decoder) = .new s.source o := by
    rintro ⟨source', pending⟩ rfl
    rfl
  simp only [readHeaders, new] at h
  cases hopen : ChunkStream.takeOpening { source } with
  | error e s =>
    simp only [hopen] at h
    cases h
    obtain hnone | hother := ChunkStream.pending_of_takeOpening_failed hopen
    · exact .inl ⟨_, hnew s hnone⟩
    · exact .inr ⟨rfl, .inr hother⟩
  | ok u s =>
    have hpending := ChunkStream.pending_of_takeOpening hopen
    have hnone := ChunkStream.pending_takeChunk s
    simp only [hopen] at h
    cases htaken : s.takeChunk with
    | error e s' =>
      rw [htaken] at hnone
      rw [acceptChunks_of_refused htaken] at h
      cases h
      exact .inl ⟨_, hnew s' hnone⟩
    | ok c s' =>
      rw [htaken] at hnone
      have hkind := kind_of_takeChunk hpending htaken
      rw [acceptChunks_of_taken htaken] at h
      cases haccept : Metadata.accept c (.new o) with
      | error e =>
        rw [haccept] at h
        cases h
        exact .inl ⟨_, hnew s' hnone⟩
      | ok m =>
        simp only [haccept, hkind, reduceCtorEq, if_false] at h
        -- From here on the header is known.
        have hheader := header_of_accept hkind haccept
        cases hrest : acceptChunks s' m with
        | ok u r =>
          rw [hrest] at h
          cases h
        | error e r =>
          rw [hrest] at h
          cases h
          exact .inr ⟨rfl, .inl (header_of_acceptChunks_failed hheader hrest)⟩

/-- What every call keeps: a decoder is a new one on what is left of its source, or doomed, or has
read the end chunk. -/
inductive Standing (o : Options) : Decoder → Prop
  | new (source : Source) : Standing o (.new source o)
  | doomed {d : Decoder} (h : d.Doomed) : Standing o d
  | read {d : Decoder} (h : d.stage ≠ .reading) : Standing o d

theorem standing_perform {o : Options} {d : Decoder} (h : Standing o d) (c : Call) :
    Standing o (d.perform c).2 := by
  cases h with
  | new source =>
    cases hr : readHeaders (.new source o) with
    | ok u d =>
      have hd := stage_of_readHeaders rfl hr
      rw [perform_of_ok rfl hr hd]
      exact .read (after_of_read (by rw [hd]; nofun) [c]).1
    | error e d =>
      rw [perform_of_failed rfl hr]
      obtain ⟨source', rfl⟩ | hdoomed := readHeaders_new_failed hr
      · exact .new source'
      · exact .doomed hdoomed
  | doomed h =>
    obtain ⟨e, d', hr, hd'⟩ := readHeaders_of_doomed h
    rw [perform_of_failed h.1 hr]
    exact .doomed hd'
  | read h => exact .read (after_of_read h [c]).1

theorem standing_after {o : Options} {d : Decoder} (h : Standing o d) (calls : List Call) :
    Standing o (d.after calls) := by
  induction calls generalizing d with
  | nil => exact h
  | cons c calls ih => exact ih (standing_perform h c)

/-- The call that reads the chunks to their end is one of a new decoder. -/
theorem eq_new_of_read {o : Options} {d : Decoder} {c : Call} (h : Standing o d)
    (hs : d.stage = .reading) (hnext : (d.perform c).2.stage ≠ .reading) :
    d = .new d.stream.source o := by
  cases h with
  | new source => rfl
  | doomed h =>
    obtain ⟨e, d', hr, hd'⟩ := readHeaders_of_doomed h
    rw [perform_of_failed hs hr] at hnext
    exact absurd hd'.1 hnext
  | read h => exact absurd hs h

/-- All calls of a doomed decoder fail. -/
theorem answers_of_doomed {d : Decoder} (h : d.Doomed) (calls : List Call) :
    ∀ a ∈ d.answers calls, a.isFailure := by
  induction calls generalizing d with
  | nil => exact List.forall_mem_nil _
  | cons c calls ih =>
    obtain ⟨e, d', hr, hd'⟩ := readHeaders_of_doomed h
    simp only [answers, perform_of_failed h.1 hr, List.forall_mem_cons]
    exact ⟨rfl, ih hd'⟩

/-- A decoder whose file goes on with a first chunk that is no header is doomed by its next call. -/
theorem answers_of_wrong_opening {o : Options} {d : Decoder} (h : Standing o d) {head : ChunkHead}
    {rest : List UInt8} (hs : d.stage = .reading) (hlt : head.length < levels 32)
    (hkind : head.tag.kind ≠ .header)
    (hrest : d.stream.source.rest =
      signature ++ (BigEndian.encode 4 head.length ++ head.tag.toBytes ++ rest))
    (calls : List Call) : ∀ a ∈ d.answers calls, a.isFailure := by
  cases h with
  | new source =>
    cases calls with
    | nil => exact List.forall_mem_nil _
    | cons c calls =>
      have hopen := ChunkStream.takeOpening_of_rest rfl hlt hrest
      simp only [hkind, if_false] at hopen
      have hr := readHeaders_of_opening_failed hs hopen
      simp only [answers, perform_of_failed hs hr, List.forall_mem_cons]
      refine ⟨rfl, answers_of_doomed ⟨rfl, .inr ⟨head, rfl, hkind⟩⟩ calls⟩
  | doomed h => exact answers_of_doomed h calls
  | read h => exact absurd hs h

/-- How many images a decoder may still hand out. -/
def allowance (d : Decoder) : Nat :=
  if d.stage = .decoded then 0 else 1

/-- An image is paid for with the allowance. -/
theorem allowance_perform (d : Decoder) (c : Call) :
    (d.perform c).1.isImage.toNat + (d.perform c).2.allowance ≤ d.allowance := by
  have hone : ∀ d : Decoder, d.allowance ≤ 1 := fun d => by unfold allowance; split <;> omega
  -- Behind the first stage nothing is left of the allowance once an image is handed out.
  have hread : ∀ {d : Decoder}, d.stage ≠ .reading →
      (d.perform c).1.isImage.toNat + (d.perform c).2.allowance ≤ d.allowance := by
    intro d h
    cases c with
    | readHeaders => rw [perform_readHeaders_of_read h]; simp [Answer.isImage]
    | decode =>
      rw [perform_decode_of_read h]
      by_cases hs : d.stage = .decoded
      · simp [store, allowance, hs, Answer.ofResult, Answer.isImage]
      · have := Bool.toNat_le (Answer.ofResult d.store).isImage
        simpa [allowance, hs] using this
  -- A decoder in the first stage reads the chunks first, and goes on with what is left.
  by_cases hs : d.stage = .reading
  · cases hr : readHeaders d with
    | ok u d' =>
      have hd' := stage_of_readHeaders hs hr
      rw [perform_of_ok hs hr hd']
      calc _ ≤ d'.allowance := hread (by rw [hd']; nofun)
        _ = d.allowance := by simp [allowance, hs, hd']
    | error e d' =>
      rw [perform_of_failed hs hr]
      simpa [Answer.isImage, allowance, hs] using hone d'
  · exact hread hs

theorem images_le_allowance (d : Decoder) (calls : List Call) :
    (d.answers calls).countP Answer.isImage ≤ d.allowance := by
  induction calls generalizing d with
  | nil => exact Nat.zero_le _
  | cons c calls ih =>
    have hstep := allowance_perform d c
    have hrest := ih (d.perform c).2
    rw [answers, List.countP_cons]
    cases h : (d.perform c).1.isImage <;> simp [h] at hstep ⊢ <;> omega

/-- However a decoder is called: at most one call gives an image; the call that reads the chunks to
their end starts from a new decoder of what is left of the source, whatever calls failed before it;
a header that a failed call has left behind, or a first chunk that is no header, makes all later
calls fail; and once the chunks are read, the image or its error is handed out once, and nothing
that the decoder tells changes any more. -/
theorem attempts_kept_apart (source : Source) (o : Options) (before later : List Call) :
    let d := (Decoder.new source o).after before
    ((Decoder.new source o).answers (before ++ later)).countP Answer.isImage ≤ 1 ∧
    (∀ c, d.stage = .reading → (d.perform c).2.stage ≠ .reading →
      d = .new d.stream.source o) ∧
    (d.stage = .reading → d.report.header.isSome → ∀ a ∈ d.answers later, a.isFailure) ∧
    (∀ (head : ChunkHead) (rest : List UInt8), d.stage = .reading →
      head.length < levels 32 → head.tag.kind ≠ .header →
      d.stream.source.rest =
        signature ++ (BigEndian.encode 4 head.length ++ head.tag.toBytes ++ rest) →
      ∀ a ∈ d.answers later, a.isFailure) ∧
    (d.stage ≠ .reading →
      d.perform .readHeaders = (.done, d) ∧ d.answers later = served d.store later ∧
        (d.after later).report = d.report) := by
  refine ⟨images_le_allowance _ _, ?_⟩
  -- The calls before leave a decoder that is new, or only fails, or has read the end chunk.
  have hd : Standing o ((Decoder.new source o).after before) := standing_after (.new source) before
  generalize (Decoder.new source o).after before = d at hd
  refine ⟨fun c => eq_new_of_read hd, ?_, ?_, ?_⟩
  · exact fun hs hheader => answers_of_doomed ⟨hs, .inl hheader⟩ later
  · exact fun head rest hs hlt hkind hrest =>
      answers_of_wrong_opening hd hs hlt hkind hrest later
  · intro hs
    refine ⟨perform_readHeaders_of_read hs, answers_of_read hs later, ?_⟩
    have hmetadata := (after_of_read hs later).2
    simp only [report, dimensions?, hmetadata]

end Decoder

end Png
