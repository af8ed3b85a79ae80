import Png.Libraries.Own
import Png.Proofs.Session

/-!
# Runs of chunks

`Takes` relates a stream to the chunks that are taken from it one after the other and to the stream
behind them. A decoder that reads the chunks of a file goes through such a run and handles each of
its chunks: `acceptChunks_of_run` says how the reading goes on behind a run, and
`exists_run_of_ok` and `exists_run_of_failed` that every reading ends behind one. A chunk that is
refused is not of the run, and by `handle_failed` it has left no trace.
-/

namespace Png

namespace ChunkStream

/-- The chunks are taken from the first stream one after the other, and leave the second. -/
inductive Takes : ChunkStream → List Chunk → ChunkStream → Prop
  | nil (s : ChunkStream) : Takes s [] s
  | cons {s t u : ChunkStream} {c : Chunk} {cs : List Chunk} (htaken : s.takeChunk = .ok c t)
      (hrest : Takes t cs u) : Takes s (c :: cs) u

theorem Takes.append {s t u : ChunkStream} {cs ds : List Chunk} (h : Takes s cs t)
    (hd : Takes t ds u) : Takes s (cs ++ ds) u := by
  induction h with
  | nil s => exact hd
  | cons htaken _ ih => exact .cons htaken (ih hd)

/-- A run may be cut in two. -/
theorem Takes.exists_of_append {s u : ChunkStream} {cs ds : List Chunk}
    (h : Takes s (cs ++ ds) u) : ∃ t, Takes s cs t ∧ Takes t ds u := by
  induction cs generalizing s with
  | nil => exact ⟨s, .nil s, h⟩
  | cons c cs ih =>
    cases h with
    | cons htaken hrest =>
      obtain ⟨t, hcs, hds⟩ := ih hrest
      exact ⟨t, .cons htaken hcs, hds⟩

end ChunkStream

namespace Metadata

variable [Libraries]

/-- A handler that fails leaves everything as it was. -/
theorem handle_failed {c : Chunk} {m m' : Metadata} {e : Error} (h : handle c m = .error e m') :
    m' = m := by
  rw [handle_eq_accept] at h
  split at h <;> cases h
  rfl

/-- Chunks are handled one after the other up to the first that is refused. -/
theorem forM_handle (cs : List Chunk) (m : Metadata) : cs.forM handle m = acceptAll cs m := by
  induction cs generalizing m with
  | nil => rfl
  | cons c cs ih =>
    show (handle c >>= fun _ => cs.forM handle) m = _
    simp only [bind, EStateM.bind, handle_eq_accept, acceptAll]
    cases m.accept c with
    | ok m' => exact ih m'
    | error e => rfl

@[simp]
theorem acceptAll_singleton (c : Chunk) (m : Metadata) : acceptAll [c] m = handle c m := by
  rw [handle_eq_accept, acceptAll]
  cases m.accept c <;> rfl

end Metadata

namespace Decoder

open ChunkStream (Takes)

section

variable [Libraries]

/-- Behind a run of chunks that were all accepted, and of which none is the end chunk, the reading
goes on as from there. -/
theorem acceptChunks_of_run {s t : ChunkStream} {cs : List Chunk} {m m' : Metadata}
    (hrun : s.Takes cs t) (hcs : Metadata.acceptAll cs m = .ok () m')
    (hend : ∀ c ∈ cs, c.kind ≠ .imageEnd) : acceptChunks s m = acceptChunks t m' := by
  induction hrun generalizing m with
  | nil s =>
    cases hcs
    rfl
  | @cons s t u c cs htaken _ ih =>
    rw [Metadata.acceptAll] at hcs
    rw [acceptChunks_of_taken htaken]
    cases haccept : m.accept c with
    | error e =>
      rw [haccept] at hcs
      cases hcs
    | ok m₁ =>
      rw [haccept] at hcs
      have hc := hend c List.mem_cons_self
      simp only [hc, if_false]
      exact ih hcs fun d hd => hend d (List.mem_cons_of_mem c hd)

/-- A run that ends with the first end chunk, all of whose chunks were accepted, is all that is
read. -/
theorem acceptChunks_of_run_to_end {s t : ChunkStream} {front : List Chunk} {last : Chunk}
    {m m' : Metadata} (hrun : s.Takes (front ++ [last]) t)
    (hcs : Metadata.acceptAll (front ++ [last]) m = .ok () m') (hlast : last.kind = .imageEnd)
    (hfront : ∀ c ∈ front, c.kind ≠ .imageEnd) : acceptChunks s m = .ok () (t, m') := by
  obtain ⟨u, hrun, hend⟩ := hrun.exists_of_append
  rw [Metadata.acceptAll_append] at hcs
  cases hm : Metadata.acceptAll front m with
  | error e m₁ =>
    rw [hm] at hcs
    cases hcs
  | ok v m₁ =>
    simp only [hm, Metadata.acceptAll] at hcs
    -- The reading goes on behind the chunks in front, and what is left is the end chunk.
    rw [acceptChunks_of_run hrun hm hfront]
    cases hend with
    | cons htaken hnil =>
      cases hnil
      rw [acceptChunks_of_taken htaken]
      cases haccept : m₁.accept last with
      | error e =>
        rw [haccept] at hcs
        cases hcs
      | ok m₂ =>
        rw [haccept] at hcs
        cases hcs
        simp only [hlast, if_true]

/-- The first chunk of a run, in front of what the others are known for. -/
theorem run_cons {s t u : ChunkStream} {c : Chunk} {cs : List Chunk} {m m₁ m' : Metadata}
    (htaken : s.takeChunk = .ok c t) (hhandle : Metadata.handle c m = .ok () m₁)
    (hrun : t.Takes cs u) (hcs : Metadata.acceptAll cs m₁ = .ok () m') :
    s.Takes (c :: cs) u ∧ Metadata.acceptAll (c :: cs) m = .ok () m' := by
  refine ⟨.cons htaken hrun, ?_⟩
  rw [Metadata.acceptAll, Metadata.accept_of_handle hhandle]
  exact hcs

/-- A reading that succeeds has taken chunks up to the first end chunk, and all of them were
accepted. -/
theorem exists_run_of_ok {s s' : ChunkStream} {m m' : Metadata}
    (h : acceptChunks s m = .ok () (s', m')) :
    ∃ front last, s.Takes (front ++ [last]) s' ∧
      Metadata.acceptAll (front ++ [last]) m = .ok () m' ∧
      last.kind = .imageEnd ∧ ∀ c ∈ front, c.kind ≠ .imageEnd := by
  -- The cases are those of the reading: no chunk, a refused one, the end chunk, another one.
  induction s, m using acceptChunks.induct with
  | case1 s m e t htaken =>
    rw [acceptChunks_of_refused htaken] at h
    cases h
  | case2 s m c t htaken e m₁ hhandle =>
    rw [acceptChunks_of_taken htaken, Metadata.accept_of_handle_failed hhandle] at h
    cases h
  | case3 s m c t htaken m₁ hhandle hsize hkind =>
    rw [acceptChunks_of_taken htaken, Metadata.accept_of_handle hhandle] at h
    simp only [hkind, if_true] at h
    cases h
    obtain ⟨hrun, hcs⟩ := run_cons htaken hhandle (.nil _) rfl
    exact ⟨[], c, hrun, hcs, hkind, List.forall_mem_nil _⟩
  | case4 s m c t htaken m₁ hhandle hsize hkind ih =>
    rw [acceptChunks_of_taken htaken, Metadata.accept_of_handle hhandle] at h
    simp only [hkind, if_false] at h
    obtain ⟨front, last, hrun, hcs, hlast, hfront⟩ := ih h
    obtain ⟨hrun, hcs⟩ := run_cons htaken hhandle hrun hcs
    refine ⟨c :: front, last, hrun, hcs, hlast, fun d hd => ?_⟩
    obtain rfl | hd := List.mem_cons.1 hd
    · exact hkind
    · exact hfront d hd

/-- A reading that fails has taken chunks that were all accepted, and behind them either there was
no further chunk or one that was refused. -/
theorem exists_run_of_failed {s s' : ChunkStream} {m m' : Metadata} {e : Error}
    (h : acceptChunks s m = .error e (s', m')) :
    ∃ cs t, s.Takes cs t ∧ Metadata.acceptAll cs m = .ok () m' ∧
      (∀ c ∈ cs, c.kind ≠ .imageEnd) ∧
      (t.takeChunk = .error e s' ∨
        ∃ c, t.takeChunk = .ok c s' ∧ Metadata.handle c m' = .error e m') := by
  induction s, m using acceptChunks.induct with
  | case1 s m e t htaken =>
    rw [acceptChunks_of_refused htaken] at h
    cases h
    exact ⟨[], s, .nil s, rfl, List.forall_mem_nil _, .inl htaken⟩
  | case2 s m c t htaken e m₁ hhandle =>
    -- The handler that refused the chunk has left what is known as it was.
    obtain rfl := Metadata.handle_failed hhandle
    rw [acceptChunks_of_taken htaken, Metadata.accept_of_handle_failed hhandle] at h
    cases h
    exact ⟨[], s, .nil s, rfl, List.forall_mem_nil _, .inr ⟨c, htaken, hhandle⟩⟩
  | case3 s m c t htaken m₁ hhandle hsize hkind =>
    rw [acceptChunks_of_taken htaken, Metadata.accept_of_handle hhandle] at h
    simp only [hkind, if_true] at h
    cases h
  | case4 s m c t htaken m₁ hhandle hsize hkind ih =>
    rw [acceptChunks_of_taken htaken, Metadata.accept_of_handle hhandle] at h
    simp only [hkind, if_false] at h
    obtain ⟨cs, u, hrun, hcs, hend, hcause⟩ := ih h
    obtain ⟨hrun, hcs⟩ := run_cons htaken hhandle hrun hcs
    refine ⟨c :: cs, u, hrun, hcs, fun d hd => ?_, hcause⟩
    obtain rfl | hd := List.mem_cons.1 hd
    · exact hkind
    · exact hend d hd

/-- Only reading can fail. -/
theorem reading_of_failed {d d' : Decoder} {e : Error} (h : readHeaders d = .error e d') :
    d.stage = .reading := by
  cases hs : d.stage with
  | reading => rfl
  | complete | decoded =>
    rw [readHeaders_of_read (by rw [hs]; nofun)] at h
    cases h

/-- Handling is atomic: a chunk is handled, or its handler fails and leaves everything that is known
as it was. So a reading that fails has kept what the chunks in front of the failure led to, and
nothing else: these are the chunks that were taken behind the opening, and the next one could not be
taken, or its handler failed. -/
theorem readHeaders_atomic :
    (∀ (c : Chunk) (m : Metadata), (∃ m', Metadata.handle c m = .ok () m') ∨
      ∃ e, Metadata.handle c m = .error e m) ∧
    ∀ (d d' : Decoder) (e : Error), readHeaders d = .error e d' →
      ∃ cs m, cs.forM Metadata.handle d.metadata = .ok () m ∧
        d' = { d with stream := d'.stream, metadata := m } ∧
        d'.report = report { d with metadata := m } ∧
        (cs = [] ∧ d.stream.takeOpening = .error e d'.stream ∨
          ∃ opened t, d.stream.takeOpening = .ok () opened ∧ opened.Takes cs t ∧
            (t.takeChunk = .error e d'.stream ∨
              ∃ c, t.takeChunk = .ok c d'.stream ∧ Metadata.handle c m = .error e m)) := by
  constructor
  · intro c m
    cases h : Metadata.handle c m with
    | ok u m' => exact .inl ⟨m', rfl⟩
    | error e m' => exact .inr ⟨e, by rw [Metadata.handle_failed h]⟩
  · intro d d' e h
    have hs := reading_of_failed h
    -- A failure of the opening comes before any chunk is taken.
    cases hopen : d.stream.takeOpening with
    | error e' s =>
      rw [readHeaders_of_opening_failed hs hopen] at h
      cases h
      exact ⟨[], d.metadata, rfl, rfl, rfl, .inl ⟨rfl, rfl⟩⟩
    | ok u opened =>
      rw [readHeaders_of_opened hs hopen] at h
      cases haccept : acceptChunks opened d.metadata with
      | ok u r =>
        rw [haccept] at h
        cases h
      | error e' r =>
        obtain ⟨stream, m⟩ := r
        rw [haccept] at h
        cases h
        obtain ⟨cs, t, hrun, hcs, -, hcause⟩ := exists_run_of_failed haccept
        rw [← Metadata.forM_handle] at hcs
        exact ⟨cs, m, hcs, rfl, rfl, .inr ⟨opened, t, rfl, hrun, hcause⟩⟩

end

/-- A text chunk is handled and kept, and then a palette chunk of four bytes is refused. -/
theorem readHeaders_atomic_bad_palette :
    let gray : Header :=
      { width := 1, height := 1, depth := 8, color := .gray, interlace := .sequential }
    let header : Chunk := { tag := .ofChars 'I' 'H' 'D' 'R', data := gray.toBytes }
    let text : Chunk := { tag := .ofChars 't' 'E' 'X' 't', data := [65, 0, 66] }
    let palette : Chunk := { tag := .ofChars 'P' 'L' 'T' 'E', data := [1, 2, 3, 4] }
    let last : Chunk := { tag := .ofChars 'I' 'E' 'N' 'D', data := [] }
    let file : Source :=
      { rest := signature ++ [header, text, palette, last].flatMap Chunk.toBytes }
    ∃ (d' : Decoder) (cs : List Chunk),
      readHeaders (.new file {}) = .error (.invalidPaletteLength 4) d' ∧
      cs.forM Metadata.handle (.new {}) = .ok () d'.metadata ∧
      d'.metadata.text = [{ keyword := "A", text := "B" }] := by
  intro gray header text palette last file
  have hfile : file.rest =
      signature ++ (header.toBytes ++ [text, palette, last].flatMap Chunk.toBytes) := rfl
  obtain ⟨opened, hholds, hopen⟩ := ChunkStream.takeOpening_of_chunk (s := { source := file }) rfl
    (by decide) hfile
  have hrest : opened.Holds (([header, text, palette] ++ [last]).flatMap Chunk.toBytes ++ []) := by
    simpa using hholds
  obtain ⟨s, hs⟩ := acceptChunks_of_holds (.new {}) (by decide) rfl (by decide) hrest
  -- What the header and the text lead to.
  let m := ((Metadata.new {}).keepHeader gray).keep (.text { keyword := "A", text := "B" })
  have hm : Metadata.acceptAll ([header, text, palette] ++ [last]) (.new {}) =
      .error (.invalidPaletteLength 4) m := by
    subst m header text palette last gray
    rfl
  rw [hm] at hs
  have hfailed : readHeaders (.new file {}) =
      .error (.invalidPaletteLength 4) { stream := s, metadata := m } := by
    rw [readHeaders_of_opened rfl hopen, metadata_new, hs]
    rfl
  obtain ⟨cs, m', hcs, hd', -⟩ := readHeaders_atomic.2 _ _ _ hfailed
  cases hd'
  exact ⟨_, cs, hfailed, hcs, rfl⟩

end Decoder

end Png
