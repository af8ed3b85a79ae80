import Png.Proofs.ChunkBytes
import Png.Proofs.PaletteState

/-!
# Files that have been read

A file whose headers could be read starts with a header, and all of its chunks were accepted
(`acceptAll_of_readHeaders`). What is known at its end is known from its chunks in their order, and
no second header is among them: `acceptAll_behind_header` is the induction over them, with a case
for the header and a case for one more chunk. The lemmas in front are about what it is used with:
the first and the last chunk of a kind, the number in a field, and several properties put in
together.
-/

namespace Png

/-- The first chunk of a kind. -/
def firstOf (kind : ChunkKind) (chunks : List Chunk) : Option Chunk :=
  chunks.find? (·.kind = kind)

@[simp]
theorem firstOf_append (kind : ChunkKind) (front back : List Chunk) :
    firstOf kind (front ++ back) = (firstOf kind front).or (firstOf kind back) :=
  List.find?_append

@[simp]
theorem firstOf_singleton (kind : ChunkKind) (c : Chunk) :
    firstOf kind [c] = if c.kind = kind then some c else none := by
  by_cases h : c.kind = kind <;> simp [firstOf, h]

@[simp]
theorem lastOf_append (kind : ChunkKind) (chunks : List Chunk) (c : Chunk) :
    lastOf kind (chunks ++ [c]) = if c.kind = kind then some c else lastOf kind chunks := by
  by_cases h : c.kind = kind <;> simp [lastOf, h]

@[simp]
theorem lastOf_singleton (kind : ChunkKind) (c : Chunk) :
    lastOf kind [c] = if c.kind = kind then some c else none :=
  lastOf_append kind [] c

/-- A chunk of some kind is among the chunks if there is a first one. -/
theorem isSome_firstOf_iff {kind : ChunkKind} {chunks : List Chunk} :
    (firstOf kind chunks).isSome = true ↔ ∃ c ∈ chunks, c.kind = kind := by
  simp [firstOf]

/-- The number that `width` bytes at `offset` write. -/
def numberAt (data : List UInt8) (offset width : Nat) : Nat :=
  BigEndian.decode ((data.drop offset).take width)

/-- A field that can be read has the number of its bytes, and ends within the data. -/
theorem readField_eq_ok {data : List UInt8} {offset width n : Nat}
    (h : readField data offset width = .ok n) :
    n = numberAt data offset width ∧ min width (data.length - offset) = width := by
  rw [readField, demand_eq_ok_iff, BigEndian.field?] at h
  split at h
  · next hlength =>
    rw [List.length_take, List.length_drop] at hlength
    exact ⟨(Option.some.inj h).symm, hlength⟩
  · cases h

namespace Properties

/-- Values that are put in under different names are all found. -/
theorem get?_insertAll_zip {names : List String} (hnames : (names.map Text.lowerCase).Nodup)
    {values : List PropertyValue} (hlength : names.length = values.length) (p : Properties) :
    names.map (p.insertAll (names.zip values)).get? = values.map some := by
  induction names generalizing values p with
  | nil =>
    rw [List.eq_nil_of_length_eq_zero hlength.symm]
    rfl
  | cons name names ih =>
    obtain ⟨value, values, rfl⟩ := List.exists_cons_of_length_eq_add_one hlength.symm
    obtain ⟨hfirst, hrest⟩ := List.nodup_cons.1 hnames
    have hlater : ∀ entry ∈ names.zip values, Text.lowerCase name ≠ Text.lowerCase entry.1 := by
      intro entry hentry heq
      exact hfirst (heq ▸ List.mem_map_of_mem (List.of_mem_zip hentry).1)
    rw [List.zip_cons_cons, List.map_cons, List.map_cons, insertAll, List.foldl_cons, ← insertAll,
      ih hrest (Nat.succ.inj hlength), get?_insertAll_of_ne hlater, get?_insert, if_pos rfl]

end Properties

namespace Metadata

/-- Behind a header encoding parameters are changed, and not made anew. -/
theorem encoding_keep_behind {m : Metadata} {f : Finding} (h : ∀ other, f ≠ .header other) :
    (m.keep f).encoding = m.encoding.map (m.recorded f) := by
  rw [encoding_keep]
  cases f with
  | header other => exact absurd rfl (h other)
  | _ => rfl

variable [Libraries]

/-- Behind a header no other header is accepted. -/
theorem not_header_of_read {c : Chunk} {m : Metadata} {f : Finding} {hd : Header}
    (hheader : m.header = some hd) (hread : m.read c = .ok f) (other : Header) :
    f ≠ .header other := by
  rintro rfl
  have hkind : c.kind = .header := of_read hread
  simp only [read, hkind] at hread
  rw [(readHeader_eq_ok hread).1] at hheader
  cases hheader

/-- Chunks are accepted if those in front are, and then those behind. -/
theorem exists_of_acceptAll_append {front back : List Chunk} {m m' : Metadata}
    (h : acceptAll (front ++ back) m = .ok () m') :
    ∃ between, acceptAll front m = .ok () between ∧ acceptAll back between = .ok () m' := by
  rw [acceptAll_append] at h
  cases hfront : acceptAll front m with
  | ok u between =>
    rw [hfront] at h
    exact ⟨between, rfl, h⟩
  | error e between =>
    rw [hfront] at h
    cases h

section

variable {o : Options} {P : List Chunk → Metadata → Prop}
  (step : ∀ {chunks : List Chunk} {m : Metadata} {c : Chunk} {f : Finding}, P chunks m →
    m.read c = .ok f → (∀ other, f ≠ .header other) → P (chunks ++ [c]) (m.keep f))

include step

/-- What every chunk behind a header keeps, any chunks behind it keep. -/
theorem acceptAll_keeps {done chunks : List Chunk} {m m' : Metadata} {hd : Header}
    (hdone : P done m) (hheader : m.header = some hd) (h : acceptAll chunks m = .ok () m') :
    P (done ++ chunks) m' := by
  -- The chunks that are done grow at their end as the others get fewer.
  induction chunks generalizing done m with
  | nil =>
    cases h
    rwa [List.append_nil]
  | cons c chunks ih =>
    unfold acceptAll at h
    split at h
    · next next hnext =>
      obtain ⟨f, hread, rfl⟩ := accept_eq_ok_iff.1 hnext
      have hkept := step hdone hread (not_header_of_read hheader hread)
      have := ih hkept (header_of_read hread hheader) h
      rwa [List.append_assoc] at this
    · cases h

/-- What holds behind a header, and is kept by every chunk that is not one, holds behind all chunks
of a list that starts with a header and is accepted. -/
theorem acceptAll_behind_header
    (start : ∀ {c : Chunk} {hd : Header}, c.kind = .header → Header.parse o c.data = .ok hd →
      P [c] ((new o).keep (.header hd)))
    {chunks : List Chunk} {m : Metadata} (hheader : chunks.head?.map Chunk.kind = some .header)
    (h : acceptAll chunks (.new o) = .ok () m) : P chunks m := by
  cases chunks with
  | nil => cases hheader
  | cons first chunks =>
    have hkind : first.kind = .header := by simpa using hheader
    unfold acceptAll at h
    split at h
    · next next hnext =>
      obtain ⟨f, hread, rfl⟩ := accept_eq_ok_iff.1 hnext
      simp only [read, hkind] at hread
      obtain ⟨-, hd, hparse, rfl⟩ := readHeader_eq_ok hread
      exact acceptAll_keeps step (start hkind hparse) rfl h
    · cases h

end

end Metadata

/-- A step that gives a value comes to its end. -/
theorem exists_of_run' {σ α : Type} {x : EStateM Error σ α} {s : σ} {a : α}
    (h : x.run' s = some a) : ∃ t, x s = .ok a t := by
  delta EStateM.run' EStateM.run at h
  cases hx : x s with
  | ok b t =>
    rw [hx] at h
    cases h
    exact ⟨t, rfl⟩
  | error e t =>
    rw [hx] at h
    cases h

/-- The file that consists of these chunks. -/
def Source.ofChunks (chunks : List Chunk) : Source :=
  { rest := signature ++ chunks.flatMap Chunk.toBytes }

/-- A file carries the chunks it consists of, if the last of them alone is an end. -/
theorem Source.carries_ofChunks {chunks : List Chunk} (hfits : ∀ c ∈ chunks, c.Fits)
    (hends : chunks.getLast?.map Chunk.kind = some .imageEnd)
    (honly : ∀ c ∈ chunks.dropLast, c.kind ≠ .imageEnd) : (ofChunks chunks).Carries chunks := by
  obtain ⟨last, hlast, hkind⟩ := Option.map_eq_some_iff.1 hends
  obtain ⟨front, rfl⟩ := List.getLast?_eq_some_iff.1 hlast
  rw [List.dropLast_concat] at honly
  exact ⟨hfits, ⟨[], by rw [ofChunks, List.append_nil]⟩, front, last, rfl, hkind, honly⟩

namespace Decoder

/-- The chunks of a file whose headers can be read have a header in front, and were all accepted. -/
theorem acceptAll_of_readHeaders [Libraries] {source : Source} {o : Options} {chunks : List Chunk}
    {d : Decoder} (h : source.Carries chunks) (hread : readHeaders (.new source o) = .ok () d) :
    chunks.head?.map Chunk.kind = some .header ∧
      Metadata.acceptAll chunks (.new o) = .ok () d.metadata := by
  obtain ⟨hfits, ⟨tail, hrest⟩, front, last, rfl, hlast, hfront⟩ := h
  obtain ⟨first, others, hchunks⟩ : ∃ first others, front ++ [last] = first :: others :=
    List.exists_cons_of_ne_nil (by simp)
  rw [hchunks, List.flatMap_cons, List.append_assoc] at hrest
  obtain ⟨opened, hholds, hopen⟩ := ChunkStream.takeOpening_of_chunk (s := { source }) rfl
    (hfits first (by simp [hchunks])) hrest
  rw [← List.append_assoc, ← List.flatMap_cons, ← hchunks] at hholds
  obtain ⟨s, hs⟩ := acceptChunks_of_holds (.new o) hfits hlast hfront hholds
  by_cases hkind : first.kind = .header
  · rw [if_pos hkind] at hopen
    rw [readHeaders_of_opened rfl hopen, metadata_new, hs] at hread
    refine ⟨by rw [hchunks, List.head?_cons, Option.map_some, hkind], ?_⟩
    cases haccept : Metadata.acceptAll (front ++ [last]) (.new o) with
    | ok u m =>
      rw [haccept] at hread
      cases hread
      rfl
    | error e m =>
      rw [haccept] at hread
      cases hread
  · -- The opening is refused.
    rw [if_neg hkind] at hopen
    rw [readHeaders_of_opening_failed rfl hopen] at hread
    cases hread

end Decoder

end Png
