import Png.Libraries.Own
import Png.Proofs.Session

/-!
# How the image data are cut into chunks

The image data of a file are those of all its image data chunks together. `acceptAll_others` says
that accepting the chunks of a file leads to the state that its other chunks lead to, with the image
data put in, and `decode_eq_of_content` that a decoder therefore does the same on two files with the
same other chunks and the same image data, however these are cut into chunks and wherever the pieces
stand.
-/

namespace Png

/-- What a chunk says, which its check value is not part of. -/
def Chunk.content (c : Chunk) : ChunkTag × List UInt8 := (c.tag, c.data)

/-- The chunks that are not about image data, in order. -/
def others (chunks : List Chunk) : List Chunk := chunks.filter (·.kind ≠ .imageData)

/-- The image data of all chunks, one after the other. -/
def imageDataOf : List Chunk → List UInt8
  | [] => []
  | c :: chunks =>
    if c.kind = .imageData then c.data ++ imageDataOf chunks else imageDataOf chunks

namespace Metadata

/-- The same but for the image data. -/
def withImageData (m : Metadata) (bytes : List UInt8) : Metadata := { m with imageData := bytes }

/-- Only image data are kept together with those gathered before. -/
theorem keep_withImageData (m : Metadata) (bytes : List UInt8) {f : Finding}
    (h : ∀ data, f ≠ .imageData data) :
    (m.withImageData bytes).keep f = (m.keep f).withImageData bytes := by
  cases f with
  | imageData data => exact absurd rfl (h data)
  | _ => rfl

variable [Libraries]

/-- No chunk is read for the image data gathered before. -/
theorem read_withImageData (c : Chunk) (m : Metadata) (bytes : List UInt8) :
    (m.withImageData bytes).read c = m.read c := by
  rfl

/-- Image data are always accepted. -/
theorem accept_imageData {c : Chunk} (m : Metadata) (bytes : List UInt8)
    (hkind : c.kind = .imageData) :
    (m.withImageData bytes).accept c = .ok (m.withImageData (bytes ++ c.data)) := by
  rw [accept_eq_ok_iff]
  refine ⟨.imageData c.data, ?_, rfl⟩
  simp only [read, hkind]

/-- Any other chunk is accepted or refused whatever the image data are, and leaves them alone. -/
theorem accept_withImageData {c : Chunk} (m : Metadata) (bytes : List UInt8)
    (hkind : c.kind ≠ .imageData) :
    (m.withImageData bytes).accept c = (m.accept c).map (·.withImageData bytes) := by
  rw [accept, accept, read_withImageData]
  cases hread : m.read c with
  | error e => rfl
  | ok f =>
    have hother : ∀ data, f ≠ .imageData data := by
      rintro data rfl
      exact hkind (of_read hread)
    simp only [bind, Except.bind, pure, Except.pure, Except.map, keep_withImageData m bytes hother]

/-- All chunks of a list lead where those lead that are not about image data, with the image data
put in. If one of these is refused, the image data up to there have been put in. -/
theorem acceptAll_others (chunks : List Chunk) (m : Metadata) (bytes : List UInt8) :
    match acceptAll (others chunks) m with
    | .ok () m' =>
      acceptAll chunks (m.withImageData bytes) =
        .ok () (m'.withImageData (bytes ++ imageDataOf chunks))
    | .error e m' =>
      ∃ bytes', acceptAll chunks (m.withImageData bytes) = .error e (m'.withImageData bytes') := by
  induction chunks generalizing m bytes with
  | nil => simp [others, acceptAll, imageDataOf]
  | cons c chunks ih =>
    by_cases hkind : c.kind = .imageData
    · have ih := ih m (bytes ++ c.data)
      simpa only [others, hkind, ne_eq, not_true, decide_false, Bool.false_eq_true, not_false_iff,
        List.filter_cons_of_neg, acceptAll, accept_imageData m bytes, imageDataOf, if_true,
        List.append_assoc] using ih
    · have hothers : others (c :: chunks) = c :: others chunks :=
        List.filter_cons_of_pos (by simpa using hkind)
      simp only [hothers, acceptAll, accept_withImageData m bytes hkind, imageDataOf, hkind,
        if_false]
      cases m.accept c with
      | error e => exact ⟨bytes, rfl⟩
      | ok m' => exact ih m' bytes

/-- Accepting a chunk takes its type and its data, not its check value. -/
theorem accept_content {c d : Chunk} (m : Metadata) (h : c.content = d.content) :
    m.accept c = m.accept d := by
  obtain ⟨htag, hdata⟩ := Prod.mk.inj h
  simp only [accept, read, Chunk.kind, htag, hdata]

theorem acceptAll_content {cs ds : List Chunk} (m : Metadata)
    (h : cs.map Chunk.content = ds.map Chunk.content) : acceptAll cs m = acceptAll ds m := by
  induction cs generalizing ds m with
  | nil =>
    rw [List.map_nil, eq_comm, List.map_eq_nil_iff] at h
    rw [h]
  | cons c cs ih =>
    cases ds with
    | nil => cases h
    | cons d ds =>
      obtain ⟨hcontent, hrest⟩ := List.cons.inj h
      simp only [acceptAll, accept_content m hcontent]
      cases m.accept d with
      | error e => rfl
      | ok m' => exact ih m' hrest

end Metadata

/-- The source starts with the signature and these chunks, the last of which is their first end
chunk. What comes after it is left open. -/
structure Source.Carries (s : Source) (chunks : List Chunk) : Prop where
  /-- Lengths and check values are ones that a file can hold. -/
  fits : ∀ c ∈ chunks, c.Fits
  /-- The bytes in front are those of the signature and the chunks. -/
  rest : ∃ tail, s.rest = signature ++ (chunks.flatMap Chunk.toBytes ++ tail)
  /-- The last chunk is the only end chunk. -/
  ends : ∃ front last, chunks = front ++ [last] ∧ last.kind = .imageEnd ∧
    ∀ c ∈ front, c.kind ≠ .imageEnd

/-- The answer to decoding a file of these chunks, and what is known of it then. -/
def decodeChunks [Libraries] (o : Options) (chunks : List Chunk) : Answer × Metadata :=
  if chunks.head?.map Chunk.kind = some .header then
    match Metadata.acceptAll chunks (.new o) with
    | .ok () m => (.ofResult m.render, m)
    | .error e m => (.failed e, m)
  else (.failed .missingHeader, .new o)

namespace Decoder

section

variable [Libraries]

/-- A new decoder whose source carries chunks makes of it what these say. -/
theorem perform_of_carries {s : Source} {chunks : List Chunk} (o : Options)
    (h : s.Carries chunks) :
    ((new s o).perform .decode).1 = (decodeChunks o chunks).1 ∧
      ((new s o).perform .decode).2.metadata = (decodeChunks o chunks).2 := by
  obtain ⟨hfits, ⟨tail, hrest⟩, front, last, rfl, hlast, hfront⟩ := h
  obtain ⟨first, others, hchunks⟩ : ∃ first others, front ++ [last] = first :: others :=
    List.exists_cons_of_ne_nil (by simp)
  rw [hchunks, List.flatMap_cons, List.append_assoc] at hrest
  obtain ⟨opened, hholds, hopen⟩ := ChunkStream.takeOpening_of_chunk (s := { source := s }) rfl
    (hfits first (by simp [hchunks])) hrest
  rw [← List.append_assoc, ← List.flatMap_cons, ← hchunks] at hholds
  obtain ⟨s', hs'⟩ := acceptChunks_of_holds (.new o) hfits hlast hfront hholds
  -- The opening asks for a header, and leaves it to the run.
  rw [decodeChunks, hchunks, List.head?_cons, Option.map_some]
  by_cases hkind : first.kind = .header
  · simp only [hkind, if_true] at hopen ⊢
    have hread := readHeaders_of_opened (d := .new s o) rfl hopen
    rw [metadata_new, hs', hchunks] at hread
    cases haccept : Metadata.acceptAll (first :: others) (.new o) with
    | error e m =>
      rw [haccept] at hread
      rw [perform_of_failed rfl hread]
      exact ⟨rfl, rfl⟩
    | ok u m =>
      rw [haccept] at hread
      rw [perform_of_ok rfl hread rfl, perform_decode_of_read (by simp)]
      exact ⟨rfl, rfl⟩
  · simp only [hkind, if_false] at hopen
    rw [if_neg (by simpa using hkind),
      perform_of_failed rfl (readHeaders_of_opening_failed rfl hopen)]
    exact ⟨rfl, rfl⟩

/-- Two files with the same chunks but for those about image data, and with the same image data in
all, give the same image or the same error, and tell the same afterwards. -/
theorem decode_eq_of_content {s₁ s₂ : Source} {chunks₁ chunks₂ : List Chunk} (o : Options)
    (h₁ : s₁.Carries chunks₁) (h₂ : s₂.Carries chunks₂)
    (hfirst : chunks₁.head?.map Chunk.tag = chunks₂.head?.map Chunk.tag)
    (hothers : (others chunks₁).map Chunk.content = (others chunks₂).map Chunk.content)
    (hdata : imageDataOf chunks₁ = imageDataOf chunks₂) :
    ((new s₁ o).perform .decode).1 = ((new s₂ o).perform .decode).1 ∧
      ((new s₁ o).perform .decode).2.report = ((new s₂ o).perform .decode).2.report := by
  obtain ⟨hanswer₁, hmetadata₁⟩ := perform_of_carries o h₁
  obtain ⟨hanswer₂, hmetadata₂⟩ := perform_of_carries o h₂
  have hkinds : chunks₁.head?.map Chunk.kind = chunks₂.head?.map Chunk.kind := by
    have := congrArg (Option.map ChunkTag.kind) hfirst
    rwa [Option.map_map, Option.map_map] at this
  -- Both runs go where the chunks lead that are not about image data.
  have hrun₁ := Metadata.acceptAll_others chunks₁ (.new o) []
  have hrun₂ := Metadata.acceptAll_others chunks₂ (.new o) []
  rw [Metadata.acceptAll_content _ hothers] at hrun₁
  have hnew : (Metadata.new o).withImageData [] = .new o := rfl
  simp only [report, dimensions?, hanswer₁, hanswer₂, hmetadata₁, hmetadata₂, decodeChunks, hkinds]
  by_cases hheader : chunks₂.head?.map Chunk.kind = some .header
  · simp only [hheader, if_true]
    cases h : Metadata.acceptAll (others chunks₂) (.new o) with
    | ok u m =>
      simp only [h, hnew] at hrun₁ hrun₂
      rw [hrun₁, hrun₂, hdata]
      exact ⟨rfl, rfl⟩
    | error e m =>
      simp only [h, hnew] at hrun₁ hrun₂
      obtain ⟨bytes₁, hrun₁⟩ := hrun₁
      obtain ⟨bytes₂, hrun₂⟩ := hrun₂
      rw [hrun₁, hrun₂]
      exact ⟨rfl, rfl⟩
  · simp only [hheader, if_false, and_self]

end

/-- The image data of one gray pixel in one chunk, or in two with a text between them, other check
values, and bytes behind the end. -/
theorem decode_eq_of_split_pixel :
    let gray : Header :=
      { width := 1, height := 1, depth := 8, color := .gray, interlace := .sequential }
    let header : Chunk := { tag := .ofChars 'I' 'H' 'D' 'R', data := gray.toBytes }
    let data (bytes : List UInt8) : Chunk := { tag := .ofChars 'I' 'D' 'A' 'T', data := bytes }
    let text : Chunk := { tag := .ofChars 't' 'E' 'X' 't', data := [65, 0, 66], crc := 7 }
    let last : Chunk := { tag := .ofChars 'I' 'E' 'N' 'D', data := [] }
    let whole : Source := { rest := signature ++ ([header, text,
      data [0x78, 1, 1, 2, 0, 0xFD, 0xFF, 0, 42, 0, 44, 0, 43], last].flatMap Chunk.toBytes ++ []) }
    let split : Source := { rest := signature ++ ([header, data [0x78, 1, 1, 2, 0, 0xFD],
      { text with crc := 8 }, data [0xFF, 0, 42, 0, 44, 0, 43], last].flatMap Chunk.toBytes ++
        [1, 2, 3]) }
    ((new whole {}).perform .decode).1 = ((new split {}).perform .decode).1 ∧
      ((new whole {}).perform .decode).2.report = ((new split {}).perform .decode).2.report := by
  intro gray header data text last whole split
  refine decode_eq_of_content {} ⟨?_, ⟨_, rfl⟩, [_, _, _], last, rfl, ?_⟩
    ⟨?_, ⟨_, rfl⟩, [_, _, _, _], last, rfl, ?_⟩ ?_ ?_ ?_
  all_goals decide

end Decoder

end Png
