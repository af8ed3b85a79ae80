import Png.Libraries.Own
import Png.Proofs.NumberedProperties
import Png.Proofs.Omission

/-!
# Files with text and chunks of unknown type

A file keeps all of its texts and its chunks of unknown type, under names of their own
(`publishes_of_readHeaders`). That these names hide no other property is said by comparison with the
file without such chunks: `SamePlain` relates what is known of both, a chunk of another kind is read
in the same way on both sides and keeps it (`SamePlain.keep`), and one that is reported under a
numbered name keeps it on one side alone (`SamePlain.omit_left`).
-/

namespace Png

namespace Metadata

variable {m : Metadata} {c : Chunk} {f : Finding}

/-- What is known of a file, and of the same file without chunks that are reported under numbered
names. -/
structure SamePlain (m n : Metadata) : Prop extends m.SamePicture True n where
  sorted : m.properties.Sorted
  wholeResponse_eq : n.response = m.response
  significantBits_eq : n.significantBits = m.significantBits
  /-- But for the numbered names the properties are the same. -/
  properties_eq : n.properties = m.properties.only fun name => !isNumbered name
  text_eq : n.text = []
  compressedText_eq : n.compressedText = []

/-- A numbered name is left out, and a name of its own that a finding reports is not. -/
theorem isNumbered_lowerCase :
    (∀ stem ∈ numberedStems, ∀ entries, ∀ entry ∈ numbered stem entries,
      isNumbered (Text.lowerCase entry.1) = true) ∧
    ∀ f : Finding, ∀ name ∈ f.names, isNumbered (Text.lowerCase name) = false := by
  constructor
  · intro stem hstem entries entry hentry
    obtain ⟨i, hi, rfl⟩ := List.mem_mapIdx.1 hentry
    exact List.any_eq_true.2 ⟨stem, hstem, startsWith_lowerCase_numberedName hstem i _⟩
  · intro f name hname
    rw [Finding.lowerCase_name hname, isNumbered, List.any_eq_false]
    intro stem hstem
    rw [startsWith_name f name hname stem hstem]
    exact Bool.false_ne_true

namespace SamePlain

variable {n : Metadata} (h : m.SamePlain n)

include h

/-- But for numbered names the same is reported on both sides. -/
theorem reported_eq (hunknown : ∀ tag data, f ≠ .unknown tag data) :
    n.reported f =
      (m.reported f).filter fun entry => !isNumbered (Text.lowerCase entry.1) := by
  obtain ⟨hnumbered, hnames⟩ := isNumbered_lowerCase
  by_cases hend : ∃ bits, f = .imageEnd bits
  · obtain ⟨bits, rfl⟩ := hend
    -- Only the end reports texts, all of them under numbered names.
    have hnone : ∀ stem ∈ numberedStems, ∀ entries, (numbered stem entries).filter
        (fun entry => !isNumbered (Text.lowerCase entry.1)) = [] := by
      intro stem hstem entries
      rw [List.filter_eq_nil_iff]
      intro entry hentry
      rw [hnumbered stem hstem entries entry hentry]
      exact Bool.false_ne_true
    have hbits := hnames (.imageEnd bits) "significant_bits" (by simp [Finding.names])
    obtain ⟨htext, hztext, -⟩ := mem_numberedStems
    rw [reported, reported, endProperties, endProperties, h.text_eq, h.compressedText_eq,
      h.significantBits_eq, List.filter_append, List.filter_append, textProperties_eq "text" m.text,
      textProperties_eq "ztext" m.compressedText]
    refine congrArg₂ (· ++ ·) (congrArg₂ (· ++ ·) (hnone _ htext _).symm (hnone _ hztext _).symm) ?_
    split
    · rfl
    · simp [hbits]
  · -- All others report the same, and no numbered name.
    have hsame : n.reported f = m.reported f := by
      cases f with
      | imageEnd bits => exact absurd ⟨bits, rfl⟩ hend
      | unknown tag data => exact absurd rfl (hunknown tag data)
      | _ => simp only [reported, startingGamma, h.options_eq, h.wholeResponse_eq]
    rw [hsame, eq_comm, List.filter_eq_self]
    intro entry hentry
    have hname := mem_names_of_reported (fun bits hf => hend ⟨bits, hf⟩) hunknown hentry
    rw [hnames f entry.1 hname]
    rfl

variable [Libraries]

/-- A chunk of another kind is accepted on both sides. -/
theorem keep (hread : m.read c = .ok f) (hkind : c.kind ∉ numberedKinds) :
    (m.keep f).SamePlain (n.keep f) := by
  have hof : f.Of c.kind := of_read hread
  have hother : (∀ tag data, f ≠ .unknown tag data) ∧ f.textEntry? = none ∧
      f.inflatedEntry? = none := by
    cases f with
    | text | compressedText | unknown =>
      have hc : c.kind = _ := hof
      exact absurd hkind (by simp [hc, numberedKinds])
    | _ => exact ⟨nofun, rfl, rfl⟩
  obtain ⟨hunknown, htext, hinflated⟩ := hother
  refine ⟨h.toSamePicture.keep f, ?_, ?_, ?_, ?_, ?_, ?_⟩
  · simpa using Properties.sorted_insertAll h.sorted _
  · simp [h.wholeResponse_eq]
  · simp [h.significantBits_eq]
  · rw [properties_keep, properties_keep, Properties.only_insertAll h.sorted, h.properties_eq,
      h.reported_eq hunknown]
  · rw [text_keep_eq, htext, h.text_eq]
    rfl
  · rw [compressedText_keep_eq, hinflated, h.compressedText_eq]
    rfl

/-- A chunk of a kind that is reported under numbered names is accepted on one side alone. -/
theorem omit_left (hread : m.read c = .ok f) (hkind : c.kind ∈ numberedKinds) :
    (m.keep f).SamePlain n := by
  have hdescriptive : c.kind ∈ descriptiveKinds := by
    have hsub : ∀ kind ∈ numberedKinds, kind ∈ descriptiveKinds := by decide
    exact hsub _ hkind
  have hof : f.Of c.kind := of_read hread
  -- Such a chunk leaves what pixels and bits depend on, and reports numbered names alone.
  have hfields : (m.keep f).response = m.response ∧
      (m.keep f).significantBits = m.significantBits ∧
      (m.reported f).filter (fun entry => !isNumbered (Text.lowerCase entry.1)) = [] := by
    cases f with
    | unknown tag data =>
      obtain ⟨-, -, hchunk⟩ := mem_numberedStems
      have hnumbered := startsWith_lowerCase_numberedName hchunk m.unknownCount tag.text
      have hleft : isNumbered (Text.lowerCase (unknownName m.unknownCount tag)) = true :=
        List.any_eq_true.2 ⟨"chunk_", hchunk, unknownName_eq m.unknownCount tag ▸ hnumbered⟩
      refine ⟨rfl, rfl, ?_⟩
      rw [reported, List.filter_cons, hleft]
      rfl
    | text | compressedText | nothing => exact ⟨rfl, rfl, rfl⟩
    | _ =>
      have hc : c.kind = _ := hof
      simp [hc, numberedKinds] at hkind
  obtain ⟨hresponse, hbits, hnone⟩ := hfields
  have haccept : m.accept c = .ok (m.keep f) := accept_eq_ok_iff.2 ⟨f, hread, rfl⟩
  refine ⟨h.toSamePicture.omit_left (.inl hdescriptive) haccept, ?_, h.wholeResponse_eq.trans
    hresponse.symm, h.significantBits_eq.trans hbits.symm, ?_, h.text_eq, h.compressedText_eq⟩
  · rw [properties_keep]
    exact Properties.sorted_insertAll h.sorted _
  · rw [properties_keep, Properties.only_insertAll h.sorted, hnone, h.properties_eq]
    rfl

end SamePlain

theorem samePlain_new (o : Options) : (new o).SamePlain (new o) where
  toSamePicture := .refl fun _ => trivial
  sorted := Properties.sorted_insert List.Pairwise.nil _ _
  wholeResponse_eq := rfl
  significantBits_eq := rfl
  properties_eq := by
    have hplain : isNumbered (Text.lowerCase "file_type") = false := by decide
    rw [new, Properties.only_insert List.Pairwise.nil, hplain]
    rfl
  text_eq := rfl
  compressedText_eq := rfl

/-- The other chunks of a list that is accepted are accepted without those that are reported under
numbered names. -/
theorem acceptAll_plain [Libraries] {chunks : List Chunk} {m' n : Metadata} (h : m.SamePlain n)
    (haccept : acceptAll chunks m = .ok () m') :
    ∃ n', acceptAll (chunks.filter (·.kind ∉ numberedKinds)) n = .ok () n' ∧ m'.SamePlain n' := by
  induction chunks generalizing m n with
  | nil =>
    cases haccept
    exact ⟨n, rfl, h⟩
  | cons c chunks ih =>
    unfold acceptAll at haccept
    split at haccept
    · next next hnext =>
      obtain ⟨f, hread, rfl⟩ := accept_eq_ok_iff.1 hnext
      by_cases hkind : c.kind ∈ numberedKinds
      · rw [List.filter_cons_of_neg (by simpa using hkind)]
        exact ih (h.omit_left hread hkind) haccept
      · rw [List.filter_cons_of_pos (by simpa using hkind), acceptAll]
        have hright : n.accept c = .ok (n.keep f) :=
          accept_eq_ok_iff.2 ⟨f, (h.toSamePicture.read_eq (.inl trivial)).trans hread, rfl⟩
        rw [hright]
        exact ih (h.keep hread hkind) haccept
    · cases haccept

end Metadata

/-- A file without the chunks of some kinds. -/
theorem omits_filter (kinds : List ChunkKind) (chunks : List Chunk) :
    Omits kinds chunks (chunks.filter (·.kind ∉ kinds)) := by
  induction chunks with
  | nil => exact .nil
  | cons c chunks ih =>
    by_cases hkind : c.kind ∈ kinds
    · rw [List.filter_cons_of_neg (by simpa using hkind)]
      exact .leave hkind ih
    · rw [List.filter_cons_of_pos (by simpa using hkind)]
      exact .keep c ih

namespace Decoder

/-- Of the texts and the chunks of unknown type of a file whose headers can be read, none is lost,
merged or put in another order, whatever keywords and types they have, and no other property is
touched by them. -/
theorem publishes_of_readHeaders [Libraries] {source : Source} {o : Options} {d : Decoder}
    (h : readHeaders (.new source o) = .ok () d) :
    (∃ chunks, source.Carries chunks) ∧ ∀ chunks, source.Carries chunks →
      d.metadata.Publishes o chunks ∧
      (∀ c ∈ chunks, c.kind = .text →
        Text.toLatin1 c.textEntry.keyword ++ 0 :: Text.toLatin1 c.textEntry.text = c.data) ∧
      (∀ c ∈ chunks, c.kind = .compressedText →
        ∃ method stream, c.keyword ++ 0 :: method :: stream = c.data ∧
          (c.inflatedEntry?.isSome ↔ ∃ text, Libraries.inflate true stream = .ok text) ∧
          ∀ entry ∈ c.inflatedEntry?, Text.toLatin1 entry.keyword = c.keyword ∧
            Libraries.inflate true stream = .ok (Text.toLatin1 entry.text)) ∧
      ∀ source' : Source, source'.StartsWith (chunks.filter (·.kind ∉ numberedKinds)) →
        ∃ d', readHeaders (.new source' o) = .ok () d' ∧ d'.metadata.properties =
          d.metadata.properties.only fun name => !isNumbered name := by
  obtain ⟨carried, hcarried, -⟩ := exists_carries h
  refine ⟨⟨carried, hcarried⟩, fun chunks hcarries => ?_⟩
  obtain ⟨hheader, haccept⟩ := acceptAll_of_readHeaders hcarries h
  have hread := Metadata.exists_read_of_acceptAll haccept
  refine ⟨?_, fun c hc hkind => ?_, fun c hc hkind => ?_, fun source' hstarts => ?_⟩
  · obtain ⟨front, last, rfl, hlast, hfront⟩ := hcarries.ends
    exact Metadata.publishes_of_acceptAll hheader hlast hfront haccept
  · obtain ⟨m, f, hread⟩ := hread c hc
    exact Metadata.data_of_text hkind hread
  · obtain ⟨m, f, hread⟩ := hread c hc
    exact Metadata.data_of_compressedText hkind hread
  · -- The other chunks make a file of their own, which starts and ends as this one does.
    have homits := omits_filter numberedKinds chunks
    have hleft := hcarries.omits homits (by decide) hstarts
    have hfirst := homits.head?_kind (by decide) hheader
    obtain ⟨n, hn, hplain⟩ := Metadata.acceptAll_plain (Metadata.samePlain_new o) haccept
    exact ⟨_, readHeaders_of_carries hleft hfirst hn, hplain.properties_eq⟩

/-- Keywords that differ in case, with colons and empty, compressed text that does not inflate and
that does, and two chunks of one unknown type. -/
theorem publishes_of_readHeaders_alike :
    let chunk (tag : ChunkTag) (data : List UInt8) : Chunk := { tag, data }
    let chunks : List Chunk :=
      [chunk (.ofChars 'I' 'H' 'D' 'R') [0, 0, 0, 1, 0, 0, 0, 1, 8, 0, 0, 0, 0],
        chunk (.ofChars 't' 'E' 'X' 't') [84, 58, 105, 0, 233],
        chunk (.ofChars 'p' 'r' 'I' 'v') [1, 2],
        chunk (.ofChars 't' 'E' 'X' 't') [116, 58, 73, 0],
        chunk (.ofChars 'z' 'T' 'X' 't') [90, 0, 0, 1],
        chunk (.ofChars 'z' 'T' 'X' 't') [90, 0, 0, 0x78, 1, 1, 1, 0, 0xFE, 0xFF, 65, 0, 66, 0, 66],
        chunk (.ofChars 't' 'E' 'X' 't') [0, 66],
        chunk (.ofChars 'p' 'r' 'I' 'v') [],
        chunk (.ofChars 'I' 'E' 'N' 'D') []]
    let o : Options := { recordEncoding := true }
    ∃ d, readHeaders (.new (.ofChunks chunks) o) = .ok () d ∧ d.metadata.Publishes o chunks ∧
      (Metadata.reportedText chunks ++ Metadata.reportedInflated chunks ++
        Metadata.reportedUnknown chunks).map (·.1) =
        ["text_0:t:i", "text_1:t:i", "text_2:", "ztext_0:z", "chunk_0:priv", "chunk_1:priv"] := by
  intro chunk chunks o
  have hcarries : (Source.ofChunks chunks).Carries chunks :=
    Source.carries_ofChunks (by decide) (by decide) (by decide)
  obtain ⟨m, hm⟩ : ∃ m, Metadata.acceptAll chunks (.new o) = .ok () m :=
    exists_of_run' (x := Metadata.acceptAll chunks) (by decide +kernel)
  have hread := readHeaders_of_carries hcarries rfl hm
  obtain ⟨-, hall⟩ := publishes_of_readHeaders hread
  exact ⟨_, hread, (hall chunks hcarries).1, by decide +kernel⟩

end Decoder

end Png
