import Png.Proofs.Consistency
import Png.Proofs.NumberedNames
import Png.Proofs.WholeFiles

/-!
# Text and chunks of unknown type

Every text chunk, every compressed text chunk that inflates and every chunk of unknown type of a
file is reported under a numbered name, and recorded for an encoder where encoding parameters are
asked for. `Numbers` says what is known of them in front of the end of a file: each chunk adds its
own entry behind those that are there (`Numbers.keep`). The end publishes the texts, and `Publishes`
says what there is then (`publishes_of_acceptAll`).
-/

namespace Png

/-! ## What the chunks tell -/

namespace Chunk

/-- The bytes in front of the first NUL. -/
def keyword (c : Chunk) : List UInt8 := c.data.takeWhile (· != 0)

/-- The bytes behind the first NUL. -/
def behindKeyword (c : Chunk) : List UInt8 := (c.data.dropWhile (· != 0)).tail

/-- The entry of a text chunk. -/
def textEntry (c : Chunk) : TextEntry :=
  { keyword := Text.latin1 c.keyword, text := Text.latin1 c.behindKeyword }

/-- The entry of a compressed text chunk, if what is behind the compression method inflates. -/
def inflatedEntry? [Libraries] (c : Chunk) : Option TextEntry :=
  (Libraries.inflate true c.behindKeyword.tail).toOption.map fun text =>
    { keyword := Text.latin1 c.keyword, text := Text.latin1 text }

end Chunk

/-- The entries of the text chunks, in file order. -/
def textEntries (chunks : List Chunk) : List TextEntry :=
  (chunks.filter (·.kind = .text)).map Chunk.textEntry

/-- The entries of the compressed text chunks that inflate, in file order. -/
def inflatedEntries [Libraries] (chunks : List Chunk) : List TextEntry :=
  (chunks.filter (·.kind = .compressedText)).filterMap Chunk.inflatedEntry?

/-- The types and the data of the chunks of unknown type, in file order. -/
def unknownChunks (chunks : List Chunk) : List (ChunkTag × List UInt8) :=
  (chunks.filter (·.kind = .unknown)).map fun c => (c.tag, c.data)

/-- A text under its keyword. -/
def TextEntry.property (entry : TextEntry) : String × PropertyValue :=
  (entry.keyword, .text entry.text)

/-- The data of a chunk of unknown type under its type. -/
def unknownProperty (unknown : ChunkTag × List UInt8) : String × PropertyValue :=
  (unknown.1.text, .bytes unknown.2)

namespace Finding

/-- The text entry that is told. -/
def textEntry? : Finding → Option TextEntry
  | text entry => some entry
  | _ => none

/-- The inflated text entry that is told. -/
def inflatedEntry? : Finding → Option TextEntry
  | compressedText entry => some entry
  | _ => none

/-- The type and the data of a chunk of unknown type. -/
def unknown? : Finding → Option (ChunkTag × List UInt8)
  | unknown tag data => some (tag, data)
  | _ => none

end Finding

/-- The kinds of chunk that are reported under numbered names. -/
def numberedKinds : List ChunkKind := [.text, .compressedText, .unknown]

theorem textEntries_append (chunks more : List Chunk) :
    textEntries (chunks ++ more) = textEntries chunks ++ textEntries more := by
  simp [textEntries]

theorem inflatedEntries_append [Libraries] (chunks more : List Chunk) :
    inflatedEntries (chunks ++ more) = inflatedEntries chunks ++ inflatedEntries more := by
  simp [inflatedEntries]

theorem unknownChunks_append (chunks more : List Chunk) :
    unknownChunks (chunks ++ more) = unknownChunks chunks ++ unknownChunks more := by
  simp [unknownChunks]

/-- A keyword ends at the first NUL. -/
theorem splitKeyword_eq_ok {part : Part} {data keyword rest : List UInt8}
    (h : splitKeyword part data = .ok (keyword, rest)) :
    keyword = data.takeWhile (· != 0) ∧ rest = (data.dropWhile (· != 0)).tail ∧
      data = keyword ++ 0 :: rest := by
  unfold splitKeyword at h
  split at h
  · next first behind hdrop =>
    cases h
    have hfirst : first = 0 := by
      have hhead := List.head?_dropWhile_not (· != 0) data
      simpa [hdrop] using hhead
    have hsplit := List.takeWhile_append_dropWhile (p := (· != 0)) (l := data)
    rw [hdrop, hfirst] at hsplit
    exact ⟨rfl, by rw [hdrop, List.tail_cons], hsplit.symm⟩
  · cases h

namespace Metadata

variable {m : Metadata} {c : Chunk} {f : Finding}

section

variable [Libraries]

theorem readText_eq_ok (hkind : c.kind = .text) (hread : m.read c = .ok f) :
    f = .text c.textEntry ∧ c.data = c.keyword ++ 0 :: c.behindKeyword := by
  simp only [read, hkind, readText, bind_eq_ok_iff, pure, Except.pure, Except.ok.injEq] at hread
  obtain ⟨⟨keyword, rest⟩, hsplit, rfl⟩ := hread
  obtain ⟨rfl, rfl, hdata⟩ := splitKeyword_eq_ok hsplit
  exact ⟨rfl, hdata⟩

theorem readCompressedText_eq_ok (hkind : c.kind = .compressedText) (hread : m.read c = .ok f) :
    f = c.inflatedEntry?.elim .nothing .compressedText ∧
      ∃ method, c.data = c.keyword ++ 0 :: method :: c.behindKeyword.tail := by
  simp only [read, hkind, readCompressedText, bind_eq_ok_iff] at hread
  obtain ⟨⟨keyword, stream⟩, hsplit, hread⟩ := hread
  simp only [splitCompressedText, bind_eq_ok_iff] at hsplit
  obtain ⟨⟨bytes, rest⟩, hsplit, hrest⟩ := hsplit
  obtain ⟨rfl, rfl, hdata⟩ := splitKeyword_eq_ok hsplit
  split at hrest
  · next method stream' hbehind =>
    cases hrest
    have hbehind : c.behindKeyword = method :: stream := hbehind
    refine ⟨?_, method, ?_⟩
    · rw [Chunk.inflatedEntry?, hbehind, List.tail_cons]
      split at hread <;> next hinflate => cases hread; rw [hinflate]; rfl
    · rw [hbehind, List.tail_cons, ← hbehind]
      exact hdata
  · cases hrest

theorem readUnknown_eq_ok (hkind : c.kind = .unknown) (hread : m.read c = .ok f) :
    f = .unknown c.tag c.data := by
  simp only [read, hkind, Except.ok.injEq] at hread
  exact hread.symm

/-- What a chunk adds to the texts and to the chunks of unknown type is what it is read to tell. -/
theorem entries_of_read (hread : m.read c = .ok f) :
    textEntries [c] = f.textEntry?.toList ∧ inflatedEntries [c] = f.inflatedEntry?.toList ∧
      unknownChunks [c] = f.unknown?.toList := by
  have hof : f.Of c.kind := of_read hread
  cases hkind : c.kind with
  | text =>
    obtain ⟨rfl, -⟩ := readText_eq_ok hkind hread
    simp [textEntries, inflatedEntries, unknownChunks, hkind, Finding.textEntry?,
      Finding.inflatedEntry?, Finding.unknown?]
  | compressedText =>
    obtain ⟨rfl, -⟩ := readCompressedText_eq_ok hkind hread
    cases hentry : c.inflatedEntry? <;>
      simp [textEntries, inflatedEntries, unknownChunks, hkind, hentry, Finding.textEntry?,
        Finding.inflatedEntry?, Finding.unknown?]
  | unknown =>
    obtain rfl := readUnknown_eq_ok hkind hread
    simp [textEntries, inflatedEntries, unknownChunks, hkind, Finding.textEntry?,
      Finding.inflatedEntry?, Finding.unknown?]
  | _ =>
    -- No other kind of chunk tells one of these.
    rw [hkind] at hof
    cases f with
    | text | compressedText | unknown => cases hof
    | _ =>
      simp [textEntries, inflatedEntries, unknownChunks, hkind, Finding.textEntry?,
        Finding.inflatedEntry?, Finding.unknown?]

end

/-! ## What is reported under the stems -/

theorem unknownName_eq (index : Nat) (tag : ChunkTag) :
    unknownName index tag = numberedName "chunk_" index tag.text := by
  simp [unknownName, numberedName, String.append_assoc, toString]

theorem textProperties_eq (stem : String) (entries : List TextEntry) :
    textProperties stem entries = numbered (stem ++ "_") (entries.map TextEntry.property) := by
  apply List.ext_getElem
  · simp [textProperties, numbered]
  · intro i hi hi'
    simp [textProperties, numbered, numberedName, TextEntry.property, String.append_assoc, toString]

/-- The names of its own that a finding reports are not numbered. -/
theorem startsWith_name (f : Finding) :
    ∀ name ∈ f.names, ∀ stem ∈ numberedStems, startsWith stem name = false := by
  cases f <;> simp only [Finding.names] <;> decide

/-- In front of the end of a file, chunks of unknown type alone are reported under the stems. -/
theorem filter_reported_front (m : Metadata) {stem : String} (hstem : stem ∈ numberedStems)
    (hend : ∀ bits, f ≠ .imageEnd bits) :
    (m.reported f).filter (fun entry => startsWith stem (Text.lowerCase entry.1)) = match f with
      | .unknown tag data =>
        if stem = "chunk_" then
          [(numberedName "chunk_" m.unknownCount tag.text, .bytes data)]
        else []
      | _ => [] := by
  have hnone (hunknown : ∀ tag data, f ≠ .unknown tag data) :
      (m.reported f).filter (fun entry => startsWith stem (Text.lowerCase entry.1)) = [] := by
    rw [List.filter_eq_nil_iff]
    intro entry hentry
    have hname := mem_names_of_reported hend hunknown hentry
    rw [Finding.lowerCase_name hname, startsWith_name f _ hname stem hstem]
    exact Bool.false_ne_true
  cases f with
  | unknown tag data =>
    obtain ⟨-, -, hchunk⟩ := mem_numberedStems
    have hstarts := startsWith_lowerCase_numberedName hchunk m.unknownCount tag.text
    rw [reported, unknownName_eq, List.filter_cons, startsWith_eq hstem hchunk hstarts,
      List.filter_nil]
    simp only [decide_eq_true_eq]
  | _ => exact hnone (by simp)

/-- At the end of a file the texts are reported, each kind under its stem. -/
theorem filter_reported_end (m : Metadata) (bits : List Nat) {stem : String}
    (hstem : stem ∈ numberedStems) :
    (m.reported (.imageEnd bits)).filter
        (fun entry => startsWith stem (Text.lowerCase entry.1)) =
      (if stem = "text_" then numbered "text_" (m.text.map TextEntry.property) else []) ++
        if stem = "ztext_" then numbered "ztext_" (m.compressedText.map TextEntry.property)
        else [] := by
  have hbits : ((if m.significantBits.isSome then []
      else [("significant_bits", PropertyValue.integers bits)]).filter
        fun entry => startsWith stem (Text.lowerCase entry.1)) = [] := by
    split
    · rfl
    · have hname : Text.lowerCase "significant_bits" = "significant_bits" := by decide
      have hplain := startsWith_name (.imageEnd bits) "significant_bits"
        (by simp [Finding.names]) stem hstem
      rw [List.filter_cons, hname, hplain, List.filter_nil]
      rfl
  rw [reported, endProperties, textProperties_eq, textProperties_eq, List.filter_append,
    List.filter_append, hbits, List.append_nil]
  obtain ⟨htext, hztext, -⟩ := mem_numberedStems
  exact congrArg₂ (· ++ ·) (filter_numbered hstem htext _) (filter_numbered hstem hztext _)

/-! ## In front of the end -/

@[simp]
theorem unknownChunks_recorded (m : Metadata) (f : Finding) (p : EncodeParams) :
    (m.recorded f p).unknownChunks = p.unknownChunks ++ f.unknown?.toList := by
  cases f with
  | transparency t =>
    simp only [recorded]
    split <;> exact (List.append_nil _).symm
  | unknown tag data => rfl
  | _ => exact (List.append_nil _).symm

theorem text_keep_eq (m : Metadata) (f : Finding) :
    (m.keep f).text = m.text ++ f.textEntry?.toList := by
  rw [text_keep]
  cases f <;> simp [Finding.textEntry?]

theorem compressedText_keep_eq (m : Metadata) (f : Finding) :
    (m.keep f).compressedText = m.compressedText ++ f.inflatedEntry?.toList := by
  rw [compressedText_keep]
  cases f <;> simp [Finding.inflatedEntry?]

variable [Libraries]

/-- What is known behind a header and then chunks that are not the end of the file. -/
structure Numbers (o : Options) (chunks : List Chunk) (m : Metadata) : Prop where
  sorted : m.properties.Sorted
  text_eq : m.text = textEntries chunks
  compressedText_eq : m.compressedText = inflatedEntries chunks
  unknownCount_eq : m.unknownCount = (unknownChunks chunks).length
  /-- Chunks of unknown type are reported as they come, and no texts are yet. -/
  reported_eq : ∀ stem ∈ numberedStems, m.properties.only (startsWith stem) =
    ({} : Properties).insertAll
      (if stem = "chunk_" then numbered stem ((unknownChunks chunks).map unknownProperty) else [])
  /-- They are recorded where encoding parameters are asked for. -/
  recorded_eq : m.encoding.map (·.unknownChunks) =
    if o.recordEncoding then some (unknownChunks chunks) else none

/-- Every chunk in front of the end adds its entry behind those that are there. -/
theorem Numbers.keep {o : Options} {chunks : List Chunk} (hm : m.Numbers o chunks)
    (hread : m.read c = .ok f) (hheader : ∀ other, f ≠ .header other)
    (hend : ∀ bits, f ≠ .imageEnd bits) : (m.keep f).Numbers o (chunks ++ [c]) := by
  obtain ⟨htext, hinflated, hunknown⟩ := entries_of_read hread
  refine ⟨?_, ?_, ?_, ?_, fun stem hstem => ?_, ?_⟩
  · simpa using Properties.sorted_insertAll hm.sorted _
  · rw [textEntries_append, htext, text_keep_eq, hm.text_eq]
  · rw [inflatedEntries_append, hinflated, compressedText_keep_eq, hm.compressedText_eq]
  · rw [unknownChunks_append, hunknown, unknownCount_keep, hm.unknownCount_eq]
    cases f <;> simp [Finding.unknown?]
  · rw [properties_keep, Properties.only_insertAll hm.sorted, hm.reported_eq stem hstem,
      filter_reported_front m hstem hend, ← Properties.insertAll_append, unknownChunks_append,
      hunknown]
    -- Only a chunk of unknown type reports a numbered name, that of its own number.
    cases f with
    | unknown tag data =>
      by_cases hchunk : stem = "chunk_"
      · subst hchunk
        simp [Finding.unknown?, numbered, unknownProperty, hm.unknownCount_eq]
      · simp [hchunk]
    | _ => simp [Finding.unknown?]
  · have hbefore := hm.recorded_eq
    rw [encoding_keep_behind hheader, unknownChunks_append, hunknown]
    cases hencoding : m.encoding <;> cases hrecord : o.recordEncoding <;>
      simp_all [unknownChunks_recorded]

/-- Behind the header there are none of them. -/
theorem numbers_header {o : Options} {hd : Header} (hkind : c.kind = .header) :
    ((new o).keep (.header hd)).Numbers o [c] := by
  have hnone : textEntries [c] = [] ∧ inflatedEntries [c] = [] ∧ unknownChunks [c] = [] := by
    simp [textEntries, inflatedEntries, unknownChunks, hkind]
  obtain ⟨htext, hinflated, hunknown⟩ := hnone
  have hempty : ({} : Properties).Sorted := List.Pairwise.nil
  have hnew : (new o).properties.Sorted := Properties.sorted_insert hempty _ _
  refine ⟨?_, htext.symm, hinflated.symm, ?_, fun stem hstem => ?_, ?_⟩
  · rw [properties_keep]
    exact Properties.sorted_insertAll hnew _
  · rw [hunknown]
    rfl
  · have htype : ∀ stem ∈ numberedStems,
        startsWith stem (Text.lowerCase "file_type") = false := by decide
    rw [properties_keep, Properties.only_insertAll hnew,
      filter_reported_front (f := .header hd) _ hstem (by simp), hunknown, new,
      Properties.only_insert hempty, htype stem hstem]
    simp [numbered, Properties.only]
  · rw [encoding_keepHeader, hunknown]
    split <;> rfl

/-! ## The end of a file -/

/-- The properties of text entries. -/
def reportedText (chunks : List Chunk) : List (String × PropertyValue) :=
  numbered "text_" (lowered ((textEntries chunks).map TextEntry.property))

/-- The properties of compressed text entries. -/
def reportedInflated (chunks : List Chunk) : List (String × PropertyValue) :=
  numbered "ztext_" (lowered ((inflatedEntries chunks).map TextEntry.property))

/-- The properties of chunks of unknown type. -/
def reportedUnknown (chunks : List Chunk) : List (String × PropertyValue) :=
  numbered "chunk_" (lowered ((unknownChunks chunks).map unknownProperty))

/-- What a file with these chunks reports and records of its texts and its chunks of unknown
type. -/
structure Publishes (o : Options) (chunks : List Chunk) (m : Metadata) : Prop where
  /-- Under each stem there is one property for each entry, and no other. -/
  text : (m.properties.only (startsWith "text_")).toList.Perm (reportedText chunks)
  compressedText : (m.properties.only (startsWith "ztext_")).toList.Perm (reportedInflated chunks)
  unknown : (m.properties.only (startsWith "chunk_")).toList.Perm (reportedUnknown chunks)
  /-- The names under which they are reported are pairwise different. -/
  distinct : ((reportedText chunks ++ reportedInflated chunks ++ reportedUnknown chunks).map
    (·.1)).Nodup
  /-- They are recorded in file order where encoding parameters are asked for. -/
  recorded : m.encoding.map (fun p => (p.text, p.compressedText, p.unknownChunks)) =
    if o.recordEncoding then
      some (textEntries chunks, inflatedEntries chunks, unknownChunks chunks)
    else none

/-- Whatever the keywords and types are, their numbered names differ. -/
theorem nodup_reported_names (chunks : List Chunk) :
    ((reportedText chunks ++ reportedInflated chunks ++ reportedUnknown chunks).map
      (·.1)).Nodup := by
  rw [List.map_append, List.map_append, List.nodup_append, List.nodup_append]
  obtain ⟨htext, hztext, hchunk⟩ := mem_numberedStems
  refine ⟨⟨nodup_numbered _ _, nodup_numbered _ _, ?_⟩, nodup_numbered _ _, ?_⟩
  · exact ne_of_numbered htext hztext (by decide) _ _
  · intro name hname
    rcases List.mem_append.1 hname with hname | hname
    · exact ne_of_numbered htext hchunk (by decide) _ _ name hname
    · exact ne_of_numbered hztext hchunk (by decide) _ _ name hname

/-- Keywords and types are Latin-1. -/
theorem noSigma_entries (chunks : List Chunk) :
    (∀ entry ∈ (textEntries chunks).map TextEntry.property, Text.NoSigma entry.1) ∧
      (∀ entry ∈ (inflatedEntries chunks).map TextEntry.property, Text.NoSigma entry.1) ∧
      ∀ entry ∈ (unknownChunks chunks).map unknownProperty, Text.NoSigma entry.1 := by
  refine ⟨?_, ?_, ?_⟩
  · simp only [textEntries, List.map_map, List.forall_mem_map, Function.comp_apply]
    exact fun c _ => Text.noSigma_latin1 c.keyword
  · simp only [inflatedEntries, List.forall_mem_map, List.mem_filterMap, Chunk.inflatedEntry?,
      Option.map_eq_some_iff]
    rintro _ ⟨c, -, text, -, rfl⟩
    exact Text.noSigma_latin1 c.keyword
  · simp only [List.forall_mem_map]
    exact fun unknown _ => Text.noSigma_latin1 unknown.1.toBytes

/-- The end of a file publishes the texts. -/
theorem Numbers.publishes {o : Options} {chunks : List Chunk} (hm : m.Numbers o chunks)
    {last : Chunk} (hkind : last.kind = .imageEnd) (hread : m.read last = .ok f) :
    (m.keep f).Publishes o (chunks ++ [last]) := by
  obtain ⟨bits, rfl⟩ : ∃ bits, f = .imageEnd bits := by
    simp only [read, hkind] at hread
    obtain ⟨hd, -, rfl⟩ := readEnd_eq_ok hread
    exact ⟨_, rfl⟩
  obtain ⟨htext, hinflated, hunknown⟩ := entries_of_read hread
  obtain ⟨hsigma, hsigmaInflated, hsigmaUnknown⟩ := noSigma_entries chunks
  -- The end adds no entry of its own.
  have hsame : textEntries (chunks ++ [last]) = m.text ∧
      inflatedEntries (chunks ++ [last]) = m.compressedText ∧
      unknownChunks (chunks ++ [last]) = unknownChunks chunks := by
    rw [textEntries_append, htext, inflatedEntries_append, hinflated, unknownChunks_append,
      hunknown, hm.text_eq, hm.compressedText_eq]
    exact ⟨List.append_nil _, List.append_nil _, List.append_nil _⟩
  -- Under each stem there is what was reported before and what the end reports.
  have honly : ∀ stem ∈ numberedStems, (m.keep (.imageEnd bits)).properties.only
      (startsWith stem) = ({} : Properties).insertAll
        ((if stem = "chunk_" then numbered stem ((unknownChunks chunks).map unknownProperty)
          else []) ++
        ((if stem = "text_" then numbered "text_" (m.text.map TextEntry.property) else []) ++
          if stem = "ztext_" then numbered "ztext_" (m.compressedText.map TextEntry.property)
          else [])) := by
    intro stem hstem
    rw [properties_keep, Properties.only_insertAll hm.sorted, hm.reported_eq stem hstem,
      filter_reported_end m bits hstem, ← Properties.insertAll_append]
  obtain ⟨htextStem, hztextStem, hchunkStem⟩ := mem_numberedStems
  refine ⟨?_, ?_, ?_, nodup_reported_names _, ?_⟩
  · have hperm := Properties.insertAll_numbered htextStem hsigma
    rw [honly "text_" htextStem, reportedText, hsame.1, hm.text_eq]
    simpa using hperm
  · have hperm := Properties.insertAll_numbered hztextStem hsigmaInflated
    rw [honly "ztext_" hztextStem, reportedInflated, hsame.2.1, hm.compressedText_eq]
    simpa using hperm
  · have hperm := Properties.insertAll_numbered hchunkStem hsigmaUnknown
    rw [honly "chunk_" hchunkStem, reportedUnknown, hsame.2.2]
    simpa using hperm
  · have hbefore := hm.recorded_eq
    rw [encoding_keep_behind (f := .imageEnd bits) (by simp), hsame.1, hsame.2.1, hsame.2.2]
    cases hencoding : m.encoding <;> cases hrecord : o.recordEncoding <;> simp_all [recorded]

/-- Chunks that start with a header and end with their only end publish theirs. -/
theorem publishes_of_acceptAll {o : Options} {front : List Chunk} {last : Chunk}
    (hheader : (front ++ [last]).head?.map Chunk.kind = some .header)
    (hlast : last.kind = .imageEnd) (hfront : ∀ c ∈ front, c.kind ≠ .imageEnd)
    (h : acceptAll (front ++ [last]) (.new o) = .ok () m) : m.Publishes o (front ++ [last]) := by
  obtain ⟨between, hbetween, hend⟩ := exists_of_acceptAll_append h
  have hfirst : front.head?.map Chunk.kind = some .header := by
    cases front with
    | nil => simp [hlast] at hheader
    | cons first front => exact hheader
  -- What is numbered follows the chunks up to the end, which has no end chunk among them.
  have hnumbers : (∀ c ∈ front, c.kind ≠ .imageEnd) → between.Numbers o front := by
    refine acceptAll_behind_header
      (P := fun chunks m => (∀ c ∈ chunks, c.kind ≠ .imageEnd) → m.Numbers o chunks)
      (fun {chunks m c f} hm hread hother hall => ?_) (fun hkind _ _ => numbers_header hkind)
      hfirst hbetween
    have hkind : c.kind ≠ .imageEnd := hall c (by simp)
    have hof : f.Of c.kind := of_read hread
    refine (hm fun d hd => hall d (List.mem_append_left _ hd)).keep hread hother ?_
    rintro bits rfl
    exact hkind hof
  -- The end chunk is accepted behind them.
  unfold acceptAll at hend
  split at hend
  · next haccept =>
    obtain ⟨f, hread, rfl⟩ := accept_eq_ok_iff.1 haccept
    cases hend
    exact (hnumbers hfront).publishes hlast hread
  · cases hend

/-- Chunks that are accepted can be read where they stand. -/
theorem exists_read_of_acceptAll {chunks : List Chunk} {m' : Metadata}
    (h : acceptAll chunks m = .ok () m') : ∀ c ∈ chunks, ∃ n f, read c n = .ok f := by
  induction chunks generalizing m with
  | nil => exact List.forall_mem_nil _
  | cons c chunks ih =>
    unfold acceptAll at h
    split at h
    · next next hnext =>
      obtain ⟨f, hread, -⟩ := accept_eq_ok_iff.1 hnext
      exact List.forall_mem_cons.2 ⟨⟨m, f, hread⟩, ih h⟩
    · cases h

/-- The data of a text chunk are its keyword, a NUL and its text, in Latin-1. -/
theorem data_of_text (hkind : c.kind = .text) (hread : m.read c = .ok f) :
    Text.toLatin1 c.textEntry.keyword ++ 0 :: Text.toLatin1 c.textEntry.text = c.data := by
  obtain ⟨-, hdata⟩ := readText_eq_ok hkind hread
  rw [Chunk.textEntry, Text.toLatin1_latin1, Text.toLatin1_latin1]
  exact hdata.symm

/-- The data of a compressed text chunk are its keyword, a NUL, the compression method and a stream.
There is an entry if the stream inflates, and it has what it inflates to, in Latin-1. -/
theorem data_of_compressedText (hkind : c.kind = .compressedText) (hread : m.read c = .ok f) :
    ∃ method stream, c.keyword ++ 0 :: method :: stream = c.data ∧
      (c.inflatedEntry?.isSome ↔ ∃ text, Libraries.inflate true stream = .ok text) ∧
      ∀ entry ∈ c.inflatedEntry?, Text.toLatin1 entry.keyword = c.keyword ∧
        Libraries.inflate true stream = .ok (Text.toLatin1 entry.text) := by
  obtain ⟨-, method, hdata⟩ := readCompressedText_eq_ok hkind hread
  refine ⟨method, c.behindKeyword.tail, hdata.symm, ?_, fun entry hentry => ?_⟩
  · rw [Chunk.inflatedEntry?]
    cases Libraries.inflate true c.behindKeyword.tail <;> simp [Except.toOption]
  · rw [Chunk.inflatedEntry?, Option.mem_def, Option.map_eq_some_iff] at hentry
    obtain ⟨text, htext, rfl⟩ := hentry
    rw [Text.toLatin1_latin1, Text.toLatin1_latin1]
    refine ⟨rfl, ?_⟩
    cases hinflate : Libraries.inflate true c.behindKeyword.tail with
    | error e =>
      rw [hinflate] at htext
      cases htext
    | ok inflated =>
      rw [hinflate] at htext
      cases htext
      rfl

end Metadata

end Png
