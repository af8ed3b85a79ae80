import Png.Proofs.Framing
import Png.Proofs.Handling

/-!
# Accepting one chunk after another

A chunk is read (`Metadata.read`) and what it tells is kept (`Metadata.keep`). The lemmas on `keep`
say which fields a finding writes, those on `read` what a finding says about its chunk and the state
that it was read in. `acceptAll` accepts the chunks of a list up to the first that is refused, and
`acceptChunks_of_holds` says that a decoder does the same with the chunks that its stream holds.
-/

namespace Png

/-- The finding is what a chunk of this kind may tell. -/
def Finding.Of (kind : ChunkKind) : Finding → Prop
  | .header _ => kind = .header
  | .palette _ => kind = .palette
  | .imageData _ => kind = .imageData
  | .imageEnd _ => kind = .imageEnd
  | .chromaticities _ => kind = .chromaticities
  | .gamma _ => kind = .gamma
  | .standardRgb _ => kind = .standardRgb
  | .iccProfile _ => kind = .iccProfile
  | .significantBits _ => kind = .significantBits
  | .background _ _ => kind = .background
  | .histogram _ => kind = .histogram
  | .transparency _ => kind = .transparency
  | .physicalSize _ => kind = .physicalSize
  | .time _ => kind = .time
  | .text _ => kind = .text
  | .compressedText _ => kind = .compressedText
  | .unknown _ _ => kind = .unknown
  | .nothing => kind ∈ [.chromaticities, .gamma, .standardRgb, .compressedText, .time]

/-- A result for every element of the list. -/
theorem length_of_mapM_eq_ok {α β : Type} {f : α → Except Error β} {as : List α} {bs : List β}
    (h : as.mapM f = .ok bs) : bs.length = as.length := by
  induction as generalizing bs with
  | nil =>
    rw [List.mapM_nil] at h
    cases h
    rfl
  | cons a as ih =>
    simp only [List.mapM_cons, bind_eq_ok_iff, pure, Except.pure, Except.ok.injEq] at h
    obtain ⟨b, -, bs, hbs, rfl⟩ := h
    rw [List.length_cons, List.length_cons, ih hbs]

namespace Metadata

/-! ## What a finding writes -/

@[simp]
theorem options_keep (m : Metadata) (f : Finding) : (m.keep f).options = m.options := by
  cases f <;> rfl

/-- Only a header chunk writes the header. -/
@[simp]
theorem header_keep (m : Metadata) (f : Finding) :
    (m.keep f).header = match f with
      | .header h => some h
      | _ => m.header := by
  cases f <;> rfl

/-- Only a palette chunk writes the palette. -/
@[simp]
theorem palette_keep (m : Metadata) (f : Finding) :
    (m.keep f).palette = match f with
      | .palette colors => some colors
      | _ => m.palette := by
  cases f <;> rfl

/-- Only a transparency chunk writes the transparency. -/
@[simp]
theorem transparency_keep (m : Metadata) (f : Finding) :
    (m.keep f).transparency = match f with
      | .transparency t => some t
      | _ => m.transparency := by
  cases f <;> rfl

/-- The transform is chosen with the header, and anew with every transparency. -/
@[simp]
theorem transform_keep (m : Metadata) (f : Finding) :
    (m.keep f).transform = match f with
      | .header h => some (.select h m.options none)
      | .transparency t => m.header.map fun h => .select h m.options (some t)
      | _ => m.transform := by
  cases f <;> rfl

/-- What a file says about its response comes from three kinds of chunk. -/
@[simp]
theorem response_keep (m : Metadata) (f : Finding) :
    (m.keep f).response = match f with
      | .chromaticities c => { m.response with chromaticities := some c }
      | .gamma gamma => { m.response with fileGamma := gamma }
      | .standardRgb intent => m.response.withStandardRgb intent
      | _ => m.response := by
  cases f <;> rfl

/-- Significant bits come from their chunk, and from the end of the file where none came before. -/
@[simp]
theorem significantBits_keep (m : Metadata) (f : Finding) :
    (m.keep f).significantBits = match f with
      | .significantBits bits => some bits
      | .imageEnd bits => some (m.significantBits.getD bits)
      | _ => m.significantBits := by
  cases f <;> rfl

/-- Text entries are put behind those before them. -/
@[simp]
theorem text_keep (m : Metadata) (f : Finding) :
    (m.keep f).text = match f with
      | .text entry => m.text ++ [entry]
      | _ => m.text := by
  cases f <;> rfl

@[simp]
theorem compressedText_keep (m : Metadata) (f : Finding) :
    (m.keep f).compressedText = match f with
      | .compressedText entry => m.compressedText ++ [entry]
      | _ => m.compressedText := by
  cases f <;> rfl

/-- Chunks of unknown type are counted. -/
@[simp]
theorem unknownCount_keep (m : Metadata) (f : Finding) :
    (m.keep f).unknownCount = match f with
      | .unknown _ _ => m.unknownCount + 1
      | _ => m.unknownCount := by
  cases f <;> rfl

/-- Only image data add to the image data. -/
@[simp]
theorem imageData_keep (m : Metadata) (f : Finding) :
    (m.keep f).imageData = match f with
      | .imageData bytes => m.imageData ++ bytes
      | _ => m.imageData := by
  cases f <;> rfl

/-! ## What a finding says about its chunk -/

theorem readHeader_eq_ok {data : List UInt8} {m : Metadata} {f : Finding}
    (h : m.readHeader data = .ok f) :
    m.header = none ∧ ∃ hd, Header.parse m.options data = .ok hd ∧ f = .header hd := by
  simp only [readHeader, bind_eq_ok_iff, require_eq_ok_iff, pure, Except.pure, Except.ok.injEq] at h
  obtain ⟨_, hnone, hd, hparse, rfl⟩ := h
  exact ⟨by simpa using hnone, hd, hparse, rfl⟩

theorem readPalette_eq_ok {data : List UInt8} {m : Metadata} {f : Finding}
    (h : m.readPalette data = .ok f) :
    data.length % 3 = 0 ∧ f = .palette (m.corrected (colorsOf data)) := by
  simp only [readPalette, bind_eq_ok_iff, require_eq_ok_iff, pure, Except.pure,
    Except.ok.injEq] at h
  obtain ⟨_, hlen, rfl⟩ := h
  exact ⟨hlen, rfl⟩

/-- The background of a palette image is an index, the first byte of its chunk, and below the number
of entries of the palette in force. That of another image is none. -/
theorem readBackground_eq_ok {data : List UInt8} {m : Metadata} {f : Finding}
    (h : m.readBackground data = .ok f) :
    ∃ background color, f = .background background color ∧ ∃ hd, m.header = some hd ∧
      match background with
      | .index i => hd.color = .palette ∧ readField data 0 1 = .ok i ∧
          ∃ palette, m.palette = some palette ∧ i < palette.length
      | _ => hd.color ≠ .palette := by
  simp only [readBackground, requireHeader, demand_eq_ok_iff, bind_eq_ok_iff, pure,
    Except.pure] at h
  obtain ⟨hd, hheader, h⟩ := h
  split at h
  · next hcolor =>
    simp only [requirePalette, demand_eq_ok_iff, bind_eq_ok_iff, Except.ok.injEq] at h
    obtain ⟨palette, hpal, index, hindex, color, hcolor', rfl⟩ := h
    exact ⟨_, _, rfl, hd, hheader, hcolor, hindex, palette, hpal,
      (List.getElem?_eq_some_iff.1 hcolor').1⟩
  -- The other colour types tell a colour.
  all_goals simp only [bind_eq_ok_iff, Except.ok.injEq] at h
  · next hcolor =>
    obtain ⟨_, -, rfl⟩ := h
    exact ⟨_, _, rfl, hd, hheader, by simp [hcolor]⟩
  · next hcolor =>
    obtain ⟨_, -, rfl⟩ := h
    exact ⟨_, _, rfl, hd, hheader, by simp [hcolor]⟩
  · next hcolor =>
    obtain ⟨_, -, _, -, _, -, rfl⟩ := h
    exact ⟨_, _, rfl, hd, hheader, by simp [hcolor]⟩
  · next hcolor =>
    obtain ⟨_, -, _, -, _, -, rfl⟩ := h
    exact ⟨_, _, rfl, hd, hheader, by simp [hcolor]⟩

/-- A histogram has a count for every entry of the palette in force. -/
theorem readHistogram_eq_ok {data : List UInt8} {m : Metadata} {f : Finding}
    (h : m.readHistogram data = .ok f) :
    ∃ palette counts, m.palette = some palette ∧ f = .histogram counts ∧
      counts.length = palette.length := by
  simp only [readHistogram, requirePalette, demand_eq_ok_iff, bind_eq_ok_iff, pure, Except.pure,
    Except.ok.injEq] at h
  obtain ⟨palette, hpal, counts, hcounts, rfl⟩ := h
  exact ⟨palette, counts, hpal, rfl, by simpa using length_of_mapM_eq_ok hcounts⟩

/-- The state that transparency is read in: opacities are as many as the entries of the palette in
force, and the form of the transparency is that of the colour type. -/
theorem readTransparency_eq_ok {data : List UInt8} {m : Metadata} {f : Finding}
    (h : m.readTransparency data = .ok f) :
    ∃ t, f = .transparency t ∧ ∃ hd, m.header = some hd ∧
      match t with
      | .paletteAlpha alpha => hd.color = .palette ∧
          ∃ palette, m.palette = some palette ∧ alpha.length = palette.length
      | .grayKey _ => hd.color = .gray
      | .rgbKey _ _ _ => hd.color = .rgb := by
  simp only [readTransparency, requireHeader, demand_eq_ok_iff, bind_eq_ok_iff, pure,
    Except.pure] at h
  obtain ⟨hd, hheader, h⟩ := h
  split at h
  · -- Opacities are filled up to the entries of the palette.
    next hcolor =>
    simp only [requirePalette, demand_eq_ok_iff, require_eq_ok_iff, bind_eq_ok_iff,
      Except.ok.injEq] at h
    obtain ⟨palette, hpal, _, hlen, rfl⟩ := h
    refine ⟨_, rfl, hd, hheader, hcolor, palette, hpal, ?_⟩
    rw [List.length_append, List.length_replicate]
    omega
  · next hcolor =>
    simp only [bind_eq_ok_iff, Except.ok.injEq] at h
    obtain ⟨_, -, rfl⟩ := h
    exact ⟨_, rfl, hd, hheader, hcolor⟩
  · next hcolor =>
    simp only [bind_eq_ok_iff, Except.ok.injEq] at h
    obtain ⟨_, -, _, -, _, -, rfl⟩ := h
    exact ⟨_, rfl, hd, hheader, hcolor⟩
  · cases h
  · cases h

variable [Libraries]

/-- A chunk is accepted if it can be read, and what it tells is kept. -/
theorem accept_eq_ok_iff {c : Chunk} {m m' : Metadata} :
    m.accept c = .ok m' ↔ ∃ finding, m.read c = .ok finding ∧ m.keep finding = m' := by
  rw [accept, bind_eq_ok_iff]
  simp only [pure, Except.pure, Except.ok.injEq]

/-- What is read in a chunk is what a chunk of its kind tells. -/
theorem of_read {c : Chunk} {m : Metadata} {f : Finding} (h : m.read c = .ok f) : f.Of c.kind := by
  unfold read at h
  cases hk : c.kind <;> simp only [hk] at h
  case header => obtain ⟨-, hd, -, rfl⟩ := readHeader_eq_ok h; rfl
  case palette => obtain ⟨-, rfl⟩ := readPalette_eq_ok h; rfl
  case background => obtain ⟨b, color, rfl, -⟩ := readBackground_eq_ok h; rfl
  case imageData => cases h; rfl
  case unknown => cases h; rfl
  case transparency =>
    obtain ⟨t, rfl, -⟩ := readTransparency_eq_ok h; rfl
  case histogram =>
    obtain ⟨_, _, _, rfl, -⟩ := readHistogram_eq_ok h; rfl
  case imageEnd =>
    simp only [readEnd, bind_eq_ok_iff, pure, Except.pure, Except.ok.injEq] at h
    obtain ⟨_, -, rfl⟩ := h; rfl
  case iccProfile =>
    simp only [readIccProfile, bind_eq_ok_iff, pure, Except.pure, Except.ok.injEq] at h
    obtain ⟨_, -, rfl⟩ := h; rfl
  case significantBits =>
    simp only [readSignificantBits, bind_eq_ok_iff, pure, Except.pure, Except.ok.injEq] at h
    obtain ⟨_, -, _, -, rfl⟩ := h; rfl
  case physicalSize =>
    simp only [readPhysicalSize, bind_eq_ok_iff, pure, Except.pure, Except.ok.injEq] at h
    obtain ⟨_, -, _, -, _, -, _, -, rfl⟩ := h; rfl
  case text =>
    simp only [readText, bind_eq_ok_iff, pure, Except.pure, Except.ok.injEq] at h
    obtain ⟨_, -, rfl⟩ := h; rfl
  -- These may be passed over, each for a reason of its own.
  case time =>
    simp only [readModified, bind_eq_ok_iff, pure, Except.pure] at h
    obtain ⟨_, -, h⟩ := h
    split at h <;> cases h <;> simp [Finding.Of]
  case compressedText =>
    simp only [readCompressedText, bind_eq_ok_iff, pure, Except.pure] at h
    obtain ⟨_, -, h⟩ := h
    split at h <;> cases h <;> simp [Finding.Of]
  case chromaticities =>
    simp only [readChromaticities] at h
    split at h
    · cases h; simp [Finding.Of]
    · simp only [bind_eq_ok_iff, pure, Except.pure, Except.ok.injEq] at h
      obtain ⟨_, -, _, -, _, -, _, -, _, -, _, -, _, -, _, -, rfl⟩ := h; rfl
  case gamma =>
    simp only [readGamma] at h
    split at h
    · cases h; simp [Finding.Of]
    · simp only [bind_eq_ok_iff, pure, Except.pure, Except.ok.injEq] at h
      obtain ⟨_, -, rfl⟩ := h; rfl
  case standardRgb =>
    simp only [readStandardRgb] at h
    split at h
    · cases h; simp [Finding.Of]
    · simp only [bind_eq_ok_iff, pure, Except.pure, Except.ok.injEq] at h
      obtain ⟨_, -, rfl⟩ := h; rfl

/-- A header that is known is not replaced. -/
theorem header_of_read {c : Chunk} {m : Metadata} {f : Finding} {hd : Header}
    (hread : m.read c = .ok f) (h : m.header = some hd) : (m.keep f).header = some hd := by
  rw [header_keep]
  cases f with
  | header other =>
    have hkind : c.kind = .header := of_read hread
    simp only [read, hkind] at hread
    rw [(readHeader_eq_ok hread).1] at h
    cases h
  | _ => exact h

/-! ## A list of chunks -/

/-- Accepts chunks up to the first that is refused, if any is. -/
def acceptAll : List Chunk → Metadata → EStateM.Result Error Metadata Unit
  | [], m => .ok () m
  | c :: cs, m =>
    match m.accept c with
    | .ok m' => acceptAll cs m'
    | .error e => .error e m

/-- Chunks behind others are accepted in the state that these lead to. -/
theorem acceptAll_append (cs ds : List Chunk) (m : Metadata) :
    acceptAll (cs ++ ds) m = match acceptAll cs m with
      | .ok () m' => acceptAll ds m'
      | .error e m' => .error e m' := by
  induction cs generalizing m with
  | nil => rfl
  | cons c cs ih =>
    simp only [List.cons_append, acceptAll]
    cases m.accept c with
    | ok m' => exact ih m'
    | error e => rfl

/-- What every accepted chunk keeps, a list of accepted chunks keeps. -/
theorem acceptAll_induction {P : Metadata → Prop}
    (step : ∀ {c m f}, P m → m.read c = .ok f → P (m.keep f)) {cs : List Chunk}
    {m m' : Metadata} (h : acceptAll cs m = .ok () m') (hm : P m) : P m' := by
  induction cs generalizing m with
  | nil =>
    cases h
    exact hm
  | cons c cs ih =>
    unfold acceptAll at h
    split at h
    · next next haccept =>
      obtain ⟨f, hread, rfl⟩ := accept_eq_ok_iff.1 haccept
      exact ih h (step hm hread)
    · cases h

end Metadata

namespace Decoder

open ChunkStream (Holds)

variable [Libraries]

theorem acceptChunks_of_refused {s s' : ChunkStream} {m : Metadata} {e : Error}
    (h : s.takeChunk = .error e s') : acceptChunks s m = .error e (s', m) := by
  rw [acceptChunks.eq_def]
  split
  · next h' => cases h.symm.trans h'; rfl
  · next h' => cases h.symm.trans h'

theorem acceptChunks_of_taken {s s' : ChunkStream} {m : Metadata} {c : Chunk}
    (h : s.takeChunk = .ok c s') :
    acceptChunks s m = match m.accept c with
      | .error e => .error e (s', m)
      | .ok m' => if c.kind = .imageEnd then .ok () (s', m') else acceptChunks s' m' := by
  rw [acceptChunks.eq_def]
  split
  · next h' => cases h.symm.trans h'
  · next h' =>
    cases h.symm.trans h'
    rw [Metadata.handle_eq_accept]
    cases m.accept c <;> rfl

/-- A stream that holds chunks up to the first end chunk has them accepted one after the other. -/
theorem acceptChunks_of_holds {front : List Chunk} {last : Chunk} {tail : List UInt8}
    {s : ChunkStream} (m : Metadata) (hfits : ∀ c ∈ front ++ [last], c.Fits)
    (hlast : last.kind = .imageEnd) (hfront : ∀ c ∈ front, c.kind ≠ .imageEnd)
    (h : s.Holds ((front ++ [last]).flatMap Chunk.toBytes ++ tail)) :
    ∃ s', acceptChunks s m = match Metadata.acceptAll (front ++ [last]) m with
      | .ok () m' => .ok () (s', m')
      | .error e m' => .error e (s', m') := by
  induction front generalizing s m with
  | nil =>
    rw [List.nil_append, List.flatMap_singleton] at h
    have htaken := ChunkStream.takeChunk_of_holds (hfits last (by simp)) h
    refine ⟨s.jump tail, ?_⟩
    simp only [acceptChunks_of_taken htaken, List.nil_append, Metadata.acceptAll, hlast, if_true]
    cases m.accept last <;> rfl
  | cons c front ih =>
    rw [List.cons_append, List.flatMap_cons, List.append_assoc] at h
    have htaken := ChunkStream.takeChunk_of_holds (hfits c (by simp)) h
    simp only [acceptChunks_of_taken htaken, List.cons_append, Metadata.acceptAll,
      hfront c (by simp), if_false]
    cases m.accept c with
    | error e => exact ⟨_, rfl⟩
    | ok m' =>
      exact ih m' (fun d hd => hfits d (List.mem_cons_of_mem c hd))
        (fun d hd => hfront d (List.mem_cons_of_mem c hd)) (s.holds_jump _)

/-- However the reading of chunks ends, what is known then is what some chunks led to, all of them
accepted. -/
theorem exists_acceptAll (s : ChunkStream) (m : Metadata) :
    ∃ cs, match acceptChunks s m with
      | .ok () (_, m') => Metadata.acceptAll cs m = .ok () m'
      | .error _ (_, m') => Metadata.acceptAll cs m = .ok () m' := by
  induction s, m using acceptChunks.induct with
  | case1 s m e s' htaken => exact ⟨[], by rw [acceptChunks_of_refused htaken]; rfl⟩
  | case2 s m c s' htaken e m' hhandle =>
    have haccept := Metadata.accept_of_handle_failed hhandle
    exact ⟨[], by rw [acceptChunks_of_taken htaken, haccept]; rfl⟩
  | case3 s m c s' htaken m' hhandle hsize hkind =>
    have haccept := Metadata.accept_of_handle hhandle
    refine ⟨[c], ?_⟩
    simp only [acceptChunks_of_taken htaken, haccept, hkind, if_true, Metadata.acceptAll]
  | case4 s m c s' htaken m' hhandle hsize hkind ih =>
    have haccept := Metadata.accept_of_handle hhandle
    obtain ⟨cs, ih⟩ := ih
    refine ⟨c :: cs, ?_⟩
    simpa only [acceptChunks_of_taken htaken, haccept, hkind, if_false, Metadata.acceptAll] using ih

end Decoder

end Png
