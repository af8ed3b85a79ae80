import Png.Libraries.Own
import Png.Proofs.OutputPixels
import Png.Proofs.Reporting

/-!
# What a header decides

Once a header is accepted, it rules over all that is gathered behind it. `Metadata.Consistent` says
how: which transform is chosen, which transparency there can be, whether encoding parameters are
recorded and of what form, and what significant bits may be known. Every chunk keeps it, whatever
its kind and whether it is accepted or refused (`consistent_after`), so that it holds behind any
chunks at all (`consistent_afterAll`).
-/

namespace Png

/-- The transparency is of the form that images of this colour type have; with an opacity of their
own they have none. -/
def Transparency.Fits (color : ColorType) : Transparency → Prop
  | .grayKey _ => color = .gray
  | .rgbKey _ _ _ => color = .rgb
  | .paletteAlpha _ => color = .palette

/-- The parameters are those of this colour type. -/
def EncodeKind.Fits (color : ColorType) : EncodeKind → Prop
  | .palette _ => color = .palette
  | .gray _ _ => color = .gray ∨ color = .grayAlpha
  | .rgb _ _ => color = .rgb ∨ color = .rgba

/-- Significant bits that a chunk may give for such an image: three numbers up to eight for the
colours of a palette, and otherwise one for every sample of a pixel, up to its bits. -/
def Header.AllowsBits (h : Header) (bits : List Nat) : Prop :=
  if h.color = .palette then bits.length = 3 ∧ ∀ b ∈ bits, 1 ≤ b ∧ b ≤ 8
  else bits.length = h.channels ∧ ∀ b ∈ bits, 1 ≤ b ∧ b ≤ h.depth

namespace EncodeKind

variable {color : ColorType} {kind : EncodeKind}

theorem fits_ofColor (color : ColorType) : (ofColor color).Fits color := by
  cases color <;> simp [ofColor, Fits]

theorem Fits.withBackground (h : kind.Fits color) (background : Background) :
    (kind.withBackground background).Fits color := by
  cases background <;> cases kind <;> exact h

theorem Fits.withTransparency (h : kind.Fits color) (t : Transparency) :
    (kind.withTransparency t).Fits color := by
  cases t <;> cases kind <;> exact h

end EncodeKind

/-- What every step gives, all results of a list of steps have. -/
theorem forall_of_mapM_eq_ok {α β : Type} {f : α → Except Error β} {P : β → Prop}
    (hf : ∀ a b, f a = .ok b → P b) {as : List α} {bs : List β} (h : as.mapM f = .ok bs) :
    ∀ b ∈ bs, P b := by
  induction as generalizing bs with
  | nil =>
    rw [List.mapM_nil] at h
    cases h
    exact List.forall_mem_nil P
  | cons a as ih =>
    simp only [List.mapM_cons, bind_eq_ok_iff, pure, Except.pure, Except.ok.injEq] at h
    obtain ⟨b, hb, bs, hbs, rfl⟩ := h
    exact List.forall_mem_cons.2 ⟨hf a b hb, ih hbs⟩

namespace Metadata

/-! ## Significant bits -/

theorem readSignificantBits_eq_ok {data : List UInt8} {m : Metadata} {f : Finding}
    (h : m.readSignificantBits data = .ok f) :
    ∃ bits hd, f = .significantBits bits ∧ m.header = some hd ∧ hd.AllowsBits bits := by
  simp only [readSignificantBits, requireHeader, demand_eq_ok_iff, bind_eq_ok_iff, pure,
    Except.pure, Except.ok.injEq] at h
  obtain ⟨hd, hheader, bits, hbits, rfl⟩ := h
  have hlength := length_of_mapM_eq_ok hbits
  have hrange : ∀ b ∈ bits, 1 ≤ b ∧ b ≤ (significantBitsForm hd).2 := by
    refine forall_of_mapM_eq_ok (fun i b hb => ?_) hbits
    simp only [bind_eq_ok_iff, require_eq_ok_iff, Except.ok.injEq] at hb
    obtain ⟨_, -, _, hle, rfl⟩ := hb
    exact hle
  rw [List.length_range] at hlength
  refine ⟨bits, hd, rfl, hheader, ?_⟩
  unfold significantBitsForm at hlength hrange
  unfold Header.AllowsBits
  split <;> simp_all

theorem readEnd_eq_ok {m : Metadata} {f : Finding} (h : m.readEnd = .ok f) :
    ∃ hd, m.header = some hd ∧ f = .imageEnd (List.replicate hd.channels hd.depth) := by
  simp only [readEnd, requireHeader, demand_eq_ok_iff, bind_eq_ok_iff, pure, Except.pure,
    Except.ok.injEq] at h
  obtain ⟨hd, hheader, rfl⟩ := h
  exact ⟨hd, hheader, rfl⟩

/-- The end of the file reports its significant bits if none were known. -/
theorem get?_keepEnd (m : Metadata) (bits : List Nat) :
    (m.keep (.imageEnd bits)).properties.get? "significant_bits" =
      if m.significantBits.isSome then m.properties.get? "significant_bits"
      else some (.integers bits) := by
  have htexts : ∀ p : Properties,
      (p.insertAll (textProperties "text" m.text ++ textProperties "ztext" m.compressedText)).get?
        "significant_bits" = p.get? "significant_bits" := by
    refine fun p => Properties.get?_insertAll_of_ne fun entry hentry hlower => ?_
    have hkey : Text.lowerCase "significant_bits" = "significant_bits" := by decide
    exact lowerCase_ne_of_numbered (by decide) (numbered_of_mem_texts hentry)
      (hkey.symm.trans hlower).symm
  rw [properties_keep, reported, endProperties, Properties.insertAll_append]
  split
  · exact htexts m.properties
  · exact (Properties.get?_insert _ _ _ _).trans (if_pos rfl)

/-- What is reported as the significant bits are those that are known. -/
def ReportsBits (m : Metadata) : Prop :=
  m.properties.get? "significant_bits" = m.significantBits.map .integers

theorem reportsBits_keep {m : Metadata} (hm : m.ReportsBits) (f : Finding) :
    (m.keep f).ReportsBits := by
  unfold ReportsBits at hm ⊢
  rw [significantBits_keep]
  cases f with
  | significantBits bits =>
    rw [properties_keep]
    exact (Properties.get?_insert _ _ _ _).trans (if_pos rfl)
  | imageEnd bits =>
    rw [get?_keepEnd, hm]
    cases m.significantBits <;> rfl
  | _ => exact (get?_keep m (by decide) (by decide) (by simp only [Finding.names]; decide)).trans hm

/-! ## What is recorded -/

theorem bitDepth_recorded (m : Metadata) (f : Finding) (p : EncodeParams) :
    (m.recorded f p).bitDepth = p.bitDepth ∧ (m.recorded f p).interlaced = p.interlaced := by
  cases f
  case transparency t =>
    simp only [recorded]
    split <;> exact ⟨rfl, rfl⟩
  all_goals exact ⟨rfl, rfl⟩

theorem fits_recorded {m : Metadata} {color : ColorType} {p : EncodeParams} (f : Finding)
    (hp : p.kind.Fits color) : (m.recorded f p).kind.Fits color := by
  cases f
  case background background _ => exact hp.withBackground background
  case transparency t =>
    simp only [recorded]
    split
    · exact hp
    · exact hp.withTransparency t
  all_goals exact hp

/-- Only a chunk of its own has its significant bits recorded. -/
@[simp]
theorem significantBits_recorded (m : Metadata) (f : Finding) (p : EncodeParams) :
    (m.recorded f p).significantBits = match f with
      | .significantBits bits => some bits
      | _ => p.significantBits := by
  cases f
  case transparency t =>
    simp only [recorded]
    split <;> rfl
  all_goals rfl

/-! ## The rule of a header -/

/-- What is known behind the header `h` and then the chunks `chunks`, each of them accepted or
refused, with the options `o`. -/
structure Consistent (h : Header) (o : Options) (chunks : List Chunk) (m : Metadata) : Prop where
  legal : h.Legal
  sized : h.Sized
  options_eq : m.options = o
  /-- No other header takes the place of the first. -/
  header_eq : m.header = some h
  /-- The transform is the choice for the transparency in force. -/
  transform_eq : m.transform = some (.select h o m.transparency)
  transparency_fits : ∀ t, m.transparency = some t → t.Fits h.color
  /-- Encoding parameters are there exactly where they are asked for. -/
  isSome_encoding : m.encoding.isSome = o.recordEncoding
  /-- Their form is that of the header. -/
  encoding_form : ∀ p, m.encoding = some p →
    p.kind.Fits h.color ∧ p.bitDepth = h.depth ∧ (p.interlaced ↔ h.interlace = .adam7)
  /-- Significant bits are ones that a chunk may give. The indices of a palette image have their
  depth as the only one where the file has ended without any. -/
  significantBits_form : ∀ bits, m.significantBits = some bits → h.AllowsBits bits ∨
    h.color = .palette ∧ bits = [h.depth] ∧ ∃ c ∈ chunks, c.kind = .imageEnd
  reportsBits : m.ReportsBits
  /-- The bits that are recorded for an encoder are always given by a chunk. -/
  recordedBits_form : ∀ p, m.encoding = some p → ∀ bits, p.significantBits = some bits →
    h.AllowsBits bits

/-- Bits that no chunk describes are significant in full. -/
theorem allowsBits_replicate {h : Header} (hh : h.Legal) (hcolor : h.color ≠ .palette) :
    h.AllowsBits (List.replicate h.channels h.depth) := by
  have hpos := hh.depth_cases
  rw [Header.AllowsBits, if_neg hcolor]
  refine ⟨List.length_replicate, fun b hb => ?_⟩
  rw [List.eq_of_mem_replicate hb]
  omega

namespace Consistent

variable {h : Header} {o : Options} {chunks : List Chunk} {m : Metadata}

theorem coherent (hm : m.Consistent h o chunks) : m.Coherent where
  legal h' hh' := by
    rw [hm.header_eq, Option.some_inj] at hh'
    exact hh' ▸ hm.legal
  sized h' hh' := by
    rw [hm.header_eq, Option.some_inj] at hh'
    exact hh' ▸ hm.sized
  transform_eq := by rw [hm.transform_eq, hm.header_eq, hm.options_eq]; rfl
  transparency_eq hnone := by
    rw [hm.header_eq] at hnone
    cases hnone

/-- More chunks that change nothing. -/
theorem append (hm : m.Consistent h o chunks) (more : List Chunk) :
    m.Consistent h o (chunks ++ more) := by
  refine { hm with significantBits_form := fun bits hbits => ?_ }
  obtain hform | ⟨hcolor, hdepth, c, hc, hend⟩ := hm.significantBits_form bits hbits
  · exact .inl hform
  · exact .inr ⟨hcolor, hdepth, c, List.mem_append_left more hc, hend⟩

section

variable [Libraries] (hm : m.Consistent h o chunks) {c : Chunk} {f : Finding}
  (hread : m.read c = .ok f)

include hm hread

/-- A second header is refused. -/
theorem not_header (hd : Header) : f ≠ .header hd := by
  rintro rfl
  have hkind : c.kind = .header := of_read hread
  simp only [read, hkind] at hread
  have hnone := (readHeader_eq_ok hread).1
  rw [hm.header_eq] at hnone
  cases hnone

theorem transparency_fits_keep :
    ∀ t, (m.keep f).transparency = some t → t.Fits h.color := by
  have hof := of_read hread
  intro t ht
  rw [transparency_keep] at ht
  cases f with
  | transparency t' =>
    have hkind : c.kind = .transparency := hof
    simp only [read, hkind] at hread
    obtain ⟨t'', heq, hd, hheader, hform⟩ := readTransparency_eq_ok hread
    cases heq
    cases ht
    rw [hm.header_eq, Option.some_inj] at hheader
    subst hheader
    cases t with
    | grayKey _ | rgbKey _ _ _ => exact hform
    | paletteAlpha _ => exact hform.1
  | _ => exact hm.transparency_fits t ht

/-- What is recorded has been recorded before, but for what the finding adds. -/
theorem encoding_keep_eq : (m.keep f).encoding = m.encoding.map (m.recorded f) := by
  rw [encoding_keep]
  cases f with
  | header hd => exact absurd rfl (hm.not_header hread hd)
  | _ => rfl

theorem encoding_form_keep : ∀ p, (m.keep f).encoding = some p →
    p.kind.Fits h.color ∧ p.bitDepth = h.depth ∧ (p.interlaced ↔ h.interlace = .adam7) := by
  intro p hp
  rw [hm.encoding_keep_eq hread, Option.map_eq_some_iff] at hp
  obtain ⟨old, hold, rfl⟩ := hp
  obtain ⟨hkind, hdepth, hinterlaced⟩ := hm.encoding_form old hold
  obtain ⟨hdepth', hinterlaced'⟩ := bitDepth_recorded m f old
  refine ⟨fits_recorded f hkind, hdepth'.trans hdepth, ?_⟩
  rw [hinterlaced']
  exact hinterlaced

/-- Bits that a chunk gives are of the form that the header allows. -/
theorem allowsBits_of_read {bits : List Nat} (hf : f = .significantBits bits) :
    h.AllowsBits bits := by
  subst hf
  have hkind : c.kind = .significantBits := of_read hread
  simp only [read, hkind] at hread
  obtain ⟨bits', hd, heq, hheader, hform⟩ := readSignificantBits_eq_ok hread
  cases heq
  rw [hm.header_eq, Option.some_inj] at hheader
  exact hheader ▸ hform

theorem recordedBits_form_keep : ∀ p, (m.keep f).encoding = some p →
    ∀ bits, p.significantBits = some bits → h.AllowsBits bits := by
  intro p hp bits hbits
  rw [hm.encoding_keep_eq hread, Option.map_eq_some_iff] at hp
  obtain ⟨old, hold, rfl⟩ := hp
  rw [significantBits_recorded] at hbits
  cases f with
  | significantBits bits' =>
    cases hbits
    exact hm.allowsBits_of_read hread rfl
  | _ => exact hm.recordedBits_form old hold bits hbits

theorem significantBits_form_keep : ∀ bits, (m.keep f).significantBits = some bits →
    h.AllowsBits bits ∨
      h.color = .palette ∧ bits = [h.depth] ∧ ∃ d ∈ chunks ++ [c], d.kind = .imageEnd := by
  have hof := of_read hread
  have hbefore := (hm.append [c]).significantBits_form
  intro bits hbits
  rw [significantBits_keep] at hbits
  cases f with
  | significantBits bits' =>
    cases hbits
    exact .inl (hm.allowsBits_of_read hread rfl)
  | imageEnd full =>
    have hkind : c.kind = .imageEnd := hof
    cases hknown : m.significantBits with
    | some known =>
      rw [hknown] at hbits
      exact hbefore bits (hknown.trans hbits)
    | none =>
      -- The bits are those that the end of the file gives, from the header.
      rw [hknown] at hbits
      cases hbits
      simp only [read, hkind] at hread
      obtain ⟨hd, hheader, heq⟩ := readEnd_eq_ok hread
      cases heq
      rw [hm.header_eq, Option.some_inj] at hheader
      subst hheader
      by_cases hcolor : h.color = .palette
      · have hone : h.channels = 1 := by rw [Header.channels, hcolor]; rfl
        refine .inr ⟨hcolor, ?_, c, by simp, hkind⟩
        rw [Option.getD_none, hone, List.replicate_one]
      · exact .inl (allowsBits_replicate hm.legal hcolor)
  | _ => exact hbefore bits hbits

/-- A chunk that is accepted keeps it. -/
theorem keep : (m.keep f).Consistent h o (chunks ++ [c]) where
  legal := hm.legal
  sized := hm.sized
  options_eq := by simp [hm.options_eq]
  header_eq := header_of_read hread hm.header_eq
  transform_eq := by
    have hheader := header_of_read hread hm.header_eq
    have htransform := (coherent_keep hm.coherent hread).transform_of_header hheader
    simpa [hm.options_eq] using htransform
  transparency_fits := hm.transparency_fits_keep hread
  isSome_encoding := by rw [hm.encoding_keep_eq hread, Option.isSome_map, hm.isSome_encoding]
  encoding_form := hm.encoding_form_keep hread
  significantBits_form := hm.significantBits_form_keep hread
  reportsBits := reportsBits_keep hm.reportsBits f
  recordedBits_form := hm.recordedBits_form_keep hread

end

end Consistent

/-- It holds behind the header. -/
theorem consistent_keepHeader {h : Header} (hh : h.Legal) (hsize : h.Sized) (o : Options) :
    ((Metadata.new o).keep (.header h)).Consistent h o [] := by
  have hencoding : ∀ p, ((Metadata.new o).keep (.header h)).encoding = some p →
      p.kind = .ofColor h.color ∧ p.bitDepth = h.depth ∧
        p.interlaced = decide (h.interlace = .adam7) ∧ p.significantBits = none := by
    intro p hp
    rw [encoding_keepHeader] at hp
    split at hp
    · cases hp
      exact ⟨rfl, rfl, rfl, rfl⟩
    · cases hp
  refine ⟨hh, hsize, rfl, rfl, rfl, nofun, ?_, fun p hp => ?_, nofun, ?_, fun p hp bits hbits => ?_⟩
  · rw [encoding_keepHeader]
    cases o.recordEncoding <;> rfl
  · obtain ⟨hkind, hdepth, hinterlaced, -⟩ := hencoding p hp
    rw [hkind, hinterlaced, decide_eq_true_iff]
    exact ⟨EncodeKind.fits_ofColor h.color, hdepth, Iff.rfl⟩
  · refine reportsBits_keep ?_ (.header h)
    rw [ReportsBits, new, Properties.get?_insert, if_neg (by decide)]
    rfl
  · rw [(hencoding p hp).2.2.2] at hbits
    cases hbits

/-! ## Runs of chunks -/

section

variable [Libraries]

/-- What is known after a chunk has been handled, whether it was accepted or refused. -/
def after (m : Metadata) (c : Chunk) : Metadata :=
  match handle c m with
  | .ok () m' => m'
  | .error _ m' => m'

/-- What is known after chunks have been handled, each of them accepted or refused. -/
def afterAll (m : Metadata) (chunks : List Chunk) : Metadata := chunks.foldl after m

/-- A chunk is read and what it tells is kept, or it leaves no trace. -/
theorem after_eq (m : Metadata) (c : Chunk) :
    (∃ f, m.read c = .ok f ∧ m.after c = m.keep f) ∨ m.after c = m := by
  unfold after
  rw [handle_eq]
  cases m.read c with
  | ok f => exact .inl ⟨f, rfl, rfl⟩
  | error e => exact .inr rfl

/-- Every chunk keeps it. -/
theorem consistent_after {h : Header} {o : Options} {chunks : List Chunk} {m : Metadata}
    (hm : m.Consistent h o chunks) (c : Chunk) : (m.after c).Consistent h o (chunks ++ [c]) := by
  obtain ⟨f, hread, hafter⟩ | hafter := m.after_eq c <;> rw [hafter]
  · exact hm.keep hread
  · exact hm.append [c]

/-- What one chunk keeps, any number of chunks keeps. -/
theorem Consistent.afterAll {h : Header} {o : Options} {before : List Chunk} {m : Metadata}
    (hm : m.Consistent h o before) (chunks : List Chunk) :
    (m.afterAll chunks).Consistent h o (before ++ chunks) := by
  induction chunks generalizing before m with
  | nil => rwa [List.append_nil]
  | cons c chunks ih =>
    have hrest := ih (consistent_after hm c)
    rwa [List.append_assoc] at hrest

/-- Behind a header that was accepted, all that is known obeys it after any chunks, in any order and
number, and whether they are accepted or refused. -/
theorem consistent_afterAll {o : Options} {first : Chunk} {m : Metadata}
    (hkind : first.kind = .header) (hfirst : handle first (.new o) = .ok () m)
    (chunks : List Chunk) :
    ∃ h, Header.parse o first.data = .ok h ∧ (m.afterAll chunks).Consistent h o chunks := by
  obtain ⟨f, hread, rfl⟩ := accept_eq_ok_iff.1 (accept_of_handle hfirst)
  simp only [read, hkind] at hread
  obtain ⟨-, h, hparse, rfl⟩ := readHeader_eq_ok hread
  have hstart := consistent_keepHeader (Header.legal_of_parse hparse)
    (Header.sized_of_parse hparse) o
  exact ⟨h, hparse, hstart.afterAll chunks⟩

end

/-- Behind the header of a palette image a second header and significant bits past eight are
refused, and the file ends without any, so that its indices have all of their four bits. -/
theorem consistent_afterAll_refused :
    let indexed : Header :=
      { width := 1, height := 1, depth := 4, color := .palette, interlace := .adam7 }
    let o : Options := { recordEncoding := true }
    let first : Chunk := { tag := .ofChars 'I' 'H' 'D' 'R', data := indexed.toBytes }
    let chunks : List Chunk :=
      [{ first with data := { indexed with color := .gray }.toBytes },
        { tag := .ofChars 'P' 'L' 'T' 'E', data := [1, 2, 3] },
        { tag := .ofChars 's' 'B' 'I' 'T', data := [8, 9, 8] },
        { tag := .ofChars 't' 'R' 'N' 'S', data := [7] },
        { tag := .ofChars 'I' 'E' 'N' 'D', data := [] }]
    ∃ m, handle first (.new o) = .ok () m ∧ (m.afterAll chunks).Consistent indexed o chunks ∧
      (m.afterAll chunks).transparency = some (.paletteAlpha [7]) ∧
      (m.afterAll chunks).significantBits = some [4] := by
  intro indexed o first chunks
  have hfirst : handle first (.new o) = .ok () ((Metadata.new o).keep (.header indexed)) := by
    rw [handle_eq]
    subst first o indexed
    rfl
  obtain ⟨h, hparse, hconsistent⟩ := consistent_afterAll rfl hfirst chunks
  have hindexed : Header.parse o first.data = .ok indexed := by
    subst first o indexed
    rfl
  cases hparse.symm.trans hindexed
  refine ⟨_, hfirst, hconsistent, ?_, ?_⟩
  · subst chunks first o indexed
    rfl
  · subst chunks first o indexed
    rfl

end Metadata

end Png
