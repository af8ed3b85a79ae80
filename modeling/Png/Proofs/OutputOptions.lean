import Png.Proofs.ChunkRuns
import Png.Proofs.StoredPixels

/-!
# Options for the form of the output

Which samples are expanded is a matter of the output alone. A file is read in the same way whatever
is expanded: its chunks are accepted and refused alike (`readHeaders_expanding`), and the same
pixels are read out of its image data (`Metadata.readStored`). Only the transform is another one, so
that decoding is this reading followed by a drawing (`Metadata.drawn`) that depends on the choice:
this is `decode_expanding`.
-/

namespace Png

/-- The options with another choice of what is expanded. -/
def Options.expanding (o : Options) (palette gray : Bool) : Options :=
  { o with expandPalette := palette, promoteGray := gray }

namespace Metadata

/-- What is known of a file, as it would be with another choice of what is expanded. -/
def expanding (m : Metadata) (palette gray : Bool) : Metadata :=
  { m with
    options := m.options.expanding palette gray
    transform := m.header.map fun h =>
      .select h (m.options.expanding palette gray) m.transparency }

section

variable (palette gray : Bool) {m : Metadata}

theorem coherent_expanding (hm : m.Coherent) : (m.expanding palette gray).Coherent :=
  ⟨hm.legal, hm.sized, rfl, hm.transparency_eq⟩

variable [Libraries]

/-- No chunk is read for what is expanded. -/
theorem read_expanding (c : Chunk) (m : Metadata) :
    (m.expanding palette gray).read c = m.read c := by
  rfl

/-- What a chunk tells is kept in the same way. -/
theorem keep_expanding {c : Chunk} {f : Finding} (hm : m.Coherent) (hread : m.read c = .ok f) :
    (m.expanding palette gray).keep f = (m.keep f).expanding palette gray := by
  have hof := of_read hread
  cases f
  case header h =>
    -- The header is the first, so that there is no transparency yet.
    have hkind : c.kind = .header := hof
    simp only [read, hkind] at hread
    obtain ⟨hnone, -⟩ := readHeader_eq_ok hread
    have htransform : ((m.keepHeader h).expanding palette gray).transform =
        some (.select h (m.options.expanding palette gray) m.transparency) := rfl
    rw [hm.transparency_eq hnone] at htransform
    have hothers : (m.expanding palette gray).keepHeader h =
        { (m.keepHeader h).expanding palette gray with
          transform := some (.select h (m.options.expanding palette gray) none) } := rfl
    rw [← htransform] at hothers
    exact hothers
  all_goals rfl

/-- A chunk is accepted or refused whatever is expanded. -/
theorem accept_expanding (hm : m.Coherent) (c : Chunk) :
    (m.expanding palette gray).accept c = (m.accept c).map (·.expanding palette gray) := by
  rw [accept, accept, read_expanding]
  cases hread : m.read c with
  | error e => rfl
  | ok f => simp only [bind, Except.bind, pure, Except.pure, Except.map, keep_expanding _ _ hm hread]

end

end Metadata

namespace Decoder

variable (palette gray : Bool)

variable [Libraries]

/-- All chunks are accepted or refused whatever is expanded. -/
theorem acceptChunks_expanding (s : ChunkStream) {m : Metadata} (hm : m.Coherent) :
    acceptChunks s (m.expanding palette gray) =
      match acceptChunks s m with
      | .ok () (s', m') => .ok () (s', m'.expanding palette gray)
      | .error e (s', m') => .error e (s', m'.expanding palette gray) := by
  induction s, m using acceptChunks.induct with
  | case1 s m e s' htaken => rw [acceptChunks_of_refused htaken, acceptChunks_of_refused htaken]
  | case2 s m c s' htaken e m' hhandle =>
    have haccept := Metadata.accept_of_handle_failed hhandle
    rw [acceptChunks_of_taken htaken, acceptChunks_of_taken htaken,
      Metadata.accept_expanding _ _ hm, haccept]
    rfl
  | case3 s m c s' htaken m' hhandle hsize hkind =>
    have haccept := Metadata.accept_of_handle hhandle
    rw [acceptChunks_of_taken htaken, acceptChunks_of_taken htaken,
      Metadata.accept_expanding _ _ hm, haccept]
    simp only [Except.map, hkind, if_true]
  | case4 s m c s' htaken m' hhandle hsize hkind ih =>
    have haccept := Metadata.accept_of_handle hhandle
    obtain ⟨f, hread, hkeep⟩ := Metadata.accept_eq_ok_iff.1 haccept
    -- The next chunk meets what is known now, which is coherent again.
    have hm' : m'.Coherent := hkeep ▸ Metadata.coherent_keep hm hread
    rw [acceptChunks_of_taken htaken, acceptChunks_of_taken htaken,
      Metadata.accept_expanding _ _ hm, haccept]
    simp only [Except.map, hkind, if_false]
    exact ih hm'

/-- A decoder, as it would be with another choice of what is expanded. -/
def expanding (d : Decoder) (palette gray : Bool) : Decoder :=
  { d with metadata := d.metadata.expanding palette gray }

/-- The headers are read whatever is expanded. -/
theorem readHeaders_expanding {d : Decoder} (hd : d.metadata.Coherent) :
    readHeaders (d.expanding palette gray) =
      match readHeaders d with
      | .ok () d' => .ok () (d'.expanding palette gray)
      | .error e d' => .error e (d'.expanding palette gray) := by
  by_cases hs : d.stage = .reading
  · have hs' : (d.expanding palette gray).stage = .reading := hs
    cases hopen : d.stream.takeOpening with
    | error e s =>
      -- Opening a file does not look at the options.
      have hopen' : (d.expanding palette gray).stream.takeOpening = .error e s := hopen
      rw [readHeaders_of_opening_failed hs hopen, readHeaders_of_opening_failed hs' hopen']
      rfl
    | ok u s =>
      have hopen' : (d.expanding palette gray).stream.takeOpening = .ok u s := hopen
      have haccept := acceptChunks_expanding palette gray s hd
      rw [readHeaders_of_opened hs hopen, readHeaders_of_opened hs' hopen']
      simp only [expanding, haccept]
      cases acceptChunks s d.metadata <;> rfl
  · have hs' : (d.expanding palette gray).stage ≠ .reading := hs
    rw [readHeaders_of_read hs, readHeaders_of_read hs']

/-- What is known of a file when its headers are read. -/
theorem coherent_of_readHeaders {source : Source} {o : Options} {d : Decoder}
    (h : readHeaders (.new source o) = .ok () d) :
    d.metadata.Coherent ∧ d.metadata.options = o := by
  cases hopen : (new source o).stream.takeOpening with
  | error e s =>
    rw [readHeaders_of_opening_failed rfl hopen] at h
    cases h
  | ok u s =>
    rw [readHeaders_of_opened rfl hopen] at h
    obtain ⟨cs, hcs⟩ := exists_acceptAll s (Metadata.new o)
    cases haccept : acceptChunks s (.new o) with
    | error e r =>
      rw [metadata_new, haccept] at h
      cases h
    | ok u r =>
      rw [metadata_new, haccept] at h
      cases h
      rw [haccept] at hcs
      refine ⟨Metadata.coherent_of_acceptAll hcs, ?_⟩
      exact Metadata.acceptAll_induction (P := fun m => m.options = o)
        (fun hm _ => by simpa using hm) hcs rfl

end Decoder

/-! ## Reading and drawing -/

namespace Metadata

variable [Libraries]

/-- The stored pixels of a file, which do not depend on the form of the output. -/
def readStored (m : Metadata) : Except Error (Header × Reading) := do
  let h ← m.requireHeader
  require (h.color ≠ .palette ∨ m.palette.isSome) (.missingPalette .imageData)
  let data ← m.inflated
  require (h.dataSize ≤ data.length) (.truncated .imageData)
  let s ← h.readPixels data
  return (h, s)

/-- The image of the stored pixels. -/
def drawn (m : Metadata) (h : Header) (s : Reading) : Image :=
  let t := Transform.select h m.options m.transparency
  { header := h
    raster := .ofPixels h.width h.height t.bands (t.depth h m.options)
      (outputOf (m.pixelMap h t) t.bands s.pixels)
    colorModel := m.colorModel h t
    properties := m.properties
    encoding := m.encoding }

/-- What is read depends on the header, the image data, whether there is a palette, and whether the
checksum is compared. -/
theorem readStored_congr {m m' : Metadata} (hheader : m.header = m'.header)
    (hpalette : m.palette.isSome = m'.palette.isSome)
    (hverify : m.options.verifyChecksum = m'.options.verifyChecksum)
    (hdata : m.imageData = m'.imageData) : m.readStored = m'.readStored := by
  simp only [readStored, requireHeader, inflated, hheader, hpalette, hverify, hdata]

theorem readStored_expanding (palette gray : Bool) (m : Metadata) :
    (m.expanding palette gray).readStored = m.readStored := by
  rfl

/-- Stored pixels are read out of the inflated image data. -/
theorem inflated_of_readStored {m : Metadata} {h : Header} {s : Reading}
    (hread : m.readStored = .ok (h, s)) :
    m.header = some h ∧ ∃ data, m.inflated = .ok data ∧ h.readPixels data = .ok s := by
  simp only [readStored, requireHeader, bind_eq_ok_iff, demand_eq_ok_iff, pure, Except.pure,
    Except.ok.injEq, Prod.mk.injEq] at hread
  obtain ⟨h, hheader, _, -, data, hdata, _, -, s, hpixels, rfl, rfl⟩ := hread
  exact ⟨hheader, data, hdata, hpixels⟩

theorem of_readStored {m : Metadata} {h : Header} {s : Reading} (hread : m.readStored = .ok (h, s)) :
    m.header = some h ∧ ∃ data, h.readPixels data = .ok s := by
  obtain ⟨hheader, data, -, hpixels⟩ := inflated_of_readStored hread
  exact ⟨hheader, data, hpixels⟩

/-- There is a limit to what is inflated. -/
theorem length_inflated {m : Metadata} {data : List UInt8} (hdata : m.inflated = .ok data) :
    data.length < levels 59 := by
  unfold inflated at hdata
  cases hstream : Libraries.inflate m.options.verifyChecksum m.imageData with
  | error fault =>
    rw [hstream] at hdata
    cases hdata
  | ok out =>
    rw [hstream] at hdata
    cases hdata
    exact Libraries.length_inflate hstream

/-- An image is made by reading the stored pixels and drawing them. -/
theorem Coherent.render_eq {m : Metadata} (hm : m.Coherent) :
    m.render = m.readStored.map fun (h, s) => m.drawn h s := by
  cases hheader : m.header with
  | none =>
    have hrequire : m.requireHeader = .error .missingHeader := by rw [requireHeader, hheader]; rfl
    simp only [render, readiness, readStored, hrequire]
    rfl
  | some h =>
    have hrequire : m.requireHeader = .ok h := by rw [requireHeader, hheader]; rfl
    have htransform := hm.transform_of_header hheader
    have hdraws := hm.draws hheader htransform
    simp only [render, readiness, readStored, hrequire, htransform, demand, bind, Except.bind]
    -- Both sides check the same things in the same order, before any pixel is read.
    cases require (h.color ≠ .palette ∨ m.palette.isSome) (.missingPalette .imageData) with
    | error e => rfl
    | ok u =>
      simp only [pure, Except.pure]
      cases hinflated : m.inflated with
      | error e => rfl
      | ok data =>
        by_cases hsize : h.dataSize ≤ data.length
        · -- What has been inflated is short, and so are the scanlines that it has room for.
          have hshort := Nat.lt_of_le_of_lt hsize (length_inflated hinflated)
          rw [Header.dataSize_eq hshort] at hshort
          have hcount := hm.countable hheader htransform h.interlace hshort
          simp only [require, hsize, if_true, blankRaster, scan_eq_map hdraws hcount]
          cases h.readPixels data <;> rfl
        · simp only [require, hsize, if_false]
          rfl

end Metadata

/-- The image of a file with any choice of what is expanded is drawn from the same reading. -/
theorem decode_expanding [Libraries] (palette gray : Bool) (source : Source) (o : Options) :
    decode source (o.expanding palette gray) =
      match Decoder.readHeaders (.new source o) with
      | .error e _ => .error e
      | .ok () d => d.metadata.readStored.map fun (h, s) =>
        (d.metadata.expanding palette gray).drawn h s := by
  have hstage : (Decoder.new source (o.expanding palette gray)).stage ≠ .decoded := nofun
  -- What is read of the file is the same, and only the drawing is chosen.
  have hreads := Decoder.readHeaders_expanding palette gray (d := .new source o)
    (Metadata.coherent_new o)
  have hnew : (Decoder.new source o).expanding palette gray =
      .new source (o.expanding palette gray) := rfl
  rw [hnew] at hreads
  simp only [decode, Decoder.decode, hstage, if_false, hreads]
  cases hread : Decoder.readHeaders (.new source o) with
  | error e d => rfl
  | ok u d =>
    obtain ⟨hm, -⟩ := Decoder.coherent_of_readHeaders hread
    have hrender := (Metadata.coherent_expanding palette gray hm).render_eq
    rw [Metadata.readStored_expanding] at hrender
    simp only [Decoder.expanding, hrender]
    cases d.metadata.readStored <;> rfl

end Png
