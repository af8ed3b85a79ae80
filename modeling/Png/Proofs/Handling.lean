import Png.Metadata.Handle

/-!
# Handling is reading and then keeping

A handler checks and writes in turns. `handle_eq` says that this comes to reading all that the chunk
tells and then keeping it: no handler checks anything behind its first write, so that a chunk which
is refused leaves no trace. The proof goes through a handler and the matching reader side by side,
check by check (`check_bind_settle`); behind the last check both have written the same.
-/

namespace Png

namespace Metadata

open Handling (check write)

/-- The end of a handling that keeps what a reading tells, and leaves everything alone where the
reading is refused. -/
def settle (m : Metadata) : Except Error Finding → EStateM.Result Error Metadata Unit
  | .ok f => .ok () (m.keep f)
  | .error e => .error e m

/-- A handler and a reader that start with the same check come to the same if they do so behind
it. -/
theorem check_bind_settle {α : Type} {m : Metadata} {result : Except Error α}
    {next : α → Handling Unit} {read : α → Except Error Finding}
    (h : ∀ a, result = .ok a → next a m = m.settle (read a)) :
    (check result >>= next) m = m.settle (result >>= read) := by
  cases result with
  | ok a => exact h a rfl
  | error e => rfl

/-- The steps behind a write start from what it makes of the state. -/
theorem write_bind (change : Metadata → Metadata) (next : Handling Unit) (m : Metadata) :
    (write change >>= fun _ => next) m = next (change m) :=
  (rfl)

/-- A write under a condition, in front of other steps. -/
theorem writeIf_bind (c : Bool) (change : Metadata → Metadata) (next : Handling Unit)
    (m : Metadata) :
    (if c then write change >>= fun _ => next else next : Handling Unit) m =
      next (if c then change m else m) := by
  cases c <;> rfl

/-- The gamma that is assumed stands behind what the header itself tells. -/
theorem noteAll_headerProperties (m : Metadata) (h : Header) (gamma : Float32) :
    m.noteAll (headerProperties h (some gamma)) =
      (m.noteAll (headerProperties h none)).note "gamma" (.number gamma) := by
  have hsplit : headerProperties h (some gamma) =
      headerProperties h none ++ [("gamma", .number gamma)] := rfl
  rw [hsplit, noteAll, Properties.insertAll, List.foldl_append]
  rfl

theorem handleHeader_eq (data : List UInt8) (m : Metadata) :
    handleHeader data m = m.settle (m.readHeader data) := by
  refine check_bind_settle fun _ _ => check_bind_settle fun h _ => ?_
  show _ = EStateM.Result.ok () (m.keepHeader h)
  have hgamma := noteAll_headerProperties m h m.response.assumedGamma
  unfold keepHeader startingEncoding startingGamma
  -- Which properties these are does not matter from here on.
  generalize headerProperties h = values at hgamma ⊢
  rw [write_bind, writeIf_bind, writeIf_bind, write_bind]
  show EStateM.Result.ok () _ = _
  congr 1
  cases m.options.correctGamma with
  | false =>
    simp only [Bool.false_eq_true, if_false]
    cases m.options.recordEncoding <;> cases he : m.encoding <;> simp [noteAll, he]
  | true =>
    simp only [if_true, hgamma]
    cases m.options.recordEncoding <;> cases he : m.encoding <;>
      simp [noteGamma, note, record, noteAll, he]

theorem handlePalette_eq (data : List UInt8) (m : Metadata) :
    handlePalette data m = m.settle (m.readPalette data) :=
  check_bind_settle fun _ _ => rfl

theorem handleBackground_eq (data : List UInt8) (m : Metadata) :
    handleBackground data m = m.settle (m.readBackground data) := by
  refine check_bind_settle fun h _ => ?_
  cases h.color with
  | palette =>
    exact check_bind_settle fun _ _ => check_bind_settle fun _ _ => check_bind_settle fun _ _ => rfl
  | gray | grayAlpha => exact check_bind_settle fun _ _ => rfl
  | rgb | rgba =>
    exact check_bind_settle fun _ _ => check_bind_settle fun _ _ => check_bind_settle fun _ _ => rfl

/-- A handler that passes its chunk over once the standard RGB space is named. -/
theorem unless_settle {m : Metadata} {handler : Handling Unit} {read : Except Error Finding}
    (h : handler m = m.settle read) :
    (if m.response.intent.isSome then pure () else handler : Handling Unit) m =
      m.settle (if m.response.intent.isSome then .ok .nothing else read) := by
  split
  · rfl
  · exact h

theorem handleChromaticities_eq (data : List UInt8) (m : Metadata) :
    handleChromaticities data m = m.settle (m.readChromaticities data) := by
  refine unless_settle ?_
  iterate 8 refine check_bind_settle fun _ _ => ?_
  rfl

theorem handleGamma_eq (data : List UInt8) (m : Metadata) :
    handleGamma data m = m.settle (m.readGamma data) :=
  unless_settle (check_bind_settle fun _ _ => rfl)

theorem handleStandardRgb_eq (data : List UInt8) (m : Metadata) :
    handleStandardRgb data m = m.settle (m.readStandardRgb data) :=
  unless_settle (check_bind_settle fun _ _ => rfl)

theorem handleHistogram_eq (data : List UInt8) (m : Metadata) :
    handleHistogram data m = m.settle (m.readHistogram data) :=
  check_bind_settle fun _ _ => check_bind_settle fun _ _ => rfl

theorem handleIccProfile_eq (data : List UInt8) (m : Metadata) :
    handleIccProfile data m = m.settle (readIccProfile data) :=
  check_bind_settle fun _ _ => rfl

theorem handlePhysicalSize_eq (data : List UInt8) (m : Metadata) :
    handlePhysicalSize data m = m.settle (readPhysicalSize data) :=
  check_bind_settle fun _ _ => check_bind_settle fun _ _ => check_bind_settle fun _ _ =>
    check_bind_settle fun _ _ => rfl

theorem handleSignificantBits_eq (data : List UInt8) (m : Metadata) :
    handleSignificantBits data m = m.settle (m.readSignificantBits data) :=
  check_bind_settle fun _ _ => check_bind_settle fun _ _ => rfl

/-- A transparent sample is written unless alpha is suppressed. -/
theorem writeKey_eq (t : Transparency) (m : Metadata) :
    writeKey t m = .ok () (if m.options.suppressAlpha then m
      else m.record fun p => { p with kind := p.kind.withTransparency t }) := by
  show (if m.options.suppressAlpha then (pure () : Handling Unit)
    else write (·.record fun p => { p with kind := p.kind.withTransparency t })) m = _
  split <;> rfl

/-- The transparency is written with the header that the handler has found. -/
theorem writeTransparency_eq {m : Metadata} {h : Header} (hheader : m.header = some h)
    (t : Transparency) :
    (writeKey t >>= fun _ => writeTransparency h t : Handling Unit) m =
      .ok () (m.keepTransparency t) := by
  unfold keepTransparency
  rw [hheader]
  simp only [bind, EStateM.bind, writeKey_eq]
  obtain ⟨o, _, _, _, _, _, _, _, encoding, _, _, _, _⟩ := m
  obtain rfl : _ = some h := hheader
  cases o.suppressAlpha <;> cases encoding <;> rfl

/-- The opacities of a palette are none of the encoding parameters. -/
theorem writeTransparency_paletteAlpha {m : Metadata} {h : Header} (hheader : m.header = some h)
    (alpha : List UInt8) :
    writeTransparency h (.paletteAlpha alpha) m =
      .ok () (m.keepTransparency (.paletteAlpha alpha)) := by
  unfold keepTransparency
  rw [hheader]
  obtain ⟨o, _, _, _, _, _, _, _, encoding, _, _, _, _⟩ := m
  obtain rfl : _ = some h := hheader
  cases o.suppressAlpha <;> cases encoding <;> rfl

theorem handleTransparency_eq (data : List UInt8) (m : Metadata) :
    handleTransparency data m = m.settle (m.readTransparency data) := by
  refine check_bind_settle fun h hh => ?_
  have hheader : m.header = some h := demand_eq_ok_iff.1 hh
  cases h.color with
  | palette =>
    exact check_bind_settle fun _ _ => check_bind_settle fun _ _ =>
      writeTransparency_paletteAlpha hheader _
  | gray => exact check_bind_settle fun _ _ => writeTransparency_eq hheader _
  | rgb =>
    exact check_bind_settle fun _ _ => check_bind_settle fun _ _ => check_bind_settle fun _ _ =>
      writeTransparency_eq hheader _
  | grayAlpha | rgba => rfl

theorem handleText_eq (data : List UInt8) (m : Metadata) :
    handleText data m = m.settle (readText data) :=
  check_bind_settle fun _ _ => rfl

theorem handleEnd_eq (m : Metadata) : handleEnd m = m.settle m.readEnd := by
  refine check_bind_settle fun h _ => ?_
  show _ = EStateM.Result.ok () (m.keepEnd (List.replicate h.channels h.depth))
  obtain ⟨o, _, _, _, _, _, bits, _, encoding, _, _, _, _⟩ := m
  unfold keepEnd endProperties noteAll Properties.insertAll
  rw [List.foldl_append, List.foldl_append]
  cases bits <;> rfl

variable [Libraries]

theorem handleCompressedText_eq (data : List UInt8) (m : Metadata) :
    handleCompressedText data m = m.settle (readCompressedText data) := by
  refine check_bind_settle fun ⟨keyword, stream⟩ _ => ?_
  dsimp only
  cases Libraries.inflate true stream <;> rfl

theorem handleTime_eq (data : List UInt8) (m : Metadata) :
    handleTime data m = m.settle (readModified data) := by
  refine check_bind_settle fun time _ => ?_
  cases Libraries.isDate time <;> rfl

/-- Handling a chunk is reading it and then keeping what it tells. -/
theorem handle_eq (c : Chunk) (m : Metadata) : handle c m = m.settle (m.read c) := by
  unfold handle read
  cases c.kind with
  | header => exact handleHeader_eq c.data m
  | palette => exact handlePalette_eq c.data m
  | imageEnd => exact handleEnd_eq m
  | chromaticities => exact handleChromaticities_eq c.data m
  | gamma => exact handleGamma_eq c.data m
  | iccProfile => exact handleIccProfile_eq c.data m
  | significantBits => exact handleSignificantBits_eq c.data m
  | standardRgb => exact handleStandardRgb_eq c.data m
  | background => exact handleBackground_eq c.data m
  | histogram => exact handleHistogram_eq c.data m
  | transparency => exact handleTransparency_eq c.data m
  | physicalSize => exact handlePhysicalSize_eq c.data m
  | time => exact handleTime_eq c.data m
  | text => exact handleText_eq c.data m
  | compressedText => exact handleCompressedText_eq c.data m
  -- Nothing is checked in these.
  | imageData | unknown => rfl

/-- A chunk is handled as `accept` says, and a chunk that is refused leaves everything as it was. -/
theorem handle_eq_accept (c : Chunk) (m : Metadata) :
    handle c m = match m.accept c with
      | .ok m' => .ok () m'
      | .error e => .error e m := by
  rw [handle_eq, accept]
  cases m.read c <;> rfl

theorem accept_of_handle {c : Chunk} {m m' : Metadata} (h : handle c m = .ok () m') :
    m.accept c = .ok m' := by
  rw [handle_eq_accept] at h
  split at h <;> cases h
  assumption

theorem accept_of_handle_failed {c : Chunk} {m m' : Metadata} {e : Error}
    (h : handle c m = .error e m') : m.accept c = .error e := by
  rw [handle_eq_accept] at h
  split at h <;> cases h
  assumption

end Metadata

end Png
