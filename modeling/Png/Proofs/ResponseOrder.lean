import Png.Libraries.Own
import Png.Proofs.Omission
import Png.Proofs.WholeFiles

/-!
# Which chunk tells the response

Gamma, chromaticities and the standard RGB space may be told again and again, in any order. The
first chunk that names the standard RGB space settles all of them: it replaces what was told before,
and what comes behind it is passed over, whatever its data. In a file without one the last gamma and
the last chromaticities count. `responseOf` says so of a list of chunks, `ResponseTrace` that what
is known follows it from chunk to chunk, and `response_exact` that a file therefore reports it
(`KnowsResponse`).
-/

namespace Png

/-- The gamma that the bytes of its chunk write. -/
def gammaOf (data : List UInt8) : Float32 := ofHundredThousandths (numberAt data 0 4)

/-- The chromaticities that the bytes of their chunk write. -/
def Chromaticities.ofBytes (data : List UInt8) : Chromaticities :=
  let number (i : Nat) := ofHundredThousandths (numberAt data (4 * i) 4)
  { whiteX := number 0, whiteY := number 1, redX := number 2, redY := number 3
    greenX := number 4, greenY := number 5, blueX := number 6, blueY := number 7 }

/-- The response that chunks tell: that of the standard RGB space if it is named, with the intent of
the chunk that names it first, or else that of the last gamma and the last chromaticities. -/
def responseOf (o : Options) (chunks : List Chunk) : ToneResponse :=
  match firstOf .standardRgb chunks with
  | some c => { ToneResponse.ofOptions o with
      fileGamma := defaultFileGamma
      chromaticities := some .standardRgb
      intent := some (numberAt c.data 0 1) }
  | none => { ToneResponse.ofOptions o with
      fileGamma := (lastOf .gamma chunks).elim defaultFileGamma (gammaOf ·.data)
      chromaticities := (lastOf .chromaticities chunks).map (.ofBytes ·.data) }

/-- A gamma as it is reported: that of the corrected samples when correcting. -/
def Options.scaled (o : Options) (gamma : Float32) : Float32 :=
  if o.correctGamma then gamma * (o.displayExponent / o.userExponent) else gamma

/-- The gamma to report where no chunk tells one: a common one is assumed when correcting. -/
def Options.assumedGamma (o : Options) : Option Float32 :=
  if o.correctGamma then some (1.0 / 2.2 * (o.displayExponent / o.userExponent)) else none

/-- The gamma that is reported of these chunks. -/
def gammaTold (o : Options) (chunks : List Chunk) : Option Float32 :=
  if (firstOf .standardRgb chunks).isSome then some (o.scaled defaultFileGamma)
  else (lastOf .gamma chunks).elim o.assumedGamma fun c => some (o.scaled (gammaOf c.data))

section

variable (o : Options) (chunks : List Chunk)

@[simp]
theorem userExponent_responseOf : (responseOf o chunks).userExponent = o.userExponent := by
  unfold responseOf
  split <;> rfl

@[simp]
theorem displayExponent_responseOf : (responseOf o chunks).displayExponent = o.displayExponent := by
  unfold responseOf
  split <;> rfl

@[simp]
theorem intent_responseOf :
    (responseOf o chunks).intent = (firstOf .standardRgb chunks).map (numberAt ·.data 0 1) := by
  unfold responseOf
  cases firstOf .standardRgb chunks <;> rfl

variable {chunks} in
/-- Behind the standard RGB space nothing changes. -/
theorem told_append_of_named (h : (firstOf .standardRgb chunks).isSome = true) (c : Chunk) :
    responseOf o (chunks ++ [c]) = responseOf o chunks ∧
      gammaTold o (chunks ++ [c]) = gammaTold o chunks := by
  obtain ⟨first, hfirst⟩ := Option.isSome_iff_exists.1 h
  simp only [responseOf, gammaTold, firstOf_append, hfirst, Option.some_or, Option.isSome_some,
    if_true, and_self]

/-- Other chunks change nothing. -/
theorem told_append_of_other {c : Chunk} (h : c.kind ∉ responseKinds) :
    responseOf o (chunks ++ [c]) = responseOf o chunks ∧
      gammaTold o (chunks ++ [c]) = gammaTold o chunks := by
  simp only [responseKinds, List.mem_cons, List.not_mem_nil, or_false, not_or] at h
  obtain ⟨hgamma, hchromaticities, hstandard⟩ := h
  simp only [responseOf, gammaTold, firstOf_append, firstOf_singleton, lastOf_append, hgamma,
    hchromaticities, hstandard, if_false, Option.or_none, and_self]

variable {chunks} (h : firstOf .standardRgb chunks = none) {c : Chunk}

include h

theorem told_append_gamma (hc : c.kind = .gamma) :
    responseOf o (chunks ++ [c]) = { responseOf o chunks with fileGamma := gammaOf c.data } ∧
      gammaTold o (chunks ++ [c]) = some (o.scaled (gammaOf c.data)) := by
  simp [responseOf, gammaTold, firstOf_append, firstOf_singleton, lastOf_append, h, hc]

theorem told_append_chromaticities (hc : c.kind = .chromaticities) :
    responseOf o (chunks ++ [c]) =
        { responseOf o chunks with chromaticities := some (.ofBytes c.data) } ∧
      gammaTold o (chunks ++ [c]) = gammaTold o chunks := by
  simp [responseOf, gammaTold, firstOf_append, firstOf_singleton, lastOf_append, h, hc]

theorem told_append_standardRgb (hc : c.kind = .standardRgb) :
    responseOf o (chunks ++ [c]) =
        (responseOf o chunks).withStandardRgb (numberAt c.data 0 1) ∧
      gammaTold o (chunks ++ [c]) = some (o.scaled defaultFileGamma) := by
  simp [responseOf, gammaTold, firstOf_append, firstOf_singleton, h, hc,
    ToneResponse.withStandardRgb]

end

namespace Metadata

/-! ## Reading what is told -/

/-- What a chunk tells of the response where `m` is known before it. -/
inductive TellsResponse (m : Metadata) (c : Chunk) : Finding → Prop
  /-- The standard RGB space has been named. -/
  | settled (hintent : m.response.intent.isSome = true) (hkind : c.kind ∈ responseKinds) :
      TellsResponse m c .nothing
  | gamma (hintent : m.response.intent = none) (hkind : c.kind = .gamma) :
      TellsResponse m c (.gamma (gammaOf c.data))
  | chromaticities (hintent : m.response.intent = none) (hkind : c.kind = .chromaticities) :
      TellsResponse m c (.chromaticities (.ofBytes c.data))
  | standardRgb (hintent : m.response.intent = none) (hkind : c.kind = .standardRgb)
      (hdata : c.data ≠ []) : TellsResponse m c (.standardRgb (numberAt c.data 0 1))
  | other {f : Finding} (hkind : c.kind ∉ responseKinds) : TellsResponse m c f

variable {m : Metadata} {c : Chunk} {f : Finding}

theorem eq_of_number {data : List UInt8} {offset : Nat} {x : Float32}
    (h : (readField data offset 4).map ofHundredThousandths = .ok x) :
    x = ofHundredThousandths (numberAt data offset 4) := by
  obtain ⟨n, hn, rfl⟩ := exists_of_map_eq_ok h
  rw [(readField_eq_ok hn).1]

section

variable [Libraries]

/-- Behind the standard RGB space any data pass. -/
theorem read_of_settled (hintent : m.response.intent.isSome = true)
    (hkind : c.kind ∈ responseKinds) : m.read c = .ok .nothing := by
  simp only [responseKinds, List.mem_cons, List.not_mem_nil, or_false] at hkind
  obtain hkind | hkind | hkind := hkind
  · simp only [read, hkind, readGamma, hintent, if_true]
  · simp only [read, hkind, readChromaticities, hintent, if_true]
  · simp only [read, hkind, readStandardRgb, hintent, if_true]

/-- A chunk that is read tells what its data say, unless the response is settled. -/
theorem tellsResponse_of_read (h : m.read c = .ok f) : m.TellsResponse c f := by
  by_cases hkind : c.kind ∈ responseKinds
  · by_cases hintent : m.response.intent.isSome = true
    · rw [read_of_settled hintent hkind] at h
      cases h
      exact .settled hintent hkind
    · have hnone : m.response.intent = none := by simpa using hintent
      simp only [responseKinds, List.mem_cons, List.not_mem_nil, or_false] at hkind
      obtain hkind | hkind | hkind := hkind
      · simp only [read, hkind, readGamma, if_neg hintent, bind_eq_ok_iff, pure, Except.pure,
          Except.ok.injEq] at h
        obtain ⟨n, hn, rfl⟩ := h
        rw [(readField_eq_ok hn).1]
        exact .gamma hnone hkind
      · -- Eight numbers are read, one after the other.
        simp only [read, hkind, readChromaticities, if_neg hintent, bind_eq_ok_iff, pure,
          Except.pure, Except.ok.injEq] at h
        obtain ⟨whiteX, h₀, whiteY, h₁, redX, h₂, redY, h₃, greenX, h₄, greenY, h₅, blueX, h₆,
          blueY, h₇, rfl⟩ := h
        rw [eq_of_number h₀, eq_of_number h₁, eq_of_number h₂, eq_of_number h₃, eq_of_number h₄,
          eq_of_number h₅, eq_of_number h₆, eq_of_number h₇]
        exact .chromaticities hnone hkind
      · simp only [read, hkind, readStandardRgb, if_neg hintent, bind_eq_ok_iff, pure, Except.pure,
          Except.ok.injEq] at h
        obtain ⟨n, hn, rfl⟩ := h
        obtain ⟨rfl, hlength⟩ := readField_eq_ok hn
        refine .standardRgb hnone hkind ?_
        rintro hnil
        simp [hnil] at hlength
  · exact .other hkind

end

/-! ## Reporting it -/

/-- A gamma and chromaticities are reported and, where anything is, recorded for an encoder. -/
structure ReportsResponse (m : Metadata) (gamma : Option Float32) (c : Option Chromaticities) :
    Prop where
  gamma_eq : m.properties.get? "gamma" = gamma.map .number
  chromaticities_eq : Chromaticities.keys.map m.properties.get? = match c with
    | some c => c.toList.map fun x => some (.number x)
    | none => Chromaticities.keys.map fun _ => none
  recorded : ∀ p, m.encoding = some p → p.gamma = gamma ∧ p.chromaticities = c

/-- The names under which the response is reported. -/
def responseNames : List String := ["rendering_intent", "gamma"] ++ Chromaticities.keys

/-- A name of the response has the value it had unless it is reported. -/
theorem get?_response_keep (m : Metadata) {f : Finding} :
    ∀ name ∈ responseNames, name ∉ f.names →
      (m.keep f).properties.get? name = m.properties.get? name := by
  intro name hname hother
  have hlower : Text.lowerCase name = name :=
    Finding.lowerCase_name (f := .standardRgb 0) hname
  have hstem : ∀ name ∈ responseNames, ∀ stem ∈ numberedStems,
      ¬ stem.toList <+: name.toList := by decide
  exact get?_keep m hlower (hstem name hname) hother

/-- The chromaticities that are put in are found, whatever was reported before. -/
theorem map_get?_chromaticities (p : Properties) (c : Chromaticities) :
    Chromaticities.keys.map
        (p.insertAll (Chromaticities.keys.zip (c.toList.map .number))).get? =
      c.toList.map fun x => some (.number x) := by
  rw [Properties.get?_insertAll_zip (by decide) rfl, List.map_map]
  rfl

/-- The chromaticities that are put in leave the other names of the response alone. -/
theorem get?_insertAll_chromaticities (p : Properties) (values : List PropertyValue) :
    ∀ name ∈ ["rendering_intent", "gamma"],
      (p.insertAll (Chromaticities.keys.zip values)).get? name = p.get? name := by
  intro name hname
  refine Properties.get?_insertAll_of_ne fun entry hentry => ?_
  have hother : ∀ name ∈ ["rendering_intent", "gamma"], ∀ key ∈ Chromaticities.keys,
      Text.lowerCase name ≠ Text.lowerCase key := by decide
  exact hother name hname entry.1 (List.of_mem_zip hentry).1

/-- What is known after the chunks `chunks`, a header first, tells of their response. -/
structure ResponseTrace (o : Options) (chunks : List Chunk) (m : Metadata) : Prop where
  options_eq : m.options = o
  response_eq : m.response = responseOf o chunks
  intent_eq : m.properties.get? "rendering_intent" = m.response.intent.map fun i => .integer i
  reported : m.ReportsResponse (gammaTold o chunks) m.response.chromaticities
  isSome_encoding : m.encoding.isSome = o.recordEncoding

/-- A header reports the gamma that is assumed, if one is. -/
theorem get?_gamma_header (o : Options) (hd : Header) :
    ((new o).keep (.header hd)).properties.get? "gamma" = o.assumedGamma.map .number := by
  have hstart : (new o).startingGamma = o.assumedGamma := rfl
  rw [properties_keep, reported, headerProperties, hstart, Properties.insertAll_append]
  cases o.assumedGamma with
  | some gamma => exact (Properties.get?_insert _ _ _ _).trans (if_pos rfl)
  | none =>
    have hnames : ∀ name ∈ ["color_type", "bit_depth", "interlace_method"],
        Text.lowerCase "gamma" ≠ Text.lowerCase name := by decide
    refine (Properties.get?_insertAll_of_ne (p := (new o).properties) fun entry hentry => ?_).trans ?_
    · refine hnames entry.1 ?_
      simp only [List.mem_cons, List.not_mem_nil, or_false] at hentry
      obtain rfl | rfl | rfl := hentry <;> simp
    · rw [new, Properties.get?_insert, if_neg (by decide)]
      rfl

theorem responseTrace_header {o : Options} {c : Chunk} (hkind : c.kind = .header) (hd : Header) :
    ResponseTrace o [c] ((new o).keep (.header hd)) := by
  have hother : c.kind ∉ responseKinds := by rw [hkind]; decide
  have htold := told_append_of_other o [] hother
  have hresponse : responseOf o [c] = .ofOptions o := htold.1
  have hgamma : gammaTold o [c] = o.assumedGamma := htold.2
  have hnew : ∀ name ∈ responseNames, (new o).properties.get? name = none := by
    intro name hname
    have hother : ∀ name ∈ responseNames, Text.lowerCase name ≠ Text.lowerCase "file_type" := by
      decide
    rw [new, Properties.get?_insert, if_neg (hother name hname)]
    rfl
  have hkept : ∀ name ∈ responseNames, name ≠ "gamma" →
      ((new o).keep (.header hd)).properties.get? name = none := by
    intro name hname hgamma
    have hnames : ∀ name ∈ responseNames, name ≠ "gamma" → name ∉ (Finding.header hd).names := by
      simp only [Finding.names]
      decide
    exact (get?_response_keep _ name hname (hnames name hname hgamma)).trans (hnew name hname)
  refine ⟨rfl, hresponse.symm, hkept _ (by decide) (by decide), ⟨?_, ?_, ?_⟩, ?_⟩
  · rw [get?_gamma_header, hgamma]
  · refine List.map_congr_left fun name hname => hkept name (List.mem_append_right _ hname) ?_
    rintro rfl
    exact absurd hname (by decide)
  · -- A header starts what is recorded anew, with the gamma that is assumed.
    intro p hp
    rw [encoding_keepHeader] at hp
    split at hp
    · cases hp
      exact ⟨hgamma.symm, rfl⟩
    · cases hp
  · rw [encoding_keep, Option.isSome_map]
    show Option.isSome (if o.recordEncoding then _ else none) = _
    cases o.recordEncoding <;> rfl

/-- What the response has recorded. -/
theorem response_recorded (m : Metadata) (f : Finding) (p : EncodeParams) :
    (m.recorded f p).gamma = (match f with
      | .gamma gamma => some (ToneResponse.reportedGamma { m.response with fileGamma := gamma }
          m.options.correctGamma)
      | .standardRgb intent =>
        some ((m.response.withStandardRgb intent).reportedGamma m.options.correctGamma)
      | _ => p.gamma) ∧
    (m.recorded f p).chromaticities = (match f with
      | .chromaticities c => some c
      | .standardRgb _ => some .standardRgb
      | _ => p.chromaticities) := by
  cases f
  case transparency t =>
    simp only [recorded]
    split <;> exact ⟨rfl, rfl⟩
  all_goals exact ⟨rfl, rfl⟩

/-- A chunk that is not about the response reports nothing of it. -/
theorem not_mem_names_of_other {kind : ChunkKind} {f : Finding} (hkind : kind ∉ responseKinds)
    (hof : f.Of kind) (hheader : ∀ other, f ≠ .header other) :
    ∀ name ∈ responseNames, name ∉ f.names := by
  cases f with
  | header other => exact absurd rfl (hheader other)
  | gamma _ | chromaticities _ | standardRgb _ =>
    rw [Finding.Of] at hof
    subst hof
    exact absurd (by decide) hkind
  | _ => simp only [Finding.names]; decide

/-- What reports nothing of the response changes nothing of it. -/
theorem same_of_names {m : Metadata} {f : Finding} (h : ∀ name ∈ responseNames, name ∉ f.names) :
    (m.keep f).response = m.response ∧ ∀ p, (m.recorded f p).gamma = p.gamma ∧
      (m.recorded f p).chromaticities = p.chromaticities := by
  have hrecorded := response_recorded m f
  rw [response_keep]
  cases f with
  | gamma _ | standardRgb _ => exact absurd (by simp [Finding.names]) (h "gamma" (by decide))
  | chromaticities _ =>
    exact absurd (by simp only [Finding.names]; decide) (h "white_point_x" (by decide))
  | _ => exact ⟨rfl, hrecorded⟩

/-- What is known where `first` is the first chunk that names the standard RGB space. -/
structure ReportsStandardRgb (m : Metadata) (o : Options) (first : Chunk) : Prop where
  /-- The intent that is reported is its first byte. -/
  intent_eq : ∃ intent rest, first.data = intent :: rest ∧
    m.properties.get? "rendering_intent" = some (.integer intent.toNat)
  /-- Samples are corrected for the gamma of that space. -/
  table_eq : ∀ bits, m.response.table bits =
    ToneResponse.table { ToneResponse.ofOptions o with fileGamma := defaultFileGamma } bits
  /-- Its gamma and its chromaticities are reported and recorded. -/
  reported : m.ReportsResponse (some (o.scaled defaultFileGamma)) (some .standardRgb)

/-- What is known after the chunks `chunks` where none of them names the standard RGB space. -/
structure ReportsLastResponse (m : Metadata) (o : Options) (chunks : List Chunk) : Prop where
  intent_eq : m.properties.get? "rendering_intent" = none
  /-- Samples are corrected for the last gamma, or for that of a file without one. -/
  table_eq : ∀ bits, m.response.table bits = ToneResponse.table { ToneResponse.ofOptions o with
    fileGamma := (lastOf .gamma chunks).elim defaultFileGamma (gammaOf ·.data) } bits
  /-- The last gamma, or the one that is assumed, and the last chromaticities are reported and
  recorded. -/
  reported : m.ReportsResponse
    ((lastOf .gamma chunks).elim o.assumedGamma fun c => some (o.scaled (gammaOf c.data)))
    ((lastOf .chromaticities chunks).map (.ofBytes ·.data))

namespace ResponseTrace

variable {o : Options} {chunks : List Chunk} {m : Metadata} {c : Chunk} {f : Finding}
  (h : ResponseTrace o chunks m)

include h

theorem firstOf_eq_none (hintent : m.response.intent = none) :
    firstOf .standardRgb chunks = none := by
  rw [h.response_eq, intent_responseOf] at hintent
  exact Option.map_eq_none_iff.1 hintent

theorem isSome_firstOf (hintent : m.response.intent.isSome = true) :
    (firstOf .standardRgb chunks).isSome = true := by
  rwa [h.response_eq, intent_responseOf, Option.isSome_map] at hintent

/-- The exponents of the response are those of the options. -/
theorem reportedGamma_eq {t : ToneResponse} (huser : t.userExponent = m.response.userExponent)
    (hdisplay : t.displayExponent = m.response.displayExponent) :
    t.reportedGamma m.options.correctGamma = o.scaled t.fileGamma := by
  rw [h.response_eq, userExponent_responseOf] at huser
  rw [h.response_eq, displayExponent_responseOf] at hdisplay
  rw [ToneResponse.reportedGamma, Options.scaled, h.options_eq, huser, hdisplay]

theorem isSome_encoding_keep (hheader : ∀ other, f ≠ .header other) :
    (m.keep f).encoding.isSome = o.recordEncoding := by
  rw [encoding_keep_behind hheader, Option.isSome_map, h.isSome_encoding]

/-- What is recorded behind the header comes from the finding, or from what was recorded before. -/
theorem recorded_of_keep (hheader : ∀ other, f ≠ .header other) {p : EncodeParams}
    (hp : (m.keep f).encoding = some p) : ∃ old : EncodeParams, p = m.recorded f old ∧
      old.gamma = gammaTold o chunks ∧ old.chromaticities = m.response.chromaticities := by
  rw [encoding_keep_behind hheader] at hp
  obtain ⟨old, hold, rfl⟩ := Option.map_eq_some_iff.1 hp
  exact ⟨old, rfl, h.reported.recorded old hold⟩

/-- A chunk that is passed over, or is not about the response, leaves it as it is. -/
theorem keep_of_same (hheader : ∀ other, f ≠ .header other)
    (hnames : ∀ name ∈ responseNames, name ∉ f.names)
    (htold : responseOf o (chunks ++ [c]) = responseOf o chunks ∧
      gammaTold o (chunks ++ [c]) = gammaTold o chunks) :
    ResponseTrace o (chunks ++ [c]) (m.keep f) := by
  obtain ⟨hresponse, hrecorded⟩ := same_of_names hnames
  have hsame : ∀ name ∈ responseNames,
      (m.keep f).properties.get? name = m.properties.get? name :=
    fun name hname => get?_response_keep m name hname (hnames name hname)
  refine ⟨(options_keep m f).trans h.options_eq, ?_, ?_, ⟨?_, ?_, ?_⟩,
    h.isSome_encoding_keep hheader⟩
  · rw [hresponse, htold.1, h.response_eq]
  · rw [hresponse, hsame _ (by decide), h.intent_eq]
  · rw [htold.2, hsame _ (by decide), h.reported.gamma_eq]
  · rw [hresponse, ← h.reported.chromaticities_eq]
    exact List.map_congr_left fun name hname => hsame name (List.mem_append_right _ hname)
  · intro p hp
    obtain ⟨old, rfl, hold⟩ := h.recorded_of_keep hheader hp
    obtain ⟨hgamma, hchromaticities⟩ := hrecorded old
    rw [htold.2, hresponse, hgamma, hchromaticities]
    exact hold

theorem keep_gamma (hintent : m.response.intent = none) (hkind : c.kind = .gamma) :
    ResponseTrace o (chunks ++ [c]) (m.keep (.gamma (gammaOf c.data))) := by
  obtain ⟨htold, hgamma⟩ := told_append_gamma o (h.firstOf_eq_none hintent) hkind
  have hreported : ToneResponse.reportedGamma { m.response with fileGamma := gammaOf c.data }
      m.options.correctGamma = o.scaled (gammaOf c.data) := h.reportedGamma_eq rfl rfl
  have hsame : ∀ name ∈ responseNames, name ≠ "gamma" →
      (m.keep (.gamma (gammaOf c.data))).properties.get? name = m.properties.get? name :=
    fun name hname hne => get?_response_keep m name hname (by simpa [Finding.names] using hne)
  refine ⟨h.options_eq, ?_, ?_, ⟨?_, ?_, ?_⟩, h.isSome_encoding_keep (by simp)⟩
  · simp [htold, h.response_eq]
  · rw [hsame _ (by decide) (by decide), h.intent_eq, response_keep]
  · rw [hgamma, properties_keep, Metadata.reported, hreported]
    exact (Properties.get?_insert _ _ _ _).trans (if_pos rfl)
  · rw [response_keep, ← h.reported.chromaticities_eq]
    refine List.map_congr_left fun name hname => hsame name (List.mem_append_right _ hname) ?_
    rintro rfl
    exact absurd hname (by decide)
  · intro p hp
    obtain ⟨old, rfl, -, hchromaticities⟩ := h.recorded_of_keep (by simp) hp
    obtain ⟨hnew, hkept⟩ := response_recorded m (.gamma (gammaOf c.data)) old
    exact ⟨hnew.trans ((congrArg some hreported).trans hgamma.symm), hkept.trans hchromaticities⟩

theorem keep_chromaticities (hintent : m.response.intent = none) (hkind : c.kind = .chromaticities) :
    ResponseTrace o (chunks ++ [c]) (m.keep (.chromaticities (.ofBytes c.data))) := by
  obtain ⟨htold, hgamma⟩ := told_append_chromaticities o (h.firstOf_eq_none hintent) hkind
  have hsame : ∀ name ∈ ["rendering_intent", "gamma"],
      (m.keep (.chromaticities (.ofBytes c.data))).properties.get? name = m.properties.get? name :=
    get?_insertAll_chromaticities m.properties _
  refine ⟨h.options_eq, ?_, ?_, ⟨?_, ?_, ?_⟩, h.isSome_encoding_keep (by simp)⟩
  · simp [htold, h.response_eq]
  · rw [hsame _ (by simp), h.intent_eq, response_keep]
  · rw [hsame _ (by simp), h.reported.gamma_eq, hgamma]
  · exact map_get?_chromaticities m.properties _
  · intro p hp
    obtain ⟨old, rfl, hold, -⟩ := h.recorded_of_keep (by simp) hp
    obtain ⟨hkept, hnew⟩ := response_recorded m (.chromaticities (.ofBytes c.data)) old
    exact ⟨by rw [hkept, hold, hgamma], hnew⟩

theorem keep_standardRgb (hintent : m.response.intent = none) (hkind : c.kind = .standardRgb) :
    ResponseTrace o (chunks ++ [c]) (m.keep (.standardRgb (numberAt c.data 0 1))) := by
  obtain ⟨htold, hgamma⟩ := told_append_standardRgb o (h.firstOf_eq_none hintent) hkind
  have hreported : (m.response.withStandardRgb (numberAt c.data 0 1)).reportedGamma
      m.options.correctGamma = o.scaled defaultFileGamma := h.reportedGamma_eq rfl rfl
  -- It reports the intent, and the gamma and chromaticities of its colour space.
  have hprops : (m.keep (.standardRgb (numberAt c.data 0 1))).properties =
      ((m.properties.insert "rendering_intent" (.integer (numberAt c.data 0 1))).insert "gamma"
        (.number (o.scaled defaultFileGamma))).insertAll
        (Chromaticities.keys.zip (Chromaticities.standardRgb.toList.map .number)) := by
    rw [properties_keep, Metadata.reported, hreported, Properties.insertAll_append]
    rfl
  refine ⟨h.options_eq, ?_, ?_, ⟨?_, ?_, ?_⟩, h.isSome_encoding_keep (by simp)⟩
  · simp [htold, h.response_eq]
  · rw [hprops, get?_insertAll_chromaticities _ _ _ (by simp), Properties.get?_insert,
      if_neg (by decide), Properties.get?_insert, if_pos rfl]
    rfl
  · rw [hprops, get?_insertAll_chromaticities _ _ _ (by simp), Properties.get?_insert, if_pos rfl,
      hgamma, Option.map_some]
  · rw [hprops]
    exact map_get?_chromaticities _ _
  · intro p hp
    obtain ⟨old, rfl, -, -⟩ := h.recorded_of_keep (by simp) hp
    obtain ⟨hnew, hnew'⟩ := response_recorded m (.standardRgb (numberAt c.data 0 1)) old
    exact ⟨hnew.trans ((congrArg some hreported).trans hgamma.symm), hnew'⟩

theorem reportsStandardRgb {first : Chunk} (hfirst : firstOf .standardRgb chunks = some first)
    (hdata : ∃ intent rest, first.data = intent :: rest ∧
      numberAt first.data 0 1 = intent.toNat) : m.ReportsStandardRgb o first := by
  have hgamma : gammaTold o chunks = some (o.scaled defaultFileGamma) := by
    rw [gammaTold, hfirst, Option.isSome_some, if_pos rfl]
  have hreported := h.reported
  have hresponse := h.response_eq
  rw [hresponse] at hreported
  simp only [responseOf, hfirst] at hresponse hreported
  rw [hgamma] at hreported
  refine ⟨?_, fun bits => by rw [hresponse]; rfl, hreported⟩
  obtain ⟨intent, rest, hdata, hintent⟩ := hdata
  refine ⟨intent, rest, hdata, ?_⟩
  rw [h.intent_eq, hresponse, ← hintent, Option.map_some]

theorem reportsLastResponse (hnone : firstOf .standardRgb chunks = none) :
    m.ReportsLastResponse o chunks := by
  have hgamma : gammaTold o chunks =
      (lastOf .gamma chunks).elim o.assumedGamma fun c => some (o.scaled (gammaOf c.data)) := by
    rw [gammaTold, hnone, Option.isSome_none, if_neg Bool.false_ne_true]
  have hreported := h.reported
  have hresponse := h.response_eq
  rw [hresponse] at hreported
  simp only [responseOf, hnone] at hresponse hreported
  rw [hgamma] at hreported
  refine ⟨?_, fun bits => by rw [hresponse]; rfl, hreported⟩
  rw [h.intent_eq, hresponse]
  rfl

end ResponseTrace

variable [Libraries]

/-- One more chunk is found again like those before it. -/
theorem responseTrace_keep {o : Options} {chunks : List Chunk} {m : Metadata} {c : Chunk}
    {f : Finding} (h : ResponseTrace o chunks m) (hread : m.read c = .ok f)
    (hheader : ∀ other, f ≠ .header other) : ResponseTrace o (chunks ++ [c]) (m.keep f) := by
  cases tellsResponse_of_read hread with
  | settled hintent hkind =>
    exact h.keep_of_same hheader (by simp [Finding.names])
      (told_append_of_named o (h.isSome_firstOf hintent) c)
  | gamma hintent hkind => exact h.keep_gamma hintent hkind
  | chromaticities hintent hkind => exact h.keep_chromaticities hintent hkind
  | standardRgb hintent hkind hdata => exact h.keep_standardRgb hintent hkind
  | other hkind =>
    exact h.keep_of_same hheader (not_mem_names_of_other hkind (of_read hread) hheader)
      (told_append_of_other o chunks hkind)

/-- What is known after accepted chunks tells of their response. -/
theorem responseTrace_acceptAll {o : Options} {chunks : List Chunk} {m : Metadata}
    (hheader : chunks.head?.map Chunk.kind = some .header)
    (h : acceptAll chunks (.new o) = .ok () m) : ResponseTrace o chunks m :=
  acceptAll_behind_header responseTrace_keep (fun hkind _ => responseTrace_header hkind _) hheader h

/-- The first chunk that names the standard RGB space is read, so it has an intent in front. -/
theorem exists_intent {o : Options} {chunks : List Chunk} {m : Metadata} {first : Chunk}
    (hheader : chunks.head?.map Chunk.kind = some .header)
    (h : acceptAll chunks (.new o) = .ok () m)
    (hfirst : firstOf .standardRgb chunks = some first) :
    ∃ intent rest, first.data = intent :: rest ∧ numberAt first.data 0 1 = intent.toNat := by
  obtain ⟨hkind, front, back, rfl, hfront⟩ := List.find?_eq_some_iff_append.1 hfirst
  have hkind : first.kind = .standardRgb := by simpa using hkind
  have hnone : firstOf .standardRgb front = none :=
    List.find?_eq_none.2 fun c hc => by simpa using hfront c hc
  obtain ⟨between, hbetween, hback⟩ := exists_of_acceptAll_append h
  -- What is read there depends on the chunks in front, which a header starts, too.
  have hstart : front.head?.map Chunk.kind = some .header := by
    cases front with
    | nil => simp [hkind] at hheader
    | cons c front => exact hheader
  have trace := responseTrace_acceptAll hstart hbetween
  have hintent : between.response.intent = none := by
    rw [trace.response_eq, intent_responseOf, hnone, Option.map_none]
  have hdata : first.data ≠ [] := by
    unfold acceptAll at hback
    split at hback
    · next next hnext =>
      obtain ⟨f, hread, -⟩ := accept_eq_ok_iff.1 hnext
      cases tellsResponse_of_read hread with
      | settled hsome _ => simp [hintent] at hsome
      | standardRgb _ _ hdata => exact hdata
      | gamma _ hother | chromaticities _ hother | other hother =>
        simp [hkind, responseKinds] at hother
    · cases hback
  obtain ⟨intent, rest, hcons⟩ := List.exists_cons_of_ne_nil hdata
  exact ⟨intent, rest, hcons, by simp [hcons, numberAt, BigEndian.decode]⟩

/-- Behind the standard RGB space chunks about the response change nothing, whatever their data. -/
theorem acceptAll_of_settled {m : Metadata} {chunks : List Chunk}
    (hintent : m.response.intent.isSome = true) (h : ∀ c ∈ chunks, c.kind ∈ responseKinds) :
    acceptAll chunks m = .ok () m := by
  induction chunks with
  | nil => rfl
  | cons c chunks ih =>
    obtain ⟨hkind, hrest⟩ := List.forall_mem_cons.1 h
    have haccept : m.accept c = .ok m := by
      rw [accept, read_of_settled hintent hkind]
      rfl
    rw [acceptAll, haccept]
    exact ih hrest

/-- So they can be exchanged for any others. -/
theorem acceptAll_exchange {o : Options} {front passed others back : List Chunk} {m : Metadata}
    (hheader : front.head?.map Chunk.kind = some .header)
    (hnamed : (firstOf .standardRgb front).isSome = true)
    (hpassed : ∀ c ∈ passed, c.kind ∈ responseKinds)
    (hothers : ∀ c ∈ others, c.kind ∈ responseKinds)
    (h : acceptAll (front ++ passed ++ back) (.new o) = .ok () m) :
    acceptAll (front ++ others ++ back) (.new o) = .ok () m := by
  rw [List.append_assoc] at h ⊢
  obtain ⟨between, hbetween, hrest⟩ := exists_of_acceptAll_append h
  have trace := responseTrace_acceptAll hheader hbetween
  have hintent : between.response.intent.isSome = true := by
    rwa [trace.response_eq, intent_responseOf, Option.isSome_map]
  rw [acceptAll_append, acceptAll_of_settled hintent hpassed] at hrest
  rw [acceptAll_append, hbetween]
  show acceptAll (others ++ back) between = _
  rw [acceptAll_append, acceptAll_of_settled hintent hothers]
  exact hrest

/-- What a decoder knows that has read the chunks `chunks`. -/
structure KnowsResponse [Libraries] (m : Metadata) (o : Options) (chunks : List Chunk) :
    Prop where
  isSome_encoding : m.encoding.isSome = o.recordEncoding
  /-- Where the standard RGB space is named, the first chunk that does so is reported, and nothing
  of other chunks about the response. -/
  named : ∀ first, firstOf .standardRgb chunks = some first → m.ReportsStandardRgb o first
  /-- Those behind that chunk can be exchanged for any others, of any data. -/
  exchanged : ∀ first, firstOf .standardRgb chunks = some first →
    ∀ front passed others back, chunks = front ++ passed ++ back → first ∈ front →
      (∀ c ∈ passed, c.kind ∈ responseKinds) → (∀ c ∈ others, c.kind ∈ responseKinds) →
      ∀ other : Source, other.Carries (front ++ others ++ back) →
        ∃ d', Decoder.readHeaders (.new other o) = .ok () d' ∧ d'.metadata = m
  /-- Otherwise the last gamma and the last chromaticities are reported. -/
  unnamed : firstOf .standardRgb chunks = none → m.ReportsLastResponse o chunks

end Metadata

/-- A file that names the standard RGB space reports the intent of the first chunk that does, the
gamma and the chromaticities of that space, and nothing of other chunks about the response; those
behind that first chunk can be exchanged for any others, of any data. Another file reports its last
gamma and its last chromaticities, and without a gamma the one that is assumed. The gamma and the
chromaticities are recorded for an encoder as they are reported. -/
theorem response_exact [Libraries] {source : Source} {o : Options} {chunks : List Chunk}
    {d : Decoder} (h : source.Carries chunks)
    (hread : Decoder.readHeaders (.new source o) = .ok () d) :
    d.metadata.KnowsResponse o chunks := by
  obtain ⟨hheader, haccept⟩ := Decoder.acceptAll_of_readHeaders h hread
  have trace := Metadata.responseTrace_acceptAll hheader haccept
  refine ⟨trace.isSome_encoding, fun first hfirst => ?_, fun first hfirst => ?_,
    trace.reportsLastResponse⟩
  · exact trace.reportsStandardRgb hfirst (Metadata.exists_intent hheader haccept hfirst)
  · rintro front passed others back rfl hmem hpassed hothers other hcarries
    have hstart : ∀ changed, (front ++ changed ++ back).head? = front.head? := fun changed => by
      rw [List.append_assoc, List.head?_append_of_ne_nil _ (List.ne_nil_of_mem hmem)]
    have hnamed : (firstOf .standardRgb front).isSome = true :=
      isSome_firstOf_iff.2 ⟨first, hmem, by simpa using List.find?_some hfirst⟩
    rw [hstart] at hheader
    have haccept' := Metadata.acceptAll_exchange hheader hnamed hpassed hothers haccept
    rw [← hstart others] at hheader
    exact ⟨_, Decoder.readHeaders_of_carries hcarries hheader haccept', rfl⟩

/-- The chunks of a gray pixel with a gamma, the standard RGB space, and chunks that are then passed
over: a gamma without data and the same space with another intent. -/
def settledEarly : List Chunk :=
  [{ tag := .ofChars 'I' 'H' 'D' 'R', data := [0, 0, 0, 1, 0, 0, 0, 1, 8, 0, 0, 0, 0] },
    { tag := .ofChars 'g' 'A' 'M' 'A', data := [0, 1, 134, 160] },
    { tag := .ofChars 's' 'R' 'G' 'B', data := [2] },
    { tag := .ofChars 'g' 'A' 'M' 'A', data := [] },
    { tag := .ofChars 's' 'R' 'G' 'B', data := [1] },
    { tag := .ofChars 'I' 'E' 'N' 'D', data := [] }]

/-- The first intent is reported, with the gamma of the space. -/
theorem response_exact_settledEarly :
    ∃ d, Decoder.readHeaders (.new (.ofChunks settledEarly) { recordEncoding := true }) =
        .ok () d ∧
      d.metadata.properties.get? "rendering_intent" = some (.integer 2) ∧
      d.metadata.properties.get? "gamma" = some (.number defaultFileGamma) ∧
      d.metadata.encoding.isSome = true := by
  have hcarries : (Source.ofChunks settledEarly).Carries settledEarly :=
    Source.carries_ofChunks (by decide) rfl (by decide)
  have hread := Decoder.readHeaders_of_carries (o := { recordEncoding := true }) hcarries rfl rfl
  have told := response_exact hcarries hread
  have named := told.named _ rfl
  obtain ⟨intent, rest, hdata, hintent⟩ := named.intent_eq
  cases hdata
  exact ⟨_, hread, hintent, named.reported.gamma_eq, told.isSome_encoding⟩

end Png
