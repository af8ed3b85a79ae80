import Png.Libraries.Own
import Png.Proofs.Consistency
import Png.Proofs.PixelDensity

/-!
# What is reported and what is recorded

With encoding parameters asked for, several facts about a file are kept twice: reported as
properties and recorded for an encoder. `Agrees` says that both tell the same, of
`EncodeParams.report` name by name, and of the significant bits, the background and the transparent
sample as they are told.
A finding records what it reports (`reports_keep`) and every chunk that is accepted keeps the
agreement (`Agrees.keep`), so that it holds behind a header and any chunks at all
(`agrees_afterAll`).
-/

namespace Png

/-- The names under which parameters are reported as they are recorded, with the values that there
should be, if any. -/
def EncodeParams.report (p : EncodeParams) : List (String × Option PropertyValue) :=
  let chromaticity (x : Chromaticities → Float32) : Option PropertyValue :=
    p.chromaticities.map fun c => .number (x c)
  [("gamma", p.gamma.map .number),
    ("white_point_x", chromaticity (·.whiteX)), ("white_point_y", chromaticity (·.whiteY)),
    ("red_x", chromaticity (·.redX)), ("red_y", chromaticity (·.redY)),
    ("green_x", chromaticity (·.greenX)), ("green_y", chromaticity (·.greenY)),
    ("blue_x", chromaticity (·.blueX)), ("blue_y", chromaticity (·.blueY)),
    ("palette_histogram", p.histogram.map .integers),
    ("timestamp", p.modified.map .date),
    ("x_pixels_per_unit", p.pixelDensity.map fun d => .integer d.x),
    ("y_pixels_per_unit", p.pixelDensity.map fun d => .integer d.y)]

namespace EncodeKind

/-- The background that is recorded. -/
def background? : EncodeKind → Option Background
  | palette background => background.map .index
  | gray background _ => background.map .gray
  | rgb background _ => background.map .rgb

/-- The transparent gray sample that is recorded. -/
def transparentGray? : EncodeKind → Option Nat
  | gray _ transparent => transparent
  | _ => none

/-- The transparent colour that is recorded. -/
def transparentRgb? : EncodeKind → Option (Nat × Nat × Nat)
  | rgb _ transparent => transparent
  | _ => none

end EncodeKind

/-- The colour in which a background is reported: a gray level and a colour are scaled to eight
bits, and an index has the colour that the palette gives it when it comes. -/
def Background.ShownAs (depth : Nat) (color : Rgb) : Background → Prop
  | .index _ => True
  | .gray level =>
    let byte := Metadata.sampleToByte level depth
    color = ⟨byte, byte, byte⟩
  | .rgb (red, green, blue) =>
    color = ⟨Metadata.sampleToByte red depth, Metadata.sampleToByte green depth,
      Metadata.sampleToByte blue depth⟩

/-- What is reported of a background that may be recorded: nothing where there is none. -/
def Background.ReportedAs (depth : Nat) : Option Background → Option PropertyValue → Prop
  | none, value => value = none
  | some background, value =>
    ∃ color, value = some (.color color) ∧ background.ShownAs depth color

/-- The background is of the form that images of this colour type have. -/
def Background.Fits (color : ColorType) : Background → Prop
  | .index _ => color = .palette
  | .gray _ => color = .gray ∨ color = .grayAlpha
  | .rgb _ => color = .rgb ∨ color = .rgba

namespace EncodeKind

variable {color : ColorType} {kind : EncodeKind}

theorem background?_withBackground (hkind : kind.Fits color) {background : Background}
    (hfits : background.Fits color) :
    (kind.withBackground background).background? = some background := by
  -- Where the two are of different forms, no colour type has both.
  cases color <;> cases background <;> cases kind <;>
    simp_all [withBackground, background?, Fits, Background.Fits]

theorem background?_withTransparency (kind : EncodeKind) (t : Transparency) :
    (kind.withTransparency t).background? = kind.background? := by
  cases t <;> cases kind <;> rfl

theorem transparent_withBackground (kind : EncodeKind) (background : Background) :
    (kind.withBackground background).transparentGray? = kind.transparentGray? ∧
      (kind.withBackground background).transparentRgb? = kind.transparentRgb? := by
  cases background <;> cases kind <;> exact ⟨rfl, rfl⟩

/-- Behind a transparency that fits the colour type, its sample or colour alone is recorded. -/
theorem transparent_withTransparency (hkind : kind.Fits color) {t : Transparency}
    (hfits : t.Fits color) (k : Nat) (c : Nat × Nat × Nat) :
    ((kind.withTransparency t).transparentGray? = some k ↔ t = .grayKey k) ∧
      ((kind.withTransparency t).transparentRgb? = some c ↔ t = .rgbKey c.1 c.2.1 c.2.2) := by
  obtain ⟨red, green, blue⟩ := c
  cases t <;> cases kind <;>
    simp_all [withTransparency, transparentGray?, transparentRgb?, Fits, Transparency.Fits]

end EncodeKind

/-! ## What a finding reports and records -/

/-- Of values that are put in under different names each is found. -/
theorem Properties.get?_insertAll_of_mem {p : Properties} {values : List (String × PropertyValue)}
    (hnames : (values.map fun entry => Text.lowerCase entry.1).Nodup) {name : String}
    {value : PropertyValue} (hmem : (name, value) ∈ values) :
    (p.insertAll values).get? name = some value := by
  obtain ⟨front, back, rfl⟩ := List.append_of_mem hmem
  have hbehind : ∀ entry ∈ back, Text.lowerCase name ≠ Text.lowerCase entry.1 := by
    simp only [List.map_append, List.map_cons, List.nodup_append, List.nodup_cons] at hnames
    intro entry hentry heq
    exact hnames.2.1.1 (heq ▸ List.mem_map_of_mem hentry)
  rw [insertAll_append, insertAll, List.foldl_cons, ← insertAll, get?_insertAll_of_ne hbehind,
    get?_insert, if_pos rfl]

namespace Metadata

variable {m : Metadata} {f : Finding} {p : EncodeParams}

/-- The names under which parameters are reported as they are recorded. -/
def reportNames : List String :=
  ["gamma"] ++ Chromaticities.keys ++
    ["palette_histogram", "timestamp", "x_pixels_per_unit", "y_pixels_per_unit"]

theorem mem_reportNames {entry : String × Option PropertyValue} (hentry : entry ∈ p.report) :
    entry.1 ∈ reportNames :=
  List.mem_map_of_mem hentry

/-- A finding that reports none of these names leaves what is recorded under them alone. -/
theorem report_recorded (hnames : ∀ name ∈ reportNames, name ∉ f.names) :
    (m.recorded f p).report = p.report := by
  cases f with
  | header _ | gamma _ | chromaticities _ | standardRgb _ | histogram _ | physicalSize _ | time _ =>
    exact absurd hnames (by simp only [Finding.names]; decide)
  | transparency t =>
    simp only [recorded]
    split <;> rfl
  | _ => rfl

/-- A finding that tells of one of these facts reports different names. -/
theorem nodup_reported (hnames : ¬∀ name ∈ reportNames, name ∉ f.names) :
    ((m.reported f).map fun entry => Text.lowerCase entry.1).Nodup := by
  have hsub : ((m.reported f).map (·.1)).Sublist f.names := by
    cases f with
    | header h =>
      rw [reported, headerProperties]
      cases m.startingGamma with
      | none => exact List.sublist_append_left _ ["gamma"]
      | some gamma => exact List.Sublist.refl _
    | physicalSize density =>
      rw [reported, densityProperties]
      split
      · exact List.Sublist.refl _
      · exact List.sublist_append_left _ ["pixel_units"]
    | gamma _ | chromaticities _ | standardRgb _ | histogram _ | time _ => exact List.Sublist.refl _
    | _ => exact absurd (by simp only [Finding.names]; decide) hnames
  have hnodup : (f.names.map Text.lowerCase).Nodup := by
    cases f <;> simp only [Finding.names] <;> decide
  have hlower := (hsub.map Text.lowerCase).nodup hnodup
  rwa [List.map_map] at hlower

/-- What is recorded was recorded before, under a name that the finding does not report, or it is
what the finding reports. -/
theorem report_cases (hheader : ∀ other, f ≠ .header other)
    (hnames : ¬∀ name ∈ reportNames, name ∉ f.names) :
    ∀ entry ∈ (m.recorded f p).report, entry.1 ∉ f.names ∧ entry ∈ p.report ∨
      ∃ value, entry.2 = some value ∧ (entry.1, value) ∈ m.reported f := by
  cases f with
  | header other => exact absurd rfl (hheader other)
  | gamma _ | chromaticities _ | standardRgb _ | histogram _ | physicalSize _ | time _ =>
    simp [EncodeParams.report, recorded, reported, Finding.names, Chromaticities.keys,
      Chromaticities.toList, densityProperties]
  | _ => exact absurd (by simp only [Finding.names]; decide) hnames

/-- Under one of these names there is what was there before, unless the finding reports it. -/
theorem get?_report_keep (m : Metadata) {name : String} (hname : name ∈ reportNames)
    (hother : name ∉ f.names) : (m.keep f).properties.get? name = m.properties.get? name := by
  have hlower : ∀ name ∈ reportNames, Text.lowerCase name = name := by decide
  have hstem : ∀ name ∈ reportNames, ∀ stem ∈ numberedStems,
      ¬ stem.toList <+: name.toList := by decide
  exact get?_keep m (hlower name hname) (hstem name hname) hother

/-- A finding reports what it records. -/
theorem reports_keep (hheader : ∀ other, f ≠ .header other)
    (h : ∀ entry ∈ p.report, m.properties.get? entry.1 = entry.2) :
    ∀ entry ∈ (m.recorded f p).report, (m.keep f).properties.get? entry.1 = entry.2 := by
  intro entry hentry
  have hname := mem_reportNames hentry
  by_cases hnames : ∀ name ∈ reportNames, name ∉ f.names
  · rw [report_recorded hnames] at hentry
    rw [get?_report_keep m hname (hnames entry.1 hname), h entry hentry]
  · have hcases := report_cases hheader hnames entry hentry
    rcases hcases with ⟨hother, hbefore⟩ | ⟨value, hvalue, hmem⟩
    · rw [get?_report_keep m hname hother, h entry hbefore]
    · rw [properties_keep, Properties.get?_insertAll_of_mem (nodup_reported hnames) hmem, hvalue]

/-! ## The agreement -/

/-- The two agree, where they are about the header `h`. -/
structure Agrees (h : Header) (m : Metadata) (p : EncodeParams) : Prop where
  /-- What is recorded is reported, and nothing else is under these names. -/
  reported : ∀ entry ∈ p.report, m.properties.get? entry.1 = entry.2
  /-- Significant bits that are recorded are known and reported. -/
  significantBits : ∀ bits, p.significantBits = some bits → m.significantBits = some bits ∧
    m.properties.get? "significant_bits" = some (.integers bits)
  /-- A background is reported where one is recorded, a gray level or a colour in eight bits. -/
  background : Background.ReportedAs h.depth p.kind.background?
    (m.properties.get? "background_color")
  /-- A transparent gray sample is recorded where it is in force. -/
  transparentGray : ∀ key, p.kind.transparentGray? = some key ↔
    m.transparency = some (.grayKey key) ∧ m.options.suppressAlpha = false
  /-- A transparent colour is recorded where it is in force. -/
  transparentRgb : ∀ color : Nat × Nat × Nat, p.kind.transparentRgb? = some color ↔
    m.transparency = some (.rgbKey color.1 color.2.1 color.2.2) ∧ m.options.suppressAlpha = false

/-- A background that is read is of the form of the colour type, and shown as it should be. -/
theorem background_of_read [Libraries] {c : Chunk} {background : Background} {color : Rgb}
    (hread : m.read c = .ok (.background background color)) :
    ∃ h, m.header = some h ∧ background.Fits h.color ∧ background.ShownAs h.depth color := by
  have hkind : c.kind = .background := of_read hread
  simp only [read, hkind, readBackground, requireHeader, demand_eq_ok_iff, bind_eq_ok_iff, pure,
    Except.pure] at hread
  obtain ⟨h, hheader, hread⟩ := hread
  refine ⟨h, hheader, ?_⟩
  -- One case for each colour type, in the order in which they are told apart.
  split at hread <;> simp only [bind_eq_ok_iff, Except.ok.injEq, Finding.background.injEq] at hread
  · next hcolor =>
    obtain ⟨palette, -, index, -, color, -, rfl, rfl⟩ := hread
    exact ⟨hcolor, trivial⟩
  · next hcolor =>
    obtain ⟨level, -, rfl, rfl⟩ := hread
    exact ⟨.inl hcolor, rfl⟩
  · next hcolor =>
    obtain ⟨level, -, rfl, rfl⟩ := hread
    exact ⟨.inr hcolor, rfl⟩
  · next hcolor =>
    obtain ⟨red, -, green, -, blue, -, rfl, rfl⟩ := hread
    exact ⟨.inl hcolor, rfl⟩
  · next hcolor =>
    obtain ⟨red, -, green, -, blue, -, rfl, rfl⟩ := hread
    exact ⟨.inr hcolor, rfl⟩

/-- The kind that is recorded comes from backgrounds and transparencies. -/
@[simp]
theorem kind_recorded (m : Metadata) (f : Finding) (p : EncodeParams) :
    (m.recorded f p).kind = match f with
      | .background background _ => p.kind.withBackground background
      | .transparency t => if m.options.suppressAlpha then p.kind else p.kind.withTransparency t
      | _ => p.kind := by
  cases f
  case transparency t =>
    simp only [recorded]
    split <;> rfl
  all_goals rfl

/-- Only a background reports one. -/
theorem get?_background_keep (m : Metadata) (f : Finding) :
    (m.keep f).properties.get? "background_color" = match f with
      | .background _ color => some (.color color)
      | _ => m.properties.get? "background_color" := by
  cases f with
  | background background color =>
    rw [properties_keep]
    exact (Properties.get?_insert _ _ _ _).trans (if_pos rfl)
  | _ => exact get?_keep m (by decide) (by decide) (by simp only [Finding.names]; decide)

namespace Agrees

variable [Libraries] {h : Header} {o : Options} {chunks : List Chunk} {c : Chunk}
  (hm : m.Consistent h o chunks) (hp : Agrees h m p) (hread : m.read c = .ok f)

include hm hp hread

/-- Significant bits that are recorded stay known. -/
theorem significantBits_keep : ∀ bits, (m.recorded f p).significantBits = some bits →
    (m.keep f).significantBits = some bits ∧
      (m.keep f).properties.get? "significant_bits" = some (.integers bits) := by
  intro bits hbits
  have hknown : (m.keep f).significantBits = some bits := by
    rw [significantBits_recorded] at hbits
    rw [Metadata.significantBits_keep]
    cases f with
    | significantBits _ => exact hbits
    | imageEnd full =>
      -- The end of the file gives bits only where none are known.
      simp only [(hp.significantBits bits hbits).1, Option.getD_some]
    | _ => exact (hp.significantBits bits hbits).1
  refine ⟨hknown, ?_⟩
  have hreports : (m.keep f).ReportsBits := reportsBits_keep hm.reportsBits f
  rw [hreports, hknown, Option.map_some]

/-- A background is recorded as it is reported. -/
theorem background_keep (hrecorded : m.encoding = some p) :
    Background.ReportedAs h.depth (m.recorded f p).kind.background?
      ((m.keep f).properties.get? "background_color") := by
  rw [kind_recorded, get?_background_keep]
  cases f with
  | background background color =>
    -- It has the form of the kind, whose place it therefore takes.
    obtain ⟨hd, hheader, hfits, hshown⟩ := background_of_read hread
    rw [hm.header_eq, Option.some_inj] at hheader
    subst hheader
    rw [EncodeKind.background?_withBackground (hm.encoding_form p hrecorded).1 hfits]
    exact ⟨color, rfl, hshown⟩
  | transparency t =>
    have hsame : (if m.options.suppressAlpha then p.kind
        else p.kind.withTransparency t).background? = p.kind.background? := by
      split
      · rfl
      · exact EncodeKind.background?_withTransparency p.kind t
    exact hsame ▸ hp.background
  | _ => exact hp.background

/-- A transparent sample or colour is recorded when it comes into force. -/
theorem transparent_keep (hrecorded : m.encoding = some p) (key : Nat) (color : Nat × Nat × Nat) :
    ((m.recorded f p).kind.transparentGray? = some key ↔
      (m.keep f).transparency = some (.grayKey key) ∧
        (m.keep f).options.suppressAlpha = false) ∧
    ((m.recorded f p).kind.transparentRgb? = some color ↔
      (m.keep f).transparency = some (.rgbKey color.1 color.2.1 color.2.2) ∧
        (m.keep f).options.suppressAlpha = false) := by
  have hbefore := And.intro (hp.transparentGray key) (hp.transparentRgb color)
  have hfits := hm.transparency_fits_keep hread
  rw [kind_recorded, transparency_keep, options_keep]
  rw [transparency_keep] at hfits
  cases f with
  | background background _ =>
    obtain ⟨hgray, hrgb⟩ := EncodeKind.transparent_withBackground p.kind background
    rw [hgray, hrgb]
    exact hbefore
  | transparency t =>
    cases hsuppressed : m.options.suppressAlpha with
    | true =>
      -- Nothing was recorded before, whatever was in force, and nothing is now.
      rw [hsuppressed] at hbefore
      simpa using hbefore
    | false =>
      have hkind := (hm.encoding_form p hrecorded).1
      simpa using EncodeKind.transparent_withTransparency hkind (hfits t rfl) key color
  | _ => exact hbefore

/-- A chunk that is accepted keeps the agreement. -/
theorem keep (hrecorded : m.encoding = some p) : Agrees h (m.keep f) (m.recorded f p) where
  reported := reports_keep (hm.not_header hread) hp.reported
  significantBits := hp.significantBits_keep hm hread
  background := hp.background_keep hm hread hrecorded
  transparentGray key := (hp.transparent_keep hm hread hrecorded key (0, 0, 0)).1
  transparentRgb color := (hp.transparent_keep hm hread hrecorded 0 color).2

end Agrees

/-- Of these names a header, which comes first, reports the gamma alone, where one is assumed. -/
theorem get?_keepHeader (o : Options) (h : Header) :
    ∀ key ∈ reportNames ++ ["background_color"],
      ((new o).keep (.header h)).properties.get? key =
        if key = "gamma" then (new o).startingGamma.map .number else none := by
  intro key hkey
  -- The other names of a header are not among them.
  have hothers : ∀ key ∈ reportNames ++ ["background_color"],
      ∀ other ∈ ["file_type", "color_type", "bit_depth", "interlace_method"],
        Text.lowerCase key ≠ Text.lowerCase other := by decide
  have hgamma : ∀ key ∈ reportNames ++ ["background_color"],
      Text.lowerCase key = Text.lowerCase "gamma" ↔ key = "gamma" := by decide
  have hfront : ((new o).properties.insertAll [("color_type", .text h.color.title),
      ("bit_depth", .integer h.depth), ("interlace_method", .text h.interlace.title)]).get? key =
        none := by
    rw [Properties.get?_insertAll_of_ne, new, Properties.get?_insert,
      if_neg (hothers key hkey "file_type" (by simp))]
    · rfl
    · simp only [List.forall_mem_cons, List.not_mem_nil, false_implies, implies_true, and_true]
      exact ⟨hothers key hkey _ (by simp), hothers key hkey _ (by simp),
        hothers key hkey _ (by simp)⟩
  rw [properties_keep, reported, headerProperties, Properties.insertAll_append]
  cases (new o).startingGamma with
  | none => exact hfront.trans (ite_self none).symm
  | some gamma =>
    refine (Properties.get?_insert _ "gamma" key _).trans ?_
    simp only [hfront, hgamma key hkey, Option.map_some]

/-- Behind a header the two agree, and no significant bits are recorded. -/
theorem agrees_keepHeader {o : Options} {h : Header}
    (hp : ((new o).keep (.header h)).encoding = some p) :
    Agrees h ((new o).keep (.header h)) p ∧ p.significantBits = none := by
  -- All that is recorded is what the header says and the gamma that is assumed.
  have hstart : p = { EncodeParams.ofHeader h with gamma := (new o).startingGamma } := by
    rw [encoding_keepHeader] at hp
    split at hp <;> cases hp
    rfl
  have hkind : p.kind.background? = none ∧ p.kind.transparentGray? = none ∧
      p.kind.transparentRgb? = none := by
    rw [hstart, EncodeParams.ofHeader]
    cases h.color <;> exact ⟨rfl, rfl, rfl⟩
  obtain ⟨hbackground, hgray, hrgb⟩ := hkind
  have hvalues : ∀ entry ∈ p.report,
      entry.2 = if entry.1 = "gamma" then (new o).startingGamma.map .number else none := by
    rw [hstart]
    simp [EncodeParams.report, EncodeParams.ofHeader]
  refine ⟨⟨fun entry hentry => ?_, ?_, ?_, fun key => ?_, fun color => ?_⟩, ?_⟩
  · have hname := mem_reportNames hentry
    rw [get?_keepHeader o h entry.1 (List.mem_append_left _ hname), hvalues entry hentry]
  · rw [hstart]
    intro bits hbits
    cases hbits
  · rw [hbackground]
    exact get?_keepHeader o h "background_color" (by simp)
  · rw [hgray]
    refine iff_of_false (by simp) ?_
    rintro ⟨hkey, -⟩
    cases hkey
  · rw [hrgb]
    refine iff_of_false (by simp) ?_
    rintro ⟨hkey, -⟩
    cases hkey
  · rw [hstart]
    rfl

/-! ## Runs of chunks -/

/-- Significant bits are recorded where they were before, and for a chunk of that kind. -/
theorem isSome_significantBits_recorded (m : Metadata) (p : EncodeParams) {c : Chunk}
    (hof : f.Of c.kind) : (m.recorded f p).significantBits.isSome ↔
      p.significantBits.isSome ∨ c.kind = .significantBits := by
  rw [significantBits_recorded]
  cases f with
  | nothing =>
    simp only [Finding.Of, List.mem_cons, List.not_mem_nil, or_false] at hof
    rcases hof with hof | hof | hof | hof | hof <;> simp [hof]
  | _ =>
    have hkind : c.kind = _ := hof
    simp [hkind]

section

variable [Libraries]

/-- The chunks that are accepted where they stand, behind those in front of them. -/
def accepted (m : Metadata) : List Chunk → List Chunk
  | [] => []
  | c :: chunks =>
    match handle c m with
    | .ok () m' => c :: m'.accepted chunks
    | .error _ m' => m'.accepted chunks

/-- A chunk is read, and is then among those that are accepted, or it leaves no trace. -/
theorem after_cases (m : Metadata) (c : Chunk) :
    (∃ f, m.read c = .ok f ∧ m.after c = m.keep f ∧
      ∀ chunks, m.accepted (c :: chunks) = c :: (m.keep f).accepted chunks) ∨
    m.after c = m ∧ ∀ chunks, m.accepted (c :: chunks) = m.accepted chunks := by
  simp only [after, accepted, handle_eq]
  cases m.read c with
  | ok f => exact .inl ⟨f, rfl, rfl, fun _ => rfl⟩
  | error e => exact .inr ⟨rfl, fun _ => rfl⟩

/-- Chunks keep the agreement, and significant bits are recorded where they were before or a chunk
that is accepted gives them. -/
theorem Agrees.afterAll {h : Header} {o : Options} {before : List Chunk}
    (hp : Agrees h m p) (hm : m.Consistent h o before) (hrecorded : m.encoding = some p)
    (chunks : List Chunk) :
    ∃ q, (m.afterAll chunks).encoding = some q ∧ Agrees h (m.afterAll chunks) q ∧
      (q.significantBits.isSome ↔
        p.significantBits.isSome ∨ ∃ c ∈ m.accepted chunks, c.kind = .significantBits) := by
  induction chunks generalizing m p before with
  | nil => exact ⟨p, hrecorded, hp, by simp [accepted]⟩
  | cons c chunks ih =>
    rw [afterAll, List.foldl_cons, ← afterAll]
    rcases m.after_cases c with ⟨f, hread, hafter, haccepted⟩ | ⟨hafter, haccepted⟩
    · rw [hafter, haccepted]
      have hkeep : (m.keep f).encoding = some (m.recorded f p) := by
        rw [hm.encoding_keep_eq hread, hrecorded, Option.map_some]
      obtain ⟨q, hq, hagrees, hbits⟩ :=
        ih (hp.keep hm hread hrecorded) (hm.keep hread) hkeep
      refine ⟨q, hq, hagrees, hbits.trans ?_⟩
      rw [isSome_significantBits_recorded m p (of_read hread), or_assoc]
      simp only [List.mem_cons, exists_eq_or_imp]
    · rw [hafter, haccepted]
      exact ih hp hm hrecorded

/-- Behind a header that was accepted with encoding parameters asked for, what is recorded agrees
with what is reported after any chunks, in any order and number, and whether they are accepted or
refused. Significant bits are recorded if a chunk that gives them was accepted. -/
theorem agrees_afterAll {o : Options} {first : Chunk} (hrecord : o.recordEncoding = true)
    (hkind : first.kind = .header) (hfirst : handle first (.new o) = .ok () m)
    (chunks : List Chunk) :
    ∃ h p, Header.parse o first.data = .ok h ∧ (m.afterAll chunks).encoding = some p ∧
      Agrees h (m.afterAll chunks) p ∧
      (p.significantBits.isSome ↔ ∃ c ∈ m.accepted chunks, c.kind = .significantBits) := by
  obtain ⟨f, hread, rfl⟩ := accept_eq_ok_iff.1 (accept_of_handle hfirst)
  simp only [read, hkind] at hread
  obtain ⟨-, h, hparse, rfl⟩ := readHeader_eq_ok hread
  have hstart := consistent_keepHeader (Header.legal_of_parse hparse)
    (Header.sized_of_parse hparse) o
  obtain ⟨p, hp⟩ := Option.isSome_iff_exists.1 (hstart.isSome_encoding.trans hrecord)
  obtain ⟨hagrees, hnone⟩ := agrees_keepHeader hp
  obtain ⟨q, hq, hafter, hbits⟩ := hagrees.afterAll hstart hp chunks
  rw [hnone] at hbits
  exact ⟨h, q, hparse, hq, hafter, by simpa using hbits⟩

end

/-- Behind the header of a gray image, a gamma, a background, a transparent sample and significant
bits are accepted; a second header, significant bits past the depth and a histogram without a
palette are refused. -/
theorem agrees_afterAll_gray :
    let gray : Header :=
      { width := 1, height := 1, depth := 2, color := .gray, interlace := .adam7 }
    let o : Options := { recordEncoding := true }
    let first : Chunk := { tag := .ofChars 'I' 'H' 'D' 'R', data := gray.toBytes }
    let chunks : List Chunk :=
      [first, { tag := .ofChars 'g' 'A' 'M' 'A', data := [0, 0, 177, 143] },
        { tag := .ofChars 'b' 'K' 'G' 'D', data := [0, 2] },
        { tag := .ofChars 't' 'R' 'N' 'S', data := [0, 3] },
        { tag := .ofChars 's' 'B' 'I' 'T', data := [1] },
        { tag := .ofChars 's' 'B' 'I' 'T', data := [5] },
        { tag := .ofChars 'h' 'I' 'S' 'T', data := [0, 0] },
        { tag := .ofChars 'I' 'E' 'N' 'D', data := [] }]
    ∃ m p, handle first (.new o) = .ok () m ∧ (m.afterAll chunks).encoding = some p ∧
      Agrees gray (m.afterAll chunks) p ∧ p.kind = .gray (some 2) (some 3) ∧
      (p.significantBits.isSome ↔ ∃ c ∈ m.accepted chunks, c.kind = .significantBits) ∧
      (m.accepted chunks).map (·.data) = [[0, 0, 177, 143], [0, 2], [0, 3], [1], []] := by
  intro gray o first chunks
  have hfirst : handle first (.new o) = .ok () ((Metadata.new o).keep (.header gray)) := by
    rw [handle_eq]
    subst first o gray
    rfl
  obtain ⟨h, p, hparse, hp, hagrees, hbits⟩ := agrees_afterAll rfl rfl hfirst chunks
  have hgray : Header.parse o first.data = .ok gray := by
    subst first o gray
    rfl
  cases hparse.symm.trans hgray
  refine ⟨_, p, hfirst, hp, hagrees, ?_, hbits, ?_⟩
  · have hkind : (((Metadata.new o).keep (.header gray)).afterAll chunks).encoding.map (·.kind) =
        some (.gray (some 2) (some 3)) := by
      subst chunks first o gray
      rfl
    rw [hp] at hkind
    exact Option.some_inj.1 hkind
  · subst chunks first o gray
    rfl

end Metadata

end Png
