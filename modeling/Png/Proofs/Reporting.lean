import Png.Proofs.Acceptance

/-!
# What is reported

The properties of a file are those that its chunks report, a later one in the place of an earlier
one of the same lower-case name. `Properties.get?_insert` says what a name is found to have after an
insertion, `properties_keep` which properties a finding adds, and `get?_keep` that a name has the
value it had unless the finding reports it. `encoding_keep` says the same of what is recorded for an
encoder.
-/

namespace Png

namespace Text

/-- The character is ASCII and has no other lower-case form than itself. -/
def Plain (c : Char) : Prop := c.toNat < 0x80 ∧ c.toLower = c

instance (c : Char) : Decidable (Plain c) := inferInstanceAs (Decidable (_ ∧ _))

/-- The form of what comes next is put behind what is done. -/
theorem lowerFrom_append (before rest done : List Char) :
    lowerFrom before rest done = lowerFrom before rest [] ++ done := by
  induction rest generalizing before done with
  | nil => rfl
  | cons c rest ih =>
    rw [lowerFrom, ih, lowerFrom, ih _ (_ ++ []), List.append_assoc, List.append_nil]

/-- Plain characters in front stay as they are. -/
theorem lowerFrom_plain {pre : List Char} (h : ∀ c ∈ pre, Plain c) (before rest : List Char) :
    lowerFrom before (pre ++ rest) [] =
      lowerFrom (pre.reverse ++ before) rest [] ++ pre.reverse := by
  induction pre generalizing before with
  | nil => simp
  | cons c pre ih =>
    obtain ⟨hascii, hlower⟩ := h c List.mem_cons_self
    have hsigma : c ≠ capitalSigma := by
      rintro rfl
      exact absurd hascii (by decide)
    rw [List.cons_append, lowerFrom, if_neg hsigma, lowerChar, if_pos hascii, hlower,
      lowerFrom_append, ih fun d hd => h d (List.mem_cons_of_mem c hd)]
    simp

/-- A text that starts with plain characters has a lower-case form that does. -/
theorem lowerCase_append {pre : String} (h : ∀ c ∈ pre.toList, Plain c) (rest : String) :
    ∃ tail, (lowerCase (pre ++ rest)).toList = pre.toList ++ tail := by
  refine ⟨(lowerFrom (pre.toList.reverse ++ []) rest.toList []).reverse, ?_⟩
  rw [lowerCase, String.toList_append, lowerFrom_plain h]
  simp

end Text

namespace Properties

theorem lookup_cons (name key : String) (value : PropertyValue)
    (entries : List (String × PropertyValue)) :
    ((name, value) :: entries).lookup key =
      if key = name then some value else entries.lookup key := by
  by_cases h : key = name
  · rw [h, List.lookup_cons_self, if_pos rfl]
  · rw [List.lookup_cons, beq_false_of_ne h, if_neg h]

theorem lookup_insertSorted (name key : String) (value : PropertyValue)
    (entries : List (String × PropertyValue)) :
    (insertSorted name value entries).lookup key =
      if key = name then some value else entries.lookup key := by
  induction entries with
  | nil => exact lookup_cons name key value []
  | cons entry rest ih =>
    obtain ⟨other, old⟩ := entry
    rw [insertSorted]
    split
    · next hname =>
      rw [lookup_cons, lookup_cons, hname]
      split <;> rfl
    · next hname =>
      split
      · exact lookup_cons name key value _
      · rw [lookup_cons, lookup_cons, ih]
        by_cases h : key = other
        · rw [if_pos h, if_pos h, if_neg fun hkey => hname (hkey.symm.trans h)]
        · rw [if_neg h, if_neg h]

/-- A name has the value that was inserted last under a name of its lower-case form. -/
theorem get?_insert (p : Properties) (name key : String) (value : PropertyValue) :
    (p.insert name value).get? key =
      if Text.lowerCase key = Text.lowerCase name then some value else p.get? key := by
  rw [get?, insert, lookup_insertSorted, get?]

theorem insertAll_append (p : Properties) (values more : List (String × PropertyValue)) :
    p.insertAll (values ++ more) = (p.insertAll values).insertAll more :=
  List.foldl_append

/-- A name is not touched by insertions under other names. -/
theorem get?_insertAll_of_ne {p : Properties} {values : List (String × PropertyValue)}
    {key : String} (h : ∀ entry ∈ values, Text.lowerCase key ≠ Text.lowerCase entry.1) :
    (p.insertAll values).get? key = p.get? key := by
  induction values generalizing p with
  | nil => rfl
  | cons entry values ih =>
    rw [insertAll, List.foldl_cons, ← insertAll, ih fun e he => h e (List.mem_cons_of_mem entry he),
      get?_insert, if_neg (h entry List.mem_cons_self)]

end Properties

/-- The names that a finding may report, but for those that are numbered. -/
def Finding.names : Finding → List String
  | .header _ => ["color_type", "bit_depth", "interlace_method", "gamma"]
  | .imageEnd _ | .significantBits _ => ["significant_bits"]
  | .chromaticities _ => Chromaticities.keys
  | .gamma _ => ["gamma"]
  | .standardRgb _ => ["rendering_intent", "gamma"] ++ Chromaticities.keys
  | .iccProfile _ => ["icc_profile_name"]
  | .background _ _ => ["background_color"]
  | .histogram _ => ["palette_histogram"]
  | .physicalSize _ =>
    ["x_pixels_per_unit", "y_pixels_per_unit", "pixel_aspect_ratio", "pixel_units"]
  | .time _ => ["timestamp"]
  | .palette _ | .imageData _ | .transparency _ | .text _ | .compressedText _ | .unknown _ _
  | .nothing => []

/-- The names are in lower case. -/
theorem Finding.lowerCase_name {f : Finding} {name : String} (h : name ∈ f.names) :
    Text.lowerCase name = name := by
  revert name
  cases f <;> simp only [names] <;> decide

/-- What the numbered names start with. -/
def numberedStems : List String := ["text_", "ztext_", "chunk_"]

theorem plain_of_stem : ∀ stem ∈ numberedStems, ∀ c ∈ stem.toList, Text.Plain c := by
  have hall : (numberedStems.flatMap String.toList).all fun c => decide (Text.Plain c) := by decide
  intro stem hstem c hc
  exact of_decide_eq_true (List.all_eq_true.1 hall c (List.mem_flatMap.2 ⟨stem, hstem, hc⟩))

/-- A numbered name has another lower-case form than a name that is not numbered. -/
theorem lowerCase_ne_of_numbered {key name : String}
    (hkey : ∀ stem ∈ numberedStems, ¬ stem.toList <+: key.toList)
    (hname : ∃ stem ∈ numberedStems, ∃ rest, name = stem ++ rest) : Text.lowerCase name ≠ key := by
  obtain ⟨stem, hmem, rest, rfl⟩ := hname
  obtain ⟨tail, htail⟩ := Text.lowerCase_append (plain_of_stem stem hmem) rest
  rintro rfl
  exact hkey stem hmem ⟨tail, htail.symm⟩

namespace Metadata

/-- The properties that a finding adds, in the order in which they are put in. -/
def reported (m : Metadata) : Finding → List (String × PropertyValue)
  | .header h => headerProperties h m.startingGamma
  | .imageEnd bits => m.endProperties bits
  | .chromaticities c => Chromaticities.keys.zip (c.toList.map .number)
  | .gamma gamma =>
    [("gamma", .number (ToneResponse.reportedGamma
      { m.response with fileGamma := gamma } m.options.correctGamma))]
  | .standardRgb intent =>
    [("rendering_intent", .integer intent),
      ("gamma", .number ((m.response.withStandardRgb intent).reportedGamma m.options.correctGamma))]
      ++ Chromaticities.keys.zip (Chromaticities.standardRgb.toList.map .number)
  | .iccProfile name => [("icc_profile_name", .text name)]
  | .significantBits bits => [("significant_bits", .integers bits)]
  | .background _ color => [("background_color", .color color)]
  | .histogram counts => [("palette_histogram", .integers counts)]
  | .physicalSize density => densityProperties density
  | .time t => [("timestamp", .date t)]
  | .unknown tag data => [(unknownName m.unknownCount tag, .bytes data)]
  | .palette _ | .imageData _ | .transparency _ | .text _ | .compressedText _ | .nothing => []

@[simp]
theorem properties_keep (m : Metadata) (f : Finding) :
    (m.keep f).properties = m.properties.insertAll (m.reported f) := by
  cases f <;> rfl

theorem textProperties_name {stem : String} {entries : List TextEntry}
    {entry : String × PropertyValue} (h : entry ∈ textProperties stem entries) :
    ∃ rest, entry.1 = (stem ++ "_") ++ rest := by
  rw [textProperties, List.mem_mapIdx] at h
  obtain ⟨i, hi, rfl⟩ := h
  exact ⟨toString i ++ ":" ++ entries[i].keyword, by simp [String.append_assoc, toString]⟩

/-- Both kinds of text entries have numbered names. -/
theorem numbered_of_mem_texts {m : Metadata} {entry : String × PropertyValue}
    (h : entry ∈ textProperties "text" m.text ++ textProperties "ztext" m.compressedText) :
    ∃ stem ∈ numberedStems, ∃ rest, entry.1 = stem ++ rest := by
  obtain h | h := List.mem_append.1 h
  · obtain ⟨rest, hrest⟩ := textProperties_name h
    exact ⟨"text_", by decide, rest, hrest⟩
  · obtain ⟨rest, hrest⟩ := textProperties_name h
    exact ⟨"ztext_", by decide, rest, hrest⟩

/-- But for the end of the file and a chunk of unknown type, a finding reports names of its own. -/
theorem mem_names_of_reported {m : Metadata} {f : Finding} {entry : String × PropertyValue}
    (hend : ∀ bits, f ≠ .imageEnd bits) (hunknown : ∀ tag data, f ≠ .unknown tag data)
    (h : entry ∈ m.reported f) : entry.1 ∈ f.names := by
  cases f with
  | imageEnd bits => exact absurd rfl (hend bits)
  | unknown tag data => exact absurd rfl (hunknown tag data)
  | header hd =>
    simp only [reported, headerProperties, List.mem_append, List.mem_cons, List.mem_map,
      List.not_mem_nil, or_false] at h
    obtain (rfl | rfl | rfl) | ⟨_, -, rfl⟩ := h <;> simp [Finding.names]
  | chromaticities c => exact (List.of_mem_zip h).1
  | standardRgb intent =>
    rw [reported, List.mem_append] at h
    obtain h | h := h
    · refine List.mem_append_left _ ?_
      simp only [List.mem_cons, List.not_mem_nil, or_false] at h
      obtain rfl | rfl := h <;> simp
    · exact List.mem_append_right _ (List.of_mem_zip h).1
  -- Behind the first three names comes the unit, where there is one.
  | physicalSize density =>
    simp only [reported, densityProperties, List.mem_append, List.mem_cons, List.not_mem_nil,
      or_false] at h
    obtain (rfl | rfl | rfl) | h := h
    · simp [Finding.names]
    · simp [Finding.names]
    · simp [Finding.names]
    · split at h
      · rw [List.mem_singleton] at h
        simp [h, Finding.names]
      · cases h
  | gamma _ | iccProfile _ | significantBits _ | background _ _ | histogram _ | time _ =>
    rw [reported, List.mem_singleton] at h
    simp [h, Finding.names]
  | palette _ | imageData _ | transparency _ | text _ | compressedText _ | nothing => cases h

/-- A finding reports names of its own, and numbered ones. -/
theorem reported_name {m : Metadata} {f : Finding} {entry : String × PropertyValue}
    (h : entry ∈ m.reported f) :
    entry.1 ∈ f.names ∨ ∃ stem ∈ numberedStems, ∃ rest, entry.1 = stem ++ rest := by
  cases f with
  | imageEnd bits =>
    rw [reported, endProperties, List.mem_append] at h
    obtain h | h := h
    · exact .inr (numbered_of_mem_texts h)
    · left
      split at h
      · cases h
      · rw [List.mem_singleton] at h
        simp [h, Finding.names]
  | unknown tag data =>
    rw [reported, List.mem_singleton] at h
    refine .inr ⟨"chunk_", by decide, toString m.unknownCount ++ ":" ++ tag.text, ?_⟩
    simp [h, unknownName, String.append_assoc, toString]
  | _ => exact .inl (mem_names_of_reported nofun nofun h)

/-- A name of plain characters that is not numbered has the value it had, unless the finding
reports it. -/
theorem get?_keep {key : String} (m : Metadata) {f : Finding} (hkey : Text.lowerCase key = key)
    (hstem : ∀ stem ∈ numberedStems, ¬ stem.toList <+: key.toList) (h : key ∉ f.names) :
    (m.keep f).properties.get? key = m.properties.get? key := by
  rw [properties_keep]
  refine Properties.get?_insertAll_of_ne fun entry hentry hlower => ?_
  rw [hkey] at hlower
  obtain hname | hname := reported_name hentry
  · rw [Finding.lowerCase_name hname] at hlower
    exact h (hlower ▸ hname)
  · exact lowerCase_ne_of_numbered hstem hname hlower.symm

/-- How a finding changes what is recorded for an encoder. -/
def recorded (m : Metadata) : Finding → EncodeParams → EncodeParams
  | .imageEnd _, p => { p with text := m.text, compressedText := m.compressedText }
  | .chromaticities c, p => { p with chromaticities := some c }
  | .gamma gamma, p =>
    { p with gamma := some (ToneResponse.reportedGamma { m.response with fileGamma := gamma }
        m.options.correctGamma) }
  | .standardRgb intent, p =>
    { p with
      gamma := some ((m.response.withStandardRgb intent).reportedGamma m.options.correctGamma)
      chromaticities := some .standardRgb }
  | .significantBits bits, p => { p with significantBits := some bits }
  | .background background _, p => { p with kind := p.kind.withBackground background }
  | .histogram counts, p => { p with histogram := some counts }
  | .transparency t, p =>
    if m.options.suppressAlpha then p else { p with kind := p.kind.withTransparency t }
  | .physicalSize density, p => { p with pixelDensity := some density }
  | .time t, p => { p with modified := some t }
  | .unknown tag data, p => { p with unknownChunks := p.unknownChunks ++ [(tag, data)] }
  | _, p => p

/-- Recording starts with the header, and goes on where it has started. -/
theorem encoding_keep (m : Metadata) (f : Finding) :
    (m.keep f).encoding = match f with
      | .header h => (m.startingEncoding h).map fun p =>
          { p with gamma := m.startingGamma <|> p.gamma }
      | f => m.encoding.map (m.recorded f) := by
  cases f with
  | standardRgb intent => exact Option.map_map _ _ _
  | palette _ | imageData _ | iccProfile _ | text _ | compressedText _ | nothing =>
    exact (Option.map_id' (x := m.encoding)).symm
  | _ => rfl

/-- Behind a header, which comes first, there is recorded what it tells and the gamma that is
assumed. -/
theorem encoding_keepHeader (o : Options) (h : Header) :
    ((new o).keep (.header h)).encoding =
      if o.recordEncoding then some { EncodeParams.ofHeader h with gamma := (new o).startingGamma }
      else none := by
  rw [encoding_keep]
  show Option.map _ (if o.recordEncoding then some (EncodeParams.ofHeader h) else none) = _
  split
  · cases (new o).startingGamma <;> rfl
  · rfl

end Metadata

end Png
