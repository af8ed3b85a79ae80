import Png.Libraries.Own
import Png.Proofs.WholeFiles

/-!
# Repeated pixel densities

Of several chunks about the pixel density the last one is reported, and recorded for an encoder. The
unit is the exception: it is reported where it is the metre, and no later chunk takes it back
(`DensityTrace`). So the reported unit is that of the last density exactly if that is the metre, or
no density has the metre (`TellsDensity`, `density_exact`); in a file that gives the metre first and
no unit last, a metre is reported that is not recorded (`units_disagree`).
-/

namespace Png

/-- The density that the bytes of its chunk write. -/
def PixelDensity.ofBytes (data : List UInt8) : PixelDensity :=
  { x := numberAt data 0 4, y := numberAt data 4 4, unit := numberAt data 8 1 }

/-- Some chunk says that the unit is the metre. -/
def GivesMetre (chunks : List Chunk) : Prop :=
  ∃ c ∈ chunks, c.kind = .physicalSize ∧ (PixelDensity.ofBytes c.data).unit = 1

theorem givesMetre_append (chunks : List Chunk) (c : Chunk) :
    GivesMetre (chunks ++ [c]) ↔
      GivesMetre chunks ∨ c.kind = .physicalSize ∧ (PixelDensity.ofBytes c.data).unit = 1 := by
  simp only [GivesMetre, List.mem_append, List.mem_singleton, or_and_right, exists_or,
    exists_eq_left]

namespace Metadata

/-- A density that can be read is that of the bytes, and its unit is unknown or the metre. -/
theorem readPhysicalSize_eq_ok {data : List UInt8} {f : Finding}
    (h : readPhysicalSize data = .ok f) :
    f = .physicalSize (.ofBytes data) ∧ (PixelDensity.ofBytes data).unit ≤ 1 := by
  simp only [readPhysicalSize, bind_eq_ok_iff, require_eq_ok_iff, pure, Except.pure,
    Except.ok.injEq] at h
  obtain ⟨x, hx, y, hy, unit, hunit, _, hle, rfl⟩ := h
  rw [(readField_eq_ok hx).1, (readField_eq_ok hy).1]
  rw [(readField_eq_ok hunit).1] at hle ⊢
  exact ⟨rfl, hle⟩

/-- A chunk about the density gives it, and no other chunk does. -/
theorem density_of_read [Libraries] {c : Chunk} {m : Metadata} {f : Finding}
    (h : m.read c = .ok f) :
    c.kind = .physicalSize ∧ f = .physicalSize (.ofBytes c.data) ∧
        (PixelDensity.ofBytes c.data).unit ≤ 1 ∨
      c.kind ≠ .physicalSize ∧ ∀ density, f ≠ .physicalSize density := by
  by_cases hkind : c.kind = .physicalSize
  · simp only [read, hkind] at h
    exact .inl ⟨hkind, readPhysicalSize_eq_ok h⟩
  · refine .inr ⟨hkind, ?_⟩
    rintro density rfl
    exact hkind (of_read h)

/-- The density is reported, but for its unit. -/
structure ReportsDensity (m : Metadata) (density : PixelDensity) : Prop where
  x_eq : m.properties.get? "x_pixels_per_unit" = some (.integer density.x)
  y_eq : m.properties.get? "y_pixels_per_unit" = some (.integer density.y)
  ratio_eq : m.properties.get? "pixel_aspect_ratio" =
    some (.number (density.x.toUInt32.toFloat32 / density.y.toUInt32.toFloat32))

/-- The unit that is reported. -/
def reportedUnit (m : Metadata) : Option PropertyValue := m.properties.get? "pixel_units"

/-- The density that is recorded for an encoder, where anything is. -/
def recordedDensity (m : Metadata) : Option (Option PixelDensity) :=
  m.encoding.map (·.pixelDensity)

/-- The unit leaves the other properties of a density alone. -/
theorem get?_unit (density : PixelDensity) (p : Properties) {name : String}
    (hname : Text.lowerCase name ≠ "pixel_units") :
    (p.insertAll (if density.unit = 1 then [("pixel_units", .text "Meters")] else [])).get? name =
      p.get? name := by
  refine Properties.get?_insertAll_of_ne fun entry hentry => ?_
  split at hentry
  · rw [List.mem_singleton.1 hentry]
    exact hname
  · cases hentry

theorem reportsDensity_keep (m : Metadata) (density : PixelDensity) :
    (m.keep (.physicalSize density)).ReportsDensity density := by
  constructor <;>
    rw [properties_keep, reported, densityProperties, Properties.insertAll_append,
      get?_unit density _ (by decide)] <;>
    simp only [Properties.insertAll, List.foldl_cons, List.foldl_nil, Properties.get?_insert]
  · rw [if_neg (by decide), if_neg (by decide), if_true]
  · rw [if_neg (by decide), if_true]
  · rw [if_true]

/-- The unit is reported where it is the metre; otherwise it is as it was. -/
theorem reportedUnit_keep (m : Metadata) (density : PixelDensity) :
    (m.keep (.physicalSize density)).reportedUnit =
      if density.unit = 1 then some (.text "Meters") else m.reportedUnit := by
  rw [reportedUnit, properties_keep, reported, densityProperties, Properties.insertAll_append]
  split
  · exact (Properties.get?_insert _ _ _ _).trans (if_pos rfl)
  · refine Properties.get?_insertAll_of_ne (p := m.properties) fun entry hentry => ?_
    simp only [List.mem_cons, List.not_mem_nil, or_false] at hentry
    have hother : Text.lowerCase "pixel_units" ∉
        ["x_pixels_per_unit", "y_pixels_per_unit", "pixel_aspect_ratio"].map Text.lowerCase := by
      decide
    intro heq
    obtain rfl | rfl | rfl := hentry <;> simp [heq] at hother

/-- Other chunks leave the report alone. -/
theorem get?_density_keep {m : Metadata} {f : Finding} (h : ∀ density, f ≠ .physicalSize density) :
    ∀ name ∈ ["x_pixels_per_unit", "y_pixels_per_unit", "pixel_aspect_ratio", "pixel_units"],
      (m.keep f).properties.get? name = m.properties.get? name := by
  intro name hname
  have hlower : Text.lowerCase name = name :=
    Finding.lowerCase_name (f := .physicalSize ⟨0, 0, 0⟩) hname
  have hstem : ∀ stem ∈ numberedStems, ¬ stem.toList <+: name.toList := by
    revert name
    decide
  refine get?_keep m hlower hstem fun hmem => ?_
  revert name
  cases f with
  | physicalSize density => exact absurd rfl (h density)
  | _ => simp only [Finding.names]; decide

/-- Behind the header a density is recorded where it is read, and kept by every other chunk. -/
theorem recordedDensity_keep {m : Metadata} {f : Finding} (h : ∀ other, f ≠ .header other) :
    (m.keep f).recordedDensity = match f with
      | .physicalSize density => m.recordedDensity.map fun _ => some density
      | _ => m.recordedDensity := by
  rw [recordedDensity, recordedDensity, encoding_keep_behind h]
  cases f with
  | header other => exact absurd rfl (h other)
  | transparency t =>
    rw [Option.map_map]
    refine congrArg (Option.map · m.encoding) (funext fun p => ?_)
    simp only [Function.comp_apply, recorded]
    split <;> rfl
  | _ => simp only [Option.map_map]; rfl

/-- What is known after the chunks `chunks`, a header first, tells of their densities. -/
structure DensityTrace (o : Options) (chunks : List Chunk) (m : Metadata) : Prop where
  reported : ∀ c, lastOf .physicalSize chunks = some c →
    m.ReportsDensity (.ofBytes c.data) ∧ (PixelDensity.ofBytes c.data).unit ≤ 1
  unit : m.reportedUnit = some (.text "Meters") ∧ GivesMetre chunks ∨
    m.reportedUnit = none ∧ ¬GivesMetre chunks
  recorded : m.recordedDensity =
    if o.recordEncoding then some ((lastOf .physicalSize chunks).map fun c => .ofBytes c.data)
    else none

theorem densityTrace_header {o : Options} {c : Chunk} (hkind : c.kind = .header) (hd : Header) :
    DensityTrace o [c] ((new o).keep (.header hd)) := by
  have hother : c.kind ≠ .physicalSize := by rw [hkind]; decide
  have hlast : lastOf .physicalSize [c] = none := by rw [lastOf_singleton, if_neg hother]
  refine ⟨?_, .inr ⟨?_, ?_⟩, ?_⟩
  · intro d hd
    rw [hlast] at hd
    cases hd
  · rw [reportedUnit, get?_density_keep (by simp) _ (by simp), new, Properties.get?_insert,
      if_neg (by decide)]
    rfl
  · rintro ⟨d, hmem, hd, -⟩
    rw [List.mem_singleton.1 hmem] at hd
    exact hother hd
  · rw [recordedDensity, encoding_keep, hlast, Option.map_none, Option.map_map]
    show Option.map _ (if o.recordEncoding then _ else none) = _
    cases o.recordEncoding <;> rfl

/-- What is known after the chunks `chunks` tells of `density`, the last one that they have. -/
structure TellsDensity (m : Metadata) (o : Options) (chunks : List Chunk)
    (density : PixelDensity) : Prop extends m.ReportsDensity density where
  /-- Its unit is unknown, or the metre. -/
  unit_le : density.unit ≤ 1
  /-- It is recorded for an encoder, where anything is. -/
  recorded : m.recordedDensity = if o.recordEncoding then some (some density) else none
  /-- The metre is reported as the unit exactly if some chunk gives it, and nothing else is. -/
  unit : m.reportedUnit = some (.text "Meters") ∧ GivesMetre chunks ∨
    m.reportedUnit = none ∧ ¬GivesMetre chunks
  /-- That is the unit of the density exactly if it is the metre or no chunk gives the metre. -/
  unit_iff : (m.reportedUnit.isSome = true ↔ density.unit = 1) ↔
    (GivesMetre chunks → density.unit = 1)

/-- The last density is told of. -/
theorem DensityTrace.tellsDensity {o : Options} {chunks : List Chunk} {m : Metadata} {c : Chunk}
    (h : DensityTrace o chunks m) (hlast : lastOf .physicalSize chunks = some c) :
    m.TellsDensity o chunks (.ofBytes c.data) := by
  obtain ⟨hreported, hle⟩ := h.reported c hlast
  refine ⟨hreported, hle, by rw [h.recorded, hlast, Option.map_some], h.unit, ?_⟩
  rw [lastOf] at hlast
  have hgives (hunit : (PixelDensity.ofBytes c.data).unit = 1) : GivesMetre chunks :=
    ⟨c, List.mem_reverse.1 (List.mem_of_find?_eq_some hlast),
      by simpa using List.find?_some hlast, hunit⟩
  obtain ⟨hsome, hmetre⟩ | ⟨hnone, hmetre⟩ := h.unit
  · simp [hsome, hmetre]
  · simp only [hnone, Option.isSome_none, Bool.false_eq_true, false_iff, hmetre, false_implies,
      iff_true]
    exact fun hunit => hmetre (hgives hunit)

variable [Libraries]

/-- One more chunk is found again like those before it. -/
theorem densityTrace_keep {o : Options} {chunks : List Chunk} {m : Metadata} {c : Chunk}
    {f : Finding} (h : DensityTrace o chunks m) (hread : m.read c = .ok f)
    (hheader : ∀ other, f ≠ .header other) : DensityTrace o (chunks ++ [c]) (m.keep f) := by
  -- The chunk tells a density, or its finding is of another kind and leaves all of it.
  obtain ⟨hkind, rfl, hle⟩ | ⟨hkind, hf⟩ := density_of_read hread
  · constructor
    · intro d hd
      rw [lastOf_append, if_pos hkind, Option.some_inj] at hd
      subst hd
      exact ⟨reportsDensity_keep m _, hle⟩
    · rw [reportedUnit_keep, givesMetre_append]
      by_cases hunit : (PixelDensity.ofBytes c.data).unit = 1
      · rw [if_pos hunit]
        exact .inl ⟨rfl, .inr ⟨hkind, hunit⟩⟩
      · rw [if_neg hunit]
        simpa [hunit] using h.unit
    · rw [recordedDensity_keep hheader, h.recorded, lastOf_append, if_pos hkind]
      cases o.recordEncoding <;> rfl
  · have hreport := get?_density_keep (m := m) hf
    constructor
    · intro d hd
      rw [lastOf_append, if_neg hkind] at hd
      obtain ⟨hreported, hle⟩ := h.reported d hd
      refine ⟨⟨?_, ?_, ?_⟩, hle⟩
      · exact (hreport _ (by simp)).trans hreported.x_eq
      · exact (hreport _ (by simp)).trans hreported.y_eq
      · exact (hreport _ (by simp)).trans hreported.ratio_eq
    · have hunit : (m.keep f).reportedUnit = m.reportedUnit := hreport _ (by simp)
      rw [hunit, givesMetre_append]
      simpa [hkind] using h.unit
    · rw [recordedDensity_keep hheader, lastOf_append, if_neg hkind, ← h.recorded]
      cases f with
      | physicalSize density => exact absurd rfl (hf density)
      | _ => rfl

/-- What is known after accepted chunks tells of their densities. -/
theorem densityTrace_acceptAll {o : Options} {chunks : List Chunk} {m : Metadata}
    (hheader : chunks.head?.map Chunk.kind = some .header)
    (h : acceptAll chunks (.new o) = .ok () m) : DensityTrace o chunks m :=
  acceptAll_behind_header densityTrace_keep (fun hkind _ => densityTrace_header hkind _) hheader h

end Metadata

/-- The last density of a file is reported and, where anything is, recorded. The metre is reported
as the unit if any density of the file gives it, and not only the last one; so the unit that is
reported is that of the last density exactly if this is the metre or no density gives it. -/
theorem density_exact [Libraries] {source : Source} {o : Options} {chunks : List Chunk}
    {d : Decoder} {c : Chunk} (h : source.Carries chunks)
    (hread : Decoder.readHeaders (.new source o) = .ok () d)
    (hlast : lastOf .physicalSize chunks = some c) :
    d.metadata.TellsDensity o chunks (.ofBytes c.data) := by
  obtain ⟨hheader, haccept⟩ := Decoder.acceptAll_of_readHeaders h hread
  exact (Metadata.densityTrace_acceptAll hheader haccept).tellsDensity hlast

/-- The chunks of a gray pixel with a density per metre, and then one without a unit. -/
def metreThenNone : List Chunk :=
  [{ tag := .ofChars 'I' 'H' 'D' 'R', data := [0, 0, 0, 1, 0, 0, 0, 1, 8, 0, 0, 0, 0] },
    { tag := .ofChars 'p' 'H' 'Y' 's', data := [0, 0, 0, 2, 0, 0, 0, 3, 1] },
    { tag := .ofChars 'p' 'H' 'Y' 's', data := [0, 0, 0, 5, 0, 0, 0, 7, 0] },
    { tag := .ofChars 'I' 'E' 'N' 'D', data := [] }]

theorem givesMetre_metreThenNone : GivesMetre metreThenNone :=
  ⟨_, List.mem_cons_of_mem _ List.mem_cons_self, by decide⟩

theorem carries_metreThenNone : (Source.ofChunks metreThenNone).Carries metreThenNone :=
  Source.carries_ofChunks (by decide) rfl (by decide)

open Metadata in
/-- The metre is reported as the unit of a density that is recorded without a unit. -/
theorem units_disagree :
    ∃ d, Decoder.readHeaders (.new (.ofChunks metreThenNone) { recordEncoding := true }) =
        .ok () d ∧
      d.metadata.properties.get? "pixel_units" = some (.text "Meters") ∧
      d.metadata.encoding.map (·.pixelDensity) = some (some ⟨5, 7, 0⟩) := by
  obtain ⟨m, haccept⟩ : ∃ m, acceptAll metreThenNone (.new { recordEncoding := true }) = .ok () m :=
    ⟨_, rfl⟩
  have trace := densityTrace_acceptAll rfl haccept
  refine ⟨_, Decoder.readHeaders_of_carries carries_metreThenNone rfl haccept, ?_, trace.recorded⟩
  exact (trace.unit.resolve_right fun h => h.2 givesMetre_metreThenNone).1

/-- The numbers of the last density are reported, with the metre of the first. -/
theorem density_exact_metreThenNone :
    ∃ d, Decoder.readHeaders (.new (.ofChunks metreThenNone) { recordEncoding := true }) =
        .ok () d ∧
      lastOf .physicalSize metreThenNone =
        some { tag := .ofChars 'p' 'H' 'Y' 's', data := [0, 0, 0, 5, 0, 0, 0, 7, 0] } ∧
      d.metadata.properties.get? "x_pixels_per_unit" = some (.integer 5) ∧
      d.metadata.properties.get? "y_pixels_per_unit" = some (.integer 7) ∧
      d.metadata.properties.get? "pixel_units" = some (.text "Meters") ∧
      GivesMetre metreThenNone := by
  have hread := Decoder.readHeaders_of_carries (o := { recordEncoding := true })
    carries_metreThenNone rfl rfl
  have hlast : lastOf .physicalSize metreThenNone =
      some { tag := .ofChars 'p' 'H' 'Y' 's', data := [0, 0, 0, 5, 0, 0, 0, 7, 0] } := by decide
  have told := density_exact carries_metreThenNone hread hlast
  refine ⟨_, hread, hlast, told.x_eq, told.y_eq, ?_, givesMetre_metreThenNone⟩
  exact (told.unit.resolve_right fun h => h.2 givesMetre_metreThenNone).1

end Png
