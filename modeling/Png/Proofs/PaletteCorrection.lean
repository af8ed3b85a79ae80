import Mathlib.Data.List.Induction
import Png.Libraries.Own
import Png.Proofs.ResponseOrder

/-!
# The gamma that a palette is corrected for

When samples are corrected, a palette is corrected as it is read, for the gamma that is known then,
and samples are corrected at the end, for the gamma that is known then. Only a chunk that sets the
gamma tells the two apart (`SetsGamma`, `gamma_append`): if a palette comes behind every such chunk,
the palette in force is corrected for the last gamma (`CorrectsPalette`, `palette_corrected`). A
file may set the gamma behind its palette, which is then left as it is (`gamma_behind_palette`).
-/

namespace Png

/-- The gamma counts where it stands: the space that settles it has not been named before. -/
def SetsGamma (front : List Chunk) (c : Chunk) : Prop :=
  (c.kind = .gamma ∨ c.kind = .standardRgb) ∧ firstOf .standardRgb front = none

instance (front : List Chunk) (c : Chunk) : Decidable (SetsGamma front c) :=
  inferInstanceAs (Decidable (_ ∧ _))

/-- The gamma that is set: the one that is written, or that of the standard RGB space. -/
def gammaSet (c : Chunk) : Float32 :=
  if c.kind = .gamma then gammaOf c.data else defaultFileGamma

/-- What stands behind the last chunk of a kind is of other kinds. -/
theorem exists_behindLast {kind : ChunkKind} {chunks : List Chunk} {c : Chunk}
    (h : lastOf kind chunks = some c) :
    ∃ behind, chunks = beforeLast kind chunks ++ c :: behind ∧ ∀ p ∈ behind, p.kind ≠ kind := by
  -- The last one is looked for from the end.
  induction chunks using List.reverseRec with
  | nil => cases h
  | append_singleton chunks last ih =>
    rw [lastOf_append] at h
    rw [beforeLast_append]
    split at h
    · next hkind =>
      cases h
      exact ⟨[], by rw [if_pos hkind], by simp⟩
    · next hkind =>
      obtain ⟨behind, hsplit, hothers⟩ := ih h
      refine ⟨behind ++ [last], ?_, ?_⟩
      · rw [if_neg hkind, ← List.cons_append, ← List.append_assoc, ← hsplit]
      · intro p hp
        obtain hp | hp := List.mem_append.1 hp
        · exact hothers p hp
        · rwa [List.mem_singleton.1 hp]

/-- Correcting looks at the gamma and the two exponents. -/
theorem ToneResponse.table_congr {t t' : ToneResponse} (hgamma : t.fileGamma = t'.fileGamma)
    (huser : t.userExponent = t'.userExponent) (hdisplay : t.displayExponent = t'.displayExponent) :
    t.table = t'.table := by
  funext bits
  rw [table, table, hgamma, huser, hdisplay]

section

variable (o : Options) (chunks : List Chunk) (c : Chunk)

/-- What one more chunk does to the gamma. -/
theorem gamma_append :
    (responseOf o (chunks ++ [c])).fileGamma =
        (if SetsGamma chunks c then gammaSet c else (responseOf o chunks).fileGamma) ∧
      gammaTold o (chunks ++ [c]) =
        if SetsGamma chunks c then some (o.scaled (gammaSet c)) else gammaTold o chunks := by
  -- The chunk sets the gamma, or it is of another kind or comes behind a settled response.
  by_cases hset : SetsGamma chunks c
  · rw [if_pos hset, if_pos hset, gammaSet]
    obtain ⟨hkind | hkind, hnone⟩ := hset
    · obtain ⟨hresponse, hgamma⟩ := told_append_gamma o hnone hkind
      rw [hresponse, hgamma, if_pos hkind]
      exact ⟨rfl, rfl⟩
    · obtain ⟨hresponse, hgamma⟩ := told_append_standardRgb o hnone hkind
      rw [hresponse, hgamma, if_neg (by simp [hkind])]
      exact ⟨rfl, rfl⟩
  · rw [if_neg hset, if_neg hset]
    by_cases hnone : firstOf .standardRgb chunks = none
    · have hquiet : c.kind ≠ .gamma ∧ c.kind ≠ .standardRgb := by
        simpa [SetsGamma, hnone] using hset
      by_cases hkind : c.kind = .chromaticities
      · obtain ⟨hresponse, hgamma⟩ := told_append_chromaticities o hnone hkind
        rw [hresponse, hgamma]
        exact ⟨rfl, rfl⟩
      · have hother : c.kind ∉ responseKinds := by simp [responseKinds, hquiet, hkind]
        obtain ⟨hresponse, hgamma⟩ := told_append_of_other o chunks hother
        rw [hresponse, hgamma]
        exact ⟨rfl, rfl⟩
    · obtain ⟨hresponse, hgamma⟩ := told_append_of_named o (Option.isSome_iff_ne_none.2 hnone) c
      rw [hresponse, hgamma]
      exact ⟨rfl, rfl⟩

variable {o chunks}

/-- Chunks that do not set the gamma leave the tables alone. -/
theorem table_responseOf_append {behind : List Chunk}
    (h : ∀ front c back, behind = front ++ c :: back → ¬SetsGamma (chunks ++ front) c) :
    (responseOf o (chunks ++ behind)).table = (responseOf o chunks).table := by
  -- Induction on the chunks behind from their end, as one more chunk is put there.
  induction behind using List.reverseRec with
  | nil => rw [List.append_nil]
  | append_singleton behind c ih =>
    have hbefore := ih fun front c' back heq =>
      h front c' (back ++ [c]) (by rw [heq, List.append_assoc, List.cons_append])
    rw [← hbefore, ← List.append_assoc]
    refine ToneResponse.table_congr ?_ ?_ ?_
    · rw [(gamma_append o _ c).1, if_neg (h behind c [] rfl)]
    · rw [userExponent_responseOf, userExponent_responseOf]
    · rw [displayExponent_responseOf, displayExponent_responseOf]

end

namespace Metadata

/-- The palette in force behind these chunks, corrected for what is told in front of it. -/
def paletteTold (o : Options) (chunks : List Chunk) : Option (List Rgb) :=
  (lastOf .palette chunks).map fun c =>
    if o.correctGamma then
      (colorsOf c.data).map (correctColor ((responseOf o (beforeLast .palette chunks)).table 8))
    else colorsOf c.data

variable [Libraries]

/-- One more chunk replaces the palette in force if it is a palette. -/
theorem palette_told_keep {o : Options} {chunks : List Chunk} {m : Metadata} {c : Chunk}
    {f : Finding} (trace : ResponseTrace o chunks m) (h : m.palette = paletteTold o chunks)
    (hread : m.read c = .ok f) : (m.keep f).palette = paletteTold o (chunks ++ [c]) := by
  have hof := of_read hread
  rw [paletteTold, lastOf_append, beforeLast_append, palette_keep]
  by_cases hkind : c.kind = .palette
  · simp only [read, hkind] at hread
    obtain ⟨-, rfl⟩ := readPalette_eq_ok hread
    rw [if_pos hkind, if_pos hkind, Option.map_some, corrected, trace.options_eq, trace.response_eq]
  · rw [if_neg hkind, if_neg hkind, ← paletteTold, ← h]
    cases f with
    | palette colors => exact absurd hof hkind
    | _ => rfl

/-- The palette that is known after accepted chunks is that which they tell. -/
theorem palette_eq_of_acceptAll {o : Options} {chunks : List Chunk} {m : Metadata}
    (hheader : chunks.head?.map Chunk.kind = some .header)
    (h : acceptAll chunks (.new o) = .ok () m) : m.palette = paletteTold o chunks := by
  have told : ResponseTrace o chunks m ∧ m.palette = paletteTold o chunks := by
    refine acceptAll_behind_header (P := fun chunks m =>
      ResponseTrace o chunks m ∧ m.palette = paletteTold o chunks) ?_ ?_ hheader h
    · rintro chunks m c f ⟨trace, hpalette⟩ hread hheader
      exact ⟨responseTrace_keep trace hread hheader, palette_told_keep trace hpalette hread⟩
    · rintro c hd hkind -
      have hnone : lastOf .palette [c] = none := by
        rw [lastOf_singleton, if_neg (by rw [hkind]; decide)]
      exact ⟨responseTrace_header hkind hd, by rw [paletteTold, hnone]; rfl⟩
  exact told.2

/-- A chunk behind the header sets the gamma that is used and reported, or leaves both alone. -/
theorem gamma_of_accept {o : Options} {front : List Chunk} {c : Chunk} {m m' : Metadata}
    (hheader : front.head?.map Chunk.kind = some .header)
    (h : acceptAll front (.new o) = .ok () m) (haccept : m.accept c = .ok m') :
    m'.response.fileGamma = (if SetsGamma front c then gammaSet c else m.response.fileGamma) ∧
      m'.properties.get? "gamma" =
        if SetsGamma front c then some (.number (o.scaled (gammaSet c)))
        else m.properties.get? "gamma" := by
  have before := responseTrace_acceptAll hheader h
  have hstart : (front ++ [c]).head?.map Chunk.kind = some .header := by
    cases front with
    | nil => cases hheader
    | cons first front => exact hheader
  have behind : ResponseTrace o (front ++ [c]) m' := by
    refine responseTrace_acceptAll hstart ?_
    rw [acceptAll_append, h]
    show acceptAll [c] m = _
    rw [acceptAll, haccept]
    rfl
  obtain ⟨hfile, hgamma⟩ := gamma_append o front c
  refine ⟨by rw [behind.response_eq, hfile, before.response_eq], ?_⟩
  rw [behind.reported.gamma_eq, hgamma, before.reported.gamma_eq]
  split <;> rfl

end Metadata

/-- Where no gamma and no standard RGB space comes behind a palette, every palette comes behind each
of these. -/
theorem exists_palette_behind {chunks front back : List Chunk} {c x : Chunk}
    (hordered : chunks.Pairwise fun p x =>
      p.kind = .palette → ¬(x.kind = .gamma ∨ x.kind = .standardRgb))
    (hmem : c ∈ chunks) (hkind : c.kind = .palette) (hsplit : chunks = front ++ x :: back)
    (hset : SetsGamma front x) : ∃ p ∈ back, p.kind = .palette := by
  subst hsplit
  obtain ⟨-, -, hfront⟩ := List.pairwise_append.1 hordered
  obtain hc | hc := List.mem_append.1 hmem
  · exact absurd hset.1 (hfront c hc x List.mem_cons_self hkind)
  · obtain rfl | hc := List.mem_cons.1 hc
    · simp [SetsGamma, hkind] at hset
    · exact ⟨c, hc, hkind⟩

/-- From the last palette on no chunk sets the gamma if any palette comes behind each that does. -/
theorem quiet_of_palette_behind {chunks behind : List Chunk} {c : Chunk}
    (hsplit : chunks = beforeLast .palette chunks ++ c :: behind)
    (hothers : ∀ p ∈ behind, p.kind ≠ .palette)
    (hsettled : ∀ front x back, chunks = front ++ x :: back → SetsGamma front x →
      ∃ p ∈ back, p.kind = .palette) :
    ∀ front x back, c :: behind = front ++ x :: back →
      ¬SetsGamma (beforeLast .palette chunks ++ front) x := by
  intro front x back heq hset
  have hchunks : chunks = (beforeLast .palette chunks ++ front) ++ x :: back := by
    rw [List.append_assoc, ← heq, ← hsplit]
  obtain ⟨p, hp, hkind⟩ := hsettled _ x back hchunks hset
  -- The palette behind the chunk stands behind the last one.
  have hbehind : p ∈ behind := by
    cases front with
    | nil =>
      cases heq
      exact hp
    | cons first front =>
      cases heq
      simp [hp]
  exact hothers p hbehind hkind

namespace Metadata

/-- What is known after the chunks `chunks`, of which `c` is the last palette, when samples are
corrected. -/
structure CorrectsPalette [Libraries] (m : Metadata) (o : Options) (chunks : List Chunk)
    (c : Chunk) : Prop where
  /-- The palette in force is this one, corrected for what was told in front of it. -/
  palette_eq : m.palette = some ((colorsOf c.data).map
    (correctColor ((responseOf o (beforeLast .palette chunks)).table 8)))
  /-- The response that samples are corrected for is that of all chunks. -/
  response_eq : m.response = responseOf o chunks
  /-- So is the gamma that is reported. -/
  gamma_eq : m.properties.get? "gamma" = (gammaTold o chunks).map .number
  /-- A chunk behind the header sets the gamma that is used and the one that is reported exactly if
  it is about the gamma or the standard RGB space and the space has not been named before. -/
  sets_gamma : ∀ front x back m₁ m₂, chunks = front ++ x :: back → front ≠ [] →
    acceptAll front (.new o) = .ok () m₁ → m₁.accept x = .ok m₂ →
    m₂.response.fileGamma = (if SetsGamma front x then gammaSet x else m₁.response.fileGamma) ∧
    m₂.properties.get? "gamma" =
      if SetsGamma front x then some (.number (o.scaled (gammaSet x)))
      else m₁.properties.get? "gamma"
  /-- If a palette comes behind every chunk that sets the gamma, the palette in force is corrected
  for the same response as samples. -/
  palette_settled : (∀ front x back, chunks = front ++ x :: back → SetsGamma front x →
      ∃ p ∈ back, p.kind = .palette) →
    m.palette = some ((colorsOf c.data).map (correctColor (m.response.table 8)))

/-- The last palette of accepted chunks is corrected as it is read. -/
theorem correctsPalette [Libraries] {o : Options} {chunks : List Chunk} {m : Metadata} {c : Chunk}
    (hheader : chunks.head?.map Chunk.kind = some .header)
    (h : acceptAll chunks (.new o) = .ok () m) (hcorrect : o.correctGamma = true)
    (hlast : lastOf .palette chunks = some c) : m.CorrectsPalette o chunks c := by
  have trace := responseTrace_acceptAll hheader h
  have hpalette : m.palette = some ((colorsOf c.data).map
      (correctColor ((responseOf o (beforeLast .palette chunks)).table 8))) := by
    rw [palette_eq_of_acceptAll hheader h, paletteTold, hlast, Option.map_some, if_pos hcorrect]
  refine ⟨hpalette, trace.response_eq, trace.reported.gamma_eq, ?_, fun hsettled => ?_⟩
  · rintro front x back m₁ m₂ rfl hfront hbefore hnext
    rw [List.head?_append_of_ne_nil _ hfront] at hheader
    exact gamma_of_accept hheader hbefore hnext
  · obtain ⟨behind, hsplit, hothers⟩ := exists_behindLast hlast
    have htable := table_responseOf_append (o := o)
      (quiet_of_palette_behind hsplit hothers hsettled)
    rw [← hsplit] at htable
    rw [hpalette, trace.response_eq, htable]

end Metadata

/-- When samples are corrected, the palette in force is the last one, corrected for what was told in
front of it, while the response at the end is that of all chunks. A chunk behind the header sets the
gamma that is used and reported exactly if it is about the gamma or the standard RGB space and the
space has not been named before; if a palette comes behind every such chunk, the palette in force is
corrected for the response at the end. -/
theorem palette_corrected [Libraries] {source : Source} {o : Options} {chunks : List Chunk}
    {d : Decoder} {c : Chunk} (h : source.Carries chunks)
    (hread : Decoder.readHeaders (.new source o) = .ok () d) (hcorrect : o.correctGamma = true)
    (hlast : lastOf .palette chunks = some c) : d.metadata.CorrectsPalette o chunks c := by
  obtain ⟨hheader, haccept⟩ := Decoder.acceptAll_of_readHeaders h hread
  exact Metadata.correctsPalette hheader haccept hcorrect hlast

/-- The header of a palette image of one pixel. -/
def indexedPixel : Chunk :=
  { tag := .ofChars 'I' 'H' 'D' 'R', data := [0, 0, 0, 1, 0, 0, 0, 1, 8, 3, 0, 0, 0] }

/-- A palette of one colour. -/
def oneColor : Chunk := { tag := .ofChars 'P' 'L' 'T' 'E', data := [128, 64, 32] }

/-- A gamma of one. -/
def linearGamma : Chunk := { tag := .ofChars 'g' 'A' 'M' 'A', data := [0, 1, 134, 160] }

theorem gammaOf_linearGamma : gammaOf linearGamma.data = 1.0 := by decide +kernel

/-- The end of a file. -/
def fileEnd : Chunk := { tag := .ofChars 'I' 'E' 'N' 'D', data := [] }

/-- The chunks of a file that gives its gamma, and then its palette. -/
def gammaFirst : List Chunk := [indexedPixel, linearGamma, oneColor, fileEnd]

/-- The chunks of a file that gives its palette, and then its gamma. -/
def gammaLast : List Chunk := [indexedPixel, oneColor, linearGamma, fileEnd]

/-- Correcting for a user and a display of exponent one, so that only the file counts. -/
def correctFile : Options := { correctGamma := true, userExponent := 1.0, displayExponent := 1.0 }

open Metadata in
/-- A palette behind the gamma of its file is corrected for it. -/
theorem palette_corrected_gammaFirst :
    ∃ d, Decoder.readHeaders (.new (.ofChunks gammaFirst) correctFile) = .ok () d ∧
      correctFile.correctGamma = true ∧ lastOf .palette gammaFirst = some oneColor ∧
      d.metadata.response.fileGamma = 1.0 ∧
      d.metadata.palette =
        some [correctColor (d.metadata.response.table 8) ⟨128, 64, 32⟩] := by
  have hcarries : (Source.ofChunks gammaFirst).Carries gammaFirst :=
    Source.carries_ofChunks (by decide) rfl (by decide)
  obtain ⟨m, haccept⟩ : ∃ m, acceptAll gammaFirst (.new correctFile) = .ok () m := ⟨_, rfl⟩
  have hread := Decoder.readHeaders_of_carries hcarries rfl haccept
  have corrects := palette_corrected hcarries hread rfl rfl
  refine ⟨_, hread, rfl, rfl, ?_, corrects.palette_settled ?_⟩
  · rw [corrects.response_eq]
    exact gammaOf_linearGamma
  · intro front x back hsplit hset
    exact exists_palette_behind (c := oneColor) (by decide) (by decide) rfl hsplit hset

open Metadata in
/-- A palette stays corrected for the gamma of a file without one where a gamma of one comes behind
it, which is used for samples and reported. -/
theorem gamma_behind_palette :
    ∃ d, Decoder.readHeaders (.new (.ofChunks gammaLast) correctFile) = .ok () d ∧
      d.metadata.palette = some [correctColor
        ((ToneResponse.ofOptions correctFile).table 8) ⟨128, 64, 32⟩] ∧
      (ToneResponse.ofOptions correctFile).fileGamma = 0.45455 ∧
      d.metadata.response.fileGamma = 1.0 ∧
      d.metadata.properties.get? "gamma" = some (.number 1.0) ∧
      ∃ front back, gammaLast = front ++ linearGamma :: back ∧ SetsGamma front linearGamma ∧
        oneColor ∈ front ∧ ∀ p ∈ back, p.kind ≠ .palette := by
  have hcarries : (Source.ofChunks gammaLast).Carries gammaLast :=
    Source.carries_ofChunks (by decide) rfl (by decide)
  obtain ⟨m, haccept⟩ : ∃ m, acceptAll gammaLast (.new correctFile) = .ok () m := ⟨_, rfl⟩
  have trace := responseTrace_acceptAll rfl haccept
  refine ⟨_, Decoder.readHeaders_of_carries hcarries rfl haccept, ?_, by decide, ?_, ?_,
    [indexedPixel, oneColor], [fileEnd], rfl, by decide, by decide, by decide⟩
  · show m.palette = _
    rw [palette_eq_of_acceptAll rfl haccept]
    rfl
  · show m.response.fileGamma = _
    rw [trace.response_eq]
    exact gammaOf_linearGamma
  · show m.properties.get? "gamma" = _
    have hgamma : gammaTold correctFile gammaLast = some (gammaOf linearGamma.data * (1.0 / 1.0)) :=
      rfl
    have hscaled : (1.0 : Float32) * (1.0 / 1.0) = 1.0 := by decide
    rw [trace.reported.gamma_eq, hgamma, gammaOf_linearGamma, hscaled, Option.map_some]

end Png
