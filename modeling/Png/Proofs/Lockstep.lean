import Png.Proofs.OutputOptions

/-!
# Two readings of one file

A file may be read twice, with different options. `InStep` compares two results: both are the same
error, or both are values in some relation. By `inStep_told` two readings stay in step from chunk to
chunk if accepting a single chunk keeps them in step, and `inStep_known` says the same of the files
as a whole. Decoding goes on from there with the drawing of the image (`decode_eq_known`).
-/

namespace Png

/-- Two results are in step: both are errors, and the same one, or both are values, and related. -/
def InStep {α β : Type} (related : α → β → Prop) : Except Error α → Except Error β → Prop
  | .error e, .error e' => e = e'
  | .ok a, .ok b => related a b
  | _, _ => False

namespace InStep

variable {α β γ δ : Type} {related : α → β → Prop} {next : γ → δ → Prop}

/-- A result is in step with itself as far as its value is related to itself. -/
theorem of_eq {related : α → α → Prop} {x y : Except Error α} (h : x = y)
    (hrefl : ∀ a, x = .ok a → related a a) : InStep related x y := by
  subst h
  cases x with
  | error e => rfl
  | ok a => exact hrefl a rfl

/-- Results in step stay so if what follows related values is in step. -/
theorem bind {x : Except Error α} {y : Except Error β} {f : α → Except Error γ}
    {g : β → Except Error δ} (h : InStep related x y)
    (hnext : ∀ a b, x = .ok a → y = .ok b → related a b → InStep next (f a) (g b)) :
    InStep next (x >>= f) (y >>= g) := by
  cases x with
  | error e =>
    cases y with
    | error e' => exact h
    | ok b => exact h.elim
  | ok a =>
    cases y with
    | error e' => exact h.elim
    | ok b => exact hnext a b rfl rfl h

end InStep

namespace Decoder

variable [Libraries]

/-- What the chunks of a stream tell, from what is known before them. -/
def told (s : ChunkStream) (m : Metadata) : Except Error Metadata :=
  match acceptChunks s m with
  | .ok () (_, m') => .ok m'
  | .error e _ => .error e

theorem told_of_refused {s s' : ChunkStream} {e : Error} (m : Metadata)
    (h : s.takeChunk = .error e s') : told s m = .error e := by
  rw [told, acceptChunks_of_refused h]

/-- The first chunk is accepted, and then the others, if it is not the last. -/
theorem told_of_taken {s s' : ChunkStream} {c : Chunk} (m : Metadata)
    (h : s.takeChunk = .ok c s') :
    told s m = m.accept c >>= fun m' => if c.kind = .imageEnd then .ok m' else told s' m' := by
  rw [told, acceptChunks_of_taken h]
  cases m.accept c with
  | error e => rfl
  | ok m' =>
    show _ = if c.kind = .imageEnd then Except.ok m' else told s' m'
    by_cases hkind : c.kind = .imageEnd
    · simp only [hkind, if_true]
    · simp only [hkind, if_false, told]

/-- Two readings of a stream stay in step if they do so at every chunk. -/
theorem inStep_told {related : Metadata → Metadata → Prop}
    (hstep : ∀ {m₁ m₂} (c : Chunk), related m₁ m₂ → InStep related (m₁.accept c) (m₂.accept c))
    (s : ChunkStream) {m₁ m₂ : Metadata} (h : related m₁ m₂) :
    InStep related (told s m₁) (told s m₂) := by
  cases htaken : s.takeChunk with
  | error e s' =>
    rw [told_of_refused m₁ htaken, told_of_refused m₂ htaken]
    rfl
  | ok c s' =>
    have hsize := ChunkStream.size_of_takeChunk htaken
    rw [told_of_taken m₁ htaken, told_of_taken m₂ htaken]
    refine (hstep c h).bind fun n₁ n₂ _ _ hn => ?_
    split
    · exact hn
    · exact inStep_told hstep s' hn
termination_by s.size

/-- What a file tells, if its chunks can be read. -/
def known (source : Source) (o : Options) : Except Error Metadata :=
  match readHeaders (.new source o) with
  | .ok () d => .ok d.metadata
  | .error e _ => .error e

/-- Behind the opening of a file its chunks tell what they tell. -/
theorem known_eq (source : Source) (o : Options) :
    known source o = match ChunkStream.takeOpening { source } with
      | .ok () s => told s (.new o)
      | .error e _ => .error e := by
  unfold known
  cases hopen : ChunkStream.takeOpening { source } with
  | error e s => rw [readHeaders_of_opening_failed rfl hopen]
  | ok u s =>
    rw [readHeaders_of_opened rfl hopen]
    show _ = told s (.new o)
    rw [told, metadata_new]
    cases acceptChunks s (.new o) <;> rfl

/-- Two readings of a file stay in step if they start so and do so at every chunk. -/
theorem inStep_known {related : Metadata → Metadata → Prop}
    (hstep : ∀ {m₁ m₂} (c : Chunk), related m₁ m₂ → InStep related (m₁.accept c) (m₂.accept c))
    (source : Source) {o₁ o₂ : Options} (hnew : related (.new o₁) (.new o₂)) :
    InStep related (known source o₁) (known source o₂) := by
  rw [known_eq, known_eq]
  cases ChunkStream.takeOpening { source } with
  | error e s => rfl
  | ok u s => exact inStep_told hstep s hnew

theorem of_known {source : Source} {o : Options} {m : Metadata} (h : known source o = .ok m) :
    m.Coherent ∧ m.options = o := by
  unfold known at h
  cases hread : readHeaders (.new source o) with
  | error e d =>
    rw [hread] at h
    cases h
  | ok u d =>
    rw [hread] at h
    cases h
    exact coherent_of_readHeaders hread

end Decoder

/-- Decoding a file is drawing what it tells. -/
theorem decode_eq_known [Libraries] (source : Source) (o : Options) :
    decode source o = Decoder.known source o >>= Metadata.render := by
  have hstage : (Decoder.new source o).stage ≠ .decoded := nofun
  simp only [decode, Decoder.decode, hstage, if_false, Decoder.known]
  cases Decoder.readHeaders (.new source o) with
  | error e d => rfl
  | ok u d =>
    show _ = d.metadata.render
    simp only
    cases d.metadata.render <;> rfl

end Png
