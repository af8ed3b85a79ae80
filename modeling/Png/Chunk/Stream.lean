import Png.BigEndian
import Png.Error
import Png.Source
import Png.Text.Latin1

/-!
# Chunks

A file is the signature followed by chunks: the length of the data in four bytes, the type in four,
the data, and a check value in four that is read and not compared. `ChunkStream` reads a file in
these units; the length and the type of the next chunk may be looked at before it is read.
-/

namespace Png

/-- The type as text. -/
def ChunkTag.text (t : ChunkTag) : String := Text.latin1 t.toBytes

/-- A chunk: its type, its data and its check value. -/
structure Chunk where
  tag : ChunkTag
  data : List UInt8
  crc : Nat := 0
  deriving DecidableEq

namespace Chunk

/-- What the chunk is about. -/
def kind (c : Chunk) : ChunkKind := c.tag.kind

/-- The type as text. -/
def name (c : Chunk) : String := c.tag.text

/-- The bytes of the chunk in a file. -/
def toBytes (c : Chunk) : List UInt8 :=
  BigEndian.encode 4 c.data.length ++ c.tag.toBytes ++ c.data ++ BigEndian.encode 4 c.crc

end Chunk

/-- The eight bytes that every file starts with. -/
def signature : List UInt8 := [0x89, 0x50, 0x4E, 0x47, 0x0D, 0x0A, 0x1A, 0x0A]

/-- The length and the type in front of a chunk's data. -/
structure ChunkHead where
  length : Nat
  tag : ChunkTag
  deriving DecidableEq

/-- A file being read chunk by chunk. -/
structure ChunkStream where
  source : Source
  /-- The head of the next chunk, where it has been looked at. -/
  pending : Option ChunkHead := none
  deriving DecidableEq

/-- A step of reading, which moves the stream on whether it succeeds or fails. -/
abbrev ChunkReader := EStateM Error ChunkStream

namespace ChunkStream

/-- The error of a read of a fixed number of bytes: `atEnd` where they have ended, which a source
may also say by failing. -/
def exactRead (atEnd : Error) : ReadFailure → Error
  | .ended => atEnd
  | .failed { kind := .unexpectedEnd, .. } => atEnd
  | .failed { kind := .other, reason } => .io reason

/-- The error of a read of a fixed number of bytes that stopped inside `part`. -/
def shortRead (part : Part) : ReadFailure → Error := exactRead (.truncated part)

/-- The error of a read of as many bytes as there are up to some number. Whatever the source fails
for, it is its own error. -/
def openRead : ReadFailure → Error
  | .ended => .truncated .chunkData
  | .failed fault => .io fault.reason

/-- Takes exactly `n` bytes; `onFailure` is the error if there are fewer. -/
def takeBytes (n : Nat) (onFailure : ReadFailure → Error) : ChunkReader (List UInt8) := fun s =>
  match s.source.take n with
  | (.ok bytes, source) => .ok bytes { s with source }
  | (.error failure, source) => .error (onFailure failure) { s with source }

/-- Takes the signature. A file that ends before it, or has other bytes, has a bad one. -/
def takeSignature : ChunkReader Unit := do
  let bytes ← takeBytes 8 (exactRead .badSignature)
  if bytes ≠ signature then throw .badSignature

/-- The result of a step that needs no bytes. -/
def ofExcept {α : Type} (result : Except Error α) : ChunkReader α := fun s =>
  match result with
  | .ok a => .ok a s
  | .error e => .error e s

/-- Takes the head of the next chunk from the source. -/
def takeHead : ChunkReader ChunkHead := do
  let length ← takeBytes 4 (shortRead .chunkLength)
  let type ← takeBytes 4 (shortRead .chunkType)
  let tag ← ofExcept (demand (ChunkTag.ofBytes? type) (.truncated .chunkType))
  return { length := BigEndian.decode length, tag }

/-- The head of the next chunk, which stays pending. -/
def peekHead : ChunkReader ChunkHead := fun s =>
  match s.pending with
  | some head => .ok head s
  | none =>
    match takeHead s with
    | .ok head s => .ok head { s with pending := some head }
    | .error e s => .error e s

/-- The head of the next chunk, which is pending no more. -/
def popHead : ChunkReader ChunkHead := fun s =>
  match s.pending with
  | some head => .ok head { s with pending := none }
  | none => takeHead s

/-- Takes the next chunk. Its data are read as far as they go, so that a length alone asks for no
room. -/
def takeChunk : ChunkReader Chunk := do
  let head ← popHead
  let data ← takeBytes head.length openRead
  let crc ← takeBytes 4 (shortRead .chunkCrc)
  return { tag := head.tag, data, crc := BigEndian.decode crc }

/-- Takes the signature and makes sure that a header comes next, which stays pending. A file that
ends before its first chunk has no header. -/
def takeOpening : ChunkReader Unit := fun s =>
  match takeSignature s with
  | .error e s => .error e s
  | .ok () s =>
    match peekHead s with
    | .ok head s => if head.tag.kind = .header then .ok () s else .error .missingHeader s
    | .error (.truncated _) s => .error .missingHeader s
    | .error e s => .error e s

/-- The bytes left, those of a pending head included. -/
def size (s : ChunkStream) : Nat :=
  s.source.rest.length + (if s.pending.isSome then 8 else 0)

/-- A step after another one succeeds if both do. -/
theorem bind_eq_ok {α β : Type} {step : ChunkReader α} {next : α → ChunkReader β}
    {s s' : ChunkStream} {b : β} :
    (step >>= next) s = .ok b s' ↔ ∃ a t, step s = .ok a t ∧ next a t = .ok b s' := by
  simp only [bind, EStateM.bind]
  cases step s with
  | ok a t => simp [and_assoc]
  | error e t => simp

theorem size_of_takeBytes {n : Nat} {onFailure : ReadFailure → Error} {s s' : ChunkStream}
    {bytes : List UInt8} (h : takeBytes n onFailure s = .ok bytes s') :
    s'.size + n = s.size ∧ s'.pending = s.pending := by
  unfold takeBytes at h
  rw [Source.take_eq] at h
  split at h
  · next bytes' source hread =>
    obtain ⟨-, rfl⟩ := by simpa using h
    split at hread
    · next hn =>
      obtain ⟨-, rfl⟩ := by simpa using hread
      simp only [size, Source.skip, List.length_drop, and_true]
      omega
    · simp at hread
  · simp at h

theorem state_of_ofExcept {α : Type} {result : Except Error α} {s s' : ChunkStream} {a : α}
    (h : ofExcept result s = .ok a s') : s' = s := by
  unfold ofExcept at h
  split at h <;> simp_all

theorem size_of_takeHead {s s' : ChunkStream} {head : ChunkHead} (h : takeHead s = .ok head s') :
    s'.size + 8 = s.size ∧ s'.pending = s.pending := by
  simp only [takeHead, bind_eq_ok] at h
  obtain ⟨_, s₁, h₁, _, s₂, h₂, _, s₃, h₃, h⟩ := h
  obtain ⟨e₁, p₁⟩ := size_of_takeBytes h₁
  obtain ⟨e₂, p₂⟩ := size_of_takeBytes h₂
  obtain rfl := state_of_ofExcept h₃
  obtain ⟨-, rfl⟩ := by simpa [pure, EStateM.pure] using h
  exact ⟨by omega, p₂.trans p₁⟩

theorem size_of_popHead {s s' : ChunkStream} {head : ChunkHead} (h : popHead s = .ok head s') :
    s'.size + 8 = s.size := by
  unfold popHead at h
  split at h
  · next hpending =>
    obtain ⟨-, rfl⟩ := by simpa using h
    simp [size, hpending]
  · exact (size_of_takeHead h).1

/-- A chunk takes four bytes at least, even if its head is pending. -/
theorem size_of_takeChunk {s s' : ChunkStream} {c : Chunk} (h : takeChunk s = .ok c s') :
    s'.size < s.size := by
  simp only [takeChunk, bind_eq_ok] at h
  obtain ⟨head, s₁, h₁, _, s₂, h₂, _, s₃, h₃, h⟩ := h
  have := size_of_popHead h₁
  have := (size_of_takeBytes h₂).1
  have := (size_of_takeBytes h₃).1
  obtain ⟨-, rfl⟩ := by simpa [pure, EStateM.pure] using h
  omega

end ChunkStream

end Png
