import Png.Image
import Png.Metadata.Handle

/-!
# Decoding

A decoder reads one file. `readHeaders` reads its chunks up to the end chunk, and `decode` makes the
image, once. A step that fails leaves the decoder with all that was read before it; the next step
then goes on from the byte where reading stopped, with a signature.
-/

namespace Png

variable [Libraries]

/-- How far a decoder has come. -/
inductive Stage where
  /-- The end chunk has not been read. -/
  | reading
  /-- All chunks have been read. -/
  | complete
  /-- The image has been asked for. -/
  | decoded
  deriving DecidableEq

/-- A decoder: the rest of its file, what it knows of it, and its stage. -/
structure Decoder where
  stream : ChunkStream
  metadata : Metadata
  stage : Stage := .reading

namespace Decoder

/-- A decoder of the file that `source` delivers. -/
def new (source : Source) (options : Options) : Decoder :=
  { stream := { source }, metadata := .new options }

/-- What a step of a decoder does: its result, and the decoder after it. -/
abbrev Step := EStateM Error Decoder

/-- Handles chunks up to the end chunk. A chunk that is refused has been read from the stream, and
what its handler wrote stays. -/
def acceptChunks (s : ChunkStream) (m : Metadata) :
    EStateM.Result Error (ChunkStream × Metadata) Unit :=
  match h : s.takeChunk with
  | .error e s' => .error e (s', m)
  | .ok c s' =>
    match Metadata.handle c m with
    | .error e m' => .error e (s', m')
    | .ok () m' =>
      have := ChunkStream.size_of_takeChunk h
      if c.kind = .imageEnd then .ok () (s', m') else acceptChunks s' m'
termination_by s.size

/-- Reads all chunks, unless they have been read. -/
def readHeaders : Step Unit := fun d =>
  match d.stage with
  | .complete | .decoded => .ok () d
  | .reading =>
    match d.stream.takeOpening with
    | .error e stream => .error e { d with stream }
    | .ok () stream =>
      match acceptChunks stream d.metadata with
      | .error e (stream, metadata) => .error e { d with stream, metadata }
      | .ok () (stream, metadata) => .ok () { stream, metadata, stage := .complete }

/-- The image, which is made once: asking for it again is an error, whether or not there was one. -/
def decode : Step Image := fun d =>
  if d.stage = .decoded then .error .alreadyDecoded d
  else match readHeaders d with
    | .error e d => .error e d
    | .ok () d =>
      let d := { d with stage := .decoded }
      match d.metadata.render with
      | .error e => .error e d
      | .ok image => .ok image d

/-- The size of the image, once the header is known. -/
def dimensions? (d : Decoder) : Option (Nat × Nat) :=
  d.metadata.header.map fun h => (h.width, h.height)

end Decoder

/-- The image of a file, decoded in one step. -/
def decode (source : Source) (options : Options) : Except Error Image :=
  match Decoder.decode (.new source options) with
  | .ok image _ => .ok image
  | .error e _ => .error e

end Png
