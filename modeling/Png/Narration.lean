import Png.Decoder
import Png.Log
import Png.Text.Quoted
import Png.Text.Utf8

/-!
# What the log says of a decode

The remarks on one file, in the order of the steps that they are about. They follow the decoder:
what is said of a chunk depends on the state before and after it, and what is said of the image data
ends where the scan does.
-/

namespace Png

variable [Libraries]

namespace Remark

/-- A chunk has been read. Types that are no text have a stand-in. -/
def chunkRead (c : Chunk) : Remark where
  level := .trace
  target := .chunk
  text :=
    let name := Text.quote ((Text.utf8? c.tag.toBytes).getD "XXXX")
    s!"Chunk {name}, length {c.data.length}"

/-- The header has been accepted. -/
def headerRead (h : Header) : List Remark :=
  [s!"Width: {h.width}", s!"Height: {h.height}", s!"Color type: {h.color.label}",
      s!"Depth: {h.depth}", s!"Interlace :{h.interlace.label}"].map
    fun text => { level := .info, target := .header, text }

/-- The transform has been chosen. -/
def transformChosen (t : Transform) : Remark where
  level := .info
  target := .transform
  text :=
    s!"Post process: {t.mode.label}, replicate to rgb: {t.replicate}, output bands: {t.bands}"

/-- Something in a chunk is passed over. -/
def warning (text : String) : Remark := { level := .warn, target := .headers, text }

/-- Something in a chunk is kept. -/
def kept (text : String) : Remark := { level := .trace, target := .headers, text }

/-- A pass begins. -/
def passBegun (h : Header) (p : Pass) (index : Nat) : Remark where
  level := .trace
  target := .decoder
  text := s!"Pass {index}: {p.width}x{p.height}, {h.rowBytes p.width} bytes per row"

/-- The image data are too short. -/
def tooShort (needed held : Nat) : Remark where
  level := .debug
  target := .decoder
  text := s!"Image needs {needed} bytes of scanlines, stream holds {held}"

/-- The image data are longer than the scan. -/
def leftOver (count : Nat) : Remark where
  level := .info
  target := .decoder
  text := s!"{count} bytes of image data left over"

end Remark

/-- A date as its bare numbers. -/
def DateTime.fields (t : DateTime) : String :=
  s!"{t.year}-{t.month}-{t.day} {t.hour}:{t.minute}:{t.second}"

namespace Metadata

/-- The remarks on a chunk that took the state from `before` to `after`. -/
def remarks (c : Chunk) (before after : Metadata) : List Remark :=
  let transform := after.transform.toList.map Remark.transformChosen
  let passedOver (text : String) : List Remark :=
    if before.response.intent.isSome then [.warning text] else []
  match c.kind with
  | .header => (after.header.toList.flatMap Remark.headerRead) ++ transform
  | .transparency => transform
  | .chromaticities => passedOver "Ignoring cHRM chunk after sRGB chunk"
  | .gamma => passedOver "Ignoring gAMA chunk after sRGB chunk"
  | .standardRgb => passedOver "Ignoring repeated sRGB chunk"
  | .iccProfile =>
    match splitKeyword .profileName c.data with
    | .ok (name, _) =>
      let name := Text.latin1 name
      [.kept s!"ICC profile: {name}"]
    | .error _ => []
  | .compressedText =>
    match splitCompressedText c.data with
    | .ok (keyword, stream) =>
      match Libraries.inflate true stream with
      | .ok _ => []
      | .error fault =>
        let keyword := Text.quote keyword
        [.warning s!"Could not inflate zTXt chunk {keyword}: {fault.message}"]
    | .error _ => []
  | .time =>
    match readTime c.data with
    | .ok time =>
      if Libraries.isDate time then [] else [.warning s!"Ignoring invalid tIME {time.fields}"]
    | .error _ => []
  | .unknown =>
    [.kept s!"Storing unknown chunk {c.name} as {unknownName before.unknownCount c.tag}"]
  | _ => []

end Metadata

/-- The remarks on the chunks up to the end chunk, and the state there if they were all accepted. -/
def narrateChunks (s : ChunkStream) (m : Metadata) : List Remark × Option Metadata :=
  match h : s.takeChunk with
  | .error _ _ => ([], none)
  | .ok c s' =>
    match m.accept c with
    | .error _ => ([.chunkRead c], none)
    | .ok m' =>
      have := ChunkStream.size_of_takeChunk h
      let here := Remark.chunkRead c :: Metadata.remarks c m m'
      if c.kind = .imageEnd then (here, some m')
      else
        let (later, last) := narrateChunks s' m'
        (here ++ later, last)
termination_by s.size

/-- The remarks on the passes from `s` on: each as it begins, and what is left over behind them. -/
def narratePasses (h : Header) (m : PixelMap) : List (Pass × Nat) → Scan → List Remark
  | [], s => if s.rest.isEmpty then [] else [.leftOver s.rest.length]
  | (p, index) :: passes, s =>
    .passBegun h p index ::
      match s.takePass h m p with
      | .ok s => narratePasses h m passes s
      | .error _ => []

/-- The remarks on the image data. -/
def narrateImage (m : Metadata) : List Remark :=
  match m.readiness, m.inflated with
  | .ok (h, t), .ok data =>
    if data.length < h.dataSize then [.tooShort h.dataSize data.length]
    else
      let passes := h.passes.zipIdx.filter fun (p, _) => !p.isEmpty
      narratePasses h (m.pixelMap h t) passes (.start h data (m.blankRaster h t))
  | _, _ => []

/-- The remarks on decoding a file. -/
def narrate (source : Source) (options : Options) : List Remark :=
  match ChunkStream.takeOpening { source } with
  | .error _ _ => []
  | .ok () stream =>
    let (remarks, last) := narrateChunks stream (.new options)
    remarks ++ (last.toList.flatMap narrateImage)

end Png
