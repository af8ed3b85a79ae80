import Png.BigEndian
import Png.Calendar
import Png.Chunk.Field
import Png.Chunk.Stream
import Png.Chunk.Tag
import Png.ColorModel
import Png.ColorType
import Png.CommandLine.Arguments
import Png.CommandLine.Disk
import Png.CommandLine.Place
import Png.CommandLine.Program
import Png.CommandLine.Script
import Png.Decimal.Binary32
import Png.Decimal.Layout
import Png.Decimal.Reading
import Png.Decimal.Shortest
import Png.Decoder
import Png.Depth
import Png.EncodeParams
import Png.Error
import Png.Filter
import Png.Header
import Png.Image
import Png.Json
import Png.Libraries
import Png.Libraries.Own
import Png.Log
import Png.Main
import Png.Metadata
import Png.Metadata.Accept
import Png.Metadata.Finding
import Png.Metadata.Handle
import Png.Narration
import Png.Options
import Png.Pass
import Png.PixelMap
import Png.Properties
import Png.Raster
import Png.Scan
import Png.Size
import Png.Source
import Png.Summary
import Png.Text.CaseTable
import Png.Text.Latin1
import Png.Text.LowerCase
import Png.Text.Printable
import Png.Text.Quoted
import Png.Text.Utf8
import Png.ToneResponse
import Png.Transform
import Png.Zlib.Adler
import Png.Zlib.Bits
import Png.Zlib.Fault
import Png.Zlib.Huffman
import Png.Zlib.Inflate
import Png.Zlib.Stream
import Png.Proofs.Framing
import Png.Proofs.Handling
import Png.Proofs.Acceptance
import Png.Proofs.Session
import Png.Proofs.ImageDataChunks
import Png.Proofs.Reporting
import Png.Proofs.PaletteState
import Png.Proofs.BitFields
import Png.Proofs.PackedRows
import Png.Proofs.PixelRaster
import Png.Proofs.PassGeometry
import Png.Proofs.Filtering
import Png.Proofs.DataSize
import Png.Proofs.OutputPixels
import Png.Proofs.Encoding
import Png.Proofs.Scanning
import Png.Proofs.ChunkRuns
import Png.Proofs.ChunkBytes
import Png.Proofs.Cuts
import Png.Proofs.StoredPixels
import Png.Proofs.ScanBounds
import Png.Proofs.Sizes
import Png.Proofs.RowHistory
import Png.Proofs.Files
import Png.Proofs.FileRuns
import Png.Proofs.ScanSafety
import Png.Proofs.OutputOptions
import Png.Proofs.Expansion
import Png.Proofs.Consistency
import Png.Proofs.PropertyOrder
import Png.Proofs.Lockstep
import Png.Proofs.Presentation
import Png.Proofs.OutputColors
import Png.Proofs.Opacity
import Png.Proofs.Omission
import Png.Proofs.WholeFiles
import Png.Proofs.PixelDensity
import Png.Proofs.ResponseOrder
import Png.Proofs.PaletteCorrection
import Png.Proofs.HeaderRules
import Png.Proofs.RecordedProperties
import Png.Proofs.NumberedNames
import Png.Proofs.NumberedProperties
import Png.Proofs.NumberedFiles
import Png.Proofs.Scanlines
import Png.Proofs.PlainImages
import Png.Proofs.LetterCase
import Png.Proofs.PixelCells
import Png.Proofs.PropertyNames
import Png.Proofs.UnevenRows
