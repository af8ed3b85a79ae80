/-!
# Log lines

A remark has a level, the part of the program that makes it, and a text. The caller chooses the
least weighty level that is still shown.
-/

namespace Png

/-- How weighty a remark is. -/
inductive LogLevel where
  | error
  | warn
  | info
  | debug
  | trace
  deriving DecidableEq

namespace LogLevel

/-- The weightiest level comes first. -/
def rank : LogLevel → Nat
  | error => 0
  | warn => 1
  | info => 2
  | debug => 3
  | trace => 4

/-- The name of the level. -/
def label : LogLevel → String
  | error => "ERROR"
  | warn => "WARN"
  | info => "INFO"
  | debug => "DEBUG"
  | trace => "TRACE"

end LogLevel

/-- The part of the program that makes a remark. -/
inductive LogTarget where
  | chunk
  | header
  | headers
  | transform
  | decoder
  | logger
  | arguments
  | workflow
  | output
  | program
  deriving DecidableEq

/-- The path of the part. -/
def LogTarget.path : LogTarget → String
  | chunk => "pngdec::chunk"
  | header => "pngdec::header"
  | headers => "pngdec::headers"
  | transform => "pngdec::post_process"
  | decoder => "pngdec::decoder"
  | logger => "pngdec_bin::cmd_parsers::global_options"
  | arguments => "pngdec_bin::cmd_parsers"
  | workflow => "pngdec_bin::workflow"
  | output => "pngdec_bin::file_io"
  | program => "pngdec_bin"

/-- A line of the log. -/
structure Remark where
  level : LogLevel
  target : LogTarget
  text : String
  deriving DecidableEq

namespace Remark

/-- The line with its end; levels are padded to five characters. -/
def line (r : Remark) : String :=
  let label := r.level.label
  let padding := String.ofList (List.replicate (5 - label.length) ' ')
  label ++ padding ++ " [" ++ r.target.path ++ "] " ++ r.text ++ "\n"

/-- The lines of the remarks that are weighty enough. -/
def render (threshold : LogLevel) (remarks : List Remark) : String :=
  String.join ((remarks.filter fun r => r.level.rank ≤ threshold.rank).map line)

end Remark

end Png
