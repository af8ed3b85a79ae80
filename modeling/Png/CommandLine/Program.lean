import Png.CommandLine.Arguments
import Png.CommandLine.Script
import Png.Libraries.Own
import Png.Narration
import Png.Summary
import Png.Decimal.Layout

/-!
# The program

Decodes the input files one after the other, prints the summary of each, and writes its samples
where outputs are given. The first failure ends the run.
-/

namespace Png.Remark

open CommandLine (Arguments)

/-- Remarks before the first file. -/
def setup (a : Arguments) : List Remark :=
  let logger (text : String) : Remark := { level := .info, target := .logger, text }
  let user := Decimal.logText a.userExponent
  let display := Decimal.logText a.displayExponent
  [logger "Initialized logger", logger s!"Log level :{a.logLevel.label}"] ++
    (if a.has .gamma then
      [{ level := .info, target := .arguments
         text := s!"Gamma correcting with user exponent {user} and display exponent {display}" }]
    else [])

/-- The files are going to be decoded. -/
def filesCounted (count : Nat) : Remark :=
  { level := .info, target := .workflow, text := s!"Decoding {count} files" }

/-- A file is going to be decoded. -/
def fileBegun (path : String) : Remark :=
  { level := .debug, target := .workflow, text := "Decoding " ++ Text.quote path }

/-- The samples of a file have been written. -/
def written (path : String) (count : Nat) : Remark :=
  { level := .info, target := .output
    text := s!"Wrote {count} bytes to " ++ Text.quote path }

end Png.Remark

namespace Png.CommandLine

variable [Libraries]

/-- A cause for which a run ends early. -/
inductive Failure where
  /-- There are outputs, and not as many as inputs. -/
  | outputCount (inputs outputs : Nat)
  /-- A file cannot be decoded, read or written. -/
  | file (error : Error)
  deriving DecidableEq

/-- The cause in words, with the end of line. -/
def Failure.message : Failure → String
  | outputCount inputs outputs =>
    s!"{inputs} inputs but {outputs} outputs, give one output per input" ++ "\n"
  | file error => error.message

/-- The exit code of a run that fails. -/
def failureCode : Nat := 255

/-- The exit code of a wrong command line. -/
def wrongCode : Nat := 2

/-- Ends the run with the cause of its failure between empty lines. -/
def fail (cause : Failure) : Script :=
  let remark : Remark :=
    { level := .error, target := .program
      text := " Could not decode, reason " ++ cause.message }
  .print ("\n" ++ remark.line ++ "\n") (.exit failureCode)

/-- Prints the remarks that are to be shown. -/
def say (a : Arguments) (remarks : List Remark) (next : Script) : Script :=
  .print (Remark.render a.logLevel remarks) next

/-- Goes on with a value or fails for the cause that there is none. -/
def orFail {α : Type} (next : α → Script) : Except Error α → Script
  | .ok value => next value
  | .error e => fail (.file e)

/-- The result of a step on files as one of decoding. -/
def ofFile {α : Type} (result : Except String α) : Except Error α :=
  result.mapError .io

/-- Writes the samples of an image where there is an output for them. -/
def saveImage (a : Arguments) (image : Image) (output : Option String) (next : Script) : Script :=
  match output with
  | none => next
  | some path =>
    let bytes := image.raster.toBytes
    .write path bytes fun result =>
      orFail (fun _ => say a [.written path bytes.length] next) (ofFile result)

/-- Decodes the inputs in order, each with its output if it has one. -/
def decodeFiles (a : Arguments) : List (String × Option String) → Script
  | [] => .exit 0
  | (input, output) :: files =>
    say a [.fileBegun input] <| .read input fun result =>
      orFail (fun bytes =>
        say a (narrate { rest := bytes } a.options) <|
          orFail (fun image =>
            .print ((image.summary input).pretty 0 ++ "\n") <|
              saveImage a image output (decodeFiles a files))
            (decode { rest := bytes } a.options))
        (ofFile result)

/-- The inputs with their outputs: one for each, or none at all. -/
def pairFiles (a : Arguments) : Except Failure (List (String × Option String)) :=
  if a.outputs.isEmpty then .ok (a.inputs.map fun input => (input, none))
  else if a.outputs.length = a.inputs.length then .ok (a.inputs.zip (a.outputs.map some))
  else .error (.outputCount a.inputs.length a.outputs.length)

/-- What the program does for arguments that can be read. -/
def runArguments (a : Arguments) : Script :=
  say a (Remark.setup a) <|
    match pairFiles a with
    | .error cause => fail cause
    | .ok files => say a [.filesCounted a.inputs.length] (decodeFiles a files)

/-- The help text. -/
def usage : String :=
  let line (name help : String) : String := s!"  --{name}  {help}\n"
  "Decode png files and print their properties as json\n\n" ++
    String.join (Setting.all.map fun s => line (s.name ++ " VALUE") s.help) ++
    String.join (Switch.all.map fun s => line s.name s.help)

/-- What the program does for its arguments. -/
def program (arguments : List String) : Script :=
  match Arguments.read arguments with
  | .ok a => runArguments a
  | .error .help => .print usage (.exit 0)
  | .error .wrong => .exit wrongCode

end Png.CommandLine
