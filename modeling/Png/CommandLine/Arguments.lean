import Png.Decimal.Reading
import Png.Log
import Png.Options

/-!
# Arguments of the command line

Arguments are read from left to right. A switch stands for itself and comes once at most; a setting
has a value, behind an equals sign or as the next argument. There are no other arguments. Whatever
breaks these rules, or a value that cannot be read, makes the command line wrong as a whole.
-/

namespace Png.CommandLine

/-- An argument that is there or not. -/
inductive Switch where
  | suppressAlpha
  | expandPalette
  | gray8
  | expandGrayAlpha
  | gamma
  | encodeParams
  | debug
  | trace
  | warn
  | info
  deriving DecidableEq

namespace Switch

/-- All switches. -/
def all : List Switch :=
  [suppressAlpha, expandPalette, gray8, expandGrayAlpha, gamma, encodeParams, debug, trace, warn,
    info]

/-- The name behind the two dashes. -/
def name : Switch → String
  | suppressAlpha => "suppress-alpha"
  | expandPalette => "expand-palette"
  | gray8 => "gray8"
  | expandGrayAlpha => "expand-gray-alpha"
  | gamma => "gamma"
  | encodeParams => "encode-params"
  | debug => "debug"
  | trace => "trace"
  | warn => "warn"
  | info => "info"

/-- What the switch is for. -/
def help : Switch → String
  | suppressAlpha => "Drop alpha channels and ignore tRNS chunks"
  | expandPalette => "Output RGB or RGBA samples instead of palette indices"
  | gray8 => "Promote 1, 2 and 4 bit gray images to 8 bits"
  | expandGrayAlpha => "Output gray + alpha as gray, gray, gray, alpha"
  | gamma => "Gamma correct samples for the display"
  | encodeParams => "Include the parameters needed to re-encode the file"
  | debug => "Display debug information and higher"
  | trace => "Display very verbose information"
  | warn => "Display warnings and errors"
  | info => "Display information about the decoding options"

end Switch

/-- An argument with a value. -/
inductive Setting where
  | input
  | output
  | userExponent
  | displayExponent
  | maxWidth
  | maxHeight
  deriving DecidableEq

namespace Setting

/-- All settings. -/
def all : List Setting := [input, output, userExponent, displayExponent, maxWidth, maxHeight]

/-- The name behind the two dashes. -/
def name : Setting → String
  | input => "input"
  | output => "output"
  | userExponent => "user-exponent"
  | displayExponent => "display-exponent"
  | maxWidth => "max-width"
  | maxHeight => "max-height"

/-- What the setting is for. -/
def help : Setting → String
  | input => "Input file to read data from"
  | output => "Write raw samples to this file, one per input"
  | userExponent => "User exponent used when gamma correcting"
  | displayExponent => "Display exponent used when gamma correcting"
  | maxWidth => "Refuse images wider than this"
  | maxHeight => "Refuse images taller than this"

/-- The setting of a letter behind a single dash. -/
def ofLetter? : Char → Option Setting
  | 'i' => some input
  | 'o' => some output
  | _ => none

/-- Whether the setting may be given several times. -/
def repeats : Setting → Bool
  | input | output => true
  | _ => false

end Setting

/-- What the arguments ask for. -/
structure Arguments where
  /-- The files to decode, in order. -/
  inputs : List String := []
  /-- The files for their samples, in order. -/
  outputs : List String := []
  /-- The switches that are there. -/
  switches : List Switch := []
  /-- The settings that may come once and have come. -/
  given : List Setting := []
  userExponent : Float32 := 1.0
  displayExponent : Float32 := 2.2
  maxWidth : Nat := 16384
  maxHeight : Nat := 16384

/-- Why reading the arguments stops early. -/
inductive Stop where
  /-- The command line is wrong. -/
  | wrong
  /-- The help text is asked for. -/
  | help
  deriving DecidableEq

/-- The value, or a wrong command line. -/
def orWrong {α : Type} (value : Option α) : Except Stop α :=
  match value with
  | some a => .ok a
  | none => .error .wrong

namespace Arguments

/-- Whether the switch is there. -/
def has (a : Arguments) (s : Switch) : Bool := a.switches.contains s

/-- Takes a switch. -/
def withSwitch (a : Arguments) (s : Switch) : Except Stop Arguments :=
  if a.has s then .error .wrong else .ok { a with switches := s :: a.switches }

/-- Takes a setting with its value. -/
def withSetting (a : Arguments) (s : Setting) (value : String) : Except Stop Arguments := do
  if a.given.contains s then throw .wrong
  let a := if s.repeats then a else { a with given := s :: a.given }
  match s with
  | .input => return { a with inputs := a.inputs ++ [value] }
  | .output => return { a with outputs := a.outputs ++ [value] }
  | .userExponent => return { a with userExponent := ← orWrong (Decimal.readNumber? value) }
  | .displayExponent => return { a with displayExponent := ← orWrong (Decimal.readNumber? value) }
  | .maxWidth => return { a with maxWidth := ← orWrong (Decimal.readSize? value) }
  | .maxHeight => return { a with maxHeight := ← orWrong (Decimal.readSize? value) }

end Arguments

/-- What one argument is. -/
inductive Word where
  | switch (s : Switch)
  /-- A setting with its value. -/
  | assigned (s : Setting) (value : String)
  /-- A setting whose value is the next argument. -/
  | open (s : Setting)
  | help
  /-- The two dashes behind which no argument is an option. -/
  | endOfOptions
  /-- Anything that is no option. -/
  | other
  /-- Something that looks like an option and is none. -/
  | unknown

namespace Word

/-- The word of two dashes and a name, with a value where an equals sign stands behind the name. -/
def ofLong (body : List Char) : Word :=
  let name := String.ofList (body.takeWhile (· != '='))
  let value? : Option String := match body.dropWhile (· != '=') with
    | _ :: value => some (String.ofList value)
    | [] => none
  match Switch.all.find? (·.name == name), Setting.all.find? (·.name == name), value? with
  | some s, _, none => .switch s
  | _, some s, some value => .assigned s value
  | _, some s, none => .open s
  | _, _, none => if name = "help" then .help else .unknown
  | _, _, some _ => .unknown

/-- The word of a dash and a letter, with a value where more stands behind the letter. -/
def ofShort (letter : Char) (rest : List Char) : Word :=
  match Setting.ofLetter? letter, rest with
  | some s, [] => .open s
  | some s, '=' :: value => .assigned s (String.ofList value)
  | some s, value => .assigned s (String.ofList value)
  | none, _ => if letter = 'h' then .help else .unknown

/-- The word of an argument. A single dash is no option. -/
def ofText (text : String) : Word :=
  match text.toList with
  | ['-', '-'] => .endOfOptions
  | '-' :: '-' :: body => ofLong body
  | '-' :: letter :: rest => ofShort letter rest
  | _ => .other

end Word

/-- What may come next. -/
inductive Expectation where
  /-- An option. -/
  | option
  /-- The value of a setting. -/
  | value (s : Setting)
  /-- Nothing. -/
  | nothing

namespace Arguments

/-- Takes one argument. -/
def take : Arguments × Expectation → String → Except Stop (Arguments × Expectation)
  | (a, .value s), text =>
    match Word.ofText text with
    | .other => return (← a.withSetting s text, .option)
    | _ => throw .wrong
  | (_, .nothing), _ => throw .wrong
  | (a, .option), text =>
    match Word.ofText text with
    | .switch s => return (← a.withSwitch s, .option)
    | .assigned s value => return (← a.withSetting s value, .option)
    | .open s => return (a, .value s)
    | .endOfOptions => return (a, .nothing)
    | .help => throw .help
    | .other | .unknown => throw .wrong

/-- Reads the arguments. No setting may lack its value, and there must be an input. -/
def read (arguments : List String) : Except Stop Arguments := do
  let (a, expected) ← arguments.foldlM take ({}, .option)
  match expected with
  | .value _ => throw .wrong
  | _ => if a.inputs.isEmpty then throw .wrong else return a

/-- The least weighty level of the log that is shown. Where several levels are asked for, debug goes
before trace, trace before warn and warn before info. -/
def logLevel (a : Arguments) : LogLevel :=
  if a.has .debug then .debug
  else if a.has .trace then .trace
  else if a.has .warn then .warn
  else if a.has .info then .info
  else .warn

/-- The options for decoding. -/
def options (a : Arguments) : Options :=
  let o : Options :=
    { suppressAlpha := a.has .suppressAlpha
      expandPalette := a.has .expandPalette
      promoteGray := a.has .gray8
      expandGrayAlpha := a.has .expandGrayAlpha
      recordEncoding := a.has .encodeParams
      maxWidth := a.maxWidth
      maxHeight := a.maxHeight }
  if a.has .gamma then o.withGamma a.userExponent a.displayExponent else o

end Arguments

end Png.CommandLine
