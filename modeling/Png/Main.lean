import Png.CommandLine.Program

/-!
# The command

Runs the program on the files of the computer.
-/

namespace Png.CommandLine

/-- The reason for a failed step in the system's words, with its number. -/
def reasonOf : IO.Error → String
  | .noFileOrDirectory _ code details | .alreadyExists _ code details
  | .permissionDenied _ code details | .inappropriateType _ code details
  | .resourceExhausted _ code details | .invalidArgument _ code details =>
    s!"{details} (os error {code})"
  | .otherError code details | .resourceBusy code details | .resourceVanished code details
  | .unsupportedOperation code details | .hardwareFault code details
  | .unsatisfiedConstraints code details | .illegalOperation code details
  | .protocolError code details | .timeExpired code details =>
    s!"{details} (os error {code})"
  | .interrupted _ code details => s!"{details} (os error {code})"
  | .noSuchThing _ code details => s!"{details} (os error {code})"
  | e => toString e

/-- Runs a script on the files of the computer. -/
def Script.perform : Script → IO UInt32
  | print text next => do
    let output ← IO.getStdout
    output.putStr text
    output.flush
    next.perform
  | read path next => do
    match ← (IO.FS.readBinFile path).toBaseIO with
    | .ok bytes => (next (.ok bytes.toList)).perform
    | .error e => (next (.error (reasonOf e))).perform
  | write path bytes next => do
    match ← (IO.FS.writeBinFile path ⟨bytes.toArray⟩).toBaseIO with
    | .ok () => (next (.ok ())).perform
    | .error e => (next (.error (reasonOf e))).perform
  | exit code => return code.toUInt32

end Png.CommandLine

/-- The command `pngdec`. -/
def main (arguments : List String) : IO UInt32 :=
  (Png.CommandLine.program arguments).perform
