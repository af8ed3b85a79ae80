/-!
# Scripts

What a program does with files and its output, as data: each step says what it needs, and how to go
on with the answer. The same script can be run on a model of the files, which statements are about,
and on the files of a computer.
-/

namespace Png.CommandLine

/-- The steps of a program. -/
inductive Script where
  /-- Prints a text. -/
  | print (text : String) (next : Script)
  /-- Reads a file, or learns why it cannot be read. -/
  | read (path : String) (next : Except String (List UInt8) → Script)
  /-- Writes a file anew, or learns why it cannot be written. -/
  | write (path : String) (bytes : List UInt8) (next : Except String Unit → Script)
  /-- Ends with an exit code. -/
  | exit (code : Nat)

end Png.CommandLine
