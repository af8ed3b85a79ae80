import Png.CommandLine.Place
import Png.CommandLine.Script

/-!
# A model of files

A disk has files at places. A directory exists as far as some file lies in it; the working directory
is always there, and so are the directories and devices of the system. Writing a file first empties
or makes it and then fills it, and may fail on the way (`Interruption`). `Script.run` runs a script
on such a disk.
-/

namespace Png.CommandLine

/-- A file that keeps nothing of what is written to it. -/
inductive Device where
  /-- It is empty. -/
  | null
  /-- It has zeroes without end. -/
  | zero
  /-- It has zeroes without end, and no room. -/
  | full
  deriving DecidableEq

/-- The bytes of a device, of those without end as many as are read before a file is refused that
starts with them. -/
def Device.bytes : Device → List UInt8
  | null => []
  | zero | full => List.replicate 8 0

/-- What a system has besides the files that are put on it, and how long its names may be. The
defaults are those of a customary system. -/
structure System where
  /-- The directories in the root that are there without a file in them. -/
  directories : List String :=
    ["bin", "boot", "dev", "etc", "home", "lib", "media", "mnt", "opt", "proc", "root", "run",
      "sbin", "srv", "sys", "tmp", "usr", "var"]
  devices : List (Place × Device) :=
    [(.root ["dev", "null"], .null), (.root ["dev", "zero"], .zero),
      (.root ["dev", "full"], .full)]
  /-- The most bytes that a name may have. -/
  nameLimit : Nat := 255
  /-- The most bytes that a path may have. -/
  pathLimit : Nat := 4095

/-- How a write ends that is not done in full. -/
inductive Interruption where
  /-- The file is not opened, and stays as it is. -/
  | refused (fault : FileFault)
  /-- The file is opened and keeps the first of the bytes. -/
  | broken (kept : Nat) (fault : FileFault)

/-- The files by their places, on a system. -/
structure Disk where
  files : List (Place × List UInt8)
  system : System := {}
  /-- What stops the next writes, one after the other; those behind them are not stopped. -/
  interruptions : List (Option Interruption) := []

namespace Disk

/-- A disk with files in the working directory. -/
def ofHome (files : List (String × List UInt8)) : Disk :=
  { files := files.map fun (path, bytes) => (.inHome path, bytes) }

/-- The files in the working directory, by their paths from there. -/
def homeFiles (d : Disk) : List (String × List UInt8) :=
  d.files.filterMap fun (p, bytes) => p.path?.map fun path => (path, bytes)

/-- The device at a place. -/
def device? (d : Disk) (p : Place) : Option Device := d.system.devices.lookup p

/-- The bytes of the file at a place. -/
def lookup (d : Disk) (p : Place) : Option (List UInt8) :=
  match d.device? p with
  | some device => some device.bytes
  | none => d.files.lookup p

/-- The disk with these bytes in the file at a place, whether or not there was one. A device keeps
nothing. -/
def put (d : Disk) (p : Place) (bytes : List UInt8) : Disk :=
  if (d.device? p).isSome then d
  else if (d.files.lookup p).isSome then
    { d with files := d.files.map fun (q, old) => if q = p then (p, bytes) else (q, old) }
  else { d with files := d.files ++ [(p, bytes)] }

/-- Whether a directory is at a place. -/
def isDirectory (d : Disk) (p : Place) : Bool :=
  match p with
  | .root [] | .home [] => true
  | .root [name] => d.system.directories.contains name || d.files.any fun (q, _) => p.isAbove q
  | _ => d.files.any fun (q, _) => p.isAbove q

/-- The place that a segment leads to from a place, which has to be a directory. Nothing need be at
the place that it leads to. -/
def follow (d : Disk) (p : Place) (segment : String) : Except FileFault Place :=
  if !d.isDirectory p then
    .error (if (d.lookup p).isSome then .notADirectory else .notFound)
  else if segment = "." then .ok p
  else if segment = ".." then .ok p.parent
  else if segment.utf8ByteSize > d.system.nameLimit then .error .nameTooLong
  else .ok (p.child segment)

/-- The place that segments of a path lead to from where the path starts. -/
def walk (d : Disk) (path : String) (segments : List String) : Except FileFault Place :=
  if path = "" then .error .notFound
  else if path.utf8ByteSize > d.system.pathLimit then .error .nameTooLong
  else segments.foldlM d.follow (Place.origin path)

/-- The bytes of the file that a path leads to. A slash at the end asks for a directory. -/
def read (d : Disk) (path : String) : Except FileFault (List UInt8) := do
  let p ← d.walk path (Place.segments path)
  if d.isDirectory p then throw .isADirectory
  match d.lookup p with
  | some bytes => if path.endsWith "/" then throw .notADirectory else return bytes
  | none => throw .notFound

/-- The place of the file that a path leads to, where it is going to be written. A slash at the end
asks for a directory, whatever name stands before it, as long as that name would lie in one. -/
def target (d : Disk) (path : String) : Except FileFault Place := do
  let segments := Place.segments path
  let segments := if path.endsWith "/" then segments.dropLast ++ ["."] else segments
  let p ← d.walk path segments
  if d.isDirectory p then throw .isADirectory
  return p

/-- A step on a disk, which leaves what it has done whether it succeeds or fails. -/
abbrev Step := EStateM FileFault Disk

/-- What stops the next write. -/
def takeInterruption : Step (Option Interruption) := fun d =>
  .ok d.interruptions.head?.join { d with interruptions := d.interruptions.tail }

/-- Opens the file that a path leads to, which empties it or makes it. -/
def openAnew (path : String) : Step Place := fun d =>
  match d.target path with
  | .ok p => .ok p (d.put p [])
  | .error fault => .error fault d

/-- Fills the file at a place. -/
def fill (p : Place) (bytes : List UInt8) : Step Unit := fun d =>
  if d.device? p = some .full ∧ bytes ≠ [] then .error .noSpace d
  else .ok () (d.put p bytes)

/-- Writes the file that a path leads to. -/
def write (path : String) (bytes : List UInt8) : Step Unit := do
  match ← takeInterruption with
  | none =>
    let p ← openAnew path
    fill p bytes
  | some (.refused fault) => throw fault
  | some (.broken kept fault) =>
    let p ← openAnew path
    fill p (bytes.take kept)
    throw fault

end Disk

/-- What a run leaves behind. -/
structure Outcome where
  code : Nat
  /-- All that was printed. -/
  output : String
  disk : Disk

/-- Runs a script behind what has been printed. -/
def Script.runFrom (d : Disk) (output : String) : Script → Outcome
  | print text next => next.runFrom d (output ++ text)
  | read path next => (next ((d.read path).mapError FileFault.message)).runFrom d output
  | write path bytes next =>
    match Disk.write path bytes d with
    | .ok () d => (next (.ok ())).runFrom d output
    | .error fault d => (next (.error fault.message)).runFrom d output
  | exit code => { code, output, disk := d }

/-- Runs a script. -/
def Script.run (script : Script) (d : Disk) : Outcome := script.runFrom d ""

end Png.CommandLine
