/-!
# Places

A place is where a path leads: names to follow, one after the other, from the root or from the
working directory. Paths are texts; their segments lie between slashes.
-/

namespace Png.CommandLine

/-- A place for files and directories. The working directory lies in the root, under a name that
no path gives. -/
inductive Place where
  | root (names : List String)
  | home (names : List String)
  deriving DecidableEq

namespace Place

/-- The place of an entry of the directory. -/
def child (name : String) : Place → Place
  | root names => root (names ++ [name])
  | home names => home (names ++ [name])

/-- The place of the directory around a place; the root lies in itself. -/
def parent : Place → Place
  | root names => root names.dropLast
  | home [] => root []
  | home names => home names.dropLast

/-- Whether another place lies below a place. -/
def isAbove : Place → Place → Bool
  | root above, root below => above.isPrefixOf below && above != below
  | home above, home below => above.isPrefixOf below && above != below
  | _, _ => false

/-- Where a path starts. -/
def origin (path : String) : Place := if path.startsWith "/" then root [] else home []

/-- The segments of a path. Slashes next to each other are like one. -/
def segments (path : String) : List String :=
  (path.splitOn "/").filter fun segment => segment != ""

/-- The place in the working directory that a path of names leads to. -/
def inHome (path : String) : Place := home (segments path)

/-- The path from the working directory to a place in it. -/
def path? : Place → Option String
  | root _ => none
  | home names => some (String.intercalate "/" names)

end Place

/-- A cause for which a file cannot be read or written. -/
inductive FileFault where
  /-- Nothing is there. -/
  | notFound
  /-- A directory is needed and a file is there. -/
  | notADirectory
  /-- A file is needed and a directory is there. -/
  | isADirectory
  /-- There is no room for the bytes. -/
  | noSpace
  /-- The path, or a name on it, is too long. -/
  | nameTooLong
  /-- Any other cause, in the words of the system. -/
  | other (words : String)
  deriving DecidableEq

/-- The cause in words, with its number. -/
def FileFault.message : FileFault → String
  | notFound => "No such file or directory (os error 2)"
  | notADirectory => "Not a directory (os error 20)"
  | isADirectory => "Is a directory (os error 21)"
  | noSpace => "No space left on device (os error 28)"
  | nameTooLong => "File name too long (os error 36)"
  | other words => words

end Png.CommandLine
