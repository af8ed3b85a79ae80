import Png.Calendar
import Png.ColorModel
import Png.Text.LowerCase

/-!
# Properties

What a file tells about its image, as named values. Names are compared in lower case: `insert`
stores the lower-case form, and `get?` looks for that of its argument. The entries are kept in the
order of their names, which is that of the names' UTF-8 bytes.
-/

namespace Png

/-- The value of a property. -/
inductive PropertyValue where
  | text (value : String)
  | integer (value : Int)
  | number (value : Float32)
  | bytes (value : List UInt8)
  | integers (value : List Nat)
  | color (value : Rgb)
  | date (value : DateTime)

/-- Named values, in the order of their lower-case names. -/
structure Properties where
  entries : List (String × PropertyValue) := []

namespace Properties

/-- Puts a value under a name that is in lower case already, before the first later name. -/
def insertSorted (name : String) (value : PropertyValue) :
    List (String × PropertyValue) → List (String × PropertyValue)
  | [] => [(name, value)]
  | (other, old) :: rest =>
    if name = other then (name, value) :: rest
    else if name < other then (name, value) :: (other, old) :: rest
    else (other, old) :: insertSorted name value rest

/-- Gives the name a value, in place of one that it has. -/
@[irreducible]
def insert (p : Properties) (name : String) (value : PropertyValue) : Properties :=
  { entries := insertSorted (Text.lowerCase name) value p.entries }

/-- The value of the name. -/
def get? (p : Properties) (name : String) : Option PropertyValue :=
  p.entries.lookup (Text.lowerCase name)

/-- Whether the name has a value. -/
def contains (p : Properties) (name : String) : Bool :=
  (p.get? name).isSome

/-- The number of names. -/
def size (p : Properties) : Nat := p.entries.length

/-- Whether no name has a value. -/
def isEmpty (p : Properties) : Bool := p.entries.isEmpty

/-- The names with their values, in order. -/
def toList (p : Properties) : List (String × PropertyValue) := p.entries

/-- The names, in order. -/
def names (p : Properties) : List String := p.entries.map (·.1)

/-- Gives several names their values, one after the other. -/
def insertAll (p : Properties) (values : List (String × PropertyValue)) : Properties :=
  values.foldl (fun p (name, value) => p.insert name value) p

end Properties

end Png
