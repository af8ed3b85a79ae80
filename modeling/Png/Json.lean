/-!
# JSON text

A JSON value and its text in the pretty form: two spaces a level, one line for every member, and
nothing between the brackets of an empty list.
-/

namespace Png

/-- A JSON value. Numbers are held as their text. -/
inductive Json where
  | null
  | bool (value : Bool)
  | number (text : String)
  | string (text : String)
  | array (items : List Json)
  | object (members : List (String × Json))

namespace Json

/-- A whole number. -/
def ofNat (n : Nat) : Json := number (toString n)

/-- The value, or null. -/
def ofOption {α : Type} (f : α → Json) : Option α → Json
  | some a => f a
  | none => null

/-- A list of values. -/
def ofList {α : Type} (f : α → Json) (items : List α) : Json := array (items.map f)

/-- The character as it stands in a string: control characters are escaped, by a letter where there
is one, and all others but the quote and the backslash stand for themselves. -/
def escapeChar (c : Char) : List Char :=
  if c = '"' then ['\\', '"']
  else if c = '\\' then ['\\', '\\']
  else if c = '\n' then ['\\', 'n']
  else if c = '\r' then ['\\', 'r']
  else if c = '\t' then ['\\', 't']
  else if c = '\x08' then ['\\', 'b']
  else if c = '\x0c' then ['\\', 'f']
  else if c.toNat < 0x20 then
    ['\\', 'u', '0', '0', Nat.digitChar (c.toNat / 16), Nat.digitChar (c.toNat % 16)]
  else [c]

/-- The string between quotes. -/
def quoted (text : String) : String :=
  "\"" ++ String.ofList (text.toList.flatMap escapeChar) ++ "\""

/-- A new line, indented by so many levels. -/
def newLine (level : Nat) : String :=
  "\n" ++ String.ofList (List.replicate (2 * level) ' ')

/-- Members between brackets, one on each line. -/
def bracketed (left right : String) (level : Nat) (members : List String) : String :=
  match members with
  | [] => left ++ right
  | _ =>
    left ++ newLine (level + 1) ++ String.intercalate ("," ++ newLine (level + 1)) members ++
      newLine level ++ right

mutual

/-- The text of a value that stands `level` levels deep. -/
def pretty (level : Nat) : Json → String
  | null => "null"
  | bool value => if value then "true" else "false"
  | number text => text
  | string text => quoted text
  | array items => bracketed "[" "]" level (prettyItems (level + 1) items)
  | object members => bracketed "\x7b" "\x7d" level (prettyMembers (level + 1) members)

/-- The texts of the items of a list. -/
def prettyItems (level : Nat) : List Json → List String
  | [] => []
  | item :: items => pretty level item :: prettyItems level items

/-- The texts of the members of an object. -/
def prettyMembers (level : Nat) : List (String × Json) → List String
  | [] => []
  | (name, value) :: members =>
    (quoted name ++ ": " ++ pretty level value) :: prettyMembers level members

end

end Json

end Png
