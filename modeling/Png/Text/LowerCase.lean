import Png.Text.CaseTable

/-!
# Lower case

The lower-case form of a text in full Unicode. Every character is mapped on its own, but for the
capital sigma, which becomes a final sigma at the end of a word. One character, the capital I with
a dot, becomes two.
-/

namespace Png.Text

/-- The capital sigma, whose lower-case form depends on its place. -/
def capitalSigma : Char := 'Σ'

/-- The lower-case form of a character on its own. -/
def lowerChar (c : Char) : List Char :=
  if c.toNat < 0x80 then [c.toLower]
  else if c = 'İ' then ['i', '\u0307']
  else match lowerRuns.find? (·.contains c.toNat) with
    | some run => [Char.ofNat (run.lower + (c.toNat - run.first))]
    | none => [c]

/-- Whether the first character that is not passed over has a case. -/
def startsCased (text : List Char) : Bool :=
  match text.dropWhile isCaseIgnorable with
  | c :: _ => isCased c
  | [] => false

/-- The lower-case form of a capital sigma between `before`, nearest character first, and `after`:
final if a cased character stands before it and none behind. -/
def lowerSigma (before after : List Char) : Char :=
  if startsCased before && !startsCased after then 'ς' else 'σ'

/-- Puts the lower-case form of `rest` behind `done`, which holds the form of `before`; both are
held backwards. -/
def lowerFrom : (before rest done : List Char) → List Char
  | _, [], done => done
  | before, c :: rest, done =>
    let form := if c = capitalSigma then [lowerSigma before rest] else lowerChar c
    lowerFrom (c :: before) rest (form.reverse ++ done)

/-- The lower-case form of a text. -/
def lowerCase (text : String) : String :=
  String.ofList (lowerFrom [] text.toList []).reverse

end Png.Text
