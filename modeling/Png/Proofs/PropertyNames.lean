import Mathlib.Data.Finset.Card
import Png.Proofs.LetterCase

/-!
# Names of properties

Properties that values have been put into one after the other are a map from names in lower case
(`Properties.insertAll_exact`). A name leads to the value that was put in last under a name of the
same lower-case form (`lookup_insertAll`). Each form is listed once, in the order of its bytes in
UTF-8, which is that of the characters, since a larger character has larger bytes at the first place
where they differ (`precedes_utf8EncodeChar`). What is listed is found again under the name listed:
it stands there alone, and a form is its own lower-case form (`Text.lowerCase_lowerCase`).
-/

namespace Png

/-! ## The order of bytes -/

namespace Text

/-- The bytes differ at a place that both lists have, and are in order at the first such place. -/
def Precedes : List UInt8 → List UInt8 → Prop
  | x :: xs, y :: ys => x < y ∨ x = y ∧ Precedes xs ys
  | _, _ => False

/-- What stands behind such bytes does not matter. -/
theorem Precedes.append_lt {xs ys : List UInt8} (h : Precedes xs ys) (xs' ys' : List UInt8) :
    xs ++ xs' < ys ++ ys' := by
  induction xs generalizing ys with
  | nil => cases h
  | cons x xs ih =>
    cases ys with
    | nil => cases h
    | cons y ys =>
      rw [List.cons_append, List.cons_append, List.cons_lt_cons_iff]
      exact h.imp_right fun ⟨heq, hrest⟩ => ⟨heq, ih hrest⟩

/-- The bytes of a smaller character are smaller at the first place where they differ. -/
theorem precedes_utf8EncodeChar {c d : Char} (h : c < d) :
    Precedes (String.utf8EncodeChar c) (String.utf8EncodeChar d) := by
  have hlt : c.val.toNat < d.val.toNat := h
  have hmax : d.val.toNat < 0x110000 := by
    obtain h | h := d.valid <;> omega
  unfold String.utf8EncodeChar
  generalize c.val.toNat = m at hlt
  generalize d.val.toNat = n at hlt hmax
  -- The digits in base 64 that the bytes hold, each from the one in front of it.
  have hm : m / 4096 = m / 64 / 64 ∧ m / 262144 = m / 64 / 64 / 64 := by omega
  have hn : n / 4096 = n / 64 / 64 ∧ n / 262144 = n / 64 / 64 / 64 := by omega
  simp only [hm, hn]
  -- Encodings of different lengths differ in the first byte, others in the first digit that does.
  repeat' split
  all_goals
    simp (disch := omega) only [Precedes, UInt8.lt_iff_toNat_lt, ← UInt8.toNat_inj,
      UInt8.toNat_ofNat', Nat.reducePow, Nat.mod_eq_of_lt]
    omega

/-- The order of texts is that of their bytes. -/
theorem utf8_lt_of_lt {a b : String} (h : a < b) : a.toUTF8.data.toList < b.toUTF8.data.toList := by
  have hbytes : ∀ text : String,
      text.toUTF8.data.toList = text.toList.flatMap String.utf8EncodeChar := by
    intro text
    rw [String.toUTF8_eq_toByteArray, ← String.utf8Encode_toList, List.utf8Encode,
      List.data_toByteArray]
  rw [hbytes, hbytes]
  replace h := String.lt_iff.1 h
  generalize a.toList = cs at h
  generalize b.toList = ds at h
  -- Texts are compared at their first difference, and so are their bytes.
  induction cs generalizing ds with
  | nil =>
    cases ds with
    | nil => exact absurd h (List.lt_irrefl [])
    | cons d ds =>
      rw [List.flatMap_cons, List.flatMap_nil]
      obtain ⟨byte, bytes, hd⟩ := List.exists_cons_of_ne_nil (String.utf8EncodeChar_ne_nil (c := d))
      rw [hd]
      exact List.nil_lt_cons _ _
  | cons c cs ih =>
    cases ds with
    | nil => exact absurd h (List.not_lt_nil _)
    | cons d ds =>
      rw [List.flatMap_cons, List.flatMap_cons]
      obtain hcd | ⟨rfl, hrest⟩ := List.cons_lt_cons_iff.1 h
      · exact (precedes_utf8EncodeChar hcd).append_lt _ _
      · exact List.append_left_lt (ih ds hrest)

end Text

/-! ## The last value under a name -/

namespace Properties

/-- The value that was put in last under a name with this lower-case form. -/
def lastNamed (values : List (String × PropertyValue)) (name : String) : Option PropertyValue :=
  (values.reverse.find? fun entry => Text.lowerCase entry.1 = name).map (·.2)

theorem lastNamed_cons (entry : String × PropertyValue) (values : List (String × PropertyValue))
    (name : String) :
    lastNamed (entry :: values) name =
      (lastNamed values name).or
        (if Text.lowerCase entry.1 = name then some entry.2 else none) := by
  rw [lastNamed, List.reverse_cons, List.find?_append, Option.map_or, ← lastNamed]
  by_cases h : Text.lowerCase entry.1 = name <;> simp [h]

theorem isSome_lastNamed_iff {values : List (String × PropertyValue)} {name : String} :
    (lastNamed values name).isSome = true ↔
      ∃ entry ∈ values, Text.lowerCase entry.1 = name := by
  simp [lastNamed]

/-- A name in lower case has the value that was put in last under it, or else the one it had. -/
theorem lookup_insertAll (p : Properties) (values : List (String × PropertyValue)) (name : String) :
    (p.insertAll values).entries.lookup name =
      (lastNamed values name).or (p.entries.lookup name) := by
  induction values generalizing p with
  | nil => rfl
  | cons entry values ih =>
    obtain ⟨key, value⟩ := entry
    have hinsert : (p.insert key value).entries.lookup name =
        (if Text.lowerCase key = name then some value else none).or (p.entries.lookup name) := by
      rw [insert, lookup_insertSorted]
      simp only [eq_comm (a := name)]
      split <;> rfl
    rw [insertAll, List.foldl_cons, ← insertAll, ih, lastNamed_cons, Option.or_assoc, hinsert]

/-- An entry of properties in strict order is found under its name. -/
theorem lookup_of_mem {p : Properties} (hp : p.Sorted) {entry : String × PropertyValue}
    (h : entry ∈ p.entries) : p.entries.lookup entry.1 = some entry.2 := by
  obtain ⟨front, back, hsplit⟩ := List.append_of_mem h
  rw [Sorted, hsplit, List.pairwise_append] at hp
  -- The names in front come before it, so that it is the first of its name.
  have hfront : ∀ other ∈ front, (entry.1 != other.1) = true := by
    intro other hother
    rw [bne_iff_ne]
    intro heq
    have hlt : other.1 < entry.1 := hp.2.2 other hother entry List.mem_cons_self
    exact String.lt_irrefl _ (heq ▸ hlt)
  exact List.lookup_eq_some_iff.2 ⟨front, back, hsplit, hfront⟩

theorem mem_names_iff {p : Properties} {name : String} :
    name ∈ p.names ↔ (p.entries.lookup name).isSome = true := by
  simp only [names, List.mem_map, List.lookup_isSome_iff, beq_iff_eq, eq_comm (a := name)]

/-- Values that are put into no properties, one after the other, make a map from lower-case forms.
A name has the value that was put in last under a name of its form, and no other name has one. Each
form is listed once, in the order of the bytes in UTF-8. What is listed is found under the name
listed, which is its own form. -/
theorem insertAll_exact (values : List (String × PropertyValue)) :
    let p := ({} : Properties).insertAll values
    (∀ key, p.get? key = lastNamed values (Text.lowerCase key)) ∧
      (∀ key, p.contains key = true ↔
        ∃ entry ∈ values, Text.lowerCase entry.1 = Text.lowerCase key) ∧
      (∀ name, name ∈ p.names ↔ ∃ entry ∈ values, Text.lowerCase entry.1 = name) ∧
      p.names.Pairwise (fun name later => name.toUTF8.data.toList < later.toUTF8.data.toList) ∧
      p.size = (values.map fun entry => Text.lowerCase entry.1).toFinset.card ∧
      (∀ entry ∈ p.toList, Text.lowerCase entry.1 = entry.1 ∧ p.get? entry.1 = some entry.2) ∧
      ∀ text, Text.lowerCase (Text.lowerCase text) = Text.lowerCase text := by
  intro p
  have hlookup : ∀ name, p.entries.lookup name = lastNamed values name := by
    intro name
    rw [lookup_insertAll]
    exact Option.or_none
  have hnames : ∀ name, name ∈ p.names ↔ ∃ entry ∈ values, Text.lowerCase entry.1 = name := by
    intro name
    rw [mem_names_iff, hlookup, isSome_lastNamed_iff]
  -- Entries in the order of their names list each of them once.
  have hsorted : p.Sorted := sorted_insertAll .nil values
  have hordered : p.names.Pairwise (· < ·) := List.pairwise_map.2 hsorted
  refine ⟨fun key => hlookup _, fun key => ?_, hnames, ?_, ?_, ?_, Text.lowerCase_lowerCase⟩
  · rw [contains, get?, hlookup, isSome_lastNamed_iff]
  · exact hordered.imp Text.utf8_lt_of_lt
  · have hnodup : p.names.Nodup := by
      refine hordered.imp ?_
      rintro name _ hlt rfl
      exact String.lt_irrefl name hlt
    have hset : (values.map fun entry => Text.lowerCase entry.1).toFinset = p.names.toFinset := by
      ext name
      simp [hnames]
    rw [hset, List.toFinset_card_of_nodup hnodup, names, List.length_map, size]
  · intro entry hentry
    obtain ⟨source, -, hsource⟩ := (hnames entry.1).1 (List.mem_map_of_mem hentry)
    have hform : Text.lowerCase entry.1 = entry.1 := by
      rw [← hsource, Text.lowerCase_lowerCase]
    refine ⟨hform, ?_⟩
    rw [get?, hform, lookup_of_mem hsorted hentry]

end Properties

end Png
