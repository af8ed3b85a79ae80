import Png.Proofs.Reporting

/-!
# The order of properties

Properties are kept in the strict order of their names, which insertions keep (`sorted_insert`), so
that a list of entries says what is reported and in which order. `only` leaves out the entries of
some names, `without` those of listed names. By `only_insertAll` it does not matter whether these
are left out before or after others are put in, which is why two files may be compared in the
properties that they should share.
-/

namespace Png.Properties

/-- Every name comes before those behind it. -/
def Sorted (p : Properties) : Prop := p.entries.Pairwise (·.1 < ·.1)

/-- The properties under the names to be kept. -/
def only (p : Properties) (keep : String → Bool) : Properties :=
  { entries := p.entries.filter fun entry => keep entry.1 }

/-- The properties but for these names. -/
def without (p : Properties) (names : List String) : Properties :=
  { entries := p.entries.filter (·.1 ∉ names) }

/-- Of two different names one comes before the other. -/
theorem lt_of_not_lt {name other : String} (hne : name ≠ other) (h : ¬ name < other) :
    other < name :=
  Std.lt_of_le_of_ne (String.not_lt.1 h) hne.symm

theorem mem_insertSorted {name : String} {value : PropertyValue}
    {entries : List (String × PropertyValue)} {entry : String × PropertyValue}
    (h : entry ∈ insertSorted name value entries) : entry = (name, value) ∨ entry ∈ entries := by
  induction entries with
  | nil => exact .inl (List.mem_singleton.1 h)
  | cons first rest ih =>
    obtain ⟨other, old⟩ := first
    rw [insertSorted] at h
    split at h
    · exact (List.mem_cons.1 h).imp_right (List.mem_cons_of_mem _)
    · split at h
      · exact List.mem_cons.1 h
      · obtain rfl | h := List.mem_cons.1 h
        · exact .inr List.mem_cons_self
        · exact (ih h).imp_right (List.mem_cons_of_mem _)

theorem pairwise_insertSorted (name : String) (value : PropertyValue)
    {entries : List (String × PropertyValue)} (h : entries.Pairwise (·.1 < ·.1)) :
    (insertSorted name value entries).Pairwise (·.1 < ·.1) := by
  -- The name is found, or goes in front, or behind the first entry.
  induction entries with
  | nil => exact List.pairwise_singleton _ _
  | cons first rest ih =>
    obtain ⟨other, old⟩ := first
    obtain ⟨hfirst, hrest⟩ := List.pairwise_cons.1 h
    rw [insertSorted]
    split
    · next hname =>
      refine List.pairwise_cons.2 ⟨fun entry hentry => ?_, hrest⟩
      exact hname ▸ hfirst entry hentry
    · next hne =>
      split
      · next hlt =>
        refine List.pairwise_cons.2 ⟨fun entry hentry => ?_, h⟩
        obtain rfl | hentry := List.mem_cons.1 hentry
        · exact hlt
        · exact String.lt_trans hlt (hfirst entry hentry)
      · next hlt =>
        refine List.pairwise_cons.2 ⟨fun entry hentry => ?_, ih hrest⟩
        obtain rfl | hentry := mem_insertSorted hentry
        · exact lt_of_not_lt hne hlt
        · exact hfirst entry hentry

theorem sorted_insert {p : Properties} (h : p.Sorted) (name : String) (value : PropertyValue) :
    (p.insert name value).Sorted := by
  rw [insert]
  exact pairwise_insertSorted _ _ h

theorem sorted_insertAll {p : Properties} (h : p.Sorted) (values : List (String × PropertyValue)) :
    (p.insertAll values).Sorted := by
  induction values generalizing p with
  | nil => exact h
  | cons entry values ih => exact ih (sorted_insert h entry.1 entry.2)

/-- A name in front of all names of a list is put in front of the list. -/
theorem insertSorted_of_lt {name : String} (value : PropertyValue)
    {entries : List (String × PropertyValue)} (h : ∀ entry ∈ entries, name < entry.1) :
    insertSorted name value entries = (name, value) :: entries := by
  cases entries with
  | nil => rfl
  | cons first rest =>
    obtain ⟨other, old⟩ := first
    have hlt : name < other := h (other, old) List.mem_cons_self
    have hne : name ≠ other := fun heq => String.lt_irrefl other (heq ▸ hlt)
    rw [insertSorted, if_neg hne, if_pos hlt]

/-- Entries may be left out before a name is put in, unless it is left out itself. -/
theorem filter_insertSorted (name : String) (value : PropertyValue) (keep : String → Bool)
    {entries : List (String × PropertyValue)} (h : entries.Pairwise (·.1 < ·.1)) :
    (insertSorted name value entries).filter (fun entry => keep entry.1) =
      if keep name then insertSorted name value (entries.filter fun entry => keep entry.1)
      else entries.filter fun entry => keep entry.1 := by
  induction entries with
  | nil => by_cases hname : keep name <;> simp [insertSorted, hname]
  | cons first rest ih =>
    obtain ⟨other, old⟩ := first
    obtain ⟨hfirst, hrest⟩ := List.pairwise_cons.1 h
    have ih := ih hrest
    rw [insertSorted]
    by_cases heq : name = other
    · subst heq
      by_cases hname : keep name <;> simp [insertSorted, hname]
    · rw [if_neg heq]
      by_cases hlt : name < other
      · -- The name stands in front of all entries, and so of those that are left.
        have hfront : ∀ entry ∈ ((other, old) :: rest).filter fun entry => keep entry.1,
            name < entry.1 := by
          intro entry hentry
          obtain rfl | hentry := List.mem_cons.1 (List.mem_filter.1 hentry).1
          · exact hlt
          · exact String.lt_trans hlt (hfirst entry hentry)
        rw [if_pos hlt, insertSorted_of_lt value hfront]
        by_cases hname : keep name <;> simp [List.filter_cons, hname]
      · rw [if_neg hlt]
        by_cases hother : keep other
        · have hkeep : ∀ rest : List (String × PropertyValue),
              ((other, old) :: rest).filter (fun entry => keep entry.1) =
                (other, old) :: rest.filter fun entry => keep entry.1 :=
            fun _ => List.filter_cons_of_pos hother
          rw [hkeep, hkeep, ih]
          split
          · rw [insertSorted, if_neg heq, if_neg hlt]
          · rfl
        · have hdrop : ∀ rest : List (String × PropertyValue),
              ((other, old) :: rest).filter (fun entry => keep entry.1) =
                rest.filter fun entry => keep entry.1 :=
            fun _ => List.filter_cons_of_neg hother
          rw [hdrop, hdrop, ih]

theorem only_insert {p : Properties} (h : p.Sorted) (name : String) (value : PropertyValue)
    (keep : String → Bool) :
    (p.insert name value).only keep =
      if keep (Text.lowerCase name) then (p.only keep).insert name value else p.only keep := by
  rw [insert, insert, only, filter_insertSorted _ _ _ h]
  split <;> rfl

/-- Names may be left out before others are put in, of which those to be left out are not put in
then. -/
theorem only_insertAll {p : Properties} (h : p.Sorted) (values : List (String × PropertyValue))
    (keep : String → Bool) :
    (p.insertAll values).only keep =
      (p.only keep).insertAll (values.filter fun entry => keep (Text.lowerCase entry.1)) := by
  induction values generalizing p with
  | nil => rfl
  | cons entry values ih =>
    obtain ⟨name, value⟩ := entry
    have ih := ih (sorted_insert h name value)
    rw [only_insert h] at ih
    rw [insertAll, List.foldl_cons, ← insertAll, ih]
    by_cases hname : keep (Text.lowerCase name)
    · rw [if_pos hname, List.filter_cons_of_pos (by exact hname)]
      rfl
    · rw [if_neg hname, List.filter_cons_of_neg (by exact hname)]

theorem without_insertAll {p : Properties} (h : p.Sorted)
    (values : List (String × PropertyValue)) (names : List String) :
    (p.insertAll values).without names =
      (p.without names).insertAll (values.filter fun entry => Text.lowerCase entry.1 ∉ names) :=
  only_insertAll h values (· ∉ names)

end Png.Properties
