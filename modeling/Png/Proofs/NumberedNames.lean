import Png.Proofs.PropertyOrder

/-!
# Numbered names

Text entries and chunks of unknown type are reported under numbered names: a stem, the number, a
colon, and a text that the file chooses. Such a text is Latin-1, in which every character is lowered
on its own (`Text.toList_lowerCase`), so that the stem and the number stay as they are
(`lowerCase_numberedName`). The digits of a number end at the colon, and no stem is the start of
another, so that two such names differ if their stems or their numbers do, whatever the texts are
(`stem_eq_of_isStart`, `numberedName_inj`).
-/

namespace Png

namespace Text

/-- The Latin-1 bytes of a text. -/
def toLatin1 (text : String) : List UInt8 := text.toList.map fun c => c.toNat.toUInt8

theorem toNat_ofNat_byte (b : UInt8) : (Char.ofNat b.toNat).toNat = b.toNat := by
  have hvalid : b.toNat.isValidChar := .inl (Nat.lt_trans b.toNat_lt (by decide))
  rw [Char.ofNat, dif_pos hvalid]
  rfl

/-- No byte is lost in reading Latin-1. -/
@[simp]
theorem toLatin1_latin1 (bytes : List UInt8) : toLatin1 (latin1 bytes) = bytes := by
  rw [toLatin1, latin1, String.toList_ofList, List.map_map]
  refine List.map_id'' (fun b => ?_) bytes
  rw [Function.comp_apply, toNat_ofNat_byte, Nat.toUInt8_eq, UInt8.ofNat_toNat]

/-- Text without a capital sigma, which is lowered by its place. -/
def NoSigma (text : String) : Prop := ∀ c ∈ text.toList, c ≠ capitalSigma

/-- The capital sigma is no Latin-1 character. -/
theorem noSigma_latin1 (bytes : List UInt8) : NoSigma (latin1 bytes) := by
  intro c hc hsigma
  rw [latin1, String.toList_ofList, List.mem_map] at hc
  obtain ⟨b, -, rfl⟩ := hc
  have hnat : b.toNat = 0x3A3 := (toNat_ofNat_byte b).symm.trans (congrArg Char.toNat hsigma)
  have hlt : b.toNat < 2 ^ 8 := b.toNat_lt
  omega

theorem lowerFrom_of_ne_sigma {rest : List Char} (h : ∀ c ∈ rest, c ≠ capitalSigma)
    (before : List Char) : lowerFrom before rest [] = (rest.flatMap lowerChar).reverse := by
  induction rest generalizing before with
  | nil => rfl
  | cons c rest ih =>
    rw [lowerFrom, if_neg (h c List.mem_cons_self), lowerFrom_append,
      ih fun d hd => h d (List.mem_cons_of_mem c hd)]
    simp

/-- Without a capital sigma every character is lowered on its own. -/
theorem toList_lowerCase {text : String} (h : NoSigma text) :
    (lowerCase text).toList = text.toList.flatMap lowerChar := by
  rw [lowerCase, String.toList_ofList, lowerFrom_of_ne_sigma h, List.reverse_reverse]

theorem Plain.ne_capitalSigma {c : Char} (h : Plain c) : c ≠ capitalSigma := by
  rintro rfl
  exact absurd h.1 (by decide)

theorem Plain.lowerChar_eq {c : Char} (h : Plain c) : lowerChar c = [c] := by
  rw [lowerChar, if_pos h.1, h.2]

/-- Characters that are their own lower-case forms stay as they are. -/
theorem flatMap_lowerChar {cs : List Char} (h : ∀ c ∈ cs, lowerChar c = [c]) :
    cs.flatMap lowerChar = cs := by
  rw [List.flatMap_def, List.map_congr_left h, ← List.flatMap_def, List.flatMap_singleton']

/-- Plain characters in front of a text without a capital sigma stay as they are. -/
theorem lowerCase_append_of_plain {pre text : String} (hpre : ∀ c ∈ pre.toList, Plain c)
    (h : NoSigma text) : lowerCase (pre ++ text) = pre ++ lowerCase text := by
  have hall : NoSigma (pre ++ text) := by
    intro c hc
    rw [String.toList_append, List.mem_append] at hc
    exact hc.elim (fun hc => (hpre c hc).ne_capitalSigma) (h c)
  apply String.toList_injective
  rw [toList_lowerCase hall, String.toList_append, String.toList_append, List.flatMap_append,
    flatMap_lowerChar fun c hc => (hpre c hc).lowerChar_eq, toList_lowerCase h]

end Text

/-! ## Stems -/

/-- The name starts with the stem. -/
def startsWith (stem name : String) : Bool := stem.toList.isPrefixOf name.toList

/-- The name starts with one of the stems of numbered names. -/
def isNumbered (name : String) : Bool := numberedStems.any (startsWith · name)

theorem startsWith_iff {stem name : String} :
    startsWith stem name = true ↔ stem.toList <+: name.toList :=
  List.isPrefixOf_iff_prefix

theorem mem_numberedStems :
    "text_" ∈ numberedStems ∧ "ztext_" ∈ numberedStems ∧ "chunk_" ∈ numberedStems := by decide

/-- No stem is the start of another. -/
theorem stem_eq_of_isStart : ∀ stem ∈ numberedStems, ∀ other ∈ numberedStems,
    stem.toList <+: other.toList → stem = other := by decide

/-- A name starts with one stem at most. -/
theorem startsWith_eq {stem other name : String} (hstem : stem ∈ numberedStems)
    (hother : other ∈ numberedStems) (h : startsWith other name = true) :
    startsWith stem name = decide (stem = other) := by
  by_cases heq : stem = other
  · rw [heq, h, decide_eq_true rfl]
  · rw [decide_eq_false heq, Bool.eq_false_iff]
    intro hboth
    -- Of two starts of one name one is the start of the other.
    rcases List.prefix_or_prefix_of_prefix (startsWith_iff.1 hboth) (startsWith_iff.1 h) with
      hpre | hpre
    · exact heq (stem_eq_of_isStart stem hstem other hother hpre)
    · exact heq (stem_eq_of_isStart other hother stem hstem hpre).symm

/-! ## Names -/

/-- The name of the entry `index` under a stem. -/
def numberedName (stem : String) (index : Nat) (name : String) : String :=
  stem ++ (toString index ++ (":" ++ name))

theorem startsWith_numberedName (stem : String) (index : Nat) (name : String) :
    startsWith stem (numberedName stem index name) = true := by
  rw [startsWith_iff, numberedName, String.toList_append]
  exact List.prefix_append _ _

theorem toList_toString (n : Nat) : (toString n).toList = Nat.toDigits 10 n := by
  rw [Nat.toString_eq_repr, Nat.toList_repr]

/-- A digit is plain, and is no colon. -/
theorem plain_of_digit {n : Nat} {c : Char} (h : c ∈ (toString n).toList) :
    Text.Plain c ∧ c ≠ ':' := by
  rw [toList_toString] at h
  have hdigit := Nat.isDigit_of_mem_toDigits (by decide) (by decide) h
  have hall : ∀ code < 58, 48 ≤ code →
      Text.Plain (Char.ofNat code) ∧ Char.ofNat code ≠ ':' := by decide
  simp only [Char.isDigit, Bool.and_eq_true, decide_eq_true_eq] at hdigit
  have hlow : 48 ≤ c.toNat := hdigit.1
  have hhigh : c.toNat < 58 := Nat.lt_succ_of_le hdigit.2
  rw [← Char.ofNat_toNat c]
  exact hall c.toNat hhigh hlow

/-- The name is lowered in the text that the file chooses. -/
theorem lowerCase_numberedName {stem name : String} (hstem : stem ∈ numberedStems) (index : Nat)
    (h : Text.NoSigma name) :
    Text.lowerCase (numberedName stem index name) =
      numberedName stem index (Text.lowerCase name) := by
  have hpre : ∀ c ∈ (stem ++ (toString index ++ ":")).toList, Text.Plain c := by
    simp only [String.toList_append, List.mem_append]
    rintro c (hc | hc | hc)
    · exact plain_of_stem stem hstem c hc
    · exact (plain_of_digit hc).1
    · rw [List.mem_singleton.1 hc]
      decide
  have hassoc : ∀ text, numberedName stem index text = stem ++ (toString index ++ ":") ++ text := by
    intro text
    rw [numberedName, String.append_assoc, String.append_assoc]
  rw [hassoc, hassoc, Text.lowerCase_append_of_plain hpre h]

/-- Different numbers give different names. -/
theorem numberedName_inj {stem name other : String} {i j : Nat}
    (h : numberedName stem i name = numberedName stem j other) : i = j := by
  have htakes : ∀ (n : Nat) (text : List Char),
      ((toString n).toList ++ ':' :: text).takeWhile (· ≠ ':') = (toString n).toList := by
    intro n text
    rw [List.takeWhile_append_of_pos fun c hc => decide_eq_true (plain_of_digit hc).2]
    simp
  have hlist := congrArg String.toList h
  simp only [numberedName, String.toList_append] at hlist
  -- The digits are what stands between the stem and the first colon.
  have hrest := List.append_cancel_left hlist
  have hdigits := congrArg (List.takeWhile (· ≠ ':')) hrest
  have hsame : (toString i).toList = (toString j).toList :=
    (htakes i _).symm.trans (hdigits.trans (htakes j _))
  rw [toList_toString, toList_toString] at hsame
  simpa using congrArg (Nat.ofDigitChars 10 · 0) hsame

/-- The lower-case form of a numbered name starts with its stem. -/
theorem startsWith_lowerCase_numberedName {stem : String} (hstem : stem ∈ numberedStems)
    (index : Nat) (name : String) :
    startsWith stem (Text.lowerCase (numberedName stem index name)) = true := by
  obtain ⟨tail, htail⟩ :=
    Text.lowerCase_append (plain_of_stem stem hstem) (toString index ++ (":" ++ name))
  rw [startsWith_iff, numberedName, htail]
  exact List.prefix_append _ _

/-! ## Lists of entries -/

/-- The entries with their names in lower case. -/
def lowered (entries : List (String × PropertyValue)) : List (String × PropertyValue) :=
  entries.map fun entry => (Text.lowerCase entry.1, entry.2)

/-- The entries numbered from zero under a stem. -/
def numbered (stem : String) (entries : List (String × PropertyValue)) :
    List (String × PropertyValue) :=
  entries.mapIdx fun i entry => (numberedName stem i entry.1, entry.2)

/-- However often entries have the same name, their numbered names differ. -/
theorem nodup_numbered (stem : String) (entries : List (String × PropertyValue)) :
    ((numbered stem entries).map (·.1)).Nodup := by
  rw [List.Nodup, List.pairwise_iff_getElem]
  intro i j hi hj hij heq
  simp only [numbered, List.getElem_map, List.getElem_mapIdx] at heq
  exact absurd (numberedName_inj heq) (Nat.ne_of_lt hij)

/-- Numbered names differ where their stems do. -/
theorem ne_of_numbered {stem other : String} (hstem : stem ∈ numberedStems)
    (hother : other ∈ numberedStems) (hne : stem ≠ other)
    (entries others : List (String × PropertyValue)) :
    ∀ name ∈ (numbered stem entries).map (·.1),
      ∀ name' ∈ (numbered other others).map (·.1), name ≠ name' := by
  have hstarts : ∀ (stem : String) (entries : List (String × PropertyValue)),
      ∀ name ∈ (numbered stem entries).map (·.1), startsWith stem name = true := by
    intro stem entries name hname
    obtain ⟨entry, hentry, rfl⟩ := List.mem_map.1 hname
    obtain ⟨i, hi, rfl⟩ := List.mem_mapIdx.1 hentry
    exact startsWith_numberedName stem i _
  rintro name hname name' hname' rfl
  have hboth := startsWith_eq hstem hother (hstarts other others name hname')
  rw [hstarts stem entries name hname, decide_eq_false hne] at hboth
  exact Bool.false_ne_true hboth.symm

/-- Latin-1 names may be lowered before they are numbered. -/
theorem lowered_numbered {stem : String} (hstem : stem ∈ numberedStems)
    {entries : List (String × PropertyValue)} (h : ∀ entry ∈ entries, Text.NoSigma entry.1) :
    lowered (numbered stem entries) = numbered stem (lowered entries) := by
  apply List.ext_getElem
  · simp [lowered, numbered]
  · intro i hi hi'
    have hmem : i < entries.length := by simpa [lowered, numbered] using hi
    simp only [lowered, numbered, List.getElem_map, List.getElem_mapIdx]
    rw [lowerCase_numberedName hstem i (h _ (List.getElem_mem hmem))]

/-- Under a stem stand the entries that are numbered under it, and no others. -/
theorem filter_numbered {stem other : String} (hstem : stem ∈ numberedStems)
    (hother : other ∈ numberedStems) (entries : List (String × PropertyValue)) :
    (numbered other entries).filter (fun entry => startsWith stem (Text.lowerCase entry.1)) =
      if stem = other then numbered other entries else [] := by
  have hall : ∀ entry ∈ numbered other entries,
      startsWith stem (Text.lowerCase entry.1) = decide (stem = other) := by
    intro entry hentry
    obtain ⟨i, hi, rfl⟩ := List.mem_mapIdx.1 hentry
    exact startsWith_eq hstem hother (startsWith_lowerCase_numberedName hother i _)
  rw [List.filter_congr hall]
  by_cases heq : stem = other <;> simp [heq]

namespace Properties

/-- A name that is new is put in beside the others. -/
theorem insertSorted_perm {name : String} (value : PropertyValue)
    {entries : List (String × PropertyValue)} (h : ∀ entry ∈ entries, entry.1 ≠ name) :
    (insertSorted name value entries).Perm ((name, value) :: entries) := by
  induction entries with
  | nil => exact .refl _
  | cons first rest ih =>
    obtain ⟨other, old⟩ := first
    obtain ⟨hfirst, hrest⟩ := List.forall_mem_cons.1 h
    rw [insertSorted, if_neg (Ne.symm hfirst)]
    split
    · exact .refl _
    · exact (List.Perm.cons _ (ih hrest)).trans (List.Perm.swap _ _ _)

/-- Values that are put in under new and different names are added to the others. -/
theorem insertAll_perm {p : Properties} {values : List (String × PropertyValue)}
    (hnodup : ((lowered values).map (·.1)).Nodup)
    (hnew : ∀ entry ∈ p.entries, entry.1 ∉ (lowered values).map (·.1)) :
    (p.insertAll values).entries.Perm (p.entries ++ lowered values) := by
  induction values generalizing p with
  | nil => rw [lowered, List.map_nil, List.append_nil]; exact .refl _
  | cons entry values ih =>
    obtain ⟨name, value⟩ := entry
    simp only [lowered, List.map_cons, List.nodup_cons] at hnodup hnew ⊢
    have hinsert : (p.insert name value).entries.Perm
        ((Text.lowerCase name, value) :: p.entries) := by
      rw [insert]
      exact insertSorted_perm value fun other hother heq =>
        hnew other hother (heq ▸ List.mem_cons_self)
    have hrest : ∀ other ∈ (p.insert name value).entries, other.1 ∉ (lowered values).map (·.1) := by
      intro other hother
      rcases List.mem_cons.1 (hinsert.mem_iff.1 hother) with rfl | hother
      · exact hnodup.1
      · exact fun hmem => hnew other hother (List.mem_cons_of_mem _ hmem)
    refine (ih hnodup.2 hrest).trans ?_
    exact (hinsert.append_right _).trans List.perm_middle.symm

/-- Numbered entries of Latin-1 names are all kept, in lower case. -/
theorem insertAll_numbered {stem : String} (hstem : stem ∈ numberedStems)
    {entries : List (String × PropertyValue)} (h : ∀ entry ∈ entries, Text.NoSigma entry.1) :
    (({} : Properties).insertAll (numbered stem entries)).toList.Perm
      (numbered stem (lowered entries)) := by
  have hlowered := lowered_numbered hstem h
  have hnodup : ((lowered (numbered stem entries)).map (·.1)).Nodup :=
    hlowered ▸ nodup_numbered stem (lowered entries)
  have hperm := insertAll_perm (p := {}) hnodup nofun
  rwa [hlowered] at hperm

end Properties

end Png
