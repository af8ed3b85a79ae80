import Png.Proofs.NumberedNames

/-!
# Lower case stays lower case

A text in lower case is its own lower-case form (`lowerCase_lowerCase`), although a text may become
longer in lower case and the form of a capital sigma depends on what stands around it. Both are
settled by the first time: no capital sigma is left, so that the second time every character is
lowered on its own, and no form of a character has another form than itself (`Settled`). For the
forms of the table that is a fact about any two runs of it, since the forms of a run are code points
at the same distances as its members: either they end in front of the other run or begin behind it,
or both have every second code point and lie between each other (`CaseRun.misses`).
-/

namespace Png.Text

/-- The character is no capital sigma, and its own lower-case form. -/
def Settled (c : Char) : Prop := c ≠ capitalSigma ∧ lowerChar c = [c]

/-! ## Forms of one character -/

/-- No form of the run `r` is a member of the run `s`. -/
def CaseRun.misses (r s : CaseRun) : Bool :=
  Nat.blt (r.lower + (r.last - r.first)) s.first || Nat.blt s.last r.lower ||
    (r.step % s.step == 0 || r.first == r.last) && r.lower % s.step != s.first % s.step

theorem CaseRun.not_contains_of_misses {r s : CaseRun} (h : r.misses s = true) {code : Nat}
    (hcode : r.contains code = true) : s.contains (r.lower + (code - r.first)) = false := by
  simp only [contains, Bool.and_eq_true, decide_eq_true_eq, beq_iff_eq] at hcode
  obtain ⟨⟨hfirst, hlast⟩, hstep⟩ := hcode
  rw [Bool.eq_false_iff]
  intro hform
  simp only [contains, Bool.and_eq_true, decide_eq_true_eq, beq_iff_eq] at hform
  obtain ⟨⟨hfirst', hlast'⟩, hstep'⟩ := hform
  simp only [misses, Bool.or_eq_true, Bool.and_eq_true, Nat.blt_eq, beq_iff_eq, bne_iff_ne]
    at h
  obtain (hfront | hbehind) | ⟨hsteps, hlower⟩ := h
  · omega
  · omega
  · apply hlower
    -- The form is a whole number of steps of `s` away from the first form, if there is another.
    have hform : (r.lower + (code - r.first)) % s.step = r.lower % s.step := by
      obtain hsteps | hsingle := hsteps
      · have hdvd : s.step ∣ code - r.first :=
          Nat.dvd_trans (Nat.dvd_of_mod_eq_zero hsteps) (Nat.dvd_of_mod_eq_zero hstep)
        rw [Nat.add_mod, Nat.mod_eq_zero_of_dvd hdvd, Nat.add_zero, Nat.mod_mod]
      · rw [Nat.sub_eq_zero_of_le (by omega), Nat.add_zero]
    obtain ⟨k, hk⟩ := Nat.dvd_of_mod_eq_zero hstep'
    have hmember : r.lower + (code - r.first) = s.first + s.step * k := by omega
    rw [← hform, hmember, Nat.add_mul_mod_self_left]

/-- No form of a run is a member of another. -/
theorem misses_lowerRuns : (lowerRuns.all fun r => lowerRuns.all r.misses) = true := by
  decide +kernel

/-- The forms of a run are characters, and none of them is the capital I with a dot. -/
theorem forms_lowerRuns :
    ∀ r ∈ lowerRuns, r.lower + (r.last - r.first) < 0x110000 ∧
      (r.lower + (r.last - r.first) < 0xD800 ∨ 0xDFFF < r.lower) ∧
      (r.lower + (r.last - r.first) < 'İ'.toNat ∨ 'İ'.toNat < r.lower) := by
  decide +kernel

/-- The characters with another form are in runs, but for the capital I with a dot. -/
theorem settled_of_missed {c : Char} (hdot : c ≠ 'İ')
    (h : ∀ r ∈ lowerRuns, r.contains c.toNat = false) : Settled c := by
  constructor
  · rintro rfl
    have hsigma : lowerRuns.any (·.contains capitalSigma.toNat) = true := by decide
    obtain ⟨r, hr, hcontains⟩ := List.any_eq_true.1 hsigma
    rw [h r hr] at hcontains
    cases hcontains
  · rw [lowerChar]
    split
    · next hascii =>
      -- The capital letters of ASCII are the first run.
      have hcapital := h ⟨0x41, 0x5A, 1, 0x61⟩ List.mem_cons_self
      have hsmall : ∀ code < 0x80, CaseRun.contains ⟨0x41, 0x5A, 1, 0x61⟩ code = false →
          (Char.ofNat code).toLower = Char.ofNat code := by decide
      rw [← Char.ofNat_toNat c, hsmall c.toNat hascii hcapital]
    · have hnone : lowerRuns.find? (·.contains c.toNat) = none :=
        List.find?_eq_none.2 fun r hr => by rw [h r hr]; exact Bool.false_ne_true
      rw [hnone]

/-- The forms that are not in the table have no other forms. -/
theorem settled_special : ∀ c ∈ ['i', '\u0307', 'ς', 'σ'], Settled c := by
  -- The check goes through the list, not through all characters.
  have hmissed : (['i', '\u0307', 'ς', 'σ'].all fun c =>
      c != 'İ' && lowerRuns.all fun r => !r.contains c.toNat) = true := by
    decide +kernel
  intro c hc
  have hchecked := List.all_eq_true.1 hmissed c hc
  rw [Bool.and_eq_true, bne_iff_ne, List.all_eq_true] at hchecked
  exact settled_of_missed hchecked.1 fun r hr =>
    Bool.not_eq_eq_eq_not.1 (hchecked.2 r hr)

/-- A form from the table has no other form. -/
theorem settled_form {r : CaseRun} (hr : r ∈ lowerRuns) {code : Nat}
    (hcode : r.contains code = true) : Settled (Char.ofNat (r.lower + (code - r.first))) := by
  obtain ⟨hlt, hsurrogate, hdot⟩ := forms_lowerRuns r hr
  have hin : code - r.first ≤ r.last - r.first := by
    simp only [CaseRun.contains, Bool.and_eq_true, decide_eq_true_eq] at hcode
    omega
  have hvalid : (r.lower + (code - r.first)).isValidChar := by
    rw [Nat.isValidChar]
    omega
  have hnat : (Char.ofNat (r.lower + (code - r.first))).toNat = r.lower + (code - r.first) := by
    rw [Char.ofNat, dif_pos hvalid]
    rfl
  apply settled_of_missed
  · intro heq
    have := hnat.symm.trans (congrArg Char.toNat heq)
    omega
  · intro s hs
    rw [hnat]
    have hmisses := List.all_eq_true.1 (List.all_eq_true.1 misses_lowerRuns r hr) s hs
    exact CaseRun.not_contains_of_misses hmisses hcode

/-- The forms of a character have no other forms. -/
theorem settled_lowerChar {c d : Char} (h : d ∈ lowerChar c) : Settled d := by
  rw [lowerChar] at h
  split at h
  · next hascii =>
    obtain rfl := List.mem_singleton.1 h
    have hplain : ∀ code < 0x80, Plain (Char.ofNat code).toLower := by decide
    have hc := hplain c.toNat hascii
    rw [Char.ofNat_toNat] at hc
    exact ⟨hc.ne_capitalSigma, hc.lowerChar_eq⟩
  · next hascii =>
    split at h
    · -- The two forms of the capital I with a dot.
      exact settled_special d (List.mem_append_left ['ς', 'σ'] h)
    · next hdot =>
      cases hfind : lowerRuns.find? (·.contains c.toNat) with
      | some r =>
        rw [hfind] at h
        obtain rfl := List.mem_singleton.1 h
        have hcontains := List.find?_some hfind
        exact settled_form (List.mem_of_find?_eq_some hfind) hcontains
      | none =>
        rw [hfind] at h
        obtain rfl := List.mem_singleton.1 h
        exact settled_of_missed hdot fun r hr =>
          Bool.eq_false_iff.2 (List.find?_eq_none.1 hfind r hr)

/-- Neither form of the capital sigma has another form. -/
theorem settled_lowerSigma (before after : List Char) : Settled (lowerSigma before after) := by
  apply settled_special
  rw [lowerSigma]
  split <;> simp

/-! ## Forms of a text -/

theorem settled_lowerFrom (before rest : List Char) :
    ∀ d ∈ lowerFrom before rest [], Settled d := by
  induction rest generalizing before with
  | nil => exact List.forall_mem_nil _
  | cons c rest ih =>
    intro d hd
    rw [lowerFrom, lowerFrom_append, List.append_nil, List.mem_append, List.mem_reverse] at hd
    obtain hd | hd := hd
    · exact ih (c :: before) d hd
    · split at hd
      · obtain rfl := List.mem_singleton.1 hd
        exact settled_lowerSigma before rest
      · exact settled_lowerChar hd

/-- A text of such characters is its own lower-case form. -/
theorem lowerCase_of_settled {text : String} (h : ∀ c ∈ text.toList, Settled c) :
    lowerCase text = text := by
  apply String.toList_injective
  rw [toList_lowerCase fun c hc => (h c hc).1, flatMap_lowerChar fun c hc => (h c hc).2]

/-- A second time lower case changes nothing. -/
@[simp]
theorem lowerCase_lowerCase (text : String) : lowerCase (lowerCase text) = lowerCase text := by
  apply lowerCase_of_settled
  intro c hc
  rw [lowerCase, String.toList_ofList, List.mem_reverse] at hc
  exact settled_lowerFrom [] text.toList c hc

end Png.Text
