import Png.Proofs.WholeFiles

/-!
# The rules of a header chunk

A header chunk has to keep ten rules, which are checked one after the other. `HeaderRule.Broken`
says of each what breaks it and with which error, and `FirstBroken` that none in front of it is
broken. The reader is a chain of checks, one for each rule (`require_firstBroken`,
`demand_firstBroken`), so that it fails with the error of the first rule that is broken. Data that
break none are those that `Header.Acceptable` lists, and the header they give has them as its bytes
(`parse_exact`).
-/

namespace Png

/-- The numbers in the bytes of a header. -/
structure HeaderFields where
  width : Nat
  height : Nat
  depth : Nat
  color : Nat
  compression : Nat
  filterMethod : Nat
  interlace : Nat
  deriving DecidableEq

/-- The numbers that the bytes write. -/
def HeaderFields.ofBytes (data : List UInt8) : HeaderFields where
  width := numberAt data 0 4
  height := numberAt data 4 4
  depth := numberAt data 8 1
  color := numberAt data 9 1
  compression := numberAt data 10 1
  filterMethod := numberAt data 11 1
  interlace := numberAt data 12 1

/-- The numbers of a header. -/
def Header.fields (h : Header) : HeaderFields where
  width := h.width
  height := h.height
  depth := h.depth
  color := h.color.code
  compression := 0
  filterMethod := 0
  interlace := h.interlace.code

/-- The bit depths that go with a colour type. -/
def ColorType.depths : ColorType → List Nat
  | gray => [1, 2, 4, 8, 16]
  | palette => [1, 2, 4, 8]
  | rgb | grayAlpha | rgba => [8, 16]

/-- What a header chunk has to keep, in the order in which it is checked. -/
inductive HeaderRule where
  | length
  | dimensions
  | widthLimit
  | heightLimit
  | depth
  | color
  | depthForColor
  | compression
  | filterMethod
  | interlace
  deriving DecidableEq

namespace HeaderRule

/-- The rules in their order. -/
def all : List HeaderRule :=
  [length, dimensions, widthLimit, heightLimit, depth, color, depthForColor, compression,
    filterMethod, interlace]

/-- The data break the rule, and the error `e` tells of it with the number that does. -/
def Broken (o : Options) (data : List UInt8) (e : Error) : HeaderRule → Prop :=
  let f := HeaderFields.ofBytes data
  fun
  | length => data.length ≠ 13 ∧ e = .badHeaderLength data.length
  | dimensions => (f.width = 0 ∨ f.height = 0) ∧ e = .zeroDimensions
  | widthLimit => o.maxWidth < f.width ∧ e = .tooLarge .width f.width o.maxWidth
  | heightLimit => o.maxHeight < f.height ∧ e = .tooLarge .height f.height o.maxHeight
  | depth => f.depth ∉ [1, 2, 4, 8, 16] ∧ e = .invalidDepth f.depth
  | color => f.color ∉ [0, 2, 3, 4, 6] ∧ e = .unknownColorType f.color
  | depthForColor =>
    ∃ color : ColorType, color.code = f.color ∧ f.depth ∉ color.depths ∧
      e = .depthNotAllowed f.depth color
  | compression => f.compression ≠ 0 ∧ e = .unknownCompression f.compression
  | filterMethod => f.filterMethod ≠ 0 ∧ e = .unknownFilterMethod f.filterMethod
  | interlace => f.interlace ∉ [0, 1] ∧ e = .unknownInterlace f.interlace

end HeaderRule

/-- Some rule is broken with the error `e`, and none of those in front of it is broken. -/
def FirstBroken (o : Options) (data : List UInt8) (rules : List HeaderRule) (e : Error) : Prop :=
  ∃ before rule after, rules = before ++ rule :: after ∧ rule.Broken o data e ∧
    ∀ other ∈ before, ∀ e', ¬other.Broken o data e'

/-- The data of a header chunk that is accepted under the limits of the options. -/
structure Header.Acceptable (o : Options) (data : List UInt8) : Prop where
  length_eq : data.length = 13
  width_ne_zero : (HeaderFields.ofBytes data).width ≠ 0
  height_ne_zero : (HeaderFields.ofBytes data).height ≠ 0
  width_le : (HeaderFields.ofBytes data).width ≤ o.maxWidth
  height_le : (HeaderFields.ofBytes data).height ≤ o.maxHeight
  depth_mem : (HeaderFields.ofBytes data).depth ∈ [1, 2, 4, 8, 16]
  color_mem : (HeaderFields.ofBytes data).color ∈ [0, 2, 3, 4, 6]
  /-- The colour type goes with the depth. -/
  depth_mem_of_color : ∀ color : ColorType, color.code = (HeaderFields.ofBytes data).color →
    (HeaderFields.ofBytes data).depth ∈ color.depths
  compression_eq : (HeaderFields.ofBytes data).compression = 0
  filterMethod_eq : (HeaderFields.ofBytes data).filterMethod = 0
  interlace_mem : (HeaderFields.ofBytes data).interlace ∈ [0, 1]

/-! ## The codes -/

theorem ColorType.code_injective {c d : ColorType} (h : c.code = d.code) : c = d := by
  have hc := ofCode?_code c
  rw [h, ofCode?_code] at hc
  exact (Option.some.inj hc).symm

theorem Interlace.code_injective {i j : Interlace} (h : i.code = j.code) : i = j := by
  have hi := ofCode?_code i
  rw [h, ofCode?_code] at hi
  exact (Option.some.inj hi).symm

theorem ColorType.ofCode?_eq_none_iff {n : Nat} : ofCode? n = none ↔ n ∉ [0, 2, 3, 4, 6] := by
  unfold ofCode?
  split <;> simp_all

theorem Interlace.ofCode?_eq_none_iff {n : Nat} : ofCode? n = none ↔ n ∉ [0, 1] := by
  unfold ofCode?
  split <;> simp_all

/-- Between the smallest and the largest depth of a colour type lie the depths that go with it. -/
theorem ColorType.mem_depths_iff {c : ColorType} {depth : Nat} (hdepth : depth ∈ Header.depths) :
    depth ∈ c.depths ↔ c.minDepth ≤ depth ∧ depth ≤ c.maxDepth := by
  have hcases : depth = 1 ∨ depth = 2 ∨ depth = 4 ∨ depth = 8 ∨ depth = 16 := by
    simpa [Header.depths] using hdepth
  obtain rfl | rfl | rfl | rfl | rfl := hcases <;> cases c <;> decide

/-! ## A chain of checks -/

section

variable {o : Options} {data : List UInt8} {e : Error} {rule : HeaderRule} {rules : List HeaderRule}

/-- Either the first rule is broken, or it is not and the search goes on behind it. -/
theorem firstBroken_cons :
    FirstBroken o data (rule :: rules) e ↔
      rule.Broken o data e ∨ (∀ e', ¬rule.Broken o data e') ∧ FirstBroken o data rules e := by
  constructor
  · rintro ⟨before, found, after, hrules, hfound, hbefore⟩
    rcases before with _ | ⟨first, before⟩
    · obtain ⟨rfl, rfl⟩ := List.cons.inj hrules
      exact .inl hfound
    · obtain ⟨rfl, rfl⟩ := List.cons.inj hrules
      refine .inr ⟨hbefore rule List.mem_cons_self, before, found, after, rfl, hfound, ?_⟩
      exact fun other hother => hbefore other (List.mem_cons_of_mem rule hother)
  · rintro (hbroken | ⟨hkept, before, found, after, rfl, hfound, hbefore⟩)
    · exact ⟨[], rule, rules, rfl, hbroken, List.forall_mem_nil _⟩
    · exact ⟨rule :: before, found, after, rfl, hfound, List.forall_mem_cons.2 ⟨hkept, hbefore⟩⟩

theorem not_firstBroken_nil : ¬FirstBroken o data [] e := by
  rintro ⟨before, found, after, hrules, -⟩
  simp at hrules

/-- Some rule is the first to be broken unless none is. -/
theorem exists_firstBroken_iff :
    (∃ e, FirstBroken o data rules e) ↔ ∃ rule ∈ rules, ∃ e, rule.Broken o data e := by
  induction rules with
  | nil => simp [not_firstBroken_nil]
  | cons rule rules ih =>
    simp only [firstBroken_cons, exists_or, exists_and_left, ih, List.mem_cons, exists_eq_or_imp]
    -- A rule behind the first one counts where the first is kept.
    by_cases hfirst : ∃ e, rule.Broken o data e
    · simp only [hfirst, true_or]
    · have hkept : ∀ e', ¬rule.Broken o data e' := not_exists.1 hfirst
      simp only [hkept, exists_false, not_false_iff, implies_true, true_and, false_or]

/-- A check that fails exactly where a rule is broken, in front of those of the other rules. -/
theorem require_firstBroken {α : Type} {c : Prop} [Decidable c] {error : Error}
    {next : Except Error α} (hrule : ∀ e, rule.Broken o data e ↔ ¬c ∧ e = error)
    (hnext : c → (next = .error e ↔ FirstBroken o data rules e)) :
    (require c error >>= fun _ => next) = .error e ↔ FirstBroken o data (rule :: rules) e := by
  rw [firstBroken_cons]
  by_cases hc : c
  · have hkept : ∀ e', ¬rule.Broken o data e' := fun e' h => ((hrule e').1 h).1 hc
    have hpass : (require c error >>= fun _ => next) = next := by
      rw [require, if_pos hc]
      rfl
    rw [hpass, hnext hc]
    simp only [hkept, false_or, not_false_iff, implies_true, true_and]
  · have hfail : (require c error >>= fun _ => next) = .error error := by
      rw [require, if_neg hc]
      rfl
    have hbroken : rule.Broken o data error := (hrule error).2 ⟨hc, rfl⟩
    rw [hfail, Except.error.injEq, hrule]
    constructor
    · rintro rfl
      exact .inl ⟨hc, rfl⟩
    · rintro (⟨-, rfl⟩ | ⟨hkept, -⟩)
      · rfl
      · exact absurd hbroken (hkept error)

/-- The same for a value that there is exactly where a rule is kept. -/
theorem demand_firstBroken {α β : Type} {value : Option α} {error : Error}
    {next : α → Except Error β} (hrule : ∀ e, rule.Broken o data e ↔ value = none ∧ e = error)
    (hnext : ∀ a, value = some a → (next a = .error e ↔ FirstBroken o data rules e)) :
    (demand value error >>= next) = .error e ↔ FirstBroken o data (rule :: rules) e := by
  rcases hvalue : value with _ | a
  · -- Without a value this is a check that fails.
    show (require False error >>= fun _ => (.error error : Except Error β)) = .error e ↔ _
    refine require_firstBroken ?_ False.elim
    intro e
    rw [hrule, hvalue]
    simp
  · show (require True error >>= fun _ => next a) = .error e ↔ _
    refine require_firstBroken ?_ fun _ => hnext a hvalue
    intro e
    rw [hrule, hvalue]
    simp

end

/-- A field that lies within the data can be read. -/
theorem readField_of_le {data : List UInt8} {offset width : Nat}
    (h : offset + width ≤ data.length) :
    readField data offset width = .ok (numberAt data offset width) := by
  have hlength : ((data.drop offset).take width).length = width := by
    rw [List.length_take, List.length_drop]
    omega
  rw [readField, BigEndian.field?, if_pos hlength]
  rfl

namespace Header

variable {o : Options} {data : List UInt8}

/-- A reading fails with the error of the first rule that is broken. -/
theorem parse_eq_error_iff {e : Error} :
    parse o data = .error e ↔ FirstBroken o data HeaderRule.all e := by
  refine require_firstBroken (fun _ => Iff.rfl) fun hlength => ?_
  have hfield : ∀ offset width, offset + width ≤ 13 →
      readField data offset width = .ok (numberAt data offset width) :=
    fun offset width h => readField_of_le (hlength ▸ h)
  -- From here on all fields are there, and each step is the check of one rule.
  rw [hfield 0 4 (by decide), hfield 4 4 (by decide), hfield 8 1 (by decide),
    hfield 9 1 (by decide), hfield 10 1 (by decide), hfield 11 1 (by decide),
    hfield 12 1 (by decide)]
  refine require_firstBroken (fun _ => ?_) fun _ => ?_
  · rw [HeaderRule.Broken, ← not_or, not_not]
    rfl
  refine require_firstBroken (fun _ => by rw [Nat.not_le]; rfl) fun _ => ?_
  refine require_firstBroken (fun _ => by rw [Nat.not_le]; rfl) fun _ => ?_
  refine require_firstBroken (fun _ => Iff.rfl) fun hdepth => ?_
  refine demand_firstBroken (fun _ => by rw [ColorType.ofCode?_eq_none_iff]; rfl)
    fun color hcolor => ?_
  have hcode : numberAt data 9 1 = color.code := ColorType.eq_of_ofCode? hcolor
  refine require_firstBroken (fun e => ?_) fun _ => ?_
  · -- The code is that of one colour type.
    rw [← ColorType.mem_depths_iff hdepth]
    constructor
    · rintro ⟨other, hother, hmem, rfl⟩
      obtain rfl := ColorType.code_injective (hother.trans hcode)
      exact ⟨hmem, rfl⟩
    · rintro ⟨hmem, rfl⟩
      exact ⟨color, hcode.symm, hmem, rfl⟩
  refine require_firstBroken (fun _ => Iff.rfl) fun _ => ?_
  refine require_firstBroken (fun _ => Iff.rfl) fun _ => ?_
  refine demand_firstBroken (fun _ => by rw [Interlace.ofCode?_eq_none_iff]; rfl) fun _ _ => ?_
  exact iff_of_false nofun not_firstBroken_nil

/-- Data that break no rule are acceptable. -/
theorem acceptable_iff :
    Acceptable o data ↔ ∀ rule ∈ HeaderRule.all, ∀ e, ¬rule.Broken o data e := by
  constructor
  · intro h rule _ e hbroken
    cases rule with
    | length => exact hbroken.1 h.length_eq
    | dimensions => exact hbroken.1.elim h.width_ne_zero h.height_ne_zero
    | widthLimit => exact absurd h.width_le (Nat.not_le.2 hbroken.1)
    | heightLimit => exact absurd h.height_le (Nat.not_le.2 hbroken.1)
    | depth => exact hbroken.1 h.depth_mem
    | color => exact hbroken.1 h.color_mem
    | depthForColor =>
      obtain ⟨color, hcode, hmem, -⟩ := hbroken
      exact hmem (h.depth_mem_of_color color hcode)
    | compression => exact hbroken.1 h.compression_eq
    | filterMethod => exact hbroken.1 h.filterMethod_eq
    | interlace => exact hbroken.1 h.interlace_mem
  · intro h
    have hkept : ∀ (rule : HeaderRule) (e : Error), ¬rule.Broken o data e :=
      fun rule => h rule (by cases rule <;> decide)
    -- Were it not as it should be, a rule would be broken with the error that tells of it.
    constructor
    · exact Decidable.byContradiction fun hne => hkept .length _ ⟨hne, rfl⟩
    · exact fun hzero => hkept .dimensions _ ⟨.inl hzero, rfl⟩
    · exact fun hzero => hkept .dimensions _ ⟨.inr hzero, rfl⟩
    · exact Nat.not_lt.1 fun hlt => hkept .widthLimit _ ⟨hlt, rfl⟩
    · exact Nat.not_lt.1 fun hlt => hkept .heightLimit _ ⟨hlt, rfl⟩
    · exact Decidable.byContradiction fun hmem => hkept .depth _ ⟨hmem, rfl⟩
    · exact Decidable.byContradiction fun hmem => hkept .color _ ⟨hmem, rfl⟩
    · intro color hcode
      exact Decidable.byContradiction fun hmem => hkept .depthForColor _ ⟨color, hcode, hmem, rfl⟩
    · exact Decidable.byContradiction fun hne => hkept .compression _ ⟨hne, rfl⟩
    · exact Decidable.byContradiction fun hne => hkept .filterMethod _ ⟨hne, rfl⟩
    · exact Decidable.byContradiction fun hmem => hkept .interlace _ ⟨hmem, rfl⟩

/-- A header that is read has the numbers of its data. -/
theorem fields_of_parse {h : Header} (hparse : parse o data = .ok h) :
    h.fields = .ofBytes data := by
  simp only [parse, bind_eq_ok_iff, require_eq_ok_iff, demand_eq_ok_iff, pure, Except.pure,
    Except.ok.injEq] at hparse
  obtain ⟨_, -, width, hwidth, height, hheight, _, -, _, -, _, -, depth, hdepth, _, -, colorCode,
    hcolorCode, color, hcolor, _, -, compression, hcompression, _, rfl, filterMethod, hfilterMethod,
    _, rfl, interlaceCode, hinterlaceCode, interlace, hinterlace, rfl⟩ := hparse
  -- Two codes are turned into what they stand for, and are those of it.
  obtain rfl := ColorType.eq_of_ofCode? hcolor
  obtain rfl := Interlace.eq_of_ofCode? hinterlace
  rw [fields, HeaderFields.ofBytes, HeaderFields.mk.injEq]
  exact ⟨(readField_eq_ok hwidth).1, (readField_eq_ok hheight).1, (readField_eq_ok hdepth).1,
    (readField_eq_ok hcolorCode).1, (readField_eq_ok hcompression).1,
    (readField_eq_ok hfilterMethod).1, (readField_eq_ok hinterlaceCode).1⟩

/-- The numbers of a header are what is written of it. -/
theorem toBytes_eq (h : Header) :
    h.toBytes = BigEndian.encode 4 h.fields.width ++ (BigEndian.encode 4 h.fields.height ++
      (BigEndian.encode 1 h.fields.depth ++ (BigEndian.encode 1 h.fields.color ++
        (BigEndian.encode 1 h.fields.compression ++ (BigEndian.encode 1 h.fields.filterMethod ++
          (BigEndian.encode 1 h.fields.interlace ++ [])))))) :=
  rfl

/-- A field that is written again stands in front of what is behind it in the data. -/
theorem encode_numberAt_append (data : List UInt8) (offset width : Nat)
    (hwithin : offset + width ≤ data.length) :
    BigEndian.encode width (numberAt data offset width) ++ data.drop (offset + width) =
      data.drop offset := by
  have hlength : ((data.drop offset).take width).length = width := by
    rw [List.length_take, List.length_drop]
    omega
  have hbytes := BigEndian.encode_decode ((data.drop offset).take width)
  rw [hlength] at hbytes
  rw [numberAt, hbytes, ← List.drop_drop, List.take_append_drop]

/-- The bytes of a header that is read are its data. -/
theorem toBytes_of_parse {h : Header} (hparse : parse o data = .ok h) : h.toBytes = data := by
  have hlength : data.length = 13 := by
    simp only [parse, bind_eq_ok_iff, require_eq_ok_iff] at hparse
    exact hparse.choose_spec.1
  have hend : data.drop 13 = [] := List.drop_eq_nil_of_le (by omega)
  rw [toBytes_eq, fields_of_parse hparse, ← hend]
  -- The fields in turn, from the last one on.
  show BigEndian.encode 4 (numberAt data 0 4) ++ (BigEndian.encode 4 (numberAt data 4 4) ++
    (BigEndian.encode 1 (numberAt data 8 1) ++ (BigEndian.encode 1 (numberAt data 9 1) ++
      (BigEndian.encode 1 (numberAt data 10 1) ++ (BigEndian.encode 1 (numberAt data 11 1) ++
        (BigEndian.encode 1 (numberAt data 12 1) ++ data.drop 13)))))) = data.drop 0
  rw [encode_numberAt_append data 12 1 (by omega), encode_numberAt_append data 11 1 (by omega),
    encode_numberAt_append data 10 1 (by omega), encode_numberAt_append data 9 1 (by omega),
    encode_numberAt_append data 8 1 (by omega), encode_numberAt_append data 4 4 (by omega),
    encode_numberAt_append data 0 4 (by omega)]

/-- A header chunk is read exactly if it is acceptable, and its header has the numbers and the
bytes of the chunk. Otherwise the error is that of the first rule that is broken, in the order
length, zero dimensions, limit of the width, limit of the height, depth, colour type, depth for the
colour type, compression, filtering, interlacing, with the number that breaks it. -/
theorem parse_exact (o : Options) (data : List UInt8) :
    ((∃ h, parse o data = .ok h) ↔ Acceptable o data) ∧
      (∀ h, parse o data = .ok h → h.fields = .ofBytes data ∧ h.toBytes = data) ∧
      ∀ e, parse o data = .error e ↔ FirstBroken o data HeaderRule.all e := by
  refine ⟨?_, fun h hparse => ⟨fields_of_parse hparse, toBytes_of_parse hparse⟩,
    fun e => parse_eq_error_iff⟩
  -- What is read does not fail, so no rule is the first to be broken.
  have hok : (∃ h, parse o data = .ok h) ↔ ¬∃ e, parse o data = .error e := by
    cases parse o data <;> simp
  have hnone : (¬∃ e, FirstBroken o data HeaderRule.all e) ↔
      ∀ rule ∈ HeaderRule.all, ∀ e, ¬rule.Broken o data e := by
    rw [exists_firstBroken_iff]
    simp only [not_exists, not_and]
  simp only [hok, parse_eq_error_iff, hnone, acceptable_iff]

/-- Of a width of zero and a depth, a colour type and methods that there are not, the width is
told. -/
example : parse {} [0, 0, 0, 0, 0, 0, 0, 1, 3, 5, 1, 1, 2] = .error .zeroDimensions := rfl

end Header

end Png
