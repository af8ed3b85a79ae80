import Png.Libraries.Own
import Png.Proofs.ScanBounds
import Png.Proofs.Sizes

/-!
# Scans of data that are long enough

The number of bytes that is asked for in advance is the length of the scanlines that a scan goes
through (`Header.dataSize_eq`). With as many bytes a scan has only one way left to fail, and that is
a filter byte (`outcome_readPixels`): nothing is asked for outside the data, the rows, the tables
and the raster (`Header.InBounds`). `Metadata.scan_safe` says so for the files that a decoder
accepts.
-/

namespace Png

/-! ## Filter bytes -/

/-- The first bytes of lines of these lengths. -/
def filterBytes : List Nat → List UInt8 → List UInt8
  | [], _ => []
  | n :: ns, data => data.headD 0 :: filterBytes ns (data.drop n)

theorem filterBytes_append {ns ns' : List Nat} {front back : List UInt8}
    (hfront : front.length = ns.sum) (hns : ∀ n ∈ ns, 0 < n) :
    filterBytes (ns ++ ns') (front ++ back) = filterBytes ns front ++ filterBytes ns' back := by
  induction ns generalizing front with
  | nil =>
    obtain rfl : front = [] := List.eq_nil_of_length_eq_zero hfront
    rfl
  | cons n ns ih =>
    rw [List.sum_cons] at hfront
    have hn := hns n List.mem_cons_self
    -- A line is not empty, so that its first byte is not one of those behind.
    have hhead : (front ++ back).headD 0 = front.headD 0 := by
      cases front with
      | nil =>
        simp only [List.length_nil] at hfront
        omega
      | cons b front => rfl
    have hdrop : (front.drop n).length = ns.sum := by
      rw [List.length_drop]
      omega
    have hrest := ih hdrop fun k hk => hns k (List.mem_cons_of_mem n hk)
    rw [List.cons_append, filterBytes, hhead, List.drop_append_of_le_length (by omega), hrest]
    rfl

/-- The filter bytes are those of the lines, whatever follows them. -/
theorem filterBytes_take {ns : List Nat} {data : List UInt8} (hdata : ns.sum ≤ data.length)
    (hns : ∀ n ∈ ns, 0 < n) : filterBytes ns (data.take ns.sum) = filterBytes ns data := by
  have happend : filterBytes (ns ++ []) (data.take ns.sum ++ data.drop ns.sum) = _ :=
    filterBytes_append (List.length_take_of_le hdata) hns
  rw [List.append_nil, List.take_append_drop, filterBytes, List.append_nil] at happend
  exact happend.symm

/-! ## What a reading comes to -/

/-- What a reading comes to that starts with `front`, whatever follows: it reads all of it, or it
refuses the first of the filter bytes that is none. -/
def Reading.Outcome (read : Reading → Except Error Reading) (rows : Rows)
    (pixels : Nat → Nat → Option (List Nat)) (front codes : List UInt8) : Prop :=
  match codes.find? (4 < ·) with
  | none => ∃ rows' pixels', ∀ tail,
      read { rest := front ++ tail, rows, pixels } =
        .ok { rest := tail, rows := rows', pixels := pixels' }
  | some code => ∀ tail,
      read { rest := front ++ tail, rows, pixels } = .error (.unknownFilter code.toNat)

namespace Reading

variable {h : Header} {rows : Rows} {pixels : Nat → Nat → Option (List Nat)}
  {front back codes codes' : List UInt8}

/-- A reading that has nothing to read. -/
theorem outcome_nil : Outcome .ok rows pixels [] [] :=
  ⟨rows, pixels, fun _ => rfl⟩

/-- One reading after another reads what both read, unless the first refuses a filter byte. -/
theorem Outcome.bind {read next : Reading → Except Error Reading}
    (hread : Outcome read rows pixels front codes)
    (hnext : ∀ rows pixels, Outcome next rows pixels back codes') :
    Outcome (fun s => read s >>= next) rows pixels (front ++ back) (codes ++ codes') := by
  unfold Outcome at *
  rw [List.find?_append]
  -- The first bad filter byte is in what the first reads, or else in what the second does.
  cases hcodes : codes.find? (4 < ·) with
  | some code =>
    simp only [hcodes] at hread
    intro tail
    show (read _ >>= next) = _
    rw [List.append_assoc, hread]
    rfl
  | none =>
    simp only [hcodes] at hread
    obtain ⟨rows', pixels', hread⟩ := hread
    have hnext := hnext rows' pixels'
    rw [Option.none_or]
    cases hcodes' : codes'.find? (4 < ·) with
    | some code =>
      simp only [hcodes'] at hnext
      intro tail
      show (read _ >>= next) = _
      rw [List.append_assoc, hread]
      exact hnext tail
    | none =>
      simp only [hcodes'] at hnext
      obtain ⟨rows'', pixels'', hnext⟩ := hnext
      refine ⟨rows'', pixels'', fun tail => ?_⟩
      show (read _ >>= next) = _
      rw [List.append_assoc, hread]
      exact hnext tail

/-- A row is read off its line, unless its filter byte is refused. -/
theorem outcome_readRow (p : Pass) (j : Nat) (hfront : front.length = h.rowBytes p.width + 1) :
    Outcome (readRow h p · j) rows pixels front (filterBytes [h.rowBytes p.width + 1] front) := by
  cases front with
  | nil => cases hfront
  | cons code raw =>
    -- The line is taken off, and what follows it is left.
    have hline : ∀ tail, takeLine (h.rowBytes p.width) (code :: raw ++ tail) rows =
        (rows.next code raw).map (·, tail) := by
      intro tail
      simp only [takeLine, List.splitAt_eq, List.take_left' hfront, List.drop_left' hfront, hfront,
        require, if_true, bind, Except.bind]
      cases rows.next code raw <;> rfl
    unfold Outcome
    rw [filterBytes, filterBytes, List.headD_cons, List.find?_singleton]
    by_cases hcode : 4 < code
    · have hnone : Filter.ofCode? code = none := (Filter.ofCode?_eq_none_iff code).2 hcode
      simp only [hcode, decide_true, if_true]
      intro tail
      simp only [readRow, hline, Rows.next_eq, hnone]
      rfl
    · obtain ⟨f, hf⟩ := Option.ne_none_iff_exists'.1 (mt (Filter.ofCode?_eq_none_iff code).1 hcode)
      simp only [hcode, decide_false, Bool.false_eq_true, if_false]
      obtain ⟨rows', hnext⟩ : ∃ rows', rows.next code raw = .ok rows' :=
        ⟨_, by rw [Rows.next_eq, hf]⟩
      refine ⟨rows', storeRow h p rows'.current j p.width pixels, fun tail => ?_⟩
      simp only [readRow, hline, hnext]
      rfl

/-- A loop of readings reads what all of them read, unless one of them refuses a filter byte. -/
theorem outcome_foldlM {α : Type} {read : Reading → α → Except Error Reading} {as : List α}
    {lengths : α → List Nat} (rows : Rows) (pixels : Nat → Nat → Option (List Nat))
    (hpos : ∀ a ∈ as, ∀ n ∈ lengths a, 0 < n)
    (hread : ∀ a ∈ as, ∀ rows pixels front, front.length = (lengths a).sum →
      Outcome (read · a) rows pixels front (filterBytes (lengths a) front))
    (hfront : front.length = (as.flatMap lengths).sum) :
    Outcome (as.foldlM read) rows pixels front (filterBytes (as.flatMap lengths) front) := by
  induction as generalizing rows pixels front with
  | nil =>
    obtain rfl : front = [] := List.eq_nil_of_length_eq_zero hfront
    exact outcome_nil
  | cons a as ih =>
    rw [List.flatMap_cons, List.sum_append] at hfront
    -- The bytes in front are those of the first reading, and then those of the others.
    have hlength : (front.take (lengths a).sum).length = (lengths a).sum :=
      List.length_take_of_le (by omega)
    have hfirst := hread a List.mem_cons_self rows pixels (front.take (lengths a).sum) hlength
    have hrest : ∀ rows pixels, Outcome (as.foldlM read) rows pixels (front.drop (lengths a).sum)
        (filterBytes (as.flatMap lengths) (front.drop (lengths a).sum)) := fun rows pixels =>
      ih rows pixels (fun b hb => hpos b (List.mem_cons_of_mem a hb))
        (fun b hb => hread b (List.mem_cons_of_mem a hb)) (by rw [List.length_drop]; omega)
    have hboth := hfirst.bind hrest
    rw [List.take_append_drop, ← filterBytes_append hlength (hpos a List.mem_cons_self),
      List.take_append_drop] at hboth
    exact hboth

/-- A pass is read off its lines, unless a filter byte is refused. -/
theorem outcome_readPass (p : Pass)
    (hfront : front.length = (List.replicate p.height (h.rowBytes p.width + 1)).sum) :
    Outcome (readPass h · p) rows pixels front
      (filterBytes (List.replicate p.height (h.rowBytes p.width + 1)) front) := by
  have hlengths : List.replicate p.height (h.rowBytes p.width + 1) =
      (List.range p.height).flatMap fun _ => [h.rowBytes p.width + 1] := by
    rw [← List.map_eq_flatMap, List.map_const', List.length_range]
  rw [hlengths] at hfront ⊢
  -- The rows at work are those of the start of the pass.
  refine outcome_foldlM (rows.start (h.rowBytes p.width)) pixels ?_ ?_ hfront
  · intro _ _ n hn
    rw [List.mem_singleton.1 hn]
    exact Nat.succ_pos _
  · intro j _ rows pixels front hfront
    rw [List.sum_singleton] at hfront
    exact outcome_readRow p j hfront

/-- An image is read off its lines, unless a filter byte is refused. -/
theorem outcome_readPixels (rows : Rows) (pixels : Nat → Nat → Option (List Nat))
    (hfront : front.length = h.lineLengths.sum) :
    Outcome (fun s => (h.passes.filter (!·.isEmpty)).foldlM (readPass h) s) rows pixels front
      (filterBytes h.lineLengths front) := by
  refine outcome_foldlM rows pixels ?_ (fun p _ rows pixels front hfront =>
    outcome_readPass p hfront) hfront
  intro p _ n hn
  rw [(List.mem_replicate.1 hn).2]
  exact Nat.succ_pos _

end Reading

namespace Metadata

/-- Scanning data that are long enough. They come to the same raster whatever follows the scanlines,
and that is left over; or the first filter byte that is none is refused. No read or write on the way
is out of bounds. -/
theorem scan_safe [Libraries] {chunks : List Chunk} {o : Options} {m : Metadata} {h : Header}
    {data : List UInt8} (hm : acceptAll chunks (.new o) = .ok () m) (hheader : m.header = some h)
    (hsize : h.dataSize ≤ data.length) (hlimit : data.length < levels 59) :
    ∃ t, m.transform = some t ∧
      (match (filterBytes h.lineLengths data).find? (4 < ·) with
        | none => ∃ raster, ∀ data', data'.take h.dataSize = data.take h.dataSize →
          scan h (m.pixelMap h t) data' (m.blankRaster h t) = .ok (raster, data'.drop h.dataSize)
        | some code => ∀ data', data'.take h.dataSize = data.take h.dataSize →
          scan h (m.pixelMap h t) data' (m.blankRaster h t) =
            .error (.unknownFilter code.toNat)) ∧
      h.InBounds (m.pixelMap h t) (m.blankRaster h t) data.length := by
  have hcoherent := coherent_of_acceptAll hm
  obtain ⟨t, htransform⟩ := hcoherent.exists_transform hheader
  have hlines := Header.dataSize_eq (Nat.lt_of_le_of_lt hsize hlimit)
  rw [hlines] at hsize ⊢
  have hshort := Nat.lt_of_le_of_lt hsize hlimit
  have hdraws := hcoherent.draws hheader htransform
  have hcount := hcoherent.countable hheader htransform h.interlace hshort
  refine ⟨t, htransform, ?_, hcoherent.inBounds hheader htransform hsize hshort⟩
  -- The scanlines are read the same way whatever follows them.
  have hfront : (data.take h.lineLengths.sum).length = h.lineLengths.sum :=
    List.length_take_of_le hsize
  have hread := Reading.outcome_readPixels (.new h.pixelBytes) (fun _ _ => none) hfront
  rw [← filterBytes_take hsize h.lineLengths_pos]
  have hscan : ∀ data', data'.take h.lineLengths.sum = data.take h.lineLengths.sum →
      scan h (m.pixelMap h t) data' (m.blankRaster h t) =
        ((h.passes.filter (!·.isEmpty)).foldlM (Reading.readPass h)
          { rest := data.take h.lineLengths.sum ++ data'.drop h.lineLengths.sum
            rows := .new h.pixelBytes
            pixels := fun _ _ => none }).map fun s =>
          (Raster.ofPixels h.width h.height t.bands (t.depth h m.options)
            (outputOf (m.pixelMap h t) t.bands s.pixels), s.rest) := by
    intro data' hprefix
    rw [← hprefix, List.take_append_drop]
    exact scan_eq_map hdraws hcount data'
  unfold Reading.Outcome at hread
  split
  · next hfind =>
    simp only [hfind] at hread
    obtain ⟨rows, pixels, hread⟩ := hread
    refine ⟨.ofPixels h.width h.height t.bands (t.depth h m.options)
      (outputOf (m.pixelMap h t) t.bands pixels), fun data' hprefix => ?_⟩
    rw [hscan data' hprefix, hread]
    rfl
  · next code hfind =>
    simp only [hfind] at hread
    intro data' hprefix
    rw [hscan data' hprefix, hread]
    rfl

/-- A three by two image of single bits in the order of Adam7 has four lines of two bytes. They are
scanned whatever follows them, and of two filter bytes that are none the first one is refused. -/
theorem scan_safe_two_bad_filters :
    let chunks : List Chunk :=
      [{ tag := .ofChars 'I' 'H' 'D' 'R', data := [0, 0, 0, 3, 0, 0, 0, 2, 1, 0, 0, 0, 1] }]
    let h : Header := { width := 3, height := 2, depth := 1, color := .gray, interlace := .adam7 }
    let good : List UInt8 := [0, 128, 1, 0, 2, 128, 4, 160]
    let bad : List UInt8 := [0, 128, 5, 0, 2, 128, 7, 160]
    ∃ m t, acceptAll chunks (.new {}) = .ok () m ∧ m.header = some h ∧ m.transform = some t ∧
      (h.dataSize ≤ good.length ∧ good.length < levels 59 ∧ ∃ raster, ∀ trailing,
        scan h (m.pixelMap h t) (good ++ trailing) (m.blankRaster h t) = .ok (raster, trailing)) ∧
      (h.dataSize ≤ bad.length ∧ bad.length < levels 59 ∧ ∀ trailing,
        scan h (m.pixelMap h t) (bad ++ trailing) (m.blankRaster h t) =
          .error (.unknownFilter 5)) := by
  intro chunks h good bad
  obtain ⟨m, haccept, hheader⟩ : ∃ m, acceptAll chunks (.new {}) = .ok () m ∧ m.header = some h :=
    ⟨_, rfl, rfl⟩
  have hsize : h.dataSize = 8 := by decide
  have hgood : h.dataSize ≤ good.length := Nat.le_of_eq hsize
  have hbad : h.dataSize ≤ bad.length := Nat.le_of_eq hsize
  have hlimit : 8 < levels 59 := by decide
  obtain ⟨t, htransform, hscanned, -⟩ := scan_safe haccept hheader hgood hlimit
  obtain ⟨t', htransform', hrefused, -⟩ := scan_safe haccept hheader hbad hlimit
  obtain rfl : t = t' := Option.some.inj (htransform.symm.trans htransform')
  -- All filter bytes are known in the one, and the second and the last are not in the other.
  have hnone : (filterBytes h.lineLengths good).find? (4 < ·) = none := by decide
  have hfive : (filterBytes h.lineLengths bad).find? (4 < ·) = some 5 := by decide
  simp only [hnone, hsize] at hscanned
  simp only [hfive, hsize] at hrefused
  obtain ⟨raster, hscanned⟩ := hscanned
  exact ⟨m, t, haccept, hheader, htransform,
    ⟨hgood, hlimit, raster, fun trailing => hscanned (good ++ trailing) rfl⟩,
    ⟨hbad, hlimit, fun trailing => hrefused (bad ++ trailing) rfl⟩⟩

end Metadata
end Png
