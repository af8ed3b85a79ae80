import Png.CommandLine.Disk
import Png.Error

/-!
# Files that are written

A path leads to the place of a file by way of directories (`Disk.fileAt?`), and reading it is
looking up its bytes there (`read_of_fileAt?`). Writing it goes through two disks, that with the
file opened and that with the file filled, and may end on either or before both. All of them are
made by putting bytes at the place of the file (`write_cases`). A file is put only where all
directories above it are there already, so that no write makes any (`isDirectory_put`). From this
follow the two laws of writing, whether it succeeds or fails: every path leads where it led before
(`paths_put`), and of what lies at the places only that of the path has changed (`lookup_put`).
-/

namespace Png.CommandLine

namespace Place

/-- Above an entry of a directory are the directory and what is above it. -/
theorem isAbove_child {p q : Place} {name : String} :
    p.isAbove (q.child name) ↔ p = q ∨ p.isAbove q := by
  have hnames (above names : List String) :
      (above.isPrefixOf (names ++ [name]) && above != names ++ [name]) ↔
        above = names ∨ (above.isPrefixOf names && above != names) := by
    simp only [Bool.and_eq_true, List.isPrefixOf_iff_prefix, bne_iff_ne, List.prefix_concat_iff]
    constructor
    · rintro ⟨h | h, hne⟩
      · exact absurd h hne
      · by_cases heq : above = names
        · exact .inl heq
        · exact .inr ⟨h, heq⟩
    · rintro (rfl | ⟨h, -⟩)
      · exact ⟨.inr List.prefix_rfl, by simp⟩
      · refine ⟨.inr h, fun heq => ?_⟩
        have hlength := h.length_le
        rw [heq, List.length_append, List.length_singleton] at hlength
        omega
  cases p <;> cases q <;> simp [isAbove, child, hnames]

/-- A place is the root, the working directory or an entry of the directory around it. -/
theorem eq_child (p : Place) : p = root [] ∨ p = home [] ∨ ∃ name, p = p.parent.child name := by
  cases p with
  | root names =>
    obtain rfl | ⟨front, name, rfl⟩ := List.eq_nil_or_concat names
    · exact .inl rfl
    · exact .inr (.inr ⟨name, by simp [parent, child]⟩)
  | home names =>
    obtain rfl | ⟨front, name, rfl⟩ := List.eq_nil_or_concat names
    · exact .inr (.inl rfl)
    · exact .inr (.inr ⟨name, by simp [parent, child]⟩)

@[simp]
theorem not_isAbove_root (p : Place) : p.isAbove (root []) = false := by
  cases p <;> simp [isAbove]

@[simp]
theorem not_isAbove_home (p : Place) : p.isAbove (home []) = false := by
  cases p <;> simp [isAbove]

/-- What is above the directory around a place is above the place. -/
theorem isAbove_of_parent {p q : Place} (h : q.isAbove p.parent) : q.isAbove p := by
  obtain rfl | rfl | ⟨name, hp⟩ := eq_child p
  · exact h
  · exact absurd h (by simp [parent, not_isAbove_root])
  · rw [hp]
    exact isAbove_child.2 (.inr h)

end Place

namespace Disk

variable {d d' : Disk} {p q : Place} {path : String} {bytes : List UInt8}

/-! ## Directories -/

/-- The directories that are there without a file in them. -/
def standing (d : Disk) : Place → Bool
  | .root [] | .home [] => true
  | .root [name] => d.system.directories.contains name
  | _ => false

theorem isDirectory_eq (d : Disk) (p : Place) :
    d.isDirectory p = (d.standing p || d.files.any fun (q, _) => p.isAbove q) := by
  rcases p with (_ | ⟨name, _ | _⟩) | (_ | _) <;> rfl

/-- A device keeps nothing of what is put there. -/
theorem put_of_device (hdevice : (d.device? p).isSome) (bytes : List UInt8) : d.put p bytes = d :=
  if_pos hdevice

/-- A file that is put takes the place of the one that is there. -/
theorem put_of_isSome (hdevice : d.device? p = none) (hthere : (d.files.lookup p).isSome)
    (bytes : List UInt8) : d.put p bytes =
      { d with files := d.files.map fun (q, old) => if q = p then (p, bytes) else (q, old) } := by
  rw [put, if_neg (by simp [hdevice]), if_pos hthere]

/-- If there is none, it becomes the last one. -/
theorem put_of_eq_none (hdevice : d.device? p = none) (hmissing : d.files.lookup p = none)
    (bytes : List UInt8) : d.put p bytes = { d with files := d.files ++ [(p, bytes)] } := by
  rw [put, if_neg (by simp [hdevice]), if_neg (by simp [hmissing])]

/-- One of the three is the case. -/
theorem device_or_file (d : Disk) (p : Place) :
    (d.device? p).isSome ∨ d.device? p = none ∧ (d.files.lookup p).isSome ∨
      d.device? p = none ∧ d.files.lookup p = none := by
  cases d.device? p <;> cases d.files.lookup p <;> simp

@[simp]
theorem system_put (d : Disk) (p : Place) (bytes : List UInt8) :
    (d.put p bytes).system = d.system := by
  obtain h | ⟨h, h'⟩ | ⟨h, h'⟩ := d.device_or_file p
  · rw [put_of_device h]
  · rw [put_of_isSome h h']
  · rw [put_of_eq_none h h']

theorem device?_congr (h : d'.system = d.system) : d'.device? = d.device? := by
  funext p
  rw [device?, device?, h]

/-- A file that is put below directories makes no others. -/
theorem isDirectory_put (hp : ∀ q, q.isAbove p → d.isDirectory q) (bytes : List UInt8) :
    (d.put p bytes).isDirectory = d.isDirectory := by
  funext q
  obtain h | ⟨h, h'⟩ | ⟨h, h'⟩ := d.device_or_file p
  · rw [put_of_device h]
  · -- The files are where they were.
    rw [put_of_isSome h h']
    have hplaces :
        (fun file : Place × List UInt8 => q.isAbove file.1) ∘
          (fun (q, old) => if q = p then (p, bytes) else (q, old)) =
        fun file => q.isAbove file.1 := by
      funext file
      simp only [Function.comp_apply]
      split
      · next heq => rw [heq]
      · rfl
    rw [isDirectory_eq, isDirectory_eq, List.any_map, hplaces]
    rfl
  · -- The new one makes a directory of what is above it, which has been one before.
    rw [put_of_eq_none h h', isDirectory_eq, List.any_append, ← Bool.or_assoc, List.any_cons,
      List.any_nil, Bool.or_false]
    show (d.standing q || d.files.any (fun (r, _) => q.isAbove r) || q.isAbove p) = d.isDirectory q
    rw [← isDirectory_eq]
    cases hq : q.isAbove p with
    | false => rw [Bool.or_false]
    | true => rw [hp q hq, Bool.true_or]

/-! ## Where paths lead -/

theorem follow_eq_ok_iff {segment : String} :
    d.follow p segment = .ok q ↔ d.isDirectory p ∧
      if segment = "." then p = q
      else if segment = ".." then p.parent = q
      else segment.utf8ByteSize ≤ d.system.nameLimit ∧ p.child segment = q := by
  unfold follow
  cases d.isDirectory p with
  | false => simp
  | true =>
    simp only [Bool.not_true, Bool.false_eq_true, if_false, true_and]
    split
    · simp
    · split
      · simp
      · split <;> simp <;> omega

theorem walk_eq_ok_iff {segments : List String} :
    d.walk path segments = .ok p ↔ path ≠ "" ∧ path.utf8ByteSize ≤ d.system.pathLimit ∧
      segments.foldlM d.follow (Place.origin path) = .ok p := by
  unfold walk
  split
  · next hempty => simp [hempty]
  · next hempty =>
    split
    · next hlong => simp [Nat.not_le.2 hlong]
    · next hshort => simp [hempty, Nat.not_lt.1 hshort]

/-- The places above the one that a path leads to are directories. -/
theorem isDirectory_of_walk {segments : List String} (h : d.walk path segments = .ok p) :
    ∀ q, q.isAbove p → d.isDirectory q := by
  refine foldlM_keeps (P := fun p => ∀ q, q.isAbove p → d.isDirectory q) ?_
    (walk_eq_ok_iff.1 h).2.2 ?_
  · intro s s' segment _ hs hfollow q hq
    obtain ⟨hdirectory, hstep⟩ := follow_eq_ok_iff.1 hfollow
    split at hstep
    · exact hs q (hstep ▸ hq)
    · split at hstep
      · exact hs q (Place.isAbove_of_parent (hstep ▸ hq))
      · obtain rfl | hq := Place.isAbove_child.1 (hstep.2 ▸ hq)
        · exact hdirectory
        · exact hs q hq
  · -- Nothing is above where a path starts.
    intro q hq
    unfold Place.origin at hq
    split at hq
    · exact absurd hq (by simp [Place.not_isAbove_root])
    · exact absurd hq (by simp [Place.not_isAbove_home])

/-- A path that ends by asking for a directory leads to one. -/
theorem isDirectory_of_walk_dot {segments : List String}
    (h : d.walk path (segments ++ ["."]) = .ok p) : d.isDirectory p := by
  obtain ⟨-, -, h⟩ := walk_eq_ok_iff.1 h
  rw [List.foldlM_append, bind_eq_ok_iff] at h
  obtain ⟨q, -, h⟩ := h
  rw [List.foldlM_cons, bind_eq_ok_iff] at h
  obtain ⟨r, hfollow, h⟩ := h
  obtain ⟨hq, hstep⟩ := follow_eq_ok_iff.1 hfollow
  cases h
  rw [if_pos rfl] at hstep
  exact hstep ▸ hq

/-- Paths lead to the same places by way of the same directories. -/
theorem walk_congr (hsystem : d'.system = d.system) (h : d'.isDirectory = d.isDirectory)
    {segments : List String} : d'.walk path segments = .ok p ↔ d.walk path segments = .ok p := by
  have hfold (start : Place) :
      segments.foldlM d'.follow start = .ok p ↔ segments.foldlM d.follow start = .ok p := by
    induction segments generalizing start with
    | nil => rfl
    | cons segment segments ih =>
      rw [List.foldlM_cons, List.foldlM_cons, bind_eq_ok_iff, bind_eq_ok_iff]
      simp only [follow_eq_ok_iff, h, hsystem, ih]
  rw [walk_eq_ok_iff, walk_eq_ok_iff, hfold, hsystem]

/-- The place of the file that a path leads to, if it leads to no directory and no slash is at its
end. Nothing need be there. -/
def fileAt? (d : Disk) (path : String) : Option Place :=
  match d.walk path (Place.segments path) with
  | .ok p => if d.isDirectory p ∨ path.endsWith "/" then none else some p
  | .error _ => none

theorem fileAt?_eq_some_iff : d.fileAt? path = some p ↔
    d.walk path (Place.segments path) = .ok p ∧ ¬ d.isDirectory p ∧ ¬ path.endsWith "/" := by
  unfold fileAt?
  cases d.walk path (Place.segments path) with
  | error fault => simp
  | ok q =>
    simp only [Option.ite_none_left_eq_some, Option.some.injEq, Except.ok.injEq, not_or]
    constructor
    · rintro ⟨h, rfl⟩
      exact ⟨rfl, h⟩
    · rintro ⟨rfl, h⟩
      exact ⟨h, rfl⟩

theorem fileAt?_congr (hsystem : d'.system = d.system) (h : d'.isDirectory = d.isDirectory) :
    d'.fileAt? = d.fileAt? := by
  funext path
  apply Option.ext
  intro q
  rw [fileAt?_eq_some_iff, fileAt?_eq_some_iff, walk_congr hsystem h, h]

/-- Paths lead where they led before a file was put at the place of one. -/
theorem fileAt?_put (hp : d.fileAt? path = some p) (bytes : List UInt8) :
    (d.put p bytes).fileAt? = d.fileAt? :=
  fileAt?_congr (d.system_put p bytes)
    (isDirectory_put (isDirectory_of_walk (fileAt?_eq_some_iff.1 hp).1) bytes)

/-! ## What is at the places -/

/-- The files with one of them in place of the one that is there. -/
theorem lookup_replaced (files : List (Place × List UInt8)) (p q : Place) (bytes : List UInt8) :
    (files.map fun (q, old) => if q = p then (p, bytes) else (q, old)).lookup q =
      (files.lookup q).map fun old => if q = p then bytes else old := by
  induction files with
  | nil => rfl
  | cons file files ih =>
    obtain ⟨place, old⟩ := file
    rw [List.map_cons]
    by_cases hplace : place = p
    · simp only [hplace, if_true, List.lookup_cons, ih]
      cases hq : q == p with
      | true => simp [eq_of_beq hq]
      | false => rfl
    · simp only [hplace, if_false, List.lookup_cons, ih]
      cases hq : q == place with
      | true => simp [eq_of_beq hq, hplace]
      | false => rfl

/-- What is put at a place is there, unless it is a device, and at all others is what was there. -/
theorem lookup_put (d : Disk) (p : Place) (bytes : List UInt8) (q : Place) :
    (d.put p bytes).lookup q =
      if q = p ∧ d.device? p = none then some bytes else d.lookup q := by
  have hdevices := device?_congr (d.system_put p bytes)
  -- A device is where no file is put, and keeps its bytes.
  have hkept (hdevice : d.device? p = none)
      (hfiles : (d.put p bytes).files.lookup q =
        if q = p then some bytes else d.files.lookup q) :
      (d.put p bytes).lookup q =
        if q = p ∧ d.device? p = none then some bytes else d.lookup q := by
    rw [lookup, lookup, hdevices]
    cases hq : d.device? q with
    | some device => rw [if_neg fun h => by simp [h.1, hdevice] at hq]
    | none => simpa only [hdevice, and_true] using hfiles
  obtain hdevice | ⟨hdevice, hthere⟩ | ⟨hdevice, hmissing⟩ := d.device_or_file p
  · rw [put_of_device hdevice, if_neg fun hq => by simp [hq.2] at hdevice]
  · refine hkept hdevice ?_
    rw [put_of_isSome hdevice hthere, lookup_replaced]
    by_cases heq : q = p
    · obtain ⟨old, hold⟩ := Option.isSome_iff_exists.1 hthere
      rw [if_pos heq, heq, hold, Option.map_some, if_pos rfl]
    · simp only [heq, if_false, Option.map_id']
  · refine hkept hdevice ?_
    rw [put_of_eq_none hdevice hmissing, List.lookup_append]
    by_cases heq : q = p
    · rw [if_pos heq, heq, hmissing, List.lookup_cons_self]
      rfl
    · rw [if_neg heq, List.lookup_cons, beq_eq_false_iff_ne.2 heq]
      exact Option.or_none

/-- Of two files that are put at a place the second is there. -/
@[simp]
theorem put_put (d : Disk) (p : Place) (first second : List UInt8) :
    (d.put p first).put p second = d.put p second := by
  have hdevices := congrFun (device?_congr (d.system_put p first)) p
  obtain hdevice | ⟨hdevice, hthere⟩ | ⟨hdevice, hmissing⟩ := d.device_or_file p
  · rw [put_of_device hdevice]
  · have hreplaced : ((d.put p first).files.lookup p).isSome := by
      rw [put_of_isSome hdevice hthere, lookup_replaced, Option.isSome_map]
      exact hthere
    rw [put_of_isSome (hdevices.trans hdevice) hreplaced, put_of_isSome hdevice hthere,
      put_of_isSome hdevice hthere, List.map_map]
    congr 1
    refine List.map_congr_left fun (q, old) _ => ?_
    by_cases heq : q = p <;> simp [heq]
  · have hadded : ((d.put p first).files.lookup p).isSome := by
      rw [put_of_eq_none hdevice hmissing, List.lookup_append, hmissing, List.lookup_cons_self]
      rfl
    -- The file that has been made is the last one, and none of the others is at its place.
    have hothers : (d.files.map fun (q, old) => if q = p then (p, second) else (q, old)) =
        d.files := by
      refine (List.map_congr_left fun (q, old) hfile => if_neg ?_).trans (List.map_id' d.files)
      rintro rfl
      have hne := List.lookup_eq_none_iff.1 hmissing _ hfile
      simp at hne
    rw [put_of_isSome (hdevices.trans hdevice) hadded, put_of_eq_none hdevice hmissing,
      put_of_eq_none hdevice hmissing, List.map_append, hothers]
    simp

/-! ## Reading and writing -/

/-- Reading a file is looking up where its path leads to. -/
theorem read_of_fileAt? (h : d.fileAt? path = some p) :
    d.read path = match d.lookup p with
      | some bytes => .ok bytes
      | none => .error .notFound := by
  obtain ⟨hwalk, hdirectory, hslash⟩ := fileAt?_eq_some_iff.1 h
  simp only [read, hwalk, bind, Except.bind, if_neg hdirectory, if_neg hslash]
  cases d.lookup p <;> rfl

/-- The place of a file that is going to be written is that of its path. -/
theorem target_eq_ok_iff : d.target path = .ok p ↔ d.fileAt? path = some p := by
  simp only [fileAt?_eq_some_iff, target, bind_eq_ok_iff]
  constructor
  · rintro ⟨q, hwalk, h⟩
    split at h
    · cases h
    · next hdirectory =>
      cases h
      -- Behind a slash there is a directory, and that is not written.
      have hslash : ¬path.endsWith "/" := by
        intro hslash
        rw [if_pos hslash] at hwalk
        exact hdirectory (isDirectory_of_walk_dot hwalk)
      rw [if_neg hslash] at hwalk
      exact ⟨hwalk, hdirectory, hslash⟩
  · rintro ⟨hwalk, hdirectory, hslash⟩
    exact ⟨p, by rwa [if_neg hslash], by rw [if_neg hdirectory]; rfl⟩

/-- The disk without what stops the next write. -/
def advanced (d : Disk) : Disk := { d with interruptions := d.interruptions.tail }

@[simp]
theorem fileAt?_advanced (d : Disk) : d.advanced.fileAt? = d.fileAt? := fileAt?_congr rfl rfl

@[simp]
theorem device?_advanced (d : Disk) : d.advanced.device? = d.device? := device?_congr rfl

/-- Whatever a write puts at the place of its path, all paths lead where they led before, and the
devices are where they were. -/
theorem paths_put (hp : d.fileAt? path = some p) (bytes : List UInt8) :
    (d.advanced.put p bytes).fileAt? = d.fileAt? ∧ (d.advanced.put p bytes).device? = d.device? :=
  ⟨(fileAt?_put (d.fileAt?_advanced ▸ hp) bytes).trans d.fileAt?_advanced,
    device?_congr (d.advanced.system_put p bytes)⟩

/-- A file is opened at the place of its path, or the disk stays as it is. -/
theorem openAnew_cases (d : Disk) (path : String) :
    (∃ fault, openAnew path d = .error fault d) ∨
      ∃ p, d.fileAt? path = some p ∧ openAnew path d = .ok p (d.put p []) := by
  unfold openAnew
  cases htarget : d.target path with
  | error fault => exact .inl ⟨fault, rfl⟩
  | ok p => exact .inr ⟨p, target_eq_ok_iff.1 htarget, rfl⟩

/-- Filling a file that has just been opened puts the bytes there, as if it had not been opened
before, or leaves it empty. -/
theorem fill_put (d : Disk) (p : Place) (bytes : List UInt8) :
    fill p bytes (d.put p []) =
      if d.device? p = some .full ∧ bytes ≠ [] then .error .noSpace (d.put p [])
      else .ok () (d.put p bytes) := by
  rw [fill, put_put, congrFun (device?_congr (d.system_put p [])) p]

/-- Opening and filling a file puts the bytes at the place of its path, or fails before it has done
so with the disk as it was or the file empty. -/
theorem openAnew_fill_cases (d : Disk) (path : String) (bytes : List UInt8) :
    (∃ fault, (openAnew path >>= fun p => fill p bytes) d = .error fault d) ∨
      ∃ p, d.fileAt? path = some p ∧
        ((openAnew path >>= fun p => fill p bytes) d = .error .noSpace (d.put p []) ∨
          (openAnew path >>= fun p => fill p bytes) d = .ok () (d.put p bytes)) := by
  obtain ⟨fault, hopen⟩ | ⟨p, hp, hopen⟩ := openAnew_cases d path
  · refine .inl ⟨fault, ?_⟩
    simp only [bind, EStateM.bind, hopen]
  · refine .inr ⟨p, hp, ?_⟩
    simp only [bind, EStateM.bind, hopen, fill_put]
    split
    · exact .inl rfl
    · exact .inr rfl

theorem write_eq (path : String) (bytes : List UInt8) (d : Disk) :
    write path bytes d = match d.interruptions.head?.join with
      | none => (openAnew path >>= fun p => fill p bytes) d.advanced
      | some (.refused fault) => .error fault d.advanced
      | some (.broken kept fault) =>
        match (openAnew path >>= fun p => fill p (bytes.take kept)) d.advanced with
        | .ok () d' => .error fault d'
        | .error fault d' => .error fault d' := by
  cases hstop : d.interruptions.head?.join with
  | none => simp only [write, takeInterruption, bind, EStateM.bind, hstop, advanced]
  | some stop =>
    cases stop with
    | refused fault =>
      simp only [write, takeInterruption, bind, EStateM.bind, hstop, advanced]
      rfl
    | broken kept fault =>
      simp only [write, takeInterruption, bind, EStateM.bind, hstop, advanced]
      cases openAnew path { d with interruptions := d.interruptions.tail } with
      | error fault' d' => rfl
      | ok p d' =>
        simp only
        cases fill p (bytes.take kept) d' <;> rfl

/-- A write to a file is stopped by what stops the next write, and by nothing else. -/
theorem write_of_fileAt? (hp : d.fileAt? path = some p) (hfull : d.device? p ≠ some .full) :
    write path bytes d = match d.interruptions.head?.join with
      | none => .ok () (d.advanced.put p bytes)
      | some (.refused fault) => .error fault d.advanced
      | some (.broken kept fault) => .error fault (d.advanced.put p (bytes.take kept)) := by
  rw [← d.fileAt?_advanced] at hp
  have hopen : openAnew path d.advanced = .ok p (d.advanced.put p []) := by
    rw [openAnew, target_eq_ok_iff.2 hp]
  have hfill (bytes : List UInt8) :
      (openAnew path >>= fun p => fill p bytes) d.advanced = .ok () (d.advanced.put p bytes) := by
    simp only [bind, EStateM.bind, hopen, fill_put, device?_advanced, hfull, false_and, if_false]
  rw [write_eq]
  cases d.interruptions.head?.join with
  | none => exact hfill bytes
  | some stop =>
    cases stop with
    | refused fault => rfl
    | broken kept fault => simp only [hfill]

/-- All that a write can do: nothing, or put all of the bytes or the first of them at the place of
the path. Only what it has done in full succeeds. -/
theorem write_cases (path : String) (bytes : List UInt8) (d : Disk) :
    (∃ fault, write path bytes d = .error fault d.advanced) ∨ ∃ p, d.fileAt? path = some p ∧
      (write path bytes d = .ok () (d.advanced.put p bytes) ∨
        ∃ fault kept, write path bytes d = .error fault (d.advanced.put p (bytes.take kept))) := by
  rw [write_eq, ← d.fileAt?_advanced]
  cases d.interruptions.head?.join with
  | none =>
    obtain h | ⟨p, hp, hfull | hdone⟩ := openAnew_fill_cases d.advanced path bytes
    · exact .inl h
    · exact .inr ⟨p, hp, .inr ⟨_, 0, hfull⟩⟩
    · exact .inr ⟨p, hp, .inl hdone⟩
  | some stop =>
    cases stop with
    | refused fault => exact .inl ⟨fault, rfl⟩
    | broken kept fault =>
      -- Opening and filling may fail before the write breaks off.
      obtain ⟨cause, h⟩ | ⟨p, hp, hfull | hdone⟩ :=
        openAnew_fill_cases d.advanced path (bytes.take kept)
      · exact .inl ⟨cause, by simp only [h]⟩
      · exact .inr ⟨p, hp, .inr ⟨.noSpace, 0, by simp only [hfull, List.take_zero]⟩⟩
      · exact .inr ⟨p, hp, .inr ⟨fault, kept, by simp only [hdone]⟩⟩

/-- A write that succeeds has put the bytes at the place of the path. -/
theorem of_write_ok (h : write path bytes d = .ok () d') :
    ∃ p, d.fileAt? path = some p ∧ d' = d.advanced.put p bytes := by
  obtain ⟨_, hfailed⟩ | ⟨p, hp, hdone | ⟨_, _, hfailed⟩⟩ := write_cases path bytes d
  · cases hfailed.symm.trans h
  · cases hdone.symm.trans h
    exact ⟨p, hp, rfl⟩
  · cases hfailed.symm.trans h

/-- A write that fails has left everything as it was, or put the first bytes at the place of the
path. -/
theorem of_write_error {fault : FileFault} (h : write path bytes d = .error fault d') :
    d' = d.advanced ∨
      ∃ p kept, d.fileAt? path = some p ∧ d' = d.advanced.put p (bytes.take kept) := by
  obtain ⟨_, hfailed⟩ | ⟨p, hp, hdone | ⟨_, kept, hfailed⟩⟩ := write_cases path bytes d
  · cases hfailed.symm.trans h
    exact .inl rfl
  · cases hdone.symm.trans h
  · cases hfailed.symm.trans h
    exact .inr ⟨p, kept, hp, rfl⟩

end Disk

end Png.CommandLine
