import Png.CommandLine.Program
import Png.Libraries.Own
import Png.Proofs.Files

/-!
# Runs on files

A run of the program is what it does one after the other, its events: texts are printed, files are
read and files are written. The files of the arguments have their turns in order. A turn that ends
well (`Finishes`) reads and decodes the input, prints the summary and writes the samples where there
is an output; one that does not (`Stops`) does this up to the step that fails. By
`runArguments_exact` a run is made of the turns of the first files, all of which end well
(`Completes`), and then it ends or one turn stops, the cause is printed and nothing else happens.

The disk goes from turn to turn, so that an input which leads to an earlier output is read with what
was written to it (`Leaves`). A turn that stops because its output cannot be written may have
emptied or made that file and left it with the first of its bytes; nothing else on the disk is
touched by it (`LeavesUnfinished`).
-/

namespace Png.CommandLine

/-! ## Events -/

/-- What a run does on the outside. A file is asked for, whether or not it can be read or
written. -/
inductive Event where
  | print (text : String)
  | read (path : String)
  | write (path : String) (bytes : List UInt8)

/-- All that is printed. -/
def printed : List Event → String
  | [] => ""
  | .print text :: events => text ++ printed events
  | .read _ :: events | .write _ _ :: events => printed events

@[simp]
theorem printed_append (events events' : List Event) :
    printed (events ++ events') = printed events ++ printed events' := by
  induction events with
  | nil => simp [printed]
  | cons event events ih => cases event <;> simp [printed, ih, String.append_assoc]

namespace Script

/-- The events of a run. -/
def events (d : Disk) : Script → List Event
  | print text next => .print text :: next.events d
  | read path next => .read path :: (next ((d.read path).mapError FileFault.message)).events d
  | write path bytes next => .write path bytes ::
    match Disk.write path bytes d with
    | .ok () d => (next (.ok ())).events d
    | .error fault d => (next (.error fault.message)).events d
  | exit _ => []

/-- A run of the script on `d` has these events first, and goes on as a run of `rest` on `d'`. -/
structure Does (script : Script) (d : Disk) (first : List Event) (rest : Script) (d' : Disk) :
    Prop where
  events_eq : script.events d = first ++ rest.events d'
  runFrom_eq : ∀ output, script.runFrom d output = rest.runFrom d' (output ++ printed first)

variable {script next rest : Script} {d d' d'' : Disk} {first second : List Event} {path : String}
  {bytes : List UInt8}

theorem Does.trans (h : script.Does d first next d') (h' : next.Does d' second rest d'') :
    script.Does d (first ++ second) rest d'' where
  events_eq := by rw [h.events_eq, h'.events_eq, List.append_assoc]
  runFrom_eq output := by
    rw [h.runFrom_eq, h'.runFrom_eq, printed_append, String.append_assoc]

theorem does_print (text : String) (next : Script) (d : Disk) :
    (print text next).Does d [.print text] next d :=
  ⟨rfl, fun output => by simp [runFrom, printed]⟩

theorem does_read {next : Except String (List UInt8) → Script}
    {result : Except FileFault (List UInt8)} (h : d.read path = result) :
    (read path next).Does d [.read path] (next (result.mapError FileFault.message)) d :=
  ⟨by rw [events, h]; rfl, fun output => by simp [runFrom, printed, h]⟩

theorem does_write {next : Except String Unit → Script} (h : Disk.write path bytes d = .ok () d') :
    (write path bytes next).Does d [.write path bytes] (next (.ok ())) d' :=
  ⟨by rw [events, h]; rfl, fun output => by simp [runFrom, printed, h]⟩

theorem does_write_failed {next : Except String Unit → Script} {fault : FileFault}
    (h : Disk.write path bytes d = .error fault d') :
    (write path bytes next).Does d [.write path bytes] (next (.error fault.message)) d' :=
  ⟨by rw [events, h]; rfl, fun output => by simp [runFrom, printed, h]⟩

/-- A run of the script on `d` has these events, and ends with this code and the disk `d'`. -/
def Ends (script : Script) (d : Disk) (events : List Event) (code : Nat) (d' : Disk) : Prop :=
  script.events d = events ∧ script.run d = { code, output := printed events, disk := d' }

theorem Does.ends {code : Nat} (h : script.Does d first (exit code) d') :
    script.Ends d first code d' := by
  refine ⟨h.events_eq.trans (List.append_nil first), (h.runFrom_eq "").trans ?_⟩
  rw [runFrom, String.empty_append]

end Script

/-! ## Turns -/

/-- The inputs with the outputs at the same positions. -/
def Arguments.files (a : Arguments) : List (String × Option String) :=
  a.inputs.zipIdx.map fun (input, i) => (input, a.outputs[i]?)

/-- There are no outputs, or as many as inputs. -/
def Arguments.Paired (a : Arguments) : Prop :=
  a.outputs = [] ∨ a.outputs.length = a.inputs.length

/-- The remarks that are to be shown. -/
def Arguments.prints (a : Arguments) (remarks : List Remark) : Event :=
  .print (Remark.render a.logLevel remarks)

/-- The cause of a failure is printed. -/
def Failure.prints (cause : Failure) : Event :=
  let remark : Remark :=
    { level := .error, target := .program
      text := " Could not decode, reason " ++ cause.message }
  .print ("\n" ++ remark.line ++ "\n")

theorem does_prints (a : Arguments) (d : Disk) (remarks : List Remark) (next : Script) :
    (say a remarks next).Does d [a.prints remarks] next d :=
  Script.does_print _ next d

theorem does_fail (d : Disk) (cause : Failure) :
    (fail cause).Does d [cause.prints] (.exit failureCode) d :=
  Script.does_print _ _ d

/-- Inputs and outputs are paired by their positions if there are as many of both, or no outputs. -/
theorem pairFiles_eq_ok {a : Arguments} (h : a.Paired) : pairFiles a = .ok a.files := by
  unfold pairFiles
  by_cases hnone : a.outputs = []
  · have hfiles : a.inputs.map (fun input => (input, none)) = a.files := by
      refine List.ext_getElem (by simp [Arguments.files]) fun i _ _ => ?_
      simp [Arguments.files, hnone]
    simp [hnone, hfiles]
  · have hlength := h.resolve_left hnone
    have hfiles : a.inputs.zip (a.outputs.map some) = a.files := by
      refine List.ext_getElem (by simp [Arguments.files, hlength]) fun i hi _ => ?_
      have houtput : i < a.outputs.length := by
        rw [List.length_zip, List.length_map] at hi
        omega
      simp [Arguments.files, List.getElem?_eq_getElem houtput]
    simp [hnone, hlength, hfiles]

theorem pairFiles_eq_error {a : Arguments} (h : ¬ a.Paired) :
    pairFiles a = .error (.outputCount a.inputs.length a.outputs.length) := by
  obtain ⟨hsome, hlength⟩ := not_or.1 h
  rw [pairFiles, if_neg (by simpa using hsome), if_neg hlength]

section

variable [Libraries]

/-- A turn up to the reading of its input. -/
def Arguments.begins (a : Arguments) (input : String) : List Event :=
  [a.prints [.fileBegun input], .read input]

/-- A turn up to the decoding of its input. -/
def Arguments.decodes (a : Arguments) (input : String) (bytes : List UInt8) : List Event :=
  a.begins input ++ [a.prints (narrate { rest := bytes } a.options)]

/-- A turn up to the summary of its image. -/
def Arguments.summarizes (a : Arguments) (input : String) (bytes : List UInt8) (image : Image) :
    List Event :=
  a.decodes input bytes ++ [.print ((image.summary input).pretty 0 ++ "\n")]

/-- The turn of a file that ends well: its input is decoded and summarized, and its output is
written if it has one. -/
inductive Finishes (a : Arguments) (d : Disk) :
    String × Option String → Image → List Event → Disk → Prop
  | shown {input : String} {bytes : List UInt8} {image : Image}
      (hread : d.read input = .ok bytes)
      (hdecode : decode { rest := bytes } a.options = .ok image) :
      Finishes a d (input, none) image (a.summarizes input bytes image) d
  | written {input output : String} {bytes : List UInt8} {image : Image} {d' : Disk}
      (hread : d.read input = .ok bytes)
      (hdecode : decode { rest := bytes } a.options = .ok image)
      (hwrite : Disk.write output image.raster.toBytes d = .ok () d') :
      Finishes a d (input, some output) image
        (a.summarizes input bytes image ++
          [.write output image.raster.toBytes,
            a.prints [.written output image.raster.toBytes.length]]) d'

/-- The turn of a file that fails: its input cannot be read or decoded, or its output cannot be
written. -/
inductive Stops (a : Arguments) (d : Disk) :
    String × Option String → List Event → Error → Disk → Prop
  | unread {input : String} {output : Option String} {fault : FileFault}
      (hread : d.read input = .error fault) :
      Stops a d (input, output) (a.begins input) (.io fault.message) d
  | undecoded {input : String} {output : Option String} {bytes : List UInt8} {error : Error}
      (hread : d.read input = .ok bytes)
      (hdecode : decode { rest := bytes } a.options = .error error) :
      Stops a d (input, output) (a.decodes input bytes) error d
  | unwritten {input output : String} {bytes : List UInt8} {image : Image} {fault : FileFault}
      {d' : Disk} (hread : d.read input = .ok bytes)
      (hdecode : decode { rest := bytes } a.options = .ok image)
      (hwrite : Disk.write output image.raster.toBytes d = .error fault d') :
      Stops a d (input, some output)
        (a.summarizes input bytes image ++ [.write output image.raster.toBytes])
        (.io fault.message) d'

/-- The turns of files one after the other, all of which end well, each on the disk that the one
before has left. -/
inductive Completes (a : Arguments) :
    Disk → List (String × Option String) → List Image → List Event → Disk → Prop
  | nil {d : Disk} : Completes a d [] [] [] d
  | cons {d d' d'' : Disk} {file : String × Option String}
      {files : List (String × Option String)} {image : Image} {images : List Image}
      {events events' : List Event} (hfirst : Finishes a d file image events d')
      (hrest : Completes a d' files images events' d'') :
      Completes a d (file :: files) (image :: images) (events ++ events') d''

section

variable {a : Arguments} {d d' : Disk} {file : String × Option String}
  {files rest : List (String × Option String)} {image : Image} {images : List Image}
  {events : List Event} {cause : Error}

/-- A turn ends well, or it stops. -/
theorem finishes_or_stops (a : Arguments) (d : Disk) (file : String × Option String) :
    (∃ image events d', Finishes a d file image events d') ∨
      ∃ events cause d', Stops a d file events cause d' := by
  obtain ⟨input, output⟩ := file
  cases hread : d.read input with
  | error fault => exact .inr ⟨_, _, _, .unread hread⟩
  | ok bytes =>
    cases hdecode : decode { rest := bytes } a.options with
    | error error => exact .inr ⟨_, _, _, .undecoded hread hdecode⟩
    | ok image =>
      cases output with
      | none => exact .inl ⟨_, _, _, .shown hread hdecode⟩
      | some output =>
        cases hwrite : Disk.write output image.raster.toBytes d with
        | error fault d' => exact .inr ⟨_, _, _, .unwritten hread hdecode hwrite⟩
        | ok u d' => exact .inl ⟨_, _, _, .written hread hdecode hwrite⟩

/-- The program reads the input first, and decodes it if it has been read. -/
theorem does_begins {input : String} {output : Option String}
    {result : Except FileFault (List UInt8)} (hread : d.read input = result) :
    (decodeFiles a ((input, output) :: rest)).Does d (a.begins input)
      (orFail (fun bytes =>
        say a (narrate { rest := bytes } a.options) <|
          orFail (fun image =>
            .print ((image.summary input).pretty 0 ++ "\n") <|
              saveImage a image output (decodeFiles a rest))
            (decode { rest := bytes } a.options))
        (ofFile (result.mapError FileFault.message))) d :=
  (does_prints _ _ _ _).trans (Script.does_read hread)

/-- Then it prints the summary of the image, if there is one. -/
theorem does_decodes {input : String} {output : Option String} {bytes : List UInt8}
    {result : Except Error Image} (hread : d.read input = .ok bytes)
    (hdecode : decode { rest := bytes } a.options = result) :
    (decodeFiles a ((input, output) :: rest)).Does d (a.decodes input bytes)
      (orFail (fun image =>
        .print ((image.summary input).pretty 0 ++ "\n") <|
          saveImage a image output (decodeFiles a rest)) result) d :=
  hdecode ▸ (does_begins hread).trans (does_prints _ _ _ _)

/-- Then it saves the samples. -/
theorem does_summarizes {input : String} {output : Option String} {bytes : List UInt8}
    (hread : d.read input = .ok bytes) (hdecode : decode { rest := bytes } a.options = .ok image) :
    (decodeFiles a ((input, output) :: rest)).Does d (a.summarizes input bytes image)
      (saveImage a image output (decodeFiles a rest)) d :=
  (does_decodes hread hdecode).trans (Script.does_print _ _ d)

/-- The program does a turn that ends well, and goes on with the other files. -/
theorem Finishes.does (h : Finishes a d file image events d') :
    (decodeFiles a (file :: rest)).Does d events (decodeFiles a rest) d' := by
  cases h with
  | shown hread hdecode => exact does_summarizes hread hdecode
  | written hread hdecode hwrite =>
    exact (does_summarizes hread hdecode).trans
      ((Script.does_write hwrite).trans (does_prints _ _ _ _))

/-- The program does a turn that stops, and fails for its cause. -/
theorem Stops.does (h : Stops a d file events cause d') :
    (decodeFiles a (file :: rest)).Does d events (fail (.file cause)) d' := by
  cases h with
  | unread hread => exact does_begins hread
  | undecoded hread hdecode => exact does_decodes hread hdecode
  | unwritten hread hdecode hwrite =>
    exact (does_summarizes hread hdecode).trans (Script.does_write_failed hwrite)

/-- The program does what the turns of the first files say, and goes on with the others. -/
theorem Completes.does (h : Completes a d files images events d') :
    (decodeFiles a (files ++ rest)).Does d events (decodeFiles a rest) d' := by
  induction h with
  | nil => exact ⟨rfl, fun output => by simp [printed]⟩
  | cons hfirst _ ih => exact hfirst.does.trans ih

/-- The turns of the first files end well, and then there are no others or the next one stops. -/
theorem exists_completes (a : Arguments) (d : Disk) (files : List (String × Option String)) :
    ∃ done rest images events d', files = done ++ rest ∧ Completes a d done images events d' ∧
      (rest = [] ∨ ∃ file later stopped cause d'', rest = file :: later ∧
        Stops a d' file stopped cause d'') := by
  induction files generalizing d with
  | nil => exact ⟨[], [], [], [], d, rfl, .nil, .inl rfl⟩
  | cons file files ih =>
    obtain ⟨image, events, d₁, hfirst⟩ | ⟨stopped, cause, d₁, hstops⟩ := finishes_or_stops a d file
    · obtain ⟨done, rest, images, events', d', rfl, hdone, hrest⟩ := ih d₁
      exact ⟨file :: done, rest, image :: images, events ++ events', d', rfl, .cons hfirst hdone,
        hrest⟩
    · exact ⟨[], file :: files, [], [], d, rfl, .nil,
        .inr ⟨file, files, stopped, cause, d₁, rfl, hstops⟩⟩

end

/-! ## What is left on the disk -/

/-- What the disk `d'` has behind the turns of `files` on `d` that gave `images`. -/
structure Leaves (a : Arguments) (d : Disk) (files : List (String × Option String))
    (images : List Image) (d' : Disk) : Prop where
  length_eq : images.length = files.length
  /-- Paths lead where they led before. -/
  fileAt?_eq : d'.fileAt? = d.fileAt?
  /-- Each input has been read, and decoded to its image, on the disk that the turns in front of it
  have left. -/
  input_read : ∀ (i : Nat) file image, files[i]? = some file → images[i]? = some image →
    ∃ events d₁ bytes, Completes a d (files.take i) (images.take i) events d₁ ∧
      d₁.read file.1 = .ok bytes ∧ decode { rest := bytes } a.options = .ok image
  /-- Each output leads to a place. If this is no device, any path that leads there reads the
  samples of the image, unless a later output leads there, too. -/
  output_read : ∀ (i : Nat) input output image, files[i]? = some (input, some output) →
    images[i]? = some image → ∃ p, d.fileAt? output = some p ∧ (d.device? p = none →
      (∀ (j : Nat) later, i < j → files[j]? = some later → later.2.bind d.fileAt? ≠ some p) →
        ∀ path, d.fileAt? path = some p → d'.read path = .ok image.raster.toBytes)
  /-- An input that leads where an earlier output leads is decoded from what was written there
  last. -/
  overwritten_read : ∀ (i j : Nat) input output image file image' p, i < j →
    files[i]? = some (input, some output) → images[i]? = some image → files[j]? = some file →
    images[j]? = some image' → d.fileAt? output = some p → d.fileAt? file.1 = some p →
    d.device? p = none →
    (∀ (l : Nat) between, i < l → l < j → files[l]? = some between →
      between.2.bind d.fileAt? ≠ some p) →
    decode { rest := image.raster.toBytes } a.options = .ok image'
  /-- A path reads what it has read before if it leads to a device, or where no output leads. -/
  other_read : ∀ path p, d.fileAt? path = some p →
    d.device? p ≠ none ∨ (∀ file ∈ files, file.2.bind d.fileAt? ≠ some p) →
      d'.read path = d.read path

/-- What the disk `d'` has behind the turn of `file` on `d` that stopped. -/
structure LeavesUnfinished (a : Arguments) (d : Disk) (file : String × Option String)
    (d' : Disk) : Prop where
  /-- Paths lead where they led before. -/
  fileAt?_eq : d'.fileAt? = d.fileAt?
  /-- What the output leads to is as it was, or the input has been decoded and the first of the
  samples of its image are there. -/
  output_read : ∀ path p, file.2.bind d.fileAt? = some p → d.fileAt? path = some p →
    d'.read path = d.read path ∨ ∃ bytes image kept, d.read file.1 = .ok bytes ∧
      decode { rest := bytes } a.options = .ok image ∧
        d'.read path = .ok (image.raster.toBytes.take kept)
  /-- A path reads what it has read before if it leads to a device, or elsewhere than the output. -/
  other_read : ∀ path p, d.fileAt? path = some p →
    d.device? p ≠ none ∨ file.2.bind d.fileAt? ≠ some p → d'.read path = d.read path

section

variable {a : Arguments} {d d' : Disk} {file : String × Option String}
  {files : List (String × Option String)} {image : Image} {images : List Image}
  {events : List Event}

/-- A turn puts the samples where its output leads, and changes nothing else. -/
theorem Finishes.lookup_eq (h : Finishes a d file image events d') (p : Place) :
    d'.lookup p = if file.2.bind d.fileAt? = some p ∧ d.device? p = none then
      some image.raster.toBytes else d.lookup p := by
  cases h with
  | shown => rw [if_neg (by simp)]
  | written _ _ hwrite =>
    obtain ⟨q, hq, rfl⟩ := Disk.of_write_ok hwrite
    rw [Disk.lookup_put]
    simp only [Option.bind_some, hq, Option.some.injEq]
    by_cases heq : p = q
    · subst heq
      rfl
    · rw [if_neg fun h => heq h.1, if_neg fun h => heq h.1.symm]
      rfl

/-- Paths lead where they led before, and devices are where they were. -/
theorem Finishes.paths_eq (h : Finishes a d file image events d') :
    d'.fileAt? = d.fileAt? ∧ d'.device? = d.device? := by
  cases h with
  | shown => exact ⟨rfl, rfl⟩
  | written _ _ hwrite =>
    obtain ⟨p, hp, rfl⟩ := Disk.of_write_ok hwrite
    exact Disk.paths_put hp _

/-- The output of a turn leads to a place. -/
theorem Finishes.exists_place {input output : String}
    (h : Finishes a d (input, some output) image events d') : ∃ p, d.fileAt? output = some p := by
  cases h with
  | written _ _ hwrite =>
    obtain ⟨p, hp, -⟩ := Disk.of_write_ok hwrite
    exact ⟨p, hp⟩

namespace Completes

theorem length_eq (h : Completes a d files images events d') : images.length = files.length := by
  induction h with
  | nil => rfl
  | cons _ _ ih => rw [List.length_cons, List.length_cons, ih]

theorem paths_eq (h : Completes a d files images events d') :
    d'.fileAt? = d.fileAt? ∧ d'.device? = d.device? := by
  induction h with
  | nil => exact ⟨rfl, rfl⟩
  | cons hfirst _ ih =>
    exact ⟨ih.1.trans hfirst.paths_eq.1, ih.2.trans hfirst.paths_eq.2⟩

/-- Each turn is on the disk that the turns in front of it have left. -/
theorem exists_turn (h : Completes a d files images events d') {i : Nat}
    (hfile : files[i]? = some file) (himage : images[i]? = some image) :
    ∃ events₁ d₁ events₂ d₂, Completes a d (files.take i) (images.take i) events₁ d₁ ∧
      Finishes a d₁ file image events₂ d₂ := by
  induction h generalizing i with
  | nil => exact absurd hfile (by simp)
  | cons hfirst _ ih =>
    cases i with
    | zero =>
      cases hfile
      cases himage
      exact ⟨_, _, _, _, .nil, hfirst⟩
    | succ i =>
      obtain ⟨events₁, d₁, events₂, d₂, hbefore, hturn⟩ := ih hfile himage
      exact ⟨_, d₁, events₂, d₂, .cons hfirst hbefore, hturn⟩

/-- What lies at a device, or where no output leads, stays. -/
theorem lookup_eq (h : Completes a d files images events d') {p : Place}
    (hp : d.device? p ≠ none ∨ ∀ file ∈ files, file.2.bind d.fileAt? ≠ some p) :
    d'.lookup p = d.lookup p := by
  induction h with
  | nil => rfl
  | cons hfirst _ ih =>
    rw [hfirst.paths_eq.1, hfirst.paths_eq.2] at ih
    rw [ih (hp.imp_right fun hp file hfile => hp file (List.mem_cons_of_mem _ hfile)),
      hfirst.lookup_eq, if_neg]
    rintro ⟨hfile, hdevice⟩
    obtain hp | hp := hp
    · exact hp hdevice
    · exact hp _ List.mem_cons_self hfile

/-- Where an output leads lie the samples of its image, unless a later one leads there, too. -/
theorem lookup_output (h : Completes a d files images events d') {i : Nat} {p : Place}
    (hfile : files[i]? = some file) (himage : images[i]? = some image)
    (hp : file.2.bind d.fileAt? = some p) (hdevice : d.device? p = none)
    (hlater : ∀ (j : Nat) later, i < j → files[j]? = some later →
      later.2.bind d.fileAt? ≠ some p) :
    d'.lookup p = some image.raster.toBytes := by
  induction h generalizing i with
  | nil => exact absurd hfile (by simp)
  | cons hfirst hrest ih =>
    rw [← hfirst.paths_eq.1] at hlater
    cases i with
    | zero =>
      cases hfile
      cases himage
      have hkept := hrest.lookup_eq (p := p) (.inr fun later hmem => ?_)
      · rw [hkept, hfirst.lookup_eq, if_pos ⟨hp, hdevice⟩]
      · obtain ⟨j, hj⟩ := List.mem_iff_getElem?.1 hmem
        exact hlater (j + 1) later (Nat.succ_pos j) hj
    | succ i =>
      exact ih hfile himage (hfirst.paths_eq.1 ▸ hp) (hfirst.paths_eq.2 ▸ hdevice)
        fun j later hj => hlater (j + 1) later (Nat.succ_lt_succ hj)

/-- Turns that end well leave the samples in the outputs, and nothing else. -/
theorem leaves (h : Completes a d files images events d') : Leaves a d files images d' where
  length_eq := h.length_eq
  fileAt?_eq := h.paths_eq.1
  input_read i file image hfile himage := by
    obtain ⟨events₁, d₁, events₂, d₂, hbefore, hturn⟩ := h.exists_turn hfile himage
    cases hturn with
    | shown hread hdecode | written hread hdecode =>
      exact ⟨events₁, d₁, _, hbefore, hread, hdecode⟩
  output_read i input output image hfile himage := by
    obtain ⟨events₁, d₁, events₂, d₂, hbefore, hturn⟩ := h.exists_turn hfile himage
    obtain ⟨p, hp⟩ := hturn.exists_place
    rw [hbefore.paths_eq.1] at hp
    refine ⟨p, hp, fun hdevice hlater path hpath => ?_⟩
    rw [← h.paths_eq.1] at hpath
    rw [Disk.read_of_fileAt? hpath, h.lookup_output hfile himage hp hdevice hlater]
  overwritten_read i j input output image file image' p hij hfile himage hfile' himage' hp hinput
      hdevice hbetween := by
    obtain ⟨events₁, d₁, events₂, d₂, hbefore, hturn⟩ := h.exists_turn hfile' himage'
    -- Of the turns in front of this one, none behind the output writes to the same place.
    have hlookup : d₁.lookup p = some image.raster.toBytes := by
      rw [← List.getElem?_take_of_lt hij] at hfile himage
      refine hbefore.lookup_output hfile himage hp hdevice fun l between hl hget => ?_
      rw [List.getElem?_take] at hget
      obtain ⟨hlj, hget⟩ := Option.ite_none_right_eq_some.1 hget
      exact hbetween l between hl hlj hget
    have hread := Disk.read_of_fileAt? (hbefore.paths_eq.1 ▸ hinput)
    rw [hlookup] at hread
    cases hturn with
    | shown hread' hdecode | written hread' hdecode =>
      cases hread.symm.trans hread'
      exact hdecode
  other_read path p hpath hp := by
    have hpath' := hpath
    rw [← h.paths_eq.1] at hpath'
    rw [Disk.read_of_fileAt? hpath', Disk.read_of_fileAt? hpath, h.lookup_eq hp]

end Completes

namespace Stops

variable {cause : Error}

theorem paths_eq (h : Stops a d file events cause d') :
    d'.fileAt? = d.fileAt? ∧ d'.device? = d.device? := by
  cases h with
  | unread | undecoded => exact ⟨rfl, rfl⟩
  | unwritten _ _ hwrite =>
    obtain rfl | ⟨p, kept, hp, rfl⟩ := Disk.of_write_error hwrite
    · exact ⟨d.fileAt?_advanced, d.device?_advanced⟩
    · exact Disk.paths_put hp _

/-- A turn that stops changes at most what is where its output leads, and puts the first of the
samples there. -/
theorem lookup_cases (h : Stops a d file events cause d') (p : Place) :
    d'.lookup p = d.lookup p ∨ file.2.bind d.fileAt? = some p ∧ d.device? p = none ∧
      ∃ bytes image kept, d.read file.1 = .ok bytes ∧
        decode { rest := bytes } a.options = .ok image ∧
          d'.lookup p = some (image.raster.toBytes.take kept) := by
  cases h with
  | unread | undecoded => exact .inl rfl
  | unwritten hread hdecode hwrite =>
    obtain rfl | ⟨q, kept, hq, rfl⟩ := Disk.of_write_error hwrite
    · exact .inl rfl
    · rw [Disk.lookup_put]
      split
      · next hput =>
        obtain ⟨rfl, hdevice⟩ := hput
        exact .inr ⟨hq, hdevice, _, _, kept, hread, hdecode, rfl⟩
      · exact .inl rfl

/-- A turn that stops leaves its output as it was or with the first of the samples, and everything
else as it was. -/
theorem leavesUnfinished (h : Stops a d file events cause d') : LeavesUnfinished a d file d' where
  fileAt?_eq := h.paths_eq.1
  output_read path p _ hpath := by
    have hpath' := hpath
    rw [← h.paths_eq.1] at hpath'
    rw [Disk.read_of_fileAt? hpath', Disk.read_of_fileAt? hpath]
    obtain hsame | ⟨-, -, bytes, image, kept, hread, hdecode, hfirst⟩ := h.lookup_cases p
    · exact .inl (by rw [hsame])
    · exact .inr ⟨bytes, image, kept, hread, hdecode, by rw [hfirst]⟩
  other_read path p hpath hp := by
    have hpath' := hpath
    rw [← h.paths_eq.1] at hpath'
    obtain hsame | ⟨houtput, hdevice, -⟩ := h.lookup_cases p
    · rw [Disk.read_of_fileAt? hpath', Disk.read_of_fileAt? hpath, hsame]
    · obtain hp | hp := hp
      · exact absurd hdevice hp
      · exact absurd houtput hp

end Stops

end

/-! ## The program -/

/-- What a run does before the turns. -/
def Arguments.starts (a : Arguments) : List Event :=
  [a.prints (Remark.setup a), a.prints [.filesCounted a.inputs.length]]

section

variable {a : Arguments} (d : Disk)

theorem ends_unpaired (h : ¬ a.Paired) :
    (runArguments a).Ends d [a.prints (Remark.setup a),
      (Failure.outputCount a.inputs.length a.outputs.length).prints] failureCode d := by
  rw [runArguments, pairFiles_eq_error h]
  exact ((does_prints _ _ _ _).trans (does_fail _ _)).ends

theorem does_paired (h : a.Paired) :
    (runArguments a).Does d a.starts (decodeFiles a a.files) d := by
  rw [runArguments, pairFiles_eq_ok h]
  exact (does_prints _ _ _ _).trans (does_prints _ _ _ _)

/-- When the turns of all files end well, so does the run. -/
theorem Completes.ends {d d' : Disk} {images : List Image} {turns : List Event} (h : a.Paired)
    (hdone : Completes a d a.files images turns d') :
    (runArguments a).Ends d (a.starts ++ turns) 0 d' := by
  have hturns : (decodeFiles a (a.files ++ [])).Does d turns (decodeFiles a []) d' := hdone.does
  rw [List.append_nil] at hturns
  exact ((does_paired d h).trans hturns).ends

/-- Otherwise the run ends with the first turn that stops. -/
theorem Stops.ends {d d' d'' : Disk} {done later : List (String × Option String)}
    {file : String × Option String} {images : List Image} {turns stopped : List Event}
    {cause : Error} (h : a.Paired) (hfiles : a.files = done ++ file :: later)
    (hdone : Completes a d done images turns d') (hstops : Stops a d' file stopped cause d'') :
    (runArguments a).Ends d (a.starts ++ turns ++ stopped ++ [(Failure.file cause).prints])
      failureCode d'' := by
  have hstart := does_paired d h
  rw [hfiles] at hstart
  exact (((hstart.trans hdone.does).trans hstops.does).trans (does_fail _ _)).ends

/-- The turns of the first files end well, and with them the run, or with the next one. -/
theorem exists_ends (h : a.Paired) : ∃ done rest images turns d', a.files = done ++ rest ∧
    Completes a d done images turns d' ∧
    (rest = [] ∧ (runArguments a).Ends d (a.starts ++ turns) 0 d' ∨
      ∃ file later stopped cause d'', rest = file :: later ∧
        Stops a d' file stopped cause d'' ∧
        (runArguments a).Ends d (a.starts ++ turns ++ stopped ++ [(Failure.file cause).prints])
          failureCode d'') := by
  obtain ⟨done, rest, images, turns, d', hfiles, hdone, hrest⟩ := exists_completes a d a.files
  refine ⟨done, rest, images, turns, d', hfiles, hdone, ?_⟩
  obtain rfl | ⟨file, later, stopped, cause, d'', rfl, hstops⟩ := hrest
  · obtain rfl : a.files = done := hfiles.trans (List.append_nil done)
    exact .inl ⟨rfl, hdone.ends h⟩
  · exact .inr ⟨file, later, stopped, cause, d'', rfl, hstops, hstops.ends h hfiles hdone⟩

/-- The code is zero exactly when no turn stops. -/
theorem code_eq_zero_iff : ((runArguments a).run d).code = 0 ↔
    a.Paired ∧ ∃ images turns d', Completes a d a.files images turns d' := by
  have hfailure : failureCode ≠ 0 := by decide
  constructor
  · intro hcode
    by_cases h : a.Paired
    · obtain ⟨done, rest, images, turns, d', hfiles, hdone, hrest⟩ := exists_ends d h
      obtain ⟨rfl, -⟩ | ⟨_, _, _, _, _, -, -, hends⟩ := hrest
      · obtain rfl : a.files = done := hfiles.trans (List.append_nil done)
        exact ⟨h, images, turns, d', hdone⟩
      · rw [hends.2] at hcode
        exact absurd hcode hfailure
    · rw [(ends_unpaired d h).2] at hcode
      exact absurd hcode hfailure
  · rintro ⟨h, images, turns, d', hdone⟩
    rw [(hdone.ends h).2]

end

end

/-- The names of the runs below are paths of one segment. -/
theorem segments_of_mem : ∀ name ∈ ["a", "b", "c"], Place.segments name = [name] := by
  simp only [List.forall_mem_cons]
  refine ⟨?_, ?_, ?_, List.forall_mem_nil _⟩ <;>
    rw [Place.segments, String.splitOn, if_neg (by decide), String.splitOnAux,
      if_neg (by decide), if_neg (by decide), String.splitOnAux, if_pos (by decide)] <;>
    decide

theorem ofHome_pair (first second : List UInt8) : Disk.ofHome [("a", first), ("b", second)] =
    { files := [(.home ["a"], first), (.home ["b"], second)] } := by
  simp [Disk.ofHome, Place.inHome, segments_of_mem]

/-- They lead to places in the working directory, whatever the files have in them. -/
theorem fileAt?_pair (first second : List UInt8) : ∀ name ∈ ["a", "b", "c"],
    (Disk.ofHome [("a", first), ("b", second)]).fileAt? name = some (.home [name]) := by
  intro name hname
  have hempty : (Disk.ofHome [("a", first), ("b", second)]).fileAt? =
      Disk.fileAt? { files := [(.home ["a"], []), (.home ["b"], [])] } := by
    rw [ofHome_pair]
    exact Disk.fileAt?_congr rfl rfl
  rw [hempty, Disk.fileAt?, segments_of_mem name hname]
  revert name
  decide +kernel

/-- A run decodes the inputs in order and ends with the first failure, on any files and whatever
stops the writes. If there are outputs and not as many as inputs, it fails before anything is read
or written. Otherwise the turns of the first files end well: each input is read and decoded, its
summary is printed and the samples of its image are written to its output. Then the run ends with
code 0, or the turn of the next file stops, and nothing else is read, printed or written but the
cause. The code is 0 exactly when the turns of all files end well. Behind any turns that end well an
output reads the samples of its image unless a later one leads to the same place, and paths to which
no output leads read as before. The turn that stops then changes at most the file of its own output,
which may have the first of the samples of its image. -/
theorem runArguments_exact [Libraries] (a : Arguments) (d : Disk) :
    (¬ a.Paired → (runArguments a).Ends d [a.prints (Remark.setup a),
      (Failure.outputCount a.inputs.length a.outputs.length).prints] failureCode d) ∧
    (a.Paired → ∃ done rest images turns d', a.files = done ++ rest ∧
      Completes a d done images turns d' ∧
      (rest = [] ∧ (runArguments a).Ends d (a.starts ++ turns) 0 d' ∨
        ∃ file later stopped cause d'', rest = file :: later ∧
          Stops a d' file stopped cause d'' ∧
          (runArguments a).Ends d (a.starts ++ turns ++ stopped ++ [(Failure.file cause).prints])
            failureCode d'')) ∧
    (((runArguments a).run d).code = 0 ↔
      a.Paired ∧ ∃ images turns d', Completes a d a.files images turns d') ∧
    (∀ files images turns d', Completes a d files images turns d' → Leaves a d files images d') ∧
    ∀ d' file stopped cause d'', Stops a d' file stopped cause d'' →
      LeavesUnfinished a d' file d'' :=
  ⟨ends_unpaired d, exists_ends d, code_eq_zero_iff d, fun _ _ _ _ hdone => hdone.leaves,
    fun _ _ _ _ _ hstops => hstops.leavesUnfinished⟩

/-- Two inputs of one pixel each, the second of which is the output of the first: it is read with
the sample that has been written to it, which is no image, and its own output is not made. When the
first write breaks off at once, the second input is left empty. -/
theorem runArguments_exact_overwritten_input :
    let chunk (tag : ChunkTag) (data : List UInt8) : Chunk := { tag, data }
    let pixel : List UInt8 := signature ++
      [chunk (.ofChars 'I' 'H' 'D' 'R') [0, 0, 0, 1, 0, 0, 0, 1, 8, 0, 0, 0, 0],
        chunk (.ofChars 'I' 'D' 'A' 'T') [0x78, 1, 1, 2, 0, 0xFD, 0xFF, 0, 7, 0, 9, 0, 8],
        chunk (.ofChars 'I' 'E' 'N' 'D') []].flatMap Chunk.toBytes
    let a : Arguments := { inputs := ["a", "b"], outputs := ["b", "c"] }
    let d : Disk := .ofHome [("a", pixel), ("b", pixel)]
    let broken : Disk := { d with interruptions := [some (.broken 0 .noSpace)] }
    (((runArguments a).run d).code ≠ 0 ∧ ∃ image turns d',
      Completes a d [("a", some "b")] [image] turns d' ∧
        d'.read "b" = .ok [7] ∧ d'.read "c" = .error .notFound) ∧
    ((runArguments a).run broken).code ≠ 0 ∧
      ((runArguments a).run broken).disk.homeFiles = [("a", pixel), ("b", [])] := by
  intro chunk pixel a d broken
  have hd : d = { files := [(.home ["a"], pixel), (.home ["b"], pixel)] } := ofHome_pair pixel pixel
  have hplace : ∀ name ∈ ["a", "b", "c"], d.fileAt? name = some (.home [name]) :=
    fileAt?_pair pixel pixel
  -- What the first turn reads and writes, and what is read behind it.
  have hfirst : d.read "a" = .ok pixel := by
    rw [Disk.read_of_fileAt? (hplace "a" (by decide)), hd]
    rfl
  have hnotFull (p : Place) (hp : p ∈ [.home ["b"], .home ["c"]]) : d.device? p ≠ some .full := by
    rw [hd]
    revert p
    decide
  have hwrite : Disk.write "b" [7] d = .ok () (d.advanced.put (.home ["b"]) [7]) := by
    rw [Disk.write_of_fileAt? (hplace "b" (by decide)) (hnotFull _ (by decide)), hd]
    rfl
  obtain ⟨hplace', -⟩ := Disk.paths_put (hplace "b" (by decide)) [7]
  have hsecond : (d.advanced.put (.home ["b"]) [7]).read "b" = .ok [7] := by
    rw [Disk.read_of_fileAt? ((congrFun hplace' "b").trans (hplace "b" (by decide))), hd]
    rfl
  have hmissing : (d.advanced.put (.home ["b"]) [7]).read "c" = .error .notFound := by
    rw [Disk.read_of_fileAt? ((congrFun hplace' "c").trans (hplace "c" (by decide))), hd]
    rfl
  -- The input is an image of one sample, and what has been written to the second is none.
  have hseen : (decode { rest := pixel } a.options).toOption.map (·.raster.toBytes) =
      some [7] := by
    clear hd
    subst broken d a pixel chunk
    decide +kernel
  have hbroken : (decode { rest := [7] } a.options).toOption.isSome = false := by
    subst broken d a
    decide +kernel
  obtain ⟨image, himage, hbytes⟩ := Option.map_eq_some_iff.1 hseen
  have hdecode : decode { rest := pixel } a.options = .ok image := by
    cases h : decode { rest := pixel } a.options <;> rw [h] at himage <;> cases himage
    rfl
  have hwrite' : Disk.write "b" image.raster.toBytes d =
      .ok () (d.advanced.put (.home ["b"]) [7]) := hbytes ▸ hwrite
  refine ⟨⟨fun hcode => ?_, image, _, _, .cons (.written hfirst hdecode hwrite') .nil, hsecond,
    hmissing⟩, ?_⟩
  · -- By the theorem a run that ends well would have decoded the second input.
    obtain ⟨-, images, turns, d', hall⟩ := (runArguments_exact a d).2.2.1.1 hcode
    have hfiles : a.files = [("a", some "b"), ("b", some "c")] := rfl
    rw [hfiles] at hall
    obtain _ | ⟨hturn, hrest⟩ := hall
    cases hturn with
    | written hread hdecode₁ hwrite₁ =>
      cases hfirst.symm.trans hread
      cases hdecode.symm.trans hdecode₁
      cases hwrite'.symm.trans hwrite₁
      obtain _ | ⟨hturn, -⟩ := hrest
      cases hturn with
      | written hread₂ hdecode₂ =>
        cases hsecond.symm.trans hread₂
        rw [hdecode₂] at hbroken
        cases hbroken
  · -- The first turn stops behind the opening of its output.
    have hplaces : broken.fileAt? = d.fileAt? := Disk.fileAt?_congr rfl rfl
    have hread : broken.read "a" = .ok pixel := by
      have hlookup : d.lookup (.home ["a"]) = some pixel := by
        rw [hd]
        rfl
      rw [Disk.read_of_fileAt? ((congrFun hplaces "a").trans (hplace "a" (by decide))),
        show broken.lookup (.home ["a"]) = some pixel from hlookup]
    have hstops : Stops a broken ("a", some "b") _ _ (broken.advanced.put (.home ["b"]) []) :=
      .unwritten hread hdecode (Disk.write_of_fileAt?
        ((congrFun hplaces "b").trans (hplace "b" (by decide))) (hnotFull _ (by decide)))
    have hfailure : failureCode ≠ 0 := by decide
    have hends := hstops.ends (.inr rfl) rfl .nil
    rw [hends.2]
    refine ⟨hfailure, ?_⟩
    show (Disk.put { d with interruptions := [] } _ _).homeFiles = _
    rw [hd]
    rfl

end Png.CommandLine
