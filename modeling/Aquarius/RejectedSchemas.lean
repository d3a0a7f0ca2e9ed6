import Aquarius.CommandInterface
import Aquarius.SchemaBlanks
import Mathlib.Logic.Function.Basic

/-!
# Rejected Schemas

What the loop of `command_interface::run` does with a file whose schema throws. `schema::run`
catches the exception and returns an empty list, as for a file without declarations, and keeps what
it has pushed into `fields_` before. The loop writes a header and a source for whatever list it gets,
and opening them for writing empties what was generated before.

The header and the source are opened one after the other, and each may fail on its own. What is on
the disk next to a target is followed over a whole run (`runDisk`), together with what the run
writes (`runFile`).

## Main results

* `runDisk_rejected`: what a run leaves next to a file that is rejected.
* `outputs_eq_iff`: when declarations that a parser has kept show in the output of later files.
* `leavesNoTrace_iff`: **a rejected schema leaves no trace** exactly when its outputs would not be
  written, or be written as they are, and it has no declarations in front of the error or no later
  file to show them.
-/

open Decoding

namespace Aquarius.Lazytool

/-! ### Outputs on the disk -/

/-- The contents of the header and of the source next to a target, `none` where there is no file. -/
structure Outputs where
  header : Option Bytes
  source : Option Bytes
  deriving DecidableEq, Repr

/-- The file system of a run. -/
def Writable.fileSystem (writable : Writable) (read : Path → Option Bytes) : FileSystem where
  read := read
  writable := writable

/-- A `std::fstream` that is opened with `std::ios::out`: a file that can be opened is emptied. -/
def openOut (opens : Bool) (old : Option Bytes) : Option Bytes := if opens then some [] else old

/-- The header and the source after a turn: both are opened before either is looked at. -/
def Writable.outputs (writable : Writable) (target : Path) (old : Outputs) :
    Option GeneratedFiles → Outputs
  | some files => { header := some files.header, source := some files.source }
  | none =>
      { header := openOut (writable.header target) old.header
        source := openOut (writable.source target) old.source }

section Runs

variable (cmd : Command) (writable : Writable) (read : Path → Option Bytes)

/-- The disk after a turn of the loop of `run`. -/
def turnDisk (state : RunState) (file : VirgoFile) (disk : Path → Outputs) : Path → Outputs :=
  let target := state.path.append file.path
  if state.ended = false ∧ extension target.filename = textBytes ".virgo" ∧ cmd.cppOut = true then
    Function.update disk (targetPath target)
      (writable.outputs (targetPath target) (disk (targetPath target))
        (runFile cmd (writable.fileSystem read) state file).2)
  else disk

/-- The disk after the turns for some files. -/
def runDisk : RunState → List VirgoFile → (Path → Outputs) → Path → Outputs
  | _, [], disk => disk
  | state, file :: files, disk =>
      runDisk (runFile cmd (writable.fileSystem read) state file).1 files
        (turnDisk cmd writable read state file disk)

/-- What the turns for some files write. -/
def outputs (fs : FileSystem) : RunState → List VirgoFile → List (Option GeneratedFiles)
  | _, [] => []
  | state, file :: files =>
      (runFile cmd fs state file).2 :: outputs fs (runFile cmd fs state file).1 files

end Runs

/-! ### A rejected text -/

/-- The declarations in front of the error, or all of them. -/
def declared (text : Bytes) : List SchemaField := (declarations (.good text)).1

/-- What a parser keeps of a file, whether it is rejected or not. -/
theorem fields_run (schema : Schema) (text : Bytes) :
    (schema.run (some text)).2.fields = schema.fields ++ declared text := by
  rw [Schema.run, runLoop_eq_declarations, declared]

/-- What a parser returns for a file that it rejects. -/
theorem run_rejected (schema : Schema) {text : Bytes} (h : ¬ Accepts text) :
    (schema.run (some text)).1 = [] := by
  rw [run_fst]
  exact if_pos (Bool.eq_true_of_not_eq_false h)

/-- What a parser returns for a file that it reads to its end. -/
theorem run_accepted (schema : Schema) {text : Bytes} (h : Accepts text) :
    (schema.run (some text)).1 = schema.fields ++ declared text := by
  rw [run_fst]
  exact if_neg (Bool.not_eq_true _ ▸ h)

/-! ### What later files show -/

section Later

variable (cmd : Command) (fs : FileSystem)

/-- A file is reached, read to its end, and its outputs are written. -/
def Shows (state : RunState) (file : VirgoFile) : Prop :=
  (state.ended = false ∧ cmd.cppOut = true ∧
    fs.opens (state.path.append file.path) = true) ∧
  ∃ text, fs.read (state.path.append file.path) = some text ∧ Accepts text

/-- One of some files is. -/
def ShownLater : RunState → List VirgoFile → Prop
  | _, [] => False
  | state, file :: files =>
      Shows cmd fs state file ∨ ShownLater (runFile cmd fs state file).1 files

/-- A turn for a run that has ended. -/
theorem runFile_ended {state : RunState} (h : state.ended = true) (file : VirgoFile) :
    (runFile cmd fs state file).1 = state := by
  rw [runFile, if_pos h]

/-- Two runs that differ in what their parsers have kept: the first has some declarations that the
second has not, between those of the files before and those of the files since. -/
structure Differs (hidden : List SchemaField) (state state' : RunState) : Prop where
  path : state.path = state'.path
  ended : state.ended = state'.ended
  fields : ∃ before since, state.schema.fields = before ++ (hidden ++ since) ∧
    state'.schema.fields = before ++ since

variable {cmd fs}

/-- A turn keeps the difference. -/
theorem Differs.runFile {hidden : List SchemaField} {state state' : RunState}
    (h : Differs hidden state state') (file : VirgoFile) :
    Differs hidden (runFile cmd fs state file).1 (runFile cmd fs state' file).1 := by
  cases hended : state.ended with
  | true =>
      rw [runFile_ended cmd fs hended, runFile_ended cmd fs (h.ended ▸ hended)]
      exact h
  | false =>
      obtain ⟨before, since, hfields, hfields'⟩ := h.fields
      rw [runFile_state cmd fs hended, runFile_state cmd fs (h.ended ▸ hended), h.path]
      refine ⟨rfl, rfl, ?_⟩
      cases fs.read (state'.path.append file.path) with
      | none => exact ⟨before, since, hfields, hfields'⟩
      | some text =>
          refine ⟨before, since ++ declared text, ?_, ?_⟩
          · rw [fields_run, hfields, List.append_assoc, List.append_assoc]
          · rw [fields_run, hfields', List.append_assoc]

/-- The difference shows in what a turn writes exactly when there is one, and the file shows its
declarations. -/
theorem Differs.written_eq_iff {hidden : List SchemaField} {state state' : RunState}
    (h : Differs hidden state state') (file : VirgoFile) :
    (Lazytool.runFile cmd fs state file).2 = (Lazytool.runFile cmd fs state' file).2 ↔
      hidden = [] ∨ ¬ Shows cmd fs state' file := by
  rw [runFile_written, runFile_written, h.path, h.ended]
  by_cases hwritten : state'.ended = false ∧ cmd.cppOut = true ∧
      fs.opens (state'.path.append file.path) = true
  · rw [if_pos hwritten, if_pos hwritten, Option.some.injEq]
    obtain ⟨before, since, hfields, hfields'⟩ := h.fields
    cases hread : fs.read (state'.path.append file.path) with
    | none =>
        refine iff_of_true rfl (.inr ?_)
        rintro ⟨-, text, htext, -⟩
        rw [hread] at htext
        cases htext
    | some text =>
        by_cases haccepts : Accepts text
        · rw [run_accepted _ haccepts, run_accepted _ haccepts, hfields, hfields',
            List.append_assoc, List.append_assoc, List.append_assoc, generated_insert_eq_iff]
          exact (or_iff_left (not_not_intro ⟨hwritten, text, hread, haccepts⟩)).symm
        · rw [run_rejected _ haccepts, run_rejected _ haccepts]
          refine iff_of_true rfl (.inr ?_)
          rintro ⟨-, text', htext, haccepts'⟩
          rw [hread] at htext
          obtain rfl := Option.some.inj htext
          exact haccepts haccepts'
  · rw [if_neg hwritten, if_neg hwritten]
    exact iff_of_true rfl (.inr fun hshows => hwritten hshows.1)

/-- **When kept declarations show**: exactly when there are some, and one of the files shows what
it declares. Induction on the files, both runs going on with the same difference. -/
theorem outputs_eq_iff {hidden : List SchemaField} {state state' : RunState}
    (h : Differs hidden state state') (files : List VirgoFile) :
    outputs cmd fs state files = outputs cmd fs state' files ↔
      hidden = [] ∨ ¬ ShownLater cmd fs state' files := by
  induction files generalizing state state' with
  | nil => exact iff_of_true rfl (.inr not_false)
  | cons file files ih =>
      rw [outputs, outputs, List.cons.injEq, h.written_eq_iff, ih (h.runFile file), ShownLater,
        not_or, or_and_left]

end Later

/-! ### What a rejected file leaves -/

section Rejected

variable (cmd : Command) (writable : Writable) (read : Path → Option Bytes)

/-- What a turn for a rejected file leaves next to it: the outputs of a schema without
declarations, if both can be opened. -/
def overwritten (target : Path) (old : Outputs) : Outputs :=
  writable.outputs target old
    (if writable.header target = true ∧ writable.source target = true then
      some (generated cmd target []) else none)

/-- A second such turn changes nothing more. -/
theorem overwritten_overwritten (target : Path) (old : Outputs) :
    overwritten cmd writable target (overwritten cmd writable target old) =
      overwritten cmd writable target old := by
  rw [overwritten, overwritten]
  split
  · rfl
  · simp only [Writable.outputs, openOut]
    cases writable.header target <;> cases writable.source target <;> rfl

variable {read} {target : Path} {text : Bytes}

/-- One turn, at the target of a file that is rejected. -/
theorem turnDisk_rejected (hread : read target = some text) (hrejected : ¬ Accepts text)
    (state : RunState) (file : VirgoFile) (disk : Path → Outputs) :
    turnDisk cmd writable read state file disk target =
      if (state.ended = false ∧ cmd.cppOut = true) ∧ state.path.append file.path = target then
        overwritten cmd writable target (disk target)
      else disk target := by
  simp only [turnDisk, targetPath_append, extension_append, true_and, runFile_written]
  by_cases hopen : state.ended = false ∧ cmd.cppOut = true
  · rw [if_pos hopen, Function.update_apply]
    by_cases htarget : state.path.append file.path = target
    · have hturn : (state.ended = false ∧ cmd.cppOut = true) ∧
          state.path.append file.path = target := ⟨hopen, htarget⟩
      have hlist : (state.schema.run ((writable.fileSystem read).read target)).1 = [] :=
        (congrArg (fun file => (state.schema.run file).1) hread).trans (run_rejected _ hrejected)
      rw [if_pos htarget.symm, if_pos hturn, htarget, hlist, overwritten]
      refine congrArg _ (if_congr ?_ rfl rfl)
      simp only [Writable.fileSystem, FileSystem.opens, hopen, true_and, Bool.and_eq_true]
    · rw [if_neg (Ne.symm htarget), if_neg fun h => htarget h.2]
  · rw [if_neg hopen, if_neg fun h => hopen h.1]

/-- Some turns either leave what is next to the target, or overwrite it. -/
theorem runDisk_rejected (hread : read target = some text) (hrejected : ¬ Accepts text)
    (files : List VirgoFile) (state : RunState) (disk : Path → Outputs) :
    runDisk cmd writable read state files disk target = disk target ∨
      runDisk cmd writable read state files disk target =
        overwritten cmd writable target (disk target) := by
  induction files generalizing state disk with
  | nil => exact .inl rfl
  | cons file files ih =>
      have hturn := turnDisk_rejected cmd writable hread hrejected state file disk
      rw [runDisk]
      have hrest := ih (runFile cmd (writable.fileSystem read) state file).1
        (turnDisk cmd writable read state file disk)
      split at hturn
      · rw [hturn, overwritten_overwritten, or_self] at hrest
        exact .inr hrest
      · rw [hturn] at hrest
        exact hrest

/-- The disk after the turns for two lists of files. -/
theorem runDisk_append (before after : List VirgoFile) (state : RunState) (disk : Path → Outputs) :
    runDisk cmd writable read state (before ++ after) disk =
      runDisk cmd writable read
        (before.foldl (fun s file => (runFile cmd (writable.fileSystem read) s file).1) state) after
        (runDisk cmd writable read state before disk) := by
  induction before generalizing state disk with
  | nil => rfl
  | cons file before ih =>
      rw [List.cons_append, runDisk, ih]
      rfl

/-- Without a generator no file is opened. -/
theorem runDisk_noGenerator (hcpp : cmd.cppOut = false) (files : List VirgoFile) (state : RunState)
    (disk : Path → Outputs) : runDisk cmd writable read state files disk = disk := by
  induction files generalizing state disk with
  | nil => rfl
  | cons file files ih =>
      rw [runDisk, ih, turnDisk, if_neg]
      rintro ⟨-, -, hcpp'⟩
      rw [hcpp] at hcpp'
      cases hcpp'

/-- **What a whole run leaves** next to a rejected file that it reaches, whatever other files it is
given. -/
theorem runDisk_reached (hcpp : cmd.cppOut = true) (hread : read target = some text)
    (hrejected : ¬ Accepts text) (before after : List VirgoFile) {file : VirgoFile}
    (hreached : (runFiles cmd (writable.fileSystem read) before).ended = false)
    (htarget : (runFiles cmd (writable.fileSystem read) before).path.append file.path = target)
    (disk : Path → Outputs) :
    runDisk cmd writable read { path := cmd.inputDir } (before ++ file :: after) disk target =
      overwritten cmd writable target (disk target) := by
  have hturn := turnDisk_rejected cmd writable hread hrejected
    (runFiles cmd (writable.fileSystem read) before) file
    (runDisk cmd writable read { path := cmd.inputDir } before disk)
  rw [if_pos ⟨⟨hreached, hcpp⟩, htarget⟩] at hturn
  have hbefore := runDisk_rejected cmd writable hread hrejected before
    { path := cmd.inputDir } disk
  have hover : overwritten cmd writable target
      (runDisk cmd writable read { path := cmd.inputDir } before disk target) =
        overwritten cmd writable target (disk target) := by
    rcases hbefore with h | h
    · rw [h]
    · rw [h, overwritten_overwritten]
  rw [runDisk_append, runDisk]
  have hafter := runDisk_rejected cmd writable hread hrejected after
    (runFile cmd (writable.fileSystem read) (runFiles cmd (writable.fileSystem read) before) file).1
    (turnDisk cmd writable read (runFiles cmd (writable.fileSystem read) before) file
      (runDisk cmd writable read { path := cmd.inputDir } before disk))
  rw [hturn, hover, overwritten_overwritten, or_self] at hafter
  exact hafter

/-! ### No trace -/

/-- What would be written next to the target is what stands there: the outputs of a schema without
declarations if both can be opened, and otherwise an empty file where one can. -/
def AlreadyWritten (target : Path) (old : Outputs) : Prop :=
  if writable.header target = true ∧ writable.source target = true then
    old.header = some (generated cmd target []).header ∧
      old.source = some (generated cmd target []).source
  else
    (writable.header target = true → old.header = some []) ∧
      (writable.source target = true → old.source = some [])

/-- That is when nothing is changed. -/
theorem overwritten_eq_iff (target : Path) (old : Outputs) :
    overwritten cmd writable target old = old ↔ AlreadyWritten cmd writable target old := by
  obtain ⟨header, source⟩ := old
  rw [overwritten, AlreadyWritten]
  split
  · simp only [Writable.outputs, Outputs.mk.injEq]
    exact and_congr eq_comm eq_comm
  · simp only [Writable.outputs, Outputs.mk.injEq, openOut]
    refine and_congr ?_ ?_
    · cases writable.header target with
      | true => exact ⟨fun h _ => h.symm, fun h => (h rfl).symm⟩
      | false => exact iff_of_true rfl fun h => absurd h Bool.false_ne_true
    · cases writable.source target with
      | true => exact ⟨fun h _ => h.symm, fun h => (h rfl).symm⟩
      | false => exact iff_of_true rfl fun h => absurd h Bool.false_ne_true

/-- The path that the run comes to with a file behind others. -/
def targetBehind (fs : FileSystem) (before : List VirgoFile) (file : VirgoFile) : Path :=
  (runFiles cmd fs before).path.append file.path

/-- What the run carries on from there. -/
def stateBehind (fs : FileSystem) (before : List VirgoFile) (file : VirgoFile) : RunState :=
  (runFile cmd fs (runFiles cmd fs before) file).1

/-- What it would carry on if the parser had kept nothing of the file. -/
def forgotten (fs : FileSystem) (before : List VirgoFile) (file : VirgoFile) : RunState :=
  { stateBehind cmd fs before file with schema := (runFiles cmd fs before).schema }

/-- A file leaves no trace, between some files and others: the run leaves what stands next to it,
and writes for the files behind it what it would write if the parser had kept nothing of it. -/
structure LeavesNoTrace (read : Path → Option Bytes) (disk : Path → Outputs)
    (before : List VirgoFile) (file : VirgoFile) (after : List VirgoFile) : Prop where
  untouched :
    runDisk cmd writable read { path := cmd.inputDir } (before ++ file :: after) disk
        (targetBehind cmd (writable.fileSystem read) before file) =
      disk (targetBehind cmd (writable.fileSystem read) before file)
  unseen :
    outputs cmd (writable.fileSystem read) (stateBehind cmd (writable.fileSystem read) before file)
        after =
      outputs cmd (writable.fileSystem read) (forgotten cmd (writable.fileSystem read) before file)
        after

/-- What the parser has kept of a file is the difference to a run that has forgotten it. -/
theorem differs_forgotten {fs : FileSystem} {before : List VirgoFile} {file : VirgoFile}
    (hreached : (runFiles cmd fs before).ended = false)
    (hread : fs.read (targetBehind cmd fs before file) = some text) :
    Differs (declared text) (stateBehind cmd fs before file) (forgotten cmd fs before file) := by
  refine ⟨rfl, rfl, (runFiles cmd fs before).schema.fields, [], ?_, (List.append_nil _).symm⟩
  rw [targetBehind] at hread
  rw [stateBehind, runFile_state cmd fs hreached, hread, fields_run, List.append_nil]

/-- **When a rejected schema leaves no trace.** For every file that the run reaches and whose text
is rejected: exactly when no generator is selected or what would be written next to it stands there
already, and no declaration comes before the error or no file behind it shows what it declares. -/
theorem leavesNoTrace_iff (disk : Path → Outputs) (before : List VirgoFile) (file : VirgoFile)
    (after : List VirgoFile)
    (hreached : (runFiles cmd (writable.fileSystem read) before).ended = false)
    (hread : read (targetBehind cmd (writable.fileSystem read) before file) = some text)
    (hrejected : ¬ Accepts text) :
    LeavesNoTrace cmd writable read disk before file after ↔
      (cmd.cppOut = false ∨
        AlreadyWritten cmd writable (targetBehind cmd (writable.fileSystem read) before file)
          (disk (targetBehind cmd (writable.fileSystem read) before file))) ∧
      (declared text = [] ∨
        ¬ ShownLater cmd (writable.fileSystem read)
          (forgotten cmd (writable.fileSystem read) before file) after) := by
  have huntouched :
      runDisk cmd writable read { path := cmd.inputDir } (before ++ file :: after) disk
          (targetBehind cmd (writable.fileSystem read) before file) =
        disk (targetBehind cmd (writable.fileSystem read) before file) ↔
      cmd.cppOut = false ∨
        AlreadyWritten cmd writable (targetBehind cmd (writable.fileSystem read) before file)
          (disk (targetBehind cmd (writable.fileSystem read) before file)) := by
    cases hcpp : cmd.cppOut with
    | false =>
        rw [runDisk_noGenerator cmd writable hcpp]
        exact iff_of_true rfl (.inl rfl)
    | true =>
        rw [runDisk_reached cmd writable hcpp hread hrejected before after hreached rfl,
          overwritten_eq_iff]
        exact (or_iff_right Bool.true_eq_false_eq_False).symm
  have hdiffers := differs_forgotten cmd hreached hread
  constructor
  · rintro ⟨hdisk, hout⟩
    exact ⟨huntouched.mp hdisk, (outputs_eq_iff hdiffers after).mp hout⟩
  · rintro ⟨hdisk, hout⟩
    exact ⟨huntouched.mpr hdisk, (outputs_eq_iff hdiffers after).mpr hout⟩

end Rejected

/-! ### Files with errors -/

/-- `/a.virgo` has an unknown keyword and nothing else. -/
def errorOnly (p : Path) : Option Bytes :=
  if p = fileA.path then some (textBytes "bad ") else none

/-- The outputs of a schema without declarations. -/
def emptyOutputs (p : Path) : Outputs where
  header := some (generated tcpCommand p []).header
  source := some (generated tcpCommand p []).source

/-- `/a.virgo` declares `enum a` and goes on with an unknown keyword, and `/b.virgo` declares
`enum b`. -/
def errorBehindEnum (p : Path) : Option Bytes :=
  if p = fileA.path then some (textBytes "enum a{x;} bad ")
  else if p = fileB.path then some (textBytes "enum b{y;}")
  else none

/-- The file with the unknown keyword alone leaves no trace on outputs without declarations. -/
theorem leavesNoTrace_errorOnly :
    LeavesNoTrace tcpCommand allWritable errorOnly emptyOutputs [] fileA [fileB] := by
  have hverdict : ¬ Accepts (textBytes "bad ") ∧ declared (textBytes "bad ") = [] := by
    rw [Accepts, declared, declarations_eq_verdict]
    decide +kernel
  have hread : errorOnly fileA.path = some (textBytes "bad ") := if_pos rfl
  refine (leavesNoTrace_iff tcpCommand allWritable emptyOutputs [] fileA [fileB] rfl hread
    hverdict.1).mpr ⟨.inr ?_, .inl hverdict.2⟩
  rw [AlreadyWritten, if_pos ⟨rfl, rfl⟩]
  exact ⟨rfl, rfl⟩

/-- The outputs of an earlier run. -/
def earlierOutputs (_ : Path) : Outputs where
  header := some (textBytes "// earlier")
  source := some (textBytes "// earlier")

/-- The text of the first file is rejected, and one declaration comes before the error. -/
theorem errorBehindEnum_rejected :
    ¬ Accepts (textBytes "enum a{x;} bad ") ∧
      (declared (textBytes "enum a{x;} bad ")).length = 1 := by
  rw [Accepts, declared, declarations_eq_verdict]
  decide +kernel

/-- Behind the first file the run goes on, without what the parser kept of it or with it. -/
theorem forgotten_errorBehindEnum :
    forgotten tcpCommand (allWritable.fileSystem errorBehindEnum) [] fileA =
      { path := fileA.path } := by
  have hstart : ({ path := tcpCommand.inputDir } : RunState).ended = false := rfl
  have hstate := runFile_state tcpCommand (allWritable.fileSystem errorBehindEnum) hstart fileA
  rw [forgotten, stateBehind]
  change ({ (runFile tcpCommand (allWritable.fileSystem errorBehindEnum)
    { path := tcpCommand.inputDir } fileA).1 with schema := {} } : RunState) = _
  rw [hstate]
  rfl

/-- The second file is read to its end and its outputs are written. -/
theorem shownLater_errorBehindEnum :
    ShownLater tcpCommand (allWritable.fileSystem errorBehindEnum) { path := fileA.path } [fileB] := by
  refine .inl ⟨⟨rfl, rfl, rfl⟩, textBytes "enum b{y;}", by decide +kernel, ?_⟩
  rw [Accepts, declarations_eq_verdict]
  decide +kernel

/-- The earlier outputs of the first file are overwritten. -/
theorem runDisk_errorBehindEnum :
    runDisk tcpCommand allWritable errorBehindEnum { path := tcpCommand.inputDir }
      [fileA, fileB] earlierOutputs fileA.path ≠ earlierOutputs fileA.path := by
  have hread : errorBehindEnum fileA.path = some (textBytes "enum a\x7bx;\x7d bad ") := if_pos rfl
  have hrun : runDisk tcpCommand allWritable errorBehindEnum { path := tcpCommand.inputDir }
      [fileA, fileB] earlierOutputs fileA.path =
        overwritten tcpCommand allWritable fileA.path (earlierOutputs fileA.path) :=
    runDisk_reached tcpCommand allWritable rfl hread errorBehindEnum_rejected.1 [] [fileB] rfl rfl
      earlierOutputs
  intro hsame
  have hwritten := (overwritten_eq_iff tcpCommand allWritable fileA.path _).mp
    (hrun.symm.trans hsame)
  exact absurd (hwritten : _ ∧ _).1 (by decide +kernel)

/-- What is written for the second file depends on the declaration in front of the error. -/
theorem outputs_errorBehindEnum :
    outputs tcpCommand (allWritable.fileSystem errorBehindEnum)
        (stateBehind tcpCommand (allWritable.fileSystem errorBehindEnum) [] fileA) [fileB] ≠
      outputs tcpCommand (allWritable.fileSystem errorBehindEnum)
        (forgotten tcpCommand (allWritable.fileSystem errorBehindEnum) [] fileA) [fileB] := by
  have hread : errorBehindEnum fileA.path = some (textBytes "enum a\x7bx;\x7d bad ") := if_pos rfl
  have hreached :
      (runFiles tcpCommand (allWritable.fileSystem errorBehindEnum) []).ended = false := rfl
  have hdiffers : Differs (declared (textBytes "enum a\x7bx;\x7d bad "))
      (stateBehind tcpCommand (allWritable.fileSystem errorBehindEnum) [] fileA)
      (forgotten tcpCommand (allWritable.fileSystem errorBehindEnum) [] fileA) :=
    differs_forgotten tcpCommand hreached hread
  intro hsame
  rcases (outputs_eq_iff hdiffers [fileB]).mp hsame with hnone | hnot
  · have hdeclared := errorBehindEnum_rejected.2
    rw [hnone] at hdeclared
    cases hdeclared
  · rw [forgotten_errorBehindEnum] at hnot
    exact hnot shownLater_errorBehindEnum

/-- **A trace of a rejected file**: its earlier outputs are gone, and what is written for the file
behind it depends on the declaration in front of the error. -/
theorem not_leavesNoTrace_errorBehindEnum :
    runDisk tcpCommand allWritable errorBehindEnum { path := tcpCommand.inputDir }
        [fileA, fileB] earlierOutputs fileA.path ≠ earlierOutputs fileA.path ∧
      outputs tcpCommand (allWritable.fileSystem errorBehindEnum)
          (stateBehind tcpCommand (allWritable.fileSystem errorBehindEnum) [] fileA) [fileB] ≠
        outputs tcpCommand (allWritable.fileSystem errorBehindEnum)
          (forgotten tcpCommand (allWritable.fileSystem errorBehindEnum) [] fileA) [fileB] ∧
      ¬ LeavesNoTrace tcpCommand allWritable errorBehindEnum earlierOutputs [] fileA [fileB] :=
  ⟨runDisk_errorBehindEnum, outputs_errorBehindEnum,
    fun h => runDisk_errorBehindEnum h.untouched⟩

end Aquarius.Lazytool
