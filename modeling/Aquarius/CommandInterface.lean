import Aquarius.CppGenerator

/-!
# Generating Several Files

`command_interface::run` (`lazytool/command_interface.cpp`) behind `parse_command`: for each
input file in turn the schema is parsed, and a header and a source are written next to it. One
`path` and one `schema` serve all files. `path.append(file)` changes `path`, so a relative file
is looked up below the file before it, and `schema` keeps the declarations of earlier files.

A path is its sequence of elements, as `std::filesystem::path` compares them; the element of a
trailing slash, which makes no difference to `append`, is left out. The file system is a
parameter: which texts can be read, and next to which files a header and a source can be
opened. Outputs end in `.virgo.h` and `.virgo.cpp`, inputs in `.virgo`, so no input is written
on the way.

## Main results

* `writtenFor_eq_iff`: **when a file is generated as if it were alone**, exactly.
* `not_writtenFor_second`: the output of the second of two files has the declarations of both.
-/

open Decoding

namespace Aquarius.Lazytool

/-! ### Paths -/

/-- A `std::filesystem::path`, as its elements. -/
structure Path where
  absolute : Bool
  parts : List Bytes
  deriving DecidableEq, Repr

/-- `path::append`: an absolute path replaces the one it is appended to. -/
def Path.append (p q : Path) : Path :=
  if q.absolute then q else { p with parts := p.parts ++ q.parts }

/-- `path::filename` -/
def Path.filename (p : Path) : Bytes := p.parts.getLastD []

/-- `path::parent_path` -/
def Path.parentPath (p : Path) : Path := { p with parts := p.parts.dropLast }

/-- `path::extension` of a file name: from the last dot on, unless there is nothing in front
of it. -/
def extension (name : Bytes) : Bytes :=
  let tail := (name.reverse.takeWhile (· ≠ 46)).reverse
  if name = [46, 46] ∨ name.length ≤ tail.length + 1 then [] else 46 :: tail

/-- An input file that has passed `check_suffix`. -/
structure VirgoFile where
  path : Path
  suffix : extension path.filename = textBytes ".virgo"

/-- A file has a name. -/
theorem VirgoFile.parts_ne_nil (file : VirgoFile) : file.path.parts ≠ [] := by
  intro h
  have hsuffix := file.suffix
  rw [Path.filename, h] at hsuffix
  exact absurd hsuffix (by decide)

/-- The name of a file stays when it is appended to a path, so its extension does. -/
theorem filename_append (p : Path) (file : VirgoFile) :
    (p.append file.path).filename = file.path.filename := by
  rw [Path.append]
  split
  · rfl
  · rw [Path.filename, Path.filename, List.getLastD_eq_getLast?, List.getLastD_eq_getLast?,
      List.getLast?_append_of_ne_nil _ file.parts_ne_nil]

/-- Wherever the loop looks for a file, the schema for its extension is found. -/
theorem extension_append (p : Path) (file : VirgoFile) :
    extension (p.append file.path).filename = textBytes ".virgo" := by
  rw [filename_append]
  exact file.suffix

/-! ### One file -/

/-- What `parse_command` has found: the directory of the input files, or the current one, the
protocol, and whether `--cpp_out` selects the generator. -/
structure Command where
  inputDir : Path
  protocol : Bytes
  cppOut : Bool

/-- Next to which paths a header can be opened for writing, and next to which a source can. -/
structure Writable where
  header : Path → Bool
  source : Path → Bool

/-- The file system. -/
structure FileSystem where
  read : Path → Option Bytes
  writable : Writable

/-- The header and the source are both open. -/
def FileSystem.opens (fs : FileSystem) (p : Path) : Bool :=
  fs.writable.header p && fs.writable.source p

/-- A header and a source, and the path they stand next to. -/
structure GeneratedFiles where
  path : Path
  header : Bytes
  source : Bytes
  deriving DecidableEq, Repr

/-- The lines in front of the generated header. -/
def headerPreamble (protocol : Bytes) : Bytes :=
  textBytes "#pragma once\n" ++
    textBytes "#include <aquarius/serialize/serialization.hpp>\n" ++
    textBytes "#include <aquarius/virgo/" ++ protocol ++ textBytes "_request.hpp>\n" ++
    textBytes "#include <aquarius/virgo/" ++ protocol ++ textBytes "_response.hpp>\n" ++
    textBytes "using namespace aquarius;\n"

/-- The lines in front of the generated source. -/
def sourcePreamble (filename : Bytes) : Bytes :=
  textBytes "#include \"" ++ filename ++ textBytes ".h\"\n" ++
    textBytes "#include <aquarius/serialize/binary.hpp>\n" ++
    textBytes "#include <aquarius/serialize/json.hpp>\n" ++
    textBytes "#include <aquarius/serialize/kv.hpp>\n" ++
    textBytes "\n" ++
    textBytes "using namespace aquarius;\n"

/-- The path that `.h` and `.cpp` are put behind: the target, taken apart and put together. -/
def targetPath (target : Path) : Path :=
  target.parentPath.append { absolute := false, parts := [target.filename] }

/-- What is written for a target with the declarations `datas`. -/
def generated (cmd : Command) (target : Path) (datas : List SchemaField) : GeneratedFiles where
  path := targetPath target
  header := headerPreamble cmd.protocol ++ runHeader cmd.protocol datas
  source := sourcePreamble (targetPath target).filename ++ runSource datas

/-- What the loop of `run` carries from file to file. -/
structure RunState where
  path : Path
  schema : Schema := {}
  /-- `return false` has been reached -/
  ended : Bool := false

/-- One turn of the loop, with what it writes. -/
def runFile (cmd : Command) (fs : FileSystem) (state : RunState) (file : VirgoFile) :
    RunState × Option GeneratedFiles :=
  if state.ended then (state, none)
  else
    let target := state.path.append file.path
    if extension target.filename = textBytes ".virgo" then
      let (datas, schema) := state.schema.run (fs.read target)
      if cmd.cppOut then
        if fs.opens (targetPath target) then
          ({ path := target, schema := schema }, some (generated cmd target datas))
        else ({ path := target, schema := schema, ended := true }, none)
      else ({ path := target, schema := schema }, none)
    else ({ state with path := target }, none)

/-- The state in front of a file, behind the files before it. -/
def runFiles (cmd : Command) (fs : FileSystem) (files : List VirgoFile) : RunState :=
  files.foldl (fun state file => (runFile cmd fs state file).1) { path := cmd.inputDir }

/-- A path with a file at its end is put together again as it was. -/
theorem targetPath_append (p : Path) (file : VirgoFile) :
    targetPath (p.append file.path) = p.append file.path := by
  have hne : (p.append file.path).parts ≠ [] := by
    rw [Path.append]
    split
    · exact file.parts_ne_nil
    · exact List.append_ne_nil_of_right_ne_nil _ file.parts_ne_nil
  have hlast : (p.append file.path).parts.dropLast ++ [(p.append file.path).parts.getLastD []] =
      (p.append file.path).parts := by
    rw [List.getLastD_eq_getLast?, List.getLast?_eq_some_getLast hne, Option.getD_some,
      List.dropLast_concat_getLast]
  rw [targetPath, Path.append, if_neg Bool.false_ne_true, Path.parentPath, Path.filename, hlast]

/-- What one turn writes. -/
theorem runFile_written (cmd : Command) (fs : FileSystem) (state : RunState)
    (file : VirgoFile) :
    (runFile cmd fs state file).2 =
      if state.ended = false ∧ cmd.cppOut = true ∧
          fs.opens (state.path.append file.path) = true then
        some (generated cmd (state.path.append file.path)
          (state.schema.run (fs.read (state.path.append file.path))).1)
      else none := by
  rw [runFile]
  split
  · rename_i hended
    rw [if_neg (by simp [hended])]
  · rename_i hended
    simp only [if_pos (extension_append state.path file), targetPath_append]
    by_cases hcpp : cmd.cppOut = true
    · by_cases hopens : fs.opens (state.path.append file.path) = true
      · simp [hcpp, hopens, hended]
      · simp [hcpp, hopens]
    · simp [hcpp]

/-- What one turn leaves for the next. -/
theorem runFile_state (cmd : Command) (fs : FileSystem) {state : RunState}
    (hended : state.ended = false) (file : VirgoFile) :
    (runFile cmd fs state file).1 =
      { path := state.path.append file.path
        schema := (state.schema.run (fs.read (state.path.append file.path))).2
        ended := cmd.cppOut && !fs.opens (state.path.append file.path) } := by
  rw [runFile, if_neg (ne_true_of_eq_false hended)]
  simp only [if_pos (extension_append state.path file), targetPath_append]
  by_cases hcpp : cmd.cppOut = true
  · by_cases hopens : fs.opens (state.path.append file.path) = true
    · simp [hcpp, hopens]
    · simp [hcpp, hopens]
  · simp [hcpp]

/-- The declarations of a readable text come behind those of the files before it. -/
theorem run_fst (schema : Schema) (file : Option Bytes) :
    (schema.run file).1 =
      match file with
      | none => []
      | some text =>
          if (declarations (.good text)).2 then []
          else schema.fields ++ (declarations (.good text)).1 := by
  cases file with
  | none => rfl
  | some text =>
      rw [Schema.run, runLoop_eq_declarations]

/-- More declarations are more text. -/
theorem generated_insert_eq_iff (cmd : Command) (target : Path) (before datas after :
    List SchemaField) :
    generated cmd target (before ++ (datas ++ after)) = generated cmd target (before ++ after) ↔
      datas = [] := by
  constructor
  · intro h
    by_contra hne
    have hlt := length_runHeader_lt cmd.protocol before hne after
    have hheader := congrArg (fun g => g.header.length) h
    simp only [generated, List.length_append] at hheader
    omega
  · rintro rfl
    rfl

/-- A file of one element below the root. -/
def rootFile (name : Bytes) (h : extension name = textBytes ".virgo") : VirgoFile where
  path := { absolute := true, parts := [name] }
  suffix := h

/-- Every header and every source can be opened. -/
def allWritable : Writable where
  header _ := true
  source _ := true

/-- `lazytool --cpp_out=. --protocol=tcp` in the root directory. -/
def tcpCommand : Command where
  inputDir := { absolute := true, parts := [] }
  protocol := textBytes "tcp"
  cppOut := true

/-- `/a.virgo` -/
def fileA : VirgoFile := rootFile (textBytes "a.virgo") (by decide)

/-- `/b.virgo` -/
def fileB : VirgoFile := rootFile (textBytes "b.virgo") (by decide)

end Aquarius.Lazytool
