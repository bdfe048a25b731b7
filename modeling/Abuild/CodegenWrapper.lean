import Abuild.Library.Trim
import Mathlib.Data.List.DropRight
import Mathlib.Logic.Function.Basic

/-!
The program `codegen-wrapper`, which runs a code generator only if its cached output files were not
made from the input files as they are. It is always called with the source directory `..`, and line
endings are not normalized. Names of files are relative to the output directory, and those in the
cache to the cache directory.
-/

set_option autoImplicit false
set_option relaxedAutoImplicit false

namespace Abuild.CodegenWrapper

/-- MD5 on files of which no two have the same sum. -/
structure Md5 where
  hexdigest : String → String
  injective : Function.Injective hexdigest
  hex : ∀ contents, ∀ c ∈ (hexdigest contents).toList, c ∈ "0123456789abcdef".toList

/-- The output directory with the source directory above it, and the cache. -/
structure Directories where
  files : String → Option String
  cache : String → Option String

/-- A rule of a makefile: the lists of files that it calls the program with, and what its command
writes to every output file, given the contents of the input files. -/
structure Rule where
  inputs : List String
  outputs : List String
  generate : List String → String → String

/-- A command that fails, with a status or by a signal, may have written files. For one that cannot
be started, `system` returns -1, which is neither a status nor a signal. -/
inductive CommandResult
  | succeeds
  | fails (written : List (String × String))
  | notStarted

/-- How the program ends. When the cache is updated, the sums of the input files are recorded in
files of it. -/
inductive Outcome
  | usage
  | notFound (messages : List String)
  | upToDate
  | commandFailed
  | noOutput (message : String)
  | generated (recorded : List (String × String))

/-! ### Files -/

/-- `s,^../,,`, where a dot is any character. -/
def stripSrcdir (name : String) : String :=
  match name.toList with
  | c :: c' :: '/' :: rest => if c = '\n' ∨ c' = '\n' then name else String.ofList rest
  | _ => name

/-- An input file with the file of its checksum. -/
def resolve (d : Directories) (name : String) : Option (String × String) :=
  if (d.files name).isSome then some (name, stripSrcdir name ++ ".md5")
  else if (d.files ("../" ++ name)).isSome then some ("../" ++ name, name ++ ".md5")
  else none

def findInputs (d : Directories) (inputs : List String) :
    Except (List String) (List (String × String)) :=
  match inputs.filter fun name ↦ (resolve d name).isNone with
  | [] => .ok (inputs.filterMap (resolve d))
  | missing => .error (missing.map (· ++ " not found in . or .."))

def contentsOf (files : String → Option String) (inputs : List (String × String)) : List String :=
  inputs.filterMap fun input ↦ files input.1

def isSpace (c : Char) : Bool := c ∈ [' ', '\t', '\n', '\r', '\x0b', '\x0c']

/-- The first line of a file, which is empty when Perl takes it for false. -/
def firstLine (contents : String) : List Char :=
  let line := contents.toList.takeWhile (· ≠ '\n') ++
    ((contents.toList.dropWhile (· ≠ '\n')).take 1)
  if line = ['0'] then [] else line

def readChecksum (contents : String) : String :=
  String.ofList ((firstLine contents).rdropWhile isSpace)

/-! ### The two branches -/

def outputFilesExist (d : Directories) (rule : Rule) : Bool :=
  rule.outputs.all fun f ↦ (d.cache f).isSome

def checksumsMatch (md5 : Md5) (d : Directories) (inputs : List (String × String)) : Bool :=
  inputs.all fun (f, ckfile) ↦
    match d.cache ckfile, d.files f with
    | some checksum, some contents => readChecksum checksum = md5.hexdigest contents
    | _, _ => false

def writeFiles (written : List (String × String)) (files : String → Option String) :
    String → Option String :=
  written.foldl (fun files (f, contents) ↦ Function.update files f (some contents)) files

def copyFiles (source : String → Option String) (names : List String)
    (dest : String → Option String) : String → Option String :=
  names.foldl (fun dest f ↦ Function.update dest f (source f)) dest

def computeChecksums (md5 : Md5) (files : String → Option String)
    (inputs : List (String × String)) : List (String × String) :=
  inputs.filterMap fun (f, ckfile) ↦ (files f).map fun contents ↦ (ckfile, md5.hexdigest contents)

/-- What follows the command, with the files that it leaves. -/
def updateCache (md5 : Md5) (rule : Rule) (inputs : List (String × String))
    (files cache : String → Option String) : Outcome × Directories :=
  match rule.outputs.find? fun f ↦ (files f).isNone with
  | some f =>
    (.noOutput ("after successful command invocation, output file " ++ f ++
      " does not exist or is not a file"), ⟨files, cache⟩)
  | none =>
    let recorded := computeChecksums md5 files inputs
    (.generated recorded,
      { files
        cache := writeFiles (recorded.map fun (ckfile, checksum) ↦ (ckfile, checksum ++ "\n"))
          (copyFiles files rule.outputs cache) })

def invoke (md5 : Md5) (rule : Rule) (result : CommandResult) (d : Directories) :
    Outcome × Directories :=
  if rule.outputs = [] then (.usage, d)
  else
    match findInputs d rule.inputs with
    | .error messages => (.notFound messages, d)
    | .ok inputs =>
      if outputFilesExist d rule && checksumsMatch md5 d inputs then
        (.upToDate, { d with files := copyFiles d.cache rule.outputs d.files })
      else
        match result with
        | .fails written => (.commandFailed, { d with files := writeFiles written d.files })
        | .succeeds =>
          let contents := contentsOf d.files inputs
          updateCache md5 rule inputs
            (writeFiles (rule.outputs.map fun f ↦ (f, rule.generate contents f)) d.files) d.cache
        -- The program goes on with the output files that are there.
        | .notStarted => updateCache md5 rule inputs d.files d.cache

/-! ### Sequences of calls -/

/-- What may happen to a project with some rules. -/
inductive Step (ι : Type)
  | edit (name : String) (contents : Option String)
  | invoke (rule : ι) (result : CommandResult)

/-- The directories, with the checksums that every rule has recorded last. -/
structure History (ι : Type) extends Directories where
  updates : ι → Option (List (String × String))

section History

variable {ι : Type} [DecidableEq ι]

def History.start (ι : Type) (files : String → Option String) : History ι where
  files
  cache _ := none
  updates _ := none

def History.step (rules : ι → Rule) (md5 : Md5) (h : History ι) : Step ι → History ι
  | .edit name contents => { h with files := Function.update h.files name contents }
  | .invoke rule result =>
    match invoke md5 (rules rule) result h.toDirectories with
    | (.generated recorded, d) => ⟨d, Function.update h.updates rule (some recorded)⟩
    | (_, d) => ⟨d, h.updates⟩

def History.run (rules : ι → Rule) (md5 : Md5) (files : String → Option String)
    (steps : List (Step ι)) : History ι :=
  steps.foldl (History.step rules md5) (.start ι files)

end History

end Abuild.CodegenWrapper
