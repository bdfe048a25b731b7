import Abuild.KeyVal
import Abuild.Library.Fallible
import Abuild.Util.CanonicalPath

/-!
The upgrade data file, from `UpgradeData.cc`: the directories to ignore, a line for each tree with
its name, and comments. Directories and names are written as they are, and read by patterns that
leave out spaces at the ends of a line and comments. Whether a path is a directory is a parameter;
canonical paths come with a bound on the steps (`Util.canonicalizePath`).
-/

set_option autoImplicit false
set_option relaxedAutoImplicit false

namespace Abuild

open Std (TreeMap TreeSet)

namespace Util

/-- A line without its newline and a carriage return before it. -/
def stripNewline (line : List Char) : List Char :=
  match line.reverse with
  | '\n' :: '\r' :: rest => rest.reverse
  | '\n' :: rest => rest.reverse
  | _ => line

def readLinesFromFile (text : List Char) : List (List Char) :=
  (Lines.lines '\n' text).map stripNewline

end Util

structure UpgradeData where
  ignoredDirectories : TreeSet String
  treeNames : TreeMap String String
  forestContents : TreeMap String (List String)
  unnamedTrees : TreeSet String

namespace UpgradeData

open KeyVal (isSpace isKeyChar)

def fileUpgradeData : String := "abuild.upgrade-data"

def placeholder : String := "***"

/-! ### The writer -/

def treeLine (path name : String) : String := path ++ ": " ++ name

/-- The lines of the trees of a forest, and the names that are left for others. -/
def writeTrees (unnamedTrees : TreeSet String) :
    List String → TreeMap String String → List String × TreeMap String String
  | [], names => ([], names)
  | path :: trees, names =>
    if path ∈ unnamedTrees then writeTrees unnamedTrees trees names
    else
      match names[path]? with
      | some name =>
        let (lines, names) := writeTrees unnamedTrees trees (names.erase path)
        (treeLine path name :: lines, names)
      | none =>
        let (lines, names) := writeTrees unnamedTrees trees names
        (treeLine path placeholder :: lines, names)

def writeForests (unnamedTrees : TreeSet String) :
    List (String × List String) → TreeMap String String → List String × TreeMap String String
  | [], names => ([], names)
  | (root, trees) :: forests, names =>
    let (lines, names) := writeTrees unnamedTrees trees names
    let (more, names) := writeForests unnamedTrees forests names
    (["", "[forest]", "# root: " ++ root] ++ lines ++ more, names)

def orphanComments : List String :=
  ["# The following trees were previously assigned names but no longer appear",
    "# to exist.  If you don't need them anymore, you may remove them",
    "# from thsi file."]

def orphanLines (names : TreeMap String String) : List String :=
  if names.isEmpty then []
  else
    "" :: "[orphan-trees]" :: orphanComments ++
      names.toList.map fun (path, name) ↦ treeLine path name

/-- The lines after the directories to ignore. -/
def forestLines (ud : UpgradeData) : List String :=
  let (lines, names) := writeForests ud.unnamedTrees ud.forestContents.toList ud.treeNames
  lines ++ orphanLines names

def headerLines : List String :=
  ["[ignored-directories]", "# Place one directory to ignore while scanning on each line."]

def writeUpgradeData (fs : FileSystem) (ud : UpgradeData) : String :=
  String.join ((headerLines ++
    ud.ignoredDirectories.toList.map (fun dir ↦ Util.absToRel dir (Util.getCurrentDirectory fs)) ++
      ud.forestLines).map (· ++ "\n"))

/-! ### The reader -/

/-- `\[(\S+?)\]` -/
def matchSection (line : List Char) : Option (List Char) :=
  match line with
  | '[' :: rest =>
    let name := rest.dropLast
    if rest.getLast? = some ']' ∧ ¬ name.isEmpty ∧ ¬ name.any isSpace then some name else none
  | _ => none

/-- `([^:\s]+)\s*:\s*(\S+)` -/
def matchTreename (line : List Char) : Option (List Char × List Char) :=
  let path := line.takeWhile isKeyChar
  match (line.dropWhile isKeyChar).dropWhile isSpace with
  | ':' :: rest =>
    let name := rest.dropWhile isSpace
    if path.isEmpty ∨ name.isEmpty ∨ name.any isSpace then none else some (path, name)
  | _ => none

inductive Section
  | top
  | ignoredDirs
  | names
deriving DecidableEq

/-- What `readUpgradeData` keeps while it goes through the lines. -/
structure ReadState where
  state : Section
  lineno : ℤ
  ignoredDirectories : TreeSet String
  treeNames : TreeMap String String
  errors : List ErrorMessage

namespace ReadState

def initial : ReadState := ⟨.top, 0, ∅, ∅, []⟩

def error (s : ReadState) (message : String) : ReadState :=
  { s with errors := s.errors ++ [(.new fileUpgradeData s.lineno 0, message)] }

def enterSection (s : ReadState) (name : String) : ReadState :=
  if name = "ignored-directories" then { s with state := .ignoredDirs }
  else if name = "forest" ∨ name = "orphan-trees" then { s with state := .names }
  else s.error ("unknown section " ++ name)

section Reader

variable (fs : FileSystem) (isDirectory : String → Bool) (fuel : ℕ)

def addIgnored (s : ReadState) (line : String) : Option ReadState :=
  if isDirectory line then
    (Util.canonicalizePath fs fuel line).map fun (path, _) ↦
      { s with ignoredDirectories := s.ignoredDirectories.insert path }
  else some (s.error ("path \"" ++ line ++ "\" is not a directory"))

/-- Trees with the placeholder as their name have not been named by the user. -/
def addTree (s : ReadState) (path name : String) : ReadState :=
  if name = placeholder then s
  else if isDirectory path then
    if path ∈ s.treeNames then s.error ("duplicate name for path \"" ++ path ++ "\"")
    else { s with treeNames := s.treeNames.insert path name }
  else s.error ("path \"" ++ path ++ "\" is not a directory")

/-- A line that is not blank and no comment, without spaces at its ends. -/
def readContent (s : ReadState) (line : List Char) : Option ReadState :=
  match matchSection line, s.state with
  | some name, _ => some (s.enterSection (String.ofList name))
  | none, .ignoredDirs => s.addIgnored fs isDirectory fuel (String.ofList line)
  | none, .names =>
    match matchTreename line with
    | some (path, name) => some (s.addTree isDirectory (String.ofList path) (String.ofList name))
    | none => some (s.error "invalid tree name")
  | none, .top => some (s.error "expected section marker")

def readLine (s : ReadState) (line : List Char) : Option ReadState :=
  let s := { s with lineno := s.lineno + 1 }
  let line := Trim.trim isSpace line
  if line.isEmpty ∨ line.head? = some '#' then some s else s.readContent fs isDirectory fuel line

end Reader

end ReadState

def readUpgradeData (fs : FileSystem) (isDirectory : String → Bool) (fuel : ℕ) (text : String) :
    Option ReadState :=
  (Util.readLinesFromFile text.toList).foldlM (ReadState.readLine fs isDirectory fuel) .initial

/-- What has been written can be read again: the same directories to ignore, the same names, and no
error. -/
def RoundTrips (fs : FileSystem) (isDirectory : String → Bool) (ud : UpgradeData) : Prop :=
  ∃ fuel s, readUpgradeData fs isDirectory fuel (ud.writeUpgradeData fs) = some s ∧
    s.errors = [] ∧ (∀ path : String, s.treeNames[path]? = ud.treeNames[path]?) ∧
    ∀ dir, dir ∈ s.ignoredDirectories ↔ dir ∈ ud.ignoredDirectories

end UpgradeData

end Abuild
