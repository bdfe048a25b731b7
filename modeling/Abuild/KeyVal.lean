import Abuild.Basic
import Abuild.Library.Lines
import Abuild.Library.Trim

/-!
Files of lines of the form `key: value`, from `KeyVal.cc`. `readFile` keeps the text of a file in
pieces around its keys, so that `writeFile` can write it again with some of the keys changed. The
texts are lists of characters, and the regular expressions are functions on them: `.` matches a
newline, and `\s` one of six characters.
-/

set_option autoImplicit false
set_option relaxedAutoImplicit false

namespace Abuild

open Std (TreeMap TreeSet)

namespace KeyVal

/-! ### Regular expressions -/

def isSpace (c : Char) : Bool :=
  c = ' ' || c = '\t' || c = '\n' || c = '\x0b' || c = '\x0c' || c = '\r'

/-- `\s*#.*` -/
def commentLine (line : List Char) : Bool := (line.dropWhile isSpace).head? = some '#'

/-- `\s*(.*?)(\\?)\s*`: what is left without spaces at the ends, and without a backslash at the end,
and whether there was one. -/
def matchContent (text : List Char) : List Char × Bool :=
  let content := Trim.trim isSpace text
  if content.getLast? = some '\\' then (content.dropLast, true) else (content, false)

structure KvLine where
  leading : List Char
  key : List Char
  trailing : List Char
  value : List Char

/-- The value on the first line of a key, which ends with a space when it goes on. -/
def KvLine.firstValue (m : KvLine) (continuation : Bool) : List Char :=
  if continuation ∧ m.value ≠ [] then m.value ++ [' '] else m.value

/-- A character of `[^\s:]`. -/
def isKeyChar (c : Char) : Bool := !isSpace c && c ≠ ':'

/-- `(\s*)([^\s:]+)(\s*:\s*(.*?)(\\?)\s*)` -/
def matchKvLine (line : List Char) : Option KvLine :=
  let leading := line.takeWhile isSpace
  let rest := line.dropWhile isSpace
  let key := rest.takeWhile isKeyChar
  let trailing := rest.dropWhile isKeyChar
  match trailing.dropWhile isSpace with
  | ':' :: value =>
    if key.isEmpty then none else some ⟨leading, key, trailing, (matchContent value).1⟩
  | _ => none

/-- `.*?((?:\r?\n)?)` -/
def matchEol (text : List Char) : List Char :=
  match text.reverse with
  | '\n' :: '\r' :: _ => ['\r', '\n']
  | '\n' :: _ => ['\n']
  | _ => []

end KeyVal

/-! ### The data -/

/-- A file and its keys: those that must be there, and those that have default values. -/
structure KeySpec where
  filename : String
  mandatory : TreeSet String
  defaults : TreeMap String String
  disjoint : ∀ key ∈ defaults, key ∉ mandatory

/-- The keys of a specification. -/
def KeySpec.keys (spec : KeySpec) : TreeSet String :=
  spec.mandatory.insertMany spec.defaults.keys

structure OrigData where
  before : List Char
  key : String
  after : List Char
deriving DecidableEq

def OrigData.empty : OrigData := ⟨[], "", []⟩

structure KeyVal where
  preferredEol : List Char
  explicitKeys : TreeSet String
  data : TreeMap String String
  origData : List OrigData
  errors : List ErrorMessage

namespace KeyVal

/-! ### Reading -/

/-- Where the value of the current line goes, when there is one. The text of the line goes before
the key as long as there is none, and after it from then on. -/
inductive Value
  | none
  | trash
  | data (key : String)
deriving DecidableEq

/-- What the loop of `readFile` keeps. `current` is the last element of the original data. -/
structure Reading where
  lineno : ℕ
  explicitKeys : TreeSet String
  data : TreeMap String String
  origData : List OrigData
  current : OrigData
  value : Value
  errors : List ErrorMessage

namespace Reading

def start : Reading := ⟨0, ∅, ∅, [], .empty, .none, []⟩

def error (s : Reading) (location : FileLocation) (message : String) : Reading :=
  { s with errors := s.errors ++ [(location, message)] }

def addText (s : Reading) (text : List Char) : Reading :=
  match s.value with
  | .none => { s with current := { s.current with before := s.current.before ++ text } }
  | _ => { s with current := { s.current with after := s.current.after ++ text } }

def addValue (s : Reading) (content : List Char) : Reading :=
  match s.value with
  | .data key => { s with data := s.data.insert key (s.data.getD key "" ++ String.ofList content) }
  | _ => s

def endLine (s : Reading) (continuation : Bool) : Reading :=
  if continuation then s
  else { s with origData := s.origData ++ [s.current], current := .empty, value := .none }

/-- The content of a line, which ends with a space instead of a continuation character. -/
def lineContent (line : List Char) : List Char × Bool :=
  let (content, continuation) := matchContent line
  (if continuation then content ++ [' '] else content, continuation)

def checkDuplicate (location : FileLocation) (key : String) (s : Reading) : Reading :=
  if s.data.contains key then
    s.error location ("duplicate value for " ++ key ++ " (using new value)")
  else s

/-- A key that is not one of those of the specification is ignored. -/
def setKey (spec : KeySpec) (location : FileLocation) (key : String) (value : List Char)
    (s : Reading) : Reading :=
  if spec.keys.contains key then
    { s with
      data := s.data.insert key (String.ofList value)
      explicitKeys := s.explicitKeys.insert key
      value := .data key }
  else { s.error location ("invalid key " ++ key ++ " (ignored)") with value := .trash }

/-- The text before a key and after it. -/
def splitText (m : KvLine) (s : Reading) : Reading :=
  { s with
    current :=
      ⟨s.current.before ++ m.leading, String.ofList m.key, s.current.after ++ m.trailing⟩ }

def addKvLine (spec : KeySpec) (location : FileLocation) (continuation : Bool) (m : KvLine)
    (s : Reading) : Reading :=
  let key := String.ofList m.key
  ((s.checkDuplicate location key).setKey spec location key (m.firstValue continuation)).splitText m

def readLine (spec : KeySpec) (s : Reading) (line : List Char) : Reading :=
  let s := { s with lineno := s.lineno + 1 }
  let location := FileLocation.new spec.filename s.lineno 0
  let comment := commentLine line
  let (content, continuation) := if comment then ([], false) else lineContent line
  if s.value ≠ .none then
    let s := (s.addText line).addValue content
    if comment then s else s.endLine continuation
  else if content = [] ∨ comment then (s.addText line).endLine continuation
  else
    match matchKvLine line with
    | some m => (s.addKvLine spec location continuation m).endLine continuation
    | none => ((s.error location "syntax error").addText line).endLine continuation

/-- The keys without a value get their defaults. -/
def addDefaults (spec : KeySpec) (s : Reading) : Reading :=
  { s with data := spec.defaults.foldl (fun data key value ↦ data.insertIfNew key value) s.data }

def missingKeys (spec : KeySpec) (s : Reading) : List String :=
  spec.keys.toList.filter fun key ↦ !s.data.contains key && !spec.defaults.contains key

def checkMissing (spec : KeySpec) (s : Reading) : Reading :=
  let missing := s.missingKeys spec
  if missing.isEmpty then s
  else
    s.error (.new spec.filename 0 0)
      ("no values for the following keys: " ++ " ".intercalate missing)

def finish (spec : KeySpec) (s : Reading) : Reading :=
  let s := if s.value = .none then s
    else s.error (.new spec.filename 0 0) "file ended with continuation line"
  (s.checkMissing spec).addDefaults spec

end Reading

def preferredEolOf (lines : List (List Char)) : List Char :=
  match lines with
  | [] => ['\n']
  | line :: _ => if (matchEol line).isEmpty then ['\n'] else matchEol line

def readFile (spec : KeySpec) (content : List Char) : KeyVal :=
  let lines := Lines.lines '\n' content
  let s := (lines.foldl (Reading.readLine spec) .start).finish spec
  { preferredEol := preferredEolOf lines
    explicitKeys := s.explicitKeys
    data := s.data
    origData := s.origData ++ [s.current]
    errors := s.errors }

/-! ### Writing -/

/-- What to write in place of the keys of a file. A replacement comes with its key. -/
structure Edits where
  keyChanges : TreeMap String String
  replacements : TreeMap String (List Char)
  deletions : TreeSet String
  additions : List (List Char)

def writeOrigData (edits : Edits) (od : OrigData) : List Char :=
  if od.key.isEmpty then od.before ++ od.key.toList ++ od.after
  else if edits.deletions.contains od.key then []
  else
    match edits.replacements[od.key]? with
    | some text => od.before ++ text ++ matchEol od.after
    | none => od.before ++ (edits.keyChanges.getD od.key od.key).toList ++ od.after

def writeFile (kv : KeyVal) (edits : Edits) : List Char :=
  edits.additions.flatMap (· ++ kv.preferredEol) ++ kv.origData.flatMap (writeOrigData edits)

end KeyVal

end Abuild
