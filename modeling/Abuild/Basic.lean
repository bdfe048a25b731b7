import Mathlib

/-!
The small data types that the components share: places in files
(`FileLocation.cc`), target types (`TargetType.hh`), the flags and traits of an
item (`FlagData.cc`, `TraitData.cc`), and the functions of `Util.cc` on the text
of a path.
-/

set_option autoImplicit false
set_option relaxedAutoImplicit false

namespace Abuild

open Std (TreeMap TreeSet)

structure FileLocation where
  filename : String
  lineno : ℤ
  colno : ℤ
deriving DecidableEq, Repr

namespace FileLocation

/-- The location of something that is in no file. -/
def empty : FileLocation := ⟨"", 0, 0⟩

def new (filename : String) (lineno colno : ℤ) : FileLocation :=
  ⟨filename, if lineno = 0 then 1 else lineno, colno⟩

end FileLocation

/-- A message to the user, and the place it is about. -/
abbrev ErrorMessage := FileLocation × String

inductive TargetType
  | unknown
  | all
  | platformIndependent
  | objectCode
  | java
deriving DecidableEq, Repr

namespace TargetType

def getName : TargetType → String
  | .unknown => "unknown"
  | .all => "all"
  | .platformIndependent => "platform-independent"
  | .objectCode => "object-code"
  | .java => "java"

/-- Only for the name of a target type. -/
def getID : String → Option TargetType
  | "unknown" => some .unknown
  | "all" => some .all
  | "platform-independent" => some .platformIndependent
  | "object-code" => some .objectCode
  | "java" => some .java
  | _ => none

def isValid (targetType : String) : Bool :=
  match getID targetType with
  | none => false
  | some .unknown => false
  | some _ => true

end TargetType

structure TraitData where
  traitData : TreeMap String (TreeSet String)

namespace TraitData

def empty : TraitData := ⟨∅⟩

def hasTrait (d : TraitData) (trait : String) : Bool := d.traitData.contains trait

def removeItem (d : TraitData) (item : String) : TraitData :=
  ⟨d.traitData.map fun _ items ↦ items.erase item⟩

end TraitData

structure FlagData where
  flagData : TreeMap String (TreeSet String)

namespace FlagData

def empty : FlagData := ⟨∅⟩

def addFlag (d : FlagData) (name flag : String) : FlagData :=
  ⟨d.flagData.insert name ((d.flagData.getD name ∅).insert flag)⟩

def isSet (d : FlagData) (name flag : String) : Bool :=
  match d.flagData[name]? with
  | some flags => flags.contains flag
  | none => false

def removeItem (d : FlagData) (name : String) : FlagData := ⟨d.flagData.erase name⟩

end FlagData

namespace Util

def normalizePathSeparators (filename : String) : String :=
  filename.map fun c ↦ if c = '\\' then '/' else c

def isAbsolutePath (path : String) : Bool :=
  match path.toList with
  | [] => false
  | c :: _ => c = '/' || c = '\\'

/-- The parts of a string between separators, of which there is at least one. -/
def splitChars (sep : Char) : List Char → List (List Char)
  | [] => [[]]
  | c :: cs =>
    match splitChars sep cs with
    | [] => [[c]]
    | part :: parts => if c = sep then [] :: part :: parts else (c :: part) :: parts

def split (sep : Char) (input : String) : List String :=
  (splitChars sep input.toList).map String.ofList

/-- What is left of two lists after their longest common beginning. -/
def dropCommon : List String → List String → List String × List String
  | p :: ps, l :: ls => if p = l then dropCommon ps ls else (p :: ps, l :: ls)
  | ps, ls => (ps, ls)

def absToRel (path container : String) : String :=
  let (pitems, litems) := dropCommon (split '/' path) (split '/' container)
  let result := litems.foldl (fun result _ ↦ result ++ "../") "" ++ "/".intercalate pitems
  if result.isEmpty then "."
  else
    match result.toList.reverse with
    | '/' :: rest => String.ofList rest.reverse
    | _ => result

def isDirUnder (dir topdir : String) : Bool :=
  let rel := absToRel dir topdir
  !(rel = ".." || "../".toList.isPrefixOf rel.toList)

end Util

end Abuild
