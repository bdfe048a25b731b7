import Abuild.BuildItem
import Abuild.PlatformSelector
import Abuild.PlatformTables
import Abuild.Util

/-!
What `ItemConfig.cc` checks of the keys of a configuration file whose values are lists of words: the
children of an item, its dependencies, and the scope that it is visible to; and `accessibleFrom` of
`Abuild-traverse.cc`, for which that scope has been checked.
-/

set_option autoImplicit false
set_option relaxedAutoImplicit false

namespace Abuild

open Std (TreeMap TreeSet)

namespace Util

/-- The words before the last one, and what there is of the last one. -/
def addToWords (r : List (List Char) × List Char) (c : Char) : List (List Char) × List Char :=
  if KeyVal.isSpace c then if r.2.isEmpty then r else (r.1 ++ [r.2], [])
  else (r.1, r.2 ++ [c])

def splitBySpace (input : String) : List String :=
  let (front, back) := input.toList.foldl addToWords ([], [])
  (if back.isEmpty then front else front ++ [back]).map String.ofList

def stripTrailingSlash (str : String) : String :=
  if str.toList.getLast? = some '/' then String.ofList str.toList.dropLast else str

def isSymlink (fs : FileSystem) (filename : String) : Bool :=
  fs.lstat filename = some .symbolicLink

end Util

namespace ItemConfig

def fileConf : String := "Abuild.conf"

/-- `[a-zA-Z0-9_][a-zA-Z0-9_-]*(?:\.[a-zA-Z0-9_-]+)*` -/
def isItemName (text : String) : Bool :=
  match Util.split '.' text with
  | first :: rest =>
    PlatformSelector.isName first && first.toList.head? ≠ some '-' &&
      rest.all PlatformSelector.isName
  | [] => false

/-! ### `checkVisibleTo` -/

/-- Whether the text is the beginning of the name. -/
def startsWith (name scope : String) : Bool :=
  name.toList.take scope.toList.length = scope.toList

/-- Whether the components are an ancestor scope that is higher than the default one. -/
def isAncestorScope (name : String) (components : List String) : Bool :=
  if components.length > (Util.split '.' name).length - 2 then false
  else if components.isEmpty then true
  else startsWith name (".".intercalate components ++ ".")

/-- The value that is kept, and the errors. The flag that an ancestor scope clears is another one
than that by which the value is cleared. -/
def checkVisibleTo (location : FileLocation) (name visibleTo : String) :
    String × List ErrorMessage :=
  if visibleTo.isEmpty then (visibleTo, [])
  else if (Util.split '.' name).length > 1 then
    let components := Util.split '.' visibleTo
    if components.getLast? ≠ some "*" then
      ("", [(location, "visible-to value must be * or end with .*")])
    else if isAncestorScope name components.dropLast then (visibleTo, [])
    else
      (visibleTo, [(location, "visible-to value must be * or an ancestor scope " ++
        "higher than this item's default scope")])
  else ("", [(location, "visible-to not permitted for public build items")])

/-- The first group of `(.*\.)[^\.]+`. -/
def matchScope (name : String) : Option String :=
  let back := name.toList.reverse.takeWhile (· ≠ '.')
  let front := name.toList.reverse.dropWhile (· ≠ '.')
  if front.isEmpty ∨ back.isEmpty then none else some (String.ofList front.reverse)

/-- Of the build items we only use what they are visible to. -/
def accessibleFrom (builditems : TreeMap String String) (accessorName accesseeName : String) :
    Option Bool :=
  match matchScope accesseeName with
  | none => some true
  | some scope => do
    let visibility := builditems.getD accesseeName ""
    let scope ←
      if visibility = "*" then some ""
      else if visibility.isEmpty then some scope
      else if visibility.toList.getLast? = some '*' then
        some (String.ofList visibility.toList.dropLast)
      else none
    some (startsWith accessorName scope || scope = accessorName ++ ".")

/-! ### `checkChildren` -/

/-- The children so far, and the one that a flag belongs to. -/
structure ChildrenCheck where
  children : List String
  optionalChildren : TreeSet String
  lastChild : String
  errors : List ErrorMessage

def childIsOptional (r : ChildrenCheck) (child : String) : Bool := r.optionalChildren.contains child

def hasSymlinks (fs : FileSystem) (dir toCheck : String) : Bool :=
  (Util.split '/' toCheck).inits.tail.any fun elements ↦
    Util.isSymlink fs ("/".intercalate (dir :: elements))

/-- The directories between an item and its child, from the child on. -/
def interveningDirectories (elements : List String) : List String :=
  elements.dropLast.inits.tail.reverse.map "/".intercalate

section Children

variable (fs : FileSystem) (isFile : String → Bool) (dir : String) (location : FileLocation)

def childErrors (child : String) : List ErrorMessage :=
  (if hasSymlinks fs dir child then
      [(location, "child directory \"" ++ child ++
        "\" is a symbolic link or crosses a symbolic link")]
    else []) ++
  ((interveningDirectories (Util.split '/' child)).filter fun path ↦
      isFile (dir ++ "/" ++ path ++ "/" ++ fileConf)).map fun path ↦
    (location, "relative to this item, directory \"" ++ path ++
      "\", which is between this item and child \"" ++ child ++ "\" contains " ++ fileConf ++
      "; interleaved " ++ fileConf ++ " files are not permitted")

def checkChild (r : ChildrenCheck) (word : String) : ChildrenCheck :=
  if word = "-optional" then
    if r.lastChild.isEmpty then
      { r with errors := r.errors ++
        [(location, "-optional is not preceded by a child directory")] }
    else { r with optionalChildren := r.optionalChildren.insert r.lastChild }
  else
    let child := Util.stripTrailingSlash word
    if ".." ∈ Util.split '/' child then
      { r with
        lastChild := word
        errors := r.errors ++ [(location, "child-dirs entries may not include \"..\"")] }
    else
      { r with
        children := r.children ++ [child]
        lastChild := word
        errors := r.errors ++ childErrors fs isFile dir location child }

def checkRelativePaths (paths : List String) (description : String) :
    List String × List ErrorMessage :=
  (paths.filter fun path ↦ !Util.isAbsolutePath path,
    (paths.filter Util.isAbsolutePath).map fun _ ↦
      (location, description ++ " must be relative paths"))

def checkChildren (value : String) : ChildrenCheck :=
  let (children, errors) :=
    checkRelativePaths location (Util.splitBySpace value) "child-dirs entries"
  children.foldl (checkChild fs isFile dir location) ⟨[], ∅, "", errors⟩

end Children

/-! ### `checkDeps` -/

/-- The dependencies so far, and the one that a modifier belongs to. -/
structure DepsCheck where
  deps : List String
  depsSeen : TreeSet String
  duplicatedDeps : TreeSet String
  lastDep : String
  flagData : FlagData
  depPlatformTypes : TreeMap String String
  depPlatformSelectors : TreeMap String PlatformSelector
  optionalDeps : TreeSet String
  warnings : List ErrorMessage
  errors : List ErrorMessage

namespace DepsCheck

def empty : DepsCheck := ⟨[], ∅, ∅, "", .empty, ∅, ∅, ∅, [], []⟩

def error (r : DepsCheck) (location : FileLocation) (message : String) : DepsCheck :=
  { r with errors := r.errors ++ [(location, message)] }

end DepsCheck

/-- `-flag=(\S+)` -/
def matchFlag (word : String) : Option String := PlatformTables.matchItem "-flag=" word

/-- `-platform=(\S+)` -/
def matchPlatform (word : String) : Option String := PlatformTables.matchItem "-platform=" word

/-- The selector, unless it is not valid as that of a dependency. -/
def readSelector (text : String) : Option (Option PlatformSelector) :=
  (PlatformSelector.initializeWith .new text).map fun (p, valid) ↦
    if valid ∧ p.skip = false ∧ p.platformType ≠ PlatformSelector.any then some p else none

def checkName (location : FileLocation) (name : String) (r : DepsCheck) : DepsCheck :=
  let r := { r with lastDep := name }
  if r.depsSeen.contains name then
    let r := { r with
      duplicatedDeps := r.duplicatedDeps.insert name
      warnings := r.warnings ++ [(location, "dependency \"" ++ name ++
        "\" appears more than once")] }
    if r.depPlatformTypes.contains name then
      r.error location ("a previous declaration of this dependency (\"" ++ name ++
        "\") included a platform specification")
    else r
  else { r with deps := r.deps ++ [name], depsSeen := r.depsSeen.insert name }

def checkFlag (location : FileLocation) (word flag : String) (r : DepsCheck) : DepsCheck :=
  if r.lastDep.isEmpty then
    r.error location ("flag " ++ word ++ " is not preceded by a build item name")
  else { r with flagData := r.flagData.addFlag r.lastDep flag }

/-- The type is recorded even where its selector is not. -/
def checkPlatform (location : FileLocation) (word platformType : String) (r : DepsCheck) :
    Option DepsCheck :=
  if r.lastDep.isEmpty then
    some (r.error location ("platform declaration " ++ word ++
      " is not preceded by a build item name"))
  else do
    let r :=
      if r.depPlatformTypes.contains r.lastDep then
        r.error location ("a platform has already been declared for dependency \"" ++
          r.lastDep ++ "\"")
      else if r.duplicatedDeps.contains r.lastDep then
        r.error location ("platform specification applies to a dependency (\"" ++ r.lastDep ++
          "\") that had been previously declared")
      else r
    let r ←
      if platformType.toList.contains ':' then
        (readSelector platformType).map fun
          | some p => { r with
              depPlatformSelectors := r.depPlatformSelectors.insert r.lastDep p }
          | none => r.error location ("invalid platform selector " ++ platformType)
      else some r
    some { r with depPlatformTypes := r.depPlatformTypes.insert r.lastDep platformType }

def checkOptional (location : FileLocation) (r : DepsCheck) : DepsCheck :=
  if r.lastDep.isEmpty then
    r.error location "-optional is not preceded by a build item name"
  else { r with optionalDeps := r.optionalDeps.insert r.lastDep }

def checkDep (location : FileLocation) (r : DepsCheck) (word : String) : Option DepsCheck :=
  if isItemName word then some (checkName location word r)
  else
    match matchFlag word with
    | some flag => some (checkFlag location word flag r)
    | none =>
      match matchPlatform word with
      | some platformType => checkPlatform location word platformType r
      | none =>
        if word = "-optional" then some (checkOptional location r)
        else some (r.error location ("invalid dependency " ++ word))

def checkDeps (location : FileLocation) (value : String) : Option DepsCheck :=
  (Util.splitBySpace value).foldlM (checkDep location) .empty

end ItemConfig

end Abuild
