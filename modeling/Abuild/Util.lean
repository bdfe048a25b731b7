import Abuild.Basic
import Mathlib.Data.Finset.Insert

/-!
The functions of `Util.cc` that look at the file system. The file system is what `lstat`,
`readlink` and `getcwd` return. The loop of `canonicalizePath` rewrites a list of components while
it goes through it, and need not end, so that it takes a bound on its steps.
-/

set_option autoImplicit false
set_option relaxedAutoImplicit false

namespace Abuild

inductive FileType
  | symbolicLink
  | other
deriving DecidableEq, Repr

/-- What `lstat` finds at a path, when it succeeds, what `readlink` reads there, and the current
directory, of which `getcwd` returns an absolute path. -/
structure FileSystem where
  lstat : String → Option FileType
  readlink : String → Option String
  getcwd : String
  absolute : getcwd.toList.head? = some '/'

theorem FileSystem.absolute_root : "/".toList.head? = some '/' := rfl

namespace Util

def getCurrentDirectory (fs : FileSystem) : String := normalizePathSeparators fs.getcwd

/-- The path before the last separator. -/
def dirname (path : String) : String :=
  match path.toList.reverse.dropWhile fun c ↦ ¬ (c = '/' ∨ c = '\\') with
  | [] => "."
  | _ :: rest => if rest.isEmpty then "/" else String.ofList rest.reverse

/-- What the loop of `canonicalizePath` keeps: the components from the current one on, what has
been resolved, the links that have been followed, and whether one of them came up again. -/
structure Canonicalization where
  components : List String
  result : List String
  sawlinks : Finset String
  sawLoop : Bool

def addComponent (component : String) (result : List String) : List String :=
  if component.isEmpty ∧ ¬ result.isEmpty then result
  else if component = "." then result
  else if component = ".." then
    if result.length > 1 then result.dropLast else result
  else result ++ [component]

/-- The target of a symbolic link, as far as it fits into the buffer. -/
def readLink (fs : FileSystem) (soFar : String) : Option String :=
  if fs.lstat soFar = some .symbolicLink then
    (fs.readlink soFar).bind fun target ↦
      let linkbuf := target.toList.take 2047
      if linkbuf.length > 0 then some (String.ofList linkbuf) else none
  else none

/-- Goes on with the components of a link instead of the one that has been added last. With an
absolute one we start over again after its first component, which is not looked at. -/
def followLink (newpath : String) (c : Canonicalization) : Canonicalization :=
  let components := split '/' newpath ++ c.components
  if isAbsolutePath newpath then
    { c with components := components.tail, result := [""] }
  else { c with components, result := c.result.dropLast }

/-- A link that comes up again is taken for a loop, and no link. -/
def checkLink (fs : FileSystem) (c : Canonicalization) : Canonicalization :=
  if c.result.length > 1 then
    let soFar := "/".intercalate c.result
    if soFar ∈ c.sawlinks then { c with sawLoop := true }
    else
      match readLink fs soFar with
      | none => c
      | some newpath => followLink newpath { c with sawlinks := insert soFar c.sawlinks }
  else c

def canonicalizeStep (fs : FileSystem) (component : String) (c : Canonicalization) :
    Canonicalization :=
  checkLink fs { c with result := addComponent component c.result }

def canonicalizeLoop (fs : FileSystem) : ℕ → Canonicalization → Option Canonicalization
  | 0, _ => none
  | fuel + 1, c =>
    match c.components with
    | [] => some c
    | component :: components =>
      canonicalizeLoop fs fuel (canonicalizeStep fs component { c with components })

/-- A path from the root, with separators of one kind. -/
def absolutePath (fs : FileSystem) (path : String) : String :=
  let path := normalizePathSeparators path
  if isAbsolutePath path then path else getCurrentDirectory fs ++ "/" ++ path

/-- The canonical path, and whether a loop of links was seen on the way. -/
def canonicalizePath (fs : FileSystem) (fuel : ℕ) (path : String) : Option (String × Bool) :=
  if path.isEmpty then none
  else
    (canonicalizeLoop fs fuel ⟨split '/' (absolutePath fs path), [], ∅, false⟩).map fun c ↦
      let canonical := "/".intercalate c.result
      (if c.result.length = 1 then canonical ++ "/" else canonical, c.sawLoop)

end Util

end Abuild
