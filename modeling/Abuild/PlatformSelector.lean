import Abuild.Platform

/-!
How a platform selector is read, from `PlatformSelector.cc`. What matches its regular expression is
split again where a selector is not one of the special ones.
-/

set_option autoImplicit false
set_option relaxedAutoImplicit false

namespace Abuild.PlatformSelector

/-! ### The regular expression -/

/-- A character of `[a-zA-Z0-9_-]`. -/
def isComponentChar (c : Char) : Bool := c.isAlphanum || c = '_' || c = '-'

/-- `[a-zA-Z0-9_-]+` -/
def isName (text : String) : Bool := !text.isEmpty && text.toList.all isComponentChar

def isComponent (text : String) : Bool := isName text || text = any

/-- Some components with dots between them. -/
def areComponents (least most : ℕ) (pattern : String) : Bool :=
  let components := Util.split '.' pattern
  least ≤ components.length && components.length ≤ most && components.all isComponent

/-- What comes after the beginning of a selector. -/
def patternOf (specifier selector : String) : Option String :=
  (selector.toList.dropPrefix? specifier.toList).map String.ofList

/-- The second group. -/
def isCriterion (selector : String) : Bool :=
  selector = "all" || selector = "skip" || selector = "default" ||
    (patternOf "option=" selector).any (fun pattern ↦ pattern.isEmpty || isComponent pattern) ||
    (patternOf "compiler=" selector).any (areComponents 1 2) ||
    (patternOf "platform=" selector).any (areComponents 4 5)

/-- The platform type, when there is one, and the rest. Neither has a colon. -/
def matchSelector (str : String) : Option (Option String × String) :=
  match Util.split ':' str with
  | [selector] => if isCriterion selector then some (none, selector) else none
  | [platformType, selector] =>
    if isName platformType && isCriterion selector then some (some platformType, selector)
    else none
  | _ => none

/-! ### The fields -/

def new : PlatformSelector := ⟨false, false, "", "", "", "", "", ""⟩

/-- A platform of four fields leaves the option as it is. -/
def setPlatform (self : PlatformSelector) (fields : Fields) : PlatformSelector :=
  { self with
    os := fields.os
    cpu := fields.cpu
    toolset := fields.toolset
    compiler := fields.compiler
    option := if fields.option.isEmpty then self.option else fields.option }

/-- The fields of a selector that is not a special one. -/
def readPattern (self : PlatformSelector) (specifier pattern : String) :
    Option PlatformSelector :=
  if specifier = "option" then some { self with option := pattern }
  else if specifier = "compiler" then
    match Util.split '.' pattern with
    | [compiler] => some { self with compiler }
    | [compiler, option] => some { self with compiler, option }
    | _ => none
  else if specifier = "platform" then (splitPlatform pattern).map self.setPlatform
  else none

/-- The selector after the call, and whether the string is valid. An assertion fails, or an
exception is thrown, for a string that the regular expression does not rule out. -/
def initializeWith (self : PlatformSelector) (str : String) : Option (PlatformSelector × Bool) :=
  match matchSelector str with
  | none => some (self, false)
  | some (platformType, selector) =>
    let self := { self with platformType := platformType.getD any }
    if selector = "skip" then some ({ self with skip := true }, true)
    else if selector = "default" then
      if self.platformType = any then some (self, false)
      else some ({ self with dfault := true }, true)
    else if selector = "all" then
      some ({ self with os := any, cpu := any, toolset := any, compiler := any, option := any },
        true)
    else
      match Util.split '=' selector with
      | [specifier, pattern] =>
        (self.readPattern specifier pattern).map fun self ↦ (self, true)
      | _ => none

end Abuild.PlatformSelector
