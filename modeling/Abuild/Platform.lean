import Abuild.Basic

/-!
Platforms: the selectors by which a dependency or the user prefers some platforms
of a type (`PlatformSelector.cc`), and what a build tree knows about platforms and
their types after its platform data has been checked (`PlatformData.cc`).
-/

set_option autoImplicit false
set_option relaxedAutoImplicit false

namespace Abuild

open Std (TreeMap TreeSet)

structure PlatformSelector where
  skip : Bool
  dfault : Bool
  platformType : String
  os : String
  cpu : String
  toolset : String
  compiler : String
  option : String
deriving DecidableEq, Repr

namespace PlatformSelector

def any : String := "*"

/-- The fields of a platform name, of which there are four or five. -/
structure Fields where
  os : String
  cpu : String
  toolset : String
  compiler : String
  option : String
deriving DecidableEq, Repr

def splitPlatform (platform : String) : Option Fields :=
  match Util.split '.' platform with
  | [os, cpu, toolset, compiler] => some ⟨os, cpu, toolset, compiler, ""⟩
  | [os, cpu, toolset, compiler, option] => some ⟨os, cpu, toolset, compiler, option⟩
  | _ => none

/-- A selector with the fields that it takes from the first platform of a type. -/
structure Matcher where
  p : PlatformSelector
  defaultOs : String
  defaultCpu : String
  defaultToolset : String
  defaultCompiler : String
  defaultOption : String

def Matcher.new (firstPlatform : String) (p : PlatformSelector) : Option Matcher := do
  if p.dfault then none
  let fields ← splitPlatform firstPlatform
  some ⟨p, fields.os, fields.cpu, fields.toolset, fields.compiler, ""⟩

def Matcher.fieldsMatch (dfault selector platform : String) : Bool :=
  selector = any || (selector = "" && platform = dfault) || selector = platform

def Matcher.isMatch (m : Matcher) (platform : String) : Option Bool := do
  let fields ← splitPlatform platform
  some
    (fieldsMatch m.defaultOs m.p.os fields.os &&
      fieldsMatch m.defaultCpu m.p.cpu fields.cpu &&
      fieldsMatch m.defaultToolset m.p.toolset fields.toolset &&
      fieldsMatch m.defaultCompiler m.p.compiler fields.compiler &&
      fieldsMatch m.defaultOption m.p.option fields.option)

end PlatformSelector

structure PlatformData where
  platformTypes : TreeMap String String
  compatiblePlatformTypes : TreeMap String (List String)

namespace PlatformData

def platformIndep : String := "indep"

def ptIndep : String := "indep"

def getCompatiblePlatformTypes (d : PlatformData) (platform : String) : Option (List String) := do
  let compatible ← match d.platformTypes[platform]? with
    | some platformType => d.compatiblePlatformTypes[platformType]?
    | none => some []
  some (if platform ≠ platformIndep then compatible ++ [ptIndep] else compatible)

end PlatformData

end Abuild
