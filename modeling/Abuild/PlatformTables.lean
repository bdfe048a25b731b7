import Abuild.DependencyGraph
import Abuild.KeyVal
import Abuild.Platform

/-!
The tables of `PlatformData.cc` while platforms and their types are added to them, and `check`,
which is called again whenever a plugin has added more. An addition that throws an exception leaves
what it has done before; its caller reports the message and goes on. After a check that throws, the
program ends.
-/

set_option autoImplicit false
set_option relaxedAutoImplicit false

namespace Abuild

open Std (TreeMap)

structure PlatformTables where
  initializing : Bool
  checked : Bool
  targetTypes : TreeMap String TargetType
  platformTypes : TreeMap String String
  platformsByType : TreeMap String (List (String × Bool))
  compatiblePlatformTypes : TreeMap String (List String)
  platformDeclaration : TreeMap String ℤ
  platformTypeParents : TreeMap String String
  platformGraph : DependencyGraph

namespace PlatformTables

def ptNative : String := "native"

def ptJava : String := "java"

def platformJava : String := "java"

/-- The item of a platform in the graph. -/
def platformItem (platform : String) : String := "platform " ++ platform

/-- The item of a platform type in the graph. -/
def platformTypeItem (platformType : String) : String := "platform type " ++ platformType

/-- The regular expression that consists of a text and `(\S+)`. -/
def matchItem (front item : String) : Option String :=
  match item.toList.dropPrefix? front.toList with
  | some name =>
    if name.isEmpty ∨ name.any KeyVal.isSpace then none else some (String.ofList name)
  | none => none

def matchPlatform (item : String) : Option String := matchItem (platformItem "") item

def matchPlatformType (item : String) : Option String := matchItem (platformTypeItem "") item

/-! ### Additions -/

/-- The message is that of an exception. -/
def addPlatformType (d : PlatformTables) (platformType : String) (targetType : TargetType)
    (parentPlatformType : String) : Option (PlatformTables × Option String) :=
  let d := { d with checked := false }
  if ¬ (d.initializing ∨ targetType = .objectCode) then
    some (d, some ("platform types may not be added to target type " ++ targetType.getName))
  else if d.targetTypes.contains platformType then
    some (d, some ("platform type " ++ platformType ++ " has been registered multiple times"))
  else do
    let platformGraph ← d.platformGraph.addItem (platformTypeItem platformType)
    let d := { d with
      targetTypes := d.targetTypes.insert platformType targetType
      platformTypeParents := d.platformTypeParents.insert platformType parentPlatformType
      platformGraph }
    if parentPlatformType.isEmpty then some (d, none)
    else if targetType ≠ .objectCode then none
    else
      match d.targetTypes[parentPlatformType]? with
      | none =>
        some (d, some ("platform type \"" ++ platformType ++ "\" has unknown parent type \"" ++
          parentPlatformType ++ "\""))
      | some parentTargetType =>
        if parentTargetType ≠ .objectCode then
          some (d, some ("platform type \"" ++ platformType ++ "\" has parent type " ++
            parentPlatformType ++ "\", which is not in target type \"" ++
            TargetType.objectCode.getName ++ "\""))
        else do
          let platformGraph ← d.platformGraph.addDependency (platformTypeItem platformType)
            (platformTypeItem parentPlatformType)
          some ({ d with platformGraph }, none)

def addPlatform (d : PlatformTables) (platform platformType : String) (lowpri : Bool) :
    Option (PlatformTables × Option String) :=
  let d := { d with checked := false }
  if d.platformDeclaration.contains platform then
    some (d, some ("platform " ++ platform ++ " has already been registered"))
  else do
    let n : ℤ := d.platformDeclaration.size
    let platformGraph ← d.platformGraph.addItem (platformItem platform)
    let d := { d with
      platformDeclaration := d.platformDeclaration.insert platform (if lowpri then -n else n)
      platformGraph }
    if ¬ d.targetTypes.contains platformType then
      some (d, some ("platform " ++ platform ++ " belongs to unknown platform type " ++
        platformType))
    else do
      let platformGraph ← d.platformGraph.addDependency (platformTypeItem platformType)
        (platformItem platform)
      some ({ d with platformGraph, platformTypes := d.platformTypes.insert platform platformType },
        none)

/-! ### `check` -/

/-- What `check` finds out about a platform type: its platforms, with those that are selected, the
types that are compatible with it, and the selector that has been used. -/
structure TypeEntry where
  platforms : List (String × Bool)
  compatible : List String
  usedSelector : Option String

def findSelector (selectors : TreeMap String PlatformSelector) (platformType : String)
    (targetType : TargetType) : Option (String × PlatformSelector) :=
  match selectors[platformType]? with
  | some ps => some (platformType, ps)
  | none =>
    if targetType = .objectCode then
      selectors[PlatformSelector.any]?.map fun ps ↦ (PlatformSelector.any, ps)
    else none

/-- Platforms that were declared later come first. -/
def declarationOrder (d : PlatformTables) (p1 p2 : String × Bool) : Bool :=
  d.platformDeclaration.getD p1.1 0 > d.platformDeclaration.getD p2.1 0

def selectFirst : List (String × Bool) → List (String × Bool)
  | [] => []
  | (platform, _) :: platforms => (platform, true) :: platforms

/-- The platforms with those that are selected, and whether the selector has been used. -/
def selectPlatforms (ps : Option PlatformSelector) (platforms : List (String × Bool)) :
    Option (List (String × Bool) × Bool) :=
  match platforms, ps with
  | [], _ => some ([], false)
  | platforms, none => some (selectFirst platforms, false)
  | first :: rest, some ps =>
    if ps.skip then some (first :: rest, true)
    else if ps.dfault then some (selectFirst (first :: rest), true)
    else do
      let m ← PlatformSelector.Matcher.new first.1 ps
      let platforms ← (first :: rest).mapM fun p ↦
        (m.isMatch p.1).map fun selected ↦ (p.1, selected)
      if platforms.any (·.2) then some (platforms, true) else some (selectFirst platforms, false)

def checkType (d : PlatformTables) (selectors : TreeMap String PlatformSelector)
    (platformType : String) (targetType : TargetType) : Option (Except String TypeEntry) :=
  let selector := findSelector selectors platformType targetType
  if selector.any fun (_, ps) ↦ !ps.skip && targetType ≠ .objectCode then
    some (.error
      "platform selectors for non-object-code platform types may only specify skip")
  else do
    let deps ← d.platformGraph.getDirectDependencies (platformTypeItem platformType)
    let platforms := (deps.filterMap matchPlatform).map fun platform ↦ (platform, false)
    let sdeps ← d.platformGraph.getSortedDependencies (platformTypeItem platformType)
    let compatible := sdeps.dropLast.reverse.filterMap matchPlatformType
    let (platforms, used) ← selectPlatforms (selector.map Prod.snd)
      (platforms.insertionSort fun p1 p2 ↦ d.declarationOrder p1 p2)
    some (.ok ⟨platforms, compatible, if used then selector.map Prod.fst else none⟩)

/-- The compatible types are added to those that are there. -/
def addEntry (d : PlatformTables) (platformType : String) (entry : TypeEntry) : PlatformTables :=
  { d with
    platformsByType := d.platformsByType.insert platformType entry.platforms
    compatiblePlatformTypes := d.compatiblePlatformTypes.insert platformType
      (d.compatiblePlatformTypes.getD platformType [] ++ entry.compatible) }

def checkTypes (selectors : TreeMap String PlatformSelector) :
    List (String × TargetType) → PlatformTables → TreeMap String String →
      Option (PlatformTables × TreeMap String String × Option String)
  | [], d, unusedSelectors => some (d, unusedSelectors, none)
  | (platformType, targetType) :: types, d, unusedSelectors => do
    match ← d.checkType selectors platformType targetType with
    | .error message => some (d, unusedSelectors, some message)
    | .ok entry =>
      checkTypes selectors types (d.addEntry platformType entry)
        (entry.usedSelector.elim unusedSelectors unusedSelectors.erase)

def graphErrors (unknowns : ItemMap) (cycles : List ItemList) : String :=
  let unknownErrors := unknowns.toList.flatMap fun (node, items) ↦
    items.map fun unknown ↦ "  " ++ node ++ " contains unknown item " ++ unknown ++ "\n"
  let cycleErrors := cycles.map fun cycle ↦
    "  circular nesting detected: " ++ " -> ".intercalate cycle ++ " -> " ++ cycle.headD ""
  String.join (unknownErrors ++ cycleErrors)

def check (d : PlatformTables) (selectors : TreeMap String PlatformSelector)
    (unusedSelectors : TreeMap String String) :
    Option (PlatformTables × TreeMap String String × Option String) := do
  let d := { d with checked := true }
  let (result, platformGraph) ← d.platformGraph.check
  let d := { d with platformGraph }
  if ¬ result then do
    let (unknowns, cycles) ← d.platformGraph.getErrors
    some (d, unusedSelectors, some (graphErrors unknowns cycles))
  else checkTypes selectors d.targetTypes.toList { d with platformsByType := ∅ } unusedSelectors

/-! ### Queries -/

def isPlatformTypeValid (d : PlatformTables) (platformType : String) : Option Bool :=
  if d.checked then some (d.platformsByType.contains platformType) else none

def getPlatformsByType (d : PlatformTables) (platformType : String) :
    Option (List (String × Bool)) := do
  if ← d.isPlatformTypeValid platformType then d.platformsByType[platformType]? else none

/-- What a build tree knows about platforms. -/
def platformData (d : PlatformTables) : PlatformData where
  platformTypes := d.platformTypes
  compatiblePlatformTypes := d.compatiblePlatformTypes

def getCompatiblePlatformTypes (d : PlatformTables) (platform : String) :
    Option (List String) := do
  match d.platformTypes[platform]? with
  | some platformType =>
    if ← d.isPlatformTypeValid platformType then
      d.platformData.getCompatiblePlatformTypes platform
    else none
  | none => d.platformData.getCompatiblePlatformTypes platform

/-! ### Sequences of calls -/

inductive Call
  | addPlatformType (platformType : String) (targetType : TargetType) (parentPlatformType : String)
  | addPlatform (platform platformType : String) (lowpri : Bool)
  | check (selectors : TreeMap String PlatformSelector) (unusedSelectors : TreeMap String String)

/-- An exception of an addition is caught, and one of a check ends the program. -/
def call (d : PlatformTables) : Call → Option PlatformTables
  | .addPlatformType platformType targetType parentPlatformType =>
    (d.addPlatformType platformType targetType parentPlatformType).map Prod.fst
  | .addPlatform platform platformType lowpri =>
    (d.addPlatform platform platformType lowpri).map Prod.fst
  | .check selectors unusedSelectors =>
    match d.check selectors unusedSelectors with
    | some (d, _, none) => some d
    | _ => none

def initial : PlatformTables where
  initializing := true
  checked := false
  targetTypes := ∅
  platformTypes := ∅
  platformsByType := ∅
  compatiblePlatformTypes := ∅
  platformDeclaration := ∅
  platformTypeParents := ∅
  platformGraph := .new

/-- The types and platforms that every build tree has. -/
def builtIn : List Call :=
  [.addPlatformType PlatformData.ptIndep .platformIndependent "",
    .addPlatformType ptNative .objectCode "",
    .addPlatformType ptJava .java "",
    .addPlatform PlatformData.platformIndep PlatformData.ptIndep false,
    .addPlatform platformJava ptJava false]

def new : Option PlatformTables :=
  (builtIn.foldlM call initial).map fun d ↦ { d with initializing := false }

/-- A sequence of calls on a new `PlatformData`. -/
def run (calls : List Call) : Option PlatformTables := new.bind fun d ↦ calls.foldlM call d

end PlatformTables

end Abuild
