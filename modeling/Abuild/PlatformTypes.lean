import Abuild.BuildForest
import Abuild.PlatformTables

/-!
The platform types of build items, from `Abuild-traverse.cc`. `checkPlatformTypes` finds the target
type of the local items from the platform types that they declare. Later `updatePlatformTypes` goes
through the items so that dependencies come first, and lets an item of target type `all` inherit its
platform types where its dependencies agree on theirs.
-/

set_option autoImplicit false
set_option relaxedAutoImplicit false

namespace Abuild

open Std (TreeMap TreeSet)

namespace BuildItem

/-- In the order of a set. -/
def getPlatformTypes (item : BuildItem) : List String := item.platformTypes.keys

def setPlatformTypes (item : BuildItem) (platformTypes : List String) : BuildItem :=
  { item with
    platformTypes := platformTypes.foldl (fun types platformType ↦ types.insert platformType [])
      item.platformTypes }

def setTargetType (item : BuildItem) (targetType : TargetType) : BuildItem :=
  { item with targetType }

end BuildItem

def PlatformTables.getTargetType (d : PlatformTables) (platformType : String) :
    Option TargetType := do
  if ← d.isPlatformTypeValid platformType then d.targetTypes[platformType]? else none

namespace PlatformTypes

/-! ### `checkPlatformTypes` -/

/-- The target types of those platform types that are valid, and errors about the others. -/
def targetTypesOf (d : PlatformTables) (location : FileLocation) :
    List String → Option (List TargetType × Findings)
  | [] => some ([], .none)
  | platformType :: platformTypes => do
    if ← d.isPlatformTypeValid platformType then
      let targetType ← d.getTargetType platformType
      let (targetTypes, found) ← targetTypesOf d location platformTypes
      some (targetType :: targetTypes, found)
    else
      let (targetTypes, found) ← targetTypesOf d location platformTypes
      some (targetTypes,
        .error location ("unknown platform type \"" ++ platformType ++ "\"") ++ found)

/-- An item of no platform types builds nothing, and has target type `all`. -/
def checkItem (d : PlatformTables) (item : BuildItem) : Option (BuildItem × Findings) := do
  let (targetTypes, found) ← targetTypesOf d item.getLocation item.getPlatformTypes
  match targetTypes.dedup with
  | [] => some (item.setTargetType .all, found)
  | [targetType] => some (item.setTargetType targetType, found)
  | _ => some (item.setTargetType .all, found ++
      .error item.getLocation "platforms in different target types may not be mixed")

def checkEntry (platformData : TreeMap String PlatformTables)
    (r : BuildItemMap × Findings) (entry : String × BuildItem) :
    Option (BuildItemMap × Findings) := do
  let (itemName, item) := entry
  if item.isLocal then
    let d ← platformData[item.treeName]?
    let (item, found) ← checkItem d item
    some (r.1.insert itemName item, r.2 ++ found)
  else some r

/-- The platform data of a tree is with what its plugins have added. -/
def checkPlatformTypes (platformData : TreeMap String PlatformTables) (builditems : BuildItemMap) :
    Option (BuildItemMap × Findings) :=
  builditems.toList.foldlM (checkEntry platformData) (builditems, .none)

/-! ### `updatePlatformTypes` -/

/-- The loop over the dependencies of an item, with the platform types of the first of them, joined.
It ends early when the item is no candidate. -/
def checkCandidate (builditems : BuildItemMap) : List String → Option String →
    Option (Option String)
  | [], depPlatformTypes => some depPlatformTypes
  | depName :: deps, depPlatformTypes =>
    match builditems[depName]? with
    | none => none
    | some dep =>
      if dep.targetType = .all then none
      else
        let platformTypes := " ".intercalate dep.getPlatformTypes
        match depPlatformTypes with
        | none => checkCandidate builditems deps (some platformTypes)
        | some first =>
          if first = platformTypes then checkCandidate builditems deps (some first) else none

/-- The item and its first dependency are known to exist. -/
def updateItem (builditems : BuildItemMap) (itemName : String) : Option BuildItemMap := do
  let item ← builditems[itemName]?
  if ¬ item.isLocal then some builditems
  else if item.targetType ≠ .all then some builditems
  else
    match checkCandidate builditems item.deps none with
    | some (some _) =>
      let front ← item.deps.head?
      let firstDep ← builditems[front]?
      some (builditems.insert itemName
        ((item.setPlatformTypes firstDep.getPlatformTypes).setTargetType firstDep.targetType))
    | _ => some builditems

def updatePlatformTypes (forest : BuildForest) : Option BuildForest := do
  let buildItems ← forest.sortedItemNames.foldlM updateItem forest.buildItems
  some { forest with buildItems }

end PlatformTypes

end Abuild
