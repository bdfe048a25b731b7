import Abuild.Platform

/-!
Build items (`BuildItem.cc`) with what they keep of their configuration file
(`ItemConfig.cc`). The functions here change one item; an assertion of the
validation that fails is recorded and the call goes on, as it does where
assertions are not compiled in, so that every failure of a run can be spoken of
and not only the first, at which other programs stop.
-/

set_option autoImplicit false
set_option relaxedAutoImplicit false

namespace Abuild

open Std (TreeMap TreeSet)

/-- An assertion of the code that validates forests. -/
inductive Assertion
  /-- `resolveFromBackingAreas`: a forest is the last of its sorted dependencies. -/
  | sortedDependenciesEnd
  /-- `resolveFromBackingAreas`: a tree comes from two places. -/
  | treeLocations
  /-- `resolveFromBackingAreas`: an item comes from two places. -/
  | itemLocations
  /-- `BuildTree::removeTreeDep`: the tree dependencies are not expanded yet. -/
  | expandedTreeDepsEmpty
  /-- `BuildItem::setOptionalDependencyPresence`: the dependencies are not expanded yet. -/
  | expandedDependenciesEmpty
deriving DecidableEq, Repr

/-- The errors that a part of the validation reports and the assertions that fail
in it. -/
structure Findings where
  errors : List ErrorMessage
  failed : List Assertion
deriving DecidableEq, Repr

namespace Findings

def none : Findings := ⟨[], []⟩

def error (location : FileLocation) (message : String) : Findings := ⟨[(location, message)], []⟩

def check (condition : Prop) [Decidable condition] (a : Assertion) : Findings :=
  ⟨[], if condition then [] else [a]⟩

instance : Append Findings := ⟨fun a b ↦ ⟨a.errors ++ b.errors, a.failed ++ b.failed⟩⟩

@[simp] theorem failed_none : none.failed = [] := rfl

@[simp] theorem failed_error (location : FileLocation) (message : String) :
    (error location message).failed = [] := rfl

@[simp] theorem failed_append (a b : Findings) : (a ++ b).failed = a.failed ++ b.failed := rfl

@[simp] theorem errors_none : none.errors = [] := rfl

@[simp] theorem errors_error (location : FileLocation) (message : String) :
    (error location message).errors = [(location, message)] := rfl

@[simp] theorem errors_check (condition : Prop) [Decidable condition] (a : Assertion) :
    (check condition a).errors = [] := rfl

@[simp] theorem errors_append (a b : Findings) : (a ++ b).errors = a.errors ++ b.errors := rfl

@[simp] theorem mem_failed_check {condition : Prop} [Decidable condition] {a b : Assertion} :
    b ∈ (check condition a).failed ↔ ¬ condition ∧ b = a := by
  unfold check
  by_cases h : condition <;> simp [h]

def concat (l : List Findings) : Findings := l.foldr (· ++ ·) none

@[simp] theorem mem_failed_concat {l : List Findings} {a : Assertion} :
    a ∈ (concat l).failed ↔ ∃ found ∈ l, a ∈ found.failed := by
  unfold concat
  induction l with
  | nil => simp
  | cons found l ih => simp [ih]

@[simp] theorem mem_errors_concat {l : List Findings} {e : ErrorMessage} :
    e ∈ (concat l).errors ↔ ∃ found ∈ l, e ∈ found.errors := by
  unfold concat
  induction l with
  | nil => simp
  | cons found l ih => simp [ih]

end Findings

/-- An item or a tree that is built along with another item. -/
structure BuildAlso where
  name : String
  isTree : Bool
  desc : Bool
  withTreeDeps : Bool
deriving DecidableEq, Repr

structure ItemConfig where
  name : String
  location : FileLocation
  absolutePath : String
  deps : List String
  optionalDeps : TreeSet String
  depPlatformTypes : TreeMap String String
  depPlatformSelectors : TreeMap String PlatformSelector
  buildAlso : List BuildAlso
  flagData : FlagData
  traitData : TraitData

/-- The platform type that a dependency was declared with, or the empty string, and
its selector. -/
def ItemConfig.getDepPlatformType (config : ItemConfig) (dep : String) :
    String × Option PlatformSelector :=
  match config.depPlatformTypes[dep]? with
  | some platformType => (platformType, config.depPlatformSelectors[dep]?)
  | none => ("", none)

structure BuildItem where
  itemName : String
  config : ItemConfig
  deps : List String
  flagData : FlagData
  traitData : TraitData
  treeName : String
  forestRoot : String
  backingDepth : ℕ
  targetType : TargetType
  platformTypes : TreeMap String (List String)
  platformData : Option PlatformData
  expandedDependencies : List String
  optionalDepPresence : TreeMap String Bool
  shadowedReferences : TreeSet String
  buildPlatforms : TreeSet String
  plugins : List String

namespace BuildItem

def new (itemName treeName : String) (config : ItemConfig) : BuildItem where
  itemName
  config
  deps := config.deps
  flagData := config.flagData
  traitData := config.traitData
  treeName
  forestRoot := ""
  backingDepth := 0
  targetType := .unknown
  platformTypes := ∅
  platformData := none
  expandedDependencies := []
  optionalDepPresence := ∅
  shadowedReferences := ∅
  buildPlatforms := ∅
  plugins := []

def getLocation (item : BuildItem) : FileLocation := item.config.location

def getAbsolutePath (item : BuildItem) : String := item.config.absolutePath

def getOptionalDeps (item : BuildItem) : TreeSet String := item.config.optionalDeps

def getBuildAlso (item : BuildItem) : List BuildAlso := item.config.buildAlso

def isLocal (item : BuildItem) : Bool := item.backingDepth = 0

def isInTree (item : BuildItem) (tree : String) : Bool := item.treeName = tree

def isInTrees (item : BuildItem) (trees : List String) : Bool := trees.contains item.treeName

def isAtOrBelowPath (item : BuildItem) (path : String) : Bool :=
  Util.isDirUnder item.getAbsolutePath path

def isInTreesAndAtOrBelowPath (item : BuildItem) (trees : List String) (path : String) : Bool :=
  item.isInTrees trees && item.isAtOrBelowPath path

def hasTraits (item : BuildItem) (traits : List String) : Bool :=
  traits.all item.traitData.hasTrait

def getReferences (item : BuildItem) : List String :=
  item.expandedDependencies ++ item.plugins ++ [item.itemName]

def incrementBackingDepth (item : BuildItem) : BuildItem :=
  { item with backingDepth := item.backingDepth + 1 }

/-- Records whether an optional dependency exists, and forgets one that does not. -/
def setOptionalDependencyPresence (item : BuildItem) (dep : String) (present : Bool) :
    BuildItem × Findings :=
  let item := { item with optionalDepPresence := item.optionalDepPresence.insert dep present }
  if present then (item, .none)
  else
    ({ item with
        deps := item.deps.filter (· ≠ dep)
        flagData := item.flagData.removeItem dep
        traitData := item.traitData.removeItem dep },
      .check item.expandedDependencies.isEmpty .expandedDependenciesEmpty)

def setExpandedDependencies (item : BuildItem) (expandedDependencies : List String) : BuildItem :=
  { item with
    expandedDependencies :=
      if expandedDependencies.getLast? = some item.itemName then expandedDependencies.dropLast
      else expandedDependencies }

def setShadowedReferences (item : BuildItem) (shadowedReferences : TreeSet String) : BuildItem :=
  { item with shadowedReferences }

def setPlugins (item : BuildItem) (plugins : List String) : BuildItem := { item with plugins }

def addBuildPlatform (item : BuildItem) (platform : String) : BuildItem :=
  { item with buildPlatforms := item.buildPlatforms.insert platform }

/-! ### Platforms -/

def getBuildablePlatforms (item : BuildItem) : List String :=
  item.platformTypes.values.flatten

/-- The first platform that the selector matches, or the empty string. -/
def findMatch (m : PlatformSelector.Matcher) : List String → Option String
  | [] => some ""
  | platform :: platforms => do
    if ← m.isMatch platform then some platform else findMatch m platforms

def getBestPlatformForType (item : BuildItem) (platformType : String)
    (ps : Option PlatformSelector) (platformSelectors : TreeMap String PlatformSelector) :
    Option String :=
  let ps := match ps with
    | some ps => some ps
    | none =>
      let general := match platformSelectors[platformType]? with
        | some ps => some ps
        | none => platformSelectors[PlatformSelector.any]?
      general.filter fun ps ↦ !ps.skip
  let platformType := match ps with
    | some ps => if ps.platformType ≠ PlatformSelector.any then ps.platformType else platformType
    | none => platformType
  match item.platformTypes[platformType]? with
  | some (first :: rest) => do
    let result ← match ps with
      | some ps =>
        if item.targetType = .objectCode ∧ ps.dfault = false then do
          let m ← PlatformSelector.Matcher.new first ps
          findMatch m (first :: rest)
        else some ""
      | none => some ""
    some (if result.isEmpty then first else result)
  | _ => some ""

def getBestPlatformForPlatform (self item : BuildItem) (platform : String)
    (platformSelectors : TreeMap String PlatformSelector) : Option String :=
  if self.targetType = .all ∨ platform ∈ self.getBuildablePlatforms then some platform
  else do
    let platformData ← item.platformData
    let compatibleTypes ← platformData.getCompatiblePlatformTypes platform
    match compatibleTypes.find? fun platformType ↦ self.platformTypes.contains platformType with
    | some platformType => self.getBestPlatformForType platformType none platformSelectors
    | none => some ""

end BuildItem

end Abuild
