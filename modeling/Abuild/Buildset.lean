import Abuild.BuildForest
import Abuild.Library.Fallible
import Abuild.Library.Saturation

/-!
The construction of the build set, from `Abuild-buildset.cc`. The items that are selected
first are expanded in passes by their dependencies, by the items that they ask to be built
along with them and, in the first pass or in all of them, by reverse dependencies and by
traits; the plugins of all these are added at last. The map of the build set may hold null
pointers, and a function returns nothing where one is used or where `fatal` is called. The
loops are run with fuel.
-/

set_option autoImplicit false
set_option relaxedAutoImplicit false

namespace Abuild

open Std (TreeMap TreeSet)

namespace BuildAlso

def getOrderNum (also : BuildAlso) : ℕ :=
  (if also.isTree then 1 else 0) + (if also.desc then 2 else 0) +
    (if also.withTreeDeps then 4 else 0)

instance : Ord BuildAlso := ⟨compareLex (compareOn getOrderNum) (compareOn BuildAlso.name)⟩

instance : Std.TransOrd BuildAlso :=
  inferInstanceAs (Std.TransCmp (compareLex (compareOn getOrderNum) (compareOn BuildAlso.name)))

theorem eq_of_getOrderNum {a b : BuildAlso} (hnum : a.getOrderNum = b.getOrderNum)
    (hname : a.name = b.name) : a = b := by
  obtain ⟨name, isTree, desc, withTreeDeps⟩ := a
  obtain ⟨name', isTree', desc', withTreeDeps'⟩ := b
  obtain rfl : name = name' := hname
  revert hnum
  cases isTree <;> cases desc <;> cases withTreeDeps <;> cases isTree' <;> cases desc' <;>
    cases withTreeDeps' <;> simp [getOrderNum]

instance : Std.LawfulEqOrd BuildAlso where
  eq_of_compare {a b} h := by
    obtain ⟨hnum, hname⟩ := Ordering.then_eq_eq.mp h
    exact eq_of_getOrderNum (compare_eq_iff_eq.mp hnum) (compare_eq_iff_eq.mp hname)

end BuildAlso

/-- The items of the build set by their names. -/
abbrev Buildset := TreeMap String (Option BuildItem)

/-- What the command line and the current directory say about the build set. Whether a
name matches the pattern for items is left to the library for regular expressions. -/
structure BuildsetOptions where
  buildsetName : String
  cleansetName : String
  buildsetNamedItems : TreeSet String
  buildsetPattern : Option (String → Bool)
  onlyWithTraits : List String
  relatedByTraits : List String
  withRdeps : Bool
  repeatExpansion : Bool
  applyTargetsToDeps : Bool
  specialTarget : String
  localTree : String
  thisName : String
  currentDirectory : String

namespace Buildset

def items (buildset : Buildset) : Option (List BuildItem) := buildset.values.mapM id

/-- Adds an item where there is none of the name, and tells whether one was added. -/
def addItem (builditems : BuildItemMap) (s : Buildset × Bool) (itemName : String) :
    Buildset × Bool :=
  if s.1.contains itemName then s else (s.1.insert itemName builditems[itemName]?, true)

def addItems (builditems : BuildItemMap) (toAdd : List String) (buildset : Buildset) :
    Buildset × Bool :=
  toAdd.foldl (addItem builditems) (buildset, false)

/-! ### Local items that are picked out -/

/-- Adds the local items that have the traits asked for and that a predicate picks out. -/
def populateBuildset (o : BuildsetOptions) (builditems : BuildItemMap)
    (pred : BuildItem → Option Bool) (buildset : Buildset) : Option (Buildset × Bool) :=
  builditems.toList.foldlM
    (fun (buildset, addedAny) (itemName, item) ↦
      if buildset.contains itemName then some (buildset, addedAny)
      else do
        let picked ← pred item
        if picked && item.isLocal && item.hasTraits o.onlyWithTraits then
          some (buildset.insert itemName (some item), true)
        else some (buildset, addedAny))
    (buildset, false)

/-- Whether an item is one that another item asks to be built. -/
def isBuildAlso (buildtrees : BuildTreeMap) (builditems : BuildItemMap) (item : BuildItem)
    (also : BuildAlso) : Option Bool :=
  if also.isTree then do
    let tree ← buildtrees[also.name]?
    if also.withTreeDeps then
      let trees := tree.expandedTreeDepsAndLocal.toList
      if also.desc then some (item.isInTreesAndAtOrBelowPath trees tree.rootPath)
      else some (item.isInTrees trees)
    else if also.desc then some (item.isAtOrBelowPath tree.rootPath)
    else some (item.isInTree also.name)
  else if also.withTreeDeps then none
  else do
    let other ← builditems[also.name]?
    if also.desc then some (item.isAtOrBelowPath other.getAbsolutePath)
    else some (item.itemName = also.name)

def itemIsInBuildAlso (buildtrees : BuildTreeMap) (builditems : BuildItemMap)
    (buildAlso : List BuildAlso) (item : BuildItem) : Option Bool :=
  match buildAlso with
  | [] => some false
  | also :: rest => do
    let found ← isBuildAlso buildtrees builditems item also
    if found then some true else itemIsInBuildAlso buildtrees builditems rest item

/-- One round of `addBuildAlsoToBuildset`. -/
def buildAlsoRound (o : BuildsetOptions) (buildtrees : BuildTreeMap) (builditems : BuildItemMap)
    (s : Buildset × Bool) : Option ((Buildset × Bool) × Bool) := do
  let members ← items s.1
  let toAdd := (members.flatMap BuildItem.getBuildAlso).foldl (·.insert ·) (∅ : TreeSet BuildAlso)
  let (buildset, adding) ← populateBuildset o builditems
    (itemIsInBuildAlso buildtrees builditems toAdd.toList) s.1
  some ((buildset, s.2 || adding), adding)

def addBuildAlsoToBuildset (o : BuildsetOptions) (buildtrees : BuildTreeMap)
    (builditems : BuildItemMap) (fuel : ℕ) (buildset : Buildset) : Option (Buildset × Bool) :=
  Saturation.untilStable (buildAlsoRound o buildtrees builditems) fuel (buildset, false)

/-! ### The passes of the expansion -/

def expandByDependencies (builditems : BuildItemMap) (addDependencies : Bool)
    (buildset : Buildset) : Option (Buildset × Bool) :=
  if addDependencies then do
    let members ← items buildset
    some (addItems builditems (members.flatMap BuildItem.expandedDependencies) buildset)
  else some (buildset, false)

/-- The items that have a dependency in the build set. -/
def dependents (builditems : BuildItemMap) (buildset : Buildset) : List String :=
  (builditems.toList.filter fun (_, item) ↦ item.deps.any (buildset.contains ·)).map Prod.fst

def rdepsRound (builditems : BuildItemMap) (s : Buildset × Bool) :
    Option ((Buildset × Bool) × Bool) :=
  let (buildset, addingRdeps) := addItems builditems (dependents builditems s.1) s.1
  some ((buildset, s.2 || addingRdeps), addingRdeps)

def expandByRdeps (o : BuildsetOptions) (builditems : BuildItemMap) (fuel : ℕ)
    (buildset : Buildset) : Option (Buildset × Bool) :=
  if o.withRdeps then Saturation.untilStable (rdepsRound builditems) fuel (buildset, false)
  else some (buildset, false)

/-- The items that have all traits of a list, each with reference to an item of the build
set. -/
def relatedItems (builditems : BuildItemMap) (traits : List String) (buildset : Buildset) :
    List String :=
  (builditems.toList.filter fun (_, item) ↦ traits.all fun trait ↦
    match item.traitData.traitData[trait]? with
    | some referentItems => referentItems.toList.any (buildset.contains ·)
    | none => false).map Prod.fst

/-- The state of the expansion between two passes. -/
structure Expansion where
  buildset : Buildset
  explicitTargetItems : TreeSet String
  firstPass : Bool

def expandByTraits (o : BuildsetOptions) (builditems : BuildItemMap) (buildset : Buildset)
    (explicitTargetItems : TreeSet String) : (Buildset × Bool) × TreeSet String :=
  if o.relatedByTraits.isEmpty then ((buildset, false), explicitTargetItems)
  else
    let toAdd := relatedItems builditems o.relatedByTraits buildset
    (addItems builditems toAdd buildset,
      if o.applyTargetsToDeps then explicitTargetItems
      else toAdd.foldl (·.insert ·) explicitTargetItems)

/-- One pass of the loop, and whether it has expanded the build set. -/
def expansionPass (o : BuildsetOptions) (buildtrees : BuildTreeMap) (builditems : BuildItemMap)
    (addDependencies : Bool) (fuel : ℕ) (s : Expansion) : Option (Expansion × Bool) := do
  let (buildset, byDependencies) ← expandByDependencies builditems addDependencies s.buildset
  let (buildset, byBuildAlso) ← addBuildAlsoToBuildset o buildtrees builditems fuel buildset
  if !(o.repeatExpansion || s.firstPass) then
    some ({ s with buildset }, byDependencies || byBuildAlso)
  else
    let (buildset, byRdeps) ← expandByRdeps o builditems fuel buildset
    let ((buildset, byTraits), explicitTargetItems) :=
      expandByTraits o builditems buildset s.explicitTargetItems
    some (⟨buildset, explicitTargetItems, false⟩,
      byDependencies || byBuildAlso || byRdeps || byTraits)

/-- Whether the dependencies of the items in the build set are added to it. -/
def addsDependencies (o : BuildsetOptions) (cleaning : Bool) : Bool :=
  !cleaning || o.applyTargetsToDeps || o.withRdeps

/-- The expansion of the selected items, before their plugins are added. -/
def expandBuildset (o : BuildsetOptions) (buildtrees : BuildTreeMap) (builditems : BuildItemMap)
    (cleaning : Bool) (fuel : ℕ) (selected : Buildset) : Option Expansion := do
  let (buildset, _) ← addBuildAlsoToBuildset o buildtrees builditems fuel selected
  let explicitTargetItems : TreeSet String :=
    if !o.applyTargetsToDeps && o.relatedByTraits.isEmpty then .ofList buildset.keys else ∅
  Saturation.untilStable
    (expansionPass o buildtrees builditems (addsDependencies o cleaning) fuel) fuel
    ⟨buildset, explicitTargetItems, true⟩

/-- The build set with the plugins of its items. -/
def addPlugins (builditems : BuildItemMap) (addDependencies : Bool) (buildset : Buildset) :
    Option Buildset :=
  if addDependencies then do
    let members ← items buildset
    some ((members.flatMap BuildItem.plugins).foldl
      (fun buildset plugin ↦ buildset.insert plugin builditems[plugin]?) buildset)
  else some buildset

/-! ### The whole computation -/

def setName (o : BuildsetOptions) : String :=
  if o.buildsetName.isEmpty then o.cleansetName else o.buildsetName

def cleaning (o : BuildsetOptions) : Bool :=
  if (setName o).isEmpty then !o.thisName.isEmpty && o.specialTarget = "clean"
  else !o.cleansetName.isEmpty

/-- The named items that are not known. -/
def unknownItems (builditems : BuildItemMap) (namedItems : TreeSet String) : List String :=
  namedItems.toList.filter fun name ↦ name ∉ builditems.values.map BuildItem.itemName

/-- What is found under a name, where one is given. -/
def lookUp {β : Type} (m : TreeMap String β) (name : String) : Option (Option β) :=
  if name.isEmpty then some none else (m[name]?).map some

def populate (o : BuildsetOptions) (builditems : BuildItemMap) (pred : BuildItem → Bool) :
    Option Buildset :=
  (populateBuildset o builditems (fun item ↦ some (pred item)) ∅).map Prod.fst

def currentItem (o : BuildsetOptions) (thisItem : Option BuildItem) : Buildset :=
  match thisItem with
  | some item => (∅ : Buildset).insert o.thisName (some item)
  | none => ∅

/-- The items of a build set that has a name of its own. -/
def selectBySetName (o : BuildsetOptions) (builditems : BuildItemMap) (thisTree : Option BuildTree)
    (thisItem : Option BuildItem) : Option Buildset :=
  let name := setName o
  if name = "all" then populate o builditems BuildItem.isLocal
  else if name = "deptrees" then
    thisTree.bind fun tree ↦
      populate o builditems (·.isInTrees tree.expandedTreeDepsAndLocal.toList)
  else if name = "descdeptrees" then
    thisTree.bind fun tree ↦
      populate o builditems
        (·.isInTreesAndAtOrBelowPath tree.expandedTreeDepsAndLocal.toList o.currentDirectory)
  else if name = "local" then populate o builditems (·.isInTree o.localTree)
  else if name = "desc" then populate o builditems (·.isAtOrBelowPath o.currentDirectory)
  else if name = "deps" then
    some <| ((thisItem.map BuildItem.expandedDependencies).getD []).foldl
      (fun buildset dep ↦ buildset.insert dep builditems[dep]?) ∅
  else if name = "current" then some (currentItem o thisItem)
  else none

/-- The items that are selected first, and the errors about them. -/
def selectBuildset (o : BuildsetOptions) (buildtrees : BuildTreeMap) (builditems : BuildItemMap) :
    Option (Buildset × List ErrorMessage) := do
  let thisTree ← lookUp buildtrees o.localTree
  let thisItem ← lookUp builditems o.thisName
  let name := setName o
  if name.isEmpty then some (currentItem o thisItem, [])
  else if o.localTree.isEmpty ∧ (name = "deptrees" ∨ name = "local" ∨ name = "descdeptrees") then
    some (∅, [(.empty, "build set \"" ++ name ++ "\" is invalid when" ++
      " the current build item is not part of any tree")])
  else if ¬ o.buildsetNamedItems.isEmpty then
    let unknown := unknownItems builditems o.buildsetNamedItems
    let errors := if unknown.isEmpty then [] else
      [(.empty, "unable to add unknown build items to build set: " ++ ", ".intercalate unknown)]
    (populate o builditems fun item ↦ o.buildsetNamedItems.contains item.itemName).map (·, errors)
  else
    match o.buildsetPattern with
    | some isMatch => (populate o builditems fun item ↦ isMatch item.itemName).map (·, [])
    | none => (selectBySetName o builditems thisTree thisItem).map (·, [])

/-- The build set, the items that are built with explicit targets, and the errors. -/
def computeBuildset (o : BuildsetOptions) (buildtrees : BuildTreeMap) (builditems : BuildItemMap)
    (fuel : ℕ) : Option (Buildset × TreeSet String × List ErrorMessage) := do
  let (selected, errors) ← selectBuildset o buildtrees builditems
  let expanded ← expandBuildset o buildtrees builditems (cleaning o) fuel selected
  let buildset ← addPlugins builditems (addsDependencies o (cleaning o)) expanded.buildset
  some (buildset,
    if o.applyTargetsToDeps then buildset.keys.foldl (·.insert ·) expanded.explicitTargetItems
    else expanded.explicitTargetItems,
    errors)

end Buildset

end Abuild
