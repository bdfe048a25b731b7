import Abuild.BuildItem
import Abuild.DependencyGraph

/-!
Build forests and their validation, from `BuildTree.cc`, `BuildForest.cc` and
`Abuild-traverse.cc`. A forest has trees and items of its own and inherits those of
the forests it backs to. `validateForests` goes through the forests so that a
forest comes after those it backs to; it copies the trees and items that the forest
inherits, expands the dependencies of trees and of items, and looks for items whose
dependencies are resolved in another way than in their own forest.
-/

set_option autoImplicit false
set_option relaxedAutoImplicit false

namespace Abuild

open Std (TreeMap TreeSet)

/-! ### Trees -/

structure BuildTree where
  name : String
  rootPath : String
  location : FileLocation
  forestRoot : String
  treeDeps : List String
  optionalTreeDeps : TreeSet String
  omittedTreeDeps : TreeSet String
  expandedTreeDeps : List String
  expandedTreeDepsAndLocal : TreeSet String
  plugins : List String
  backingDepth : ℕ

namespace BuildTree

def fileConf : String := "Abuild.conf"

def new (name rootPath : String) (treeDeps : List String) (optionalTreeDeps : TreeSet String)
    (plugins : List String) : BuildTree where
  name
  rootPath
  location := .new (rootPath ++ "/" ++ fileConf) 0 0
  forestRoot := ""
  treeDeps
  optionalTreeDeps
  omittedTreeDeps := ∅
  expandedTreeDeps := []
  expandedTreeDepsAndLocal := ∅
  plugins
  backingDepth := 0

def isLocal (tree : BuildTree) : Bool := tree.backingDepth = 0

def incrementBackingDepth (tree : BuildTree) : BuildTree :=
  { tree with backingDepth := tree.backingDepth + 1 }

def setExpandedTreeDeps (tree : BuildTree) (exp : List String) : BuildTree :=
  let expandedTreeDeps := if exp.getLast? = some tree.name then exp.dropLast else exp
  { tree with
    expandedTreeDeps
    expandedTreeDepsAndLocal :=
      (expandedTreeDeps.foldl (·.insert ·) tree.expandedTreeDepsAndLocal).insert tree.name }

def removeTreeDep (tree : BuildTree) (item : String) : BuildTree × Findings :=
  ({ tree with
      treeDeps := tree.treeDeps.filter (· ≠ item)
      omittedTreeDeps := tree.omittedTreeDeps.insert item },
    .check tree.expandedTreeDeps.isEmpty .expandedTreeDepsEmpty)

def addPlugins (tree : BuildTree) (extraPlugins : TreeSet String) : BuildTree :=
  { tree with plugins := tree.plugins ++ extraPlugins.toList.filter (· ∉ tree.plugins) }

end BuildTree

/-! ### Forests -/

abbrev BuildTreeMap := TreeMap String BuildTree
abbrev BuildItemMap := TreeMap String BuildItem

structure BuildForest where
  rootPath : String
  buildTrees : BuildTreeMap
  buildItems : BuildItemMap
  backingAreas : List String
  deletedTrees : TreeSet String
  deletedItems : TreeSet String
  globalPlugins : TreeSet String
  treeAccessTable : TreeMap String (TreeSet String)
  sortedTreeNames : List String
  sortedItemNames : List String

/-- The forests by the paths of their roots. -/
abbrev BuildForestMap := TreeMap String BuildForest

namespace BuildForest

def propagateGlobals (forest : BuildForest) : BuildForest :=
  { forest with
    buildTrees := forest.buildTrees.map fun _ tree ↦ tree.addPlugins forest.globalPlugins }

/-! ### Inheritance from backing areas -/

def fileBacking : String := "Abuild.backing"

/-- The graph of the backing areas, in which an error is fatal. -/
def computeBackingGraph (forests : BuildForestMap) : Option DependencyGraph := do
  let g ← DependencyGraph.build <| DependencyGraph.additionsOf <|
    forests.toList.map fun (path, forest) ↦ (path, forest.backingAreas)
  let (okay, g) ← g.check
  if okay then some g else none

/-- What a forest has so far, and the deletions that have met nothing. -/
structure Resolution where
  buildTrees : BuildTreeMap
  buildItems : BuildItemMap
  treesNotDeleted : TreeSet String
  itemsNotDeleted : TreeSet String
  findings : Findings

def copyTree (treesToDelete : TreeSet String) (r : Resolution) (treeName : String)
    (tree : BuildTree) : Resolution :=
  if treesToDelete.contains treeName then
    { r with treesNotDeleted := r.treesNotDeleted.erase treeName }
  else
    match r.buildTrees[treeName]? with
    | some other =>
      if other.isLocal then r
      else { r with findings := r.findings ++
        (.check (tree.location ≠ other.location) .treeLocations ++
          (.error tree.location "this tree appears in multiple backing areas" ++
            .error other.location "here is another location for this tree")) }
    | none =>
      { r with buildTrees := r.buildTrees.insert treeName tree.incrementBackingDepth }

/-- The errors about an item that is deleted and in the forest itself. -/
def deletedItemErrors (location : FileLocation) (itemName : String) : Option BuildItem → Findings
  | some other =>
    .error location ("item \"" ++ itemName ++
        "\" is marked for deletion, but it appears locally in this forest") ++
      .error other.getLocation "here is the location of the item in this forest"
  | none => .none

def copyItem (treesToDelete itemsToDelete : TreeSet String) (location : FileLocation)
    (r : Resolution) (itemName : String) (item : BuildItem) : Resolution :=
  if treesToDelete.contains item.treeName then r
  else if itemsToDelete.contains itemName then
    { r with
      itemsNotDeleted := r.itemsNotDeleted.erase itemName
      findings := r.findings ++ deletedItemErrors location itemName r.buildItems[itemName]? }
  else
    match r.buildItems[itemName]? with
    | some other =>
      if other.isLocal then r
      else { r with findings := r.findings ++
        (.check (item.getLocation ≠ other.getLocation) .itemLocations ++
          (.error item.getLocation "this item appears in multiple backing areas" ++
            .error other.getLocation "here is another location for this item")) }
    | none =>
      { r with buildItems := r.buildItems.insert itemName item.incrementBackingDepth }

def copyArea (treesToDelete itemsToDelete : TreeSet String) (location : FileLocation)
    (r : Resolution) (area : BuildForest) : Resolution :=
  let r := area.buildTrees.toList.foldl
    (fun r (name, tree) ↦ copyTree treesToDelete r name tree) r
  area.buildItems.toList.foldl
    (fun r (name, item) ↦ copyItem treesToDelete itemsToDelete location r name item) r

/-- The trees and items that a forest inherits. A backing area that is covered by
another one is dropped. -/
def resolveFromBackingAreas (forests : BuildForestMap) (forest : BuildForest) (topPath : String) :
    Option (BuildForest × Findings) := do
  let location := FileLocation.new (topPath ++ "/" ++ fileBacking) 0 0
  let backingGraph ← computeBackingGraph forests
  let sorted ← forest.backingAreas.mapM backingGraph.getSortedDependencies
  let ends := (forest.backingAreas.zip sorted).map fun (area, deps) ↦
    Findings.check (deps.getLast? = some area) .sortedDependenciesEnd
  let covered := sorted.flatMap List.dropLast
  let backingAreas := forest.backingAreas.filter (· ∉ covered)
  let areas ← backingAreas.mapM (forests[·]?)
  let r := areas.foldl (copyArea forest.deletedTrees forest.deletedItems location)
    { buildTrees := forest.buildTrees
      buildItems := forest.buildItems
      treesNotDeleted := forest.deletedTrees
      itemsNotDeleted := forest.deletedItems
      findings := .none }
  let unseenTrees := r.treesNotDeleted.toList.map fun name ↦ Findings.error location
    ("tree \"" ++ name ++ "\" was marked for deletion but was not seen in a backing area")
  let unseenItems := r.itemsNotDeleted.toList.map fun name ↦ Findings.error location
    ("item \"" ++ name ++ "\" was marked for deletion but was not seen in a backing area")
  some
    ({ forest with
        buildTrees := r.buildTrees
        buildItems := r.buildItems
        backingAreas },
      .concat ends ++ (r.findings ++ (.concat unseenTrees ++ .concat unseenItems)))

/-! ### Tree and item dependencies -/

def cycleMessage (intro : String) (data : List String) : Findings :=
  .error .empty (intro ++ " -> ".intercalate data ++ " -> " ++ data.headD "")

/-- The errors of a checked graph, for the items that `location` has a place for. -/
def graphErrors (g : DependencyGraph) (location : String → FileLocation)
    (unknownMessage : String → String → String) (circular participates : String) : Findings :=
  let unknowns := g.unknowns.toList.flatMap fun (node, items) ↦ items.map fun unknown ↦
    Findings.error (location node) (unknownMessage node unknown)
  let cycles := g.cycles.map (cycleMessage circular)
  let members := (g.cycles.flatten.foldl (·.insert ·) (∅ : TreeSet String)).toList.map fun node ↦
    Findings.error (location node) (node ++ participates)
  .concat unknowns ++ (.concat cycles ++ .concat members)

/-- An optional dependency on a tree that is not in the forest is forgotten. -/
def removeAbsentTreeDeps (buildTrees : BuildTreeMap) (tree : BuildTree) : BuildTree × Findings :=
  tree.treeDeps.foldl
    (fun (tree, findings) dep ↦
      if tree.optionalTreeDeps.contains dep ∧ ¬ buildTrees.contains dep then
        let (tree, failed) := tree.removeTreeDep dep
        (tree, findings ++ failed)
      else (tree, findings))
    (tree, .none)

def checkTreeDependencies (forest : BuildForest) : Option (BuildForest × Findings) := do
  let removed := forest.buildTrees.map fun _ tree ↦ removeAbsentTreeDeps forest.buildTrees tree
  let g ← DependencyGraph.build <| DependencyGraph.additionsOf <|
    removed.toList.map fun (name, tree, _) ↦ (name, tree.treeDeps)
  let (okay, g) ← g.check
  let sorted ← g.getSortedGraph
  let buildTrees := removed.map fun name (tree, _) ↦
    tree.setExpandedTreeDeps ((g.getSortedDependencies name).getD [])
  let table := removed.keys.foldl
    (fun table name ↦ table.insert name <|
      ((g.getSortedDependencies name).getD []).foldl (·.insert ·) (table.getD name ∅))
    forest.treeAccessTable
  let location := fun name ↦ (buildTrees[name]?.map BuildTree.location).getD .empty
  some
    ({ forest with
        buildTrees
        treeAccessTable := table
        sortedTreeNames := sorted },
      .concat (removed.values.map Prod.snd) ++
        if okay then .none
        else graphErrors g location
          (fun node unknown ↦ "tree " ++ node ++ " depends on unknown build tree " ++ unknown)
          "circular dependency detected among build trees: "
          " participates in a circular tree dependency")

/-- Whether an optional dependency exists is recorded, and one that does not is
forgotten. -/
def recordOptionalDeps (buildItems : BuildItemMap) (item : BuildItem) : BuildItem × Findings :=
  item.deps.foldl
    (fun (item, findings) dep ↦
      if item.getOptionalDeps.contains dep then
        let (item, failed) := item.setOptionalDependencyPresence dep (buildItems.contains dep)
        (item, findings ++ failed)
      else (item, findings))
    (item, .none)

def checkItemDependencies (forest : BuildForest) : Option (BuildForest × Findings) := do
  let recorded := forest.buildItems.map fun _ item ↦ recordOptionalDeps forest.buildItems item
  let g ← DependencyGraph.build <| DependencyGraph.additionsOf <|
    recorded.toList.map fun (name, item, _) ↦ (name, item.deps)
  let (okay, g) ← g.check
  let sorted ← g.getSortedGraph
  let buildItems := recorded.map fun name (item, _) ↦
    item.setExpandedDependencies ((g.getSortedDependencies name).getD [])
  let location := fun name ↦ (buildItems[name]?.map BuildItem.getLocation).getD .empty
  some
    ({ forest with
        buildItems
        sortedItemNames := sorted },
      .concat (recorded.values.map Prod.snd) ++
        if okay then .none
        else graphErrors g location
          (fun node unknown ↦ node ++ " depends on unknown build item " ++ unknown)
          "circular dependency detected: " " participates in a circular dependency")

/-! ### Plugins and references to other trees -/

/-- The errors of a plugin of a tree, which must stand alone. -/
def pluginErrors (globalPlugins : TreeSet String) (tree : BuildTree) (itemName : String)
    (item : BuildItem) : Findings :=
  let declared := "item \"" ++ itemName ++ "\" is declared as a plugin,"
  let deps := if item.deps.isEmpty then Findings.none
    else .error tree.location (declared ++ " but it has dependencies")
  let also := if item.getBuildAlso.isEmpty then Findings.none
    else .error tree.location (declared ++ " but it specifies other items to build")
  let target := if item.targetType = .all then Findings.none
    else .error tree.location (declared ++ " but it has a build or non-plugin interface file")
  let found := deps ++ (also ++ target)
  if found.errors.isEmpty then .none
  else
    found ++
      (.error item.getLocation ("here is \"" ++ itemName ++ "\"'s " ++ BuildTree.fileConf) ++
        if globalPlugins.contains itemName then
          .error item.getLocation
            ("NOTE: this item declares itself as a global plugin, so some of the above error " ++
              "messages may be repeated for every tree, including those that do not explicitly " ++
              "declare the item to be a plugin")
        else .none)

/-- Whether a tree may have an item as a plugin, and what is wrong with it. -/
def checkPlugin (forest : BuildForest) (tree : BuildTree) (itemName : String) : Bool × Findings :=
  match forest.buildItems[itemName]? with
  | none => (false, .error tree.location ("plugin \"" ++ itemName ++ "\" does not exist"))
  | some item =>
    let allowedTrees := forest.treeAccessTable.getD tree.name ∅
    if ¬ forest.globalPlugins.contains itemName ∧ ¬ allowedTrees.contains item.treeName then
      (false, .error tree.location
        ("this tree may not declare item \"" ++ itemName ++
          "\" as a plugin because because its tree does not depend on \"" ++ itemName ++
          "\"'s tree (\"" ++ item.treeName ++ "\")"))
    else (true, pluginErrors forest.globalPlugins tree itemName item)

/-- The plugins of a tree that it may have, when it is local. -/
def pluginData (forest : BuildForest) (tree : BuildTree) : List String :=
  if tree.isLocal then tree.plugins.filter fun name ↦ (checkPlugin forest tree name).1 else []

/-- The dependencies of a local item on plugins of its own tree. -/
def checkPluginDeps (forest : BuildForest) (item : BuildItem) : Findings :=
  match forest.buildTrees[item.treeName]? with
  | none => .none
  | some tree => .concat <| item.deps.map fun dep ↦
    match forest.buildItems[dep]? with
    | none => .none
    | some depItem =>
      if dep ∈ pluginData forest tree then
        .error item.getLocation
          ("this item depends on \"" ++ dep ++ "\", which is declared as a plugin") ++
        if forest.globalPlugins.contains dep then
          .error depItem.getLocation "the dependency is declared as a global plugin"
        else .error tree.location "the dependency is declared as a plugin here"
      else .none

def checkPlugins (forest : BuildForest) : BuildForest × Findings :=
  let trees := forest.buildTrees.values.filter BuildTree.isLocal
  let items := forest.buildItems.values.filter BuildItem.isLocal
  ({ forest with
      buildItems := forest.buildItems.map fun _ item ↦
        if item.isLocal then
          item.setPlugins ((forest.buildTrees[item.treeName]?.map BuildTree.plugins).getD [])
        else item },
    .concat (trees.flatMap fun tree ↦ tree.plugins.map fun name ↦
      (checkPlugin forest tree name).2) ++ .concat (items.map (checkPluginDeps forest)))

def checkAllowedTreeItem (forest : BuildForest) (referrer referent : BuildItem) (action : String) :
    Findings :=
  if (forest.treeAccessTable.getD referrer.treeName ∅).contains referent.treeName then .none
  else
    .error referrer.getLocation
      ("build item \"" ++ referrer.config.name ++ "\" may not " ++ action ++ " build item \"" ++
        referent.config.name ++ "\" because \"" ++ referrer.config.name ++ "\"'s tree (\"" ++
        referrer.treeName ++ "\") does not depend on \"" ++ referent.config.name ++
        "\"'s tree (\"" ++ referent.treeName ++ "\")")

def checkAllowedTreeTree (forest : BuildForest) (referrer : BuildItem)
    (referentTree action : String) : Findings :=
  if (forest.treeAccessTable.getD referrer.treeName ∅).contains referentTree then .none
  else
    .error referrer.getLocation
      ("build item \"" ++ referrer.config.name ++ "\" may not " ++ action ++ " build tree \"" ++
        referentTree ++ "\" because \"" ++ referrer.config.name ++ "\"'s tree (\"" ++
        referrer.treeName ++ "\") does not depend on it")

def checkBuildAlso (forest : BuildForest) : Findings :=
  .concat <| (forest.buildItems.toList.filter fun (_, item) ↦ item.isLocal).flatMap
    fun (name, item) ↦ item.getBuildAlso.map fun also ↦
      if also.isTree then
        if ¬ forest.buildTrees.contains also.name then
          .error item.getLocation
            (name ++ " requests build of unknown build tree \"" ++ also.name ++ "\"")
        else checkAllowedTreeTree forest item also.name "request build of"
      else
        match forest.buildItems[also.name]? with
        | none => .error item.getLocation
          (name ++ " requests building of unknown build item \"" ++ also.name ++ "\"")
        | some other => checkAllowedTreeItem forest item other "request build of"

def checkDepTreeAccess (forest : BuildForest) : Findings :=
  .concat <| (forest.buildItems.values.filter BuildItem.isLocal).flatMap fun item ↦
    item.expandedDependencies.map fun dep ↦
      match forest.buildItems[dep]? with
      | none => .none
      | some depItem => checkAllowedTreeItem forest item depItem "depend on"

/-! ### Integrity -/

/-- The references of an inherited item that its own forest resolves in another way. -/
def shadowedReferences (buildItems itemForestItems : BuildItemMap) (item : BuildItem) :
    TreeSet String :=
  item.getReferences.foldl
    (fun shadowed ref ↦
      match buildItems[ref]?, itemForestItems[ref]? with
      | some here, some there =>
        if here.getAbsolutePath ≠ there.getAbsolutePath then shadowed.insert ref else shadowed
      | _, _ => shadowed)
    ∅

def checkIntegrity (forests : BuildForestMap) (forest : BuildForest) : BuildForest :=
  { forest with
    buildItems := forest.buildItems.map fun _ item ↦
      if item.isLocal then item
      else
        let itemForestItems := (forests[item.forestRoot]?.map BuildForest.buildItems).getD ∅
        item.setShadowedReferences (shadowedReferences forest.buildItems itemForestItems item) }

/-- The message about one shadowed reference. The map may hold null pointers, and an
item that it does not have is one. -/
def reportShadowed (buildItems : TreeMap String (Option BuildItem)) (itemName : String)
    (item : BuildItem) (refName : String) : Option Findings := do
  let ref ← buildItems[refName]?.join
  let message :=
    if refName ∈ item.plugins then
      "build item \"" ++ itemName ++ "\" in tree \"" ++ item.treeName ++ "\" uses plugin \"" ++
        refName ++ "\", which is shadowed"
    else
      "build item \"" ++ itemName ++ "\" depends on \"" ++ refName ++ "\", which is shadowed"
  some (.error item.getLocation message ++
    .error ref.getLocation ("here is the location of \"" ++ refName ++ "\""))

/-- The messages about the shadowed references of all items, where no null pointer
is met. -/
def reportIntegrityErrors (buildItems : TreeMap String (Option BuildItem)) : Option Findings := do
  let items ← buildItems.toList.mapM fun (name, item) ↦ item.map fun item ↦ (name, item)
  let found ← items.mapM fun (name, item) ↦
    item.shadowedReferences.toList.mapM (reportShadowed buildItems name item)
  some (.concat found.flatten)

/-! ### The whole validation -/

def validateForest (fullIntegrity : Bool) (forests : BuildForestMap) (topPath : String) :
    Option (BuildForestMap × Findings) := do
  let forest ← forests[topPath]?
  let forest := forest.propagateGlobals
  let (forest, resolved) ← resolveFromBackingAreas forests forest topPath
  let (forest, trees) ← checkTreeDependencies forest
  let (forest, plugins) := checkPlugins forest
  let (forest, items) ← checkItemDependencies forest
  let also := checkBuildAlso forest
  let access := checkDepTreeAccess forest
  let forest := checkIntegrity forests forest
  let integrity ← if fullIntegrity then
      reportIntegrityErrors (forest.buildItems.map fun _ item ↦ some item)
    else some .none
  some (forests.insert topPath forest,
    resolved ++ (trees ++ (plugins ++ (items ++ (also ++ (access ++ integrity))))))

/-- The last part of `traverse`: every forest is validated after those it backs to. -/
def validateForests (fullIntegrity : Bool) (forests : BuildForestMap) :
    Option (BuildForestMap × Findings) := do
  let backingGraph ← computeBackingGraph forests
  let allForests ← backingGraph.getSortedGraph
  allForests.foldlM
    (fun (forests, findings) path ↦ do
      let (forests, found) ← validateForest fullIntegrity forests path
      some (forests, findings ++ found))
    (forests, .none)

end BuildForest

end Abuild
