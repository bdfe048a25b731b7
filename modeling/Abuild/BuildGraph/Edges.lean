import Abuild.BuildGraph
import Abuild.DependencyGraph

/-!
The construction of the build graph, from `Abuild-build.cc`. Each item of the build set, dependents
before their dependencies, becomes one node for each of its build platforms; for each of these and
each dependency one platform of the dependency is chosen, which may become a build platform of the
dependency then. The set of build platforms of an item is read while its dependencies are gone
through, so that an item that depends on itself is left out.
-/

set_option autoImplicit false
set_option relaxedAutoImplicit false

namespace Abuild

open Std (TreeMap TreeSet)

/-- What the construction reads besides the build set. -/
structure GraphOptions where
  buildgraphTreePrefixes : TreeMap String String
  platformSelectors : TreeMap String PlatformSelector
  keepGoing : Bool

/-- The build graph as it grows. An error counts, or it does not. -/
structure GraphConstruction where
  buildset : Buildset
  buildGraph : DependencyGraph
  forcedFailures : TreeSet String
  errors : List (ErrorMessage × Bool)

namespace GraphConstruction

def new (buildset : Buildset) : GraphConstruction where
  buildset
  buildGraph := .new
  forcedFailures := ∅
  errors := []

variable (o : GraphOptions)

def addNode (itemName : String) (g : GraphConstruction) (platform : String) :
    Option GraphConstruction := do
  let node ← createBuildGraphNode g.buildset o.buildgraphTreePrefixes itemName platform
  let buildGraph ← g.buildGraph.addItem node
  some { g with buildGraph }

def error (location : FileLocation) (message : String) (countAsError : Bool)
    (g : GraphConstruction) : GraphConstruction :=
  { g with errors := g.errors ++ [((location, message), countAsError)] }

/-- A platform that is chosen becomes a build platform where the item's platform is not one. -/
def selectAsNeeded (dep itemPlatform depPlatform : String) (depItem : BuildItem)
    (g : GraphConstruction) : GraphConstruction :=
  if depItem.buildPlatforms.contains itemPlatform then g
  else { g with buildset := g.buildset.insert dep (some (depItem.addBuildPlatform depPlatform)) }

/-- The edge from an item on a platform to the platform chosen for a dependency, or what is done
when there is none. -/
def addEdgeTo (itemName : String) (item : BuildItem) (itemPlatform platformItem dep : String)
    (depItem : BuildItem) (depPlatform : String) (g : GraphConstruction) :
    Option GraphConstruction :=
  if depPlatform ≠ "" then do
    let g := g.selectAsNeeded dep itemPlatform depPlatform depItem
    let depNode ← createBuildGraphNode g.buildset o.buildgraphTreePrefixes dep depPlatform
    let buildGraph ← g.buildGraph.addDependency platformItem depNode
    some { g with buildGraph }
  else if item.targetType = .all then some g
  else
    let g := if o.keepGoing then
        { g with forcedFailures := g.forcedFailures.insert platformItem } else g
    some ((g.error item.getLocation ("\"" ++ itemName ++ "\" is being built on platform \"" ++
      itemPlatform ++ "\", but its dependency \"" ++ dep ++
      "\" is not being built on a suitable platform") (!o.keepGoing)).error
        depItem.getLocation ("here is the location of \"" ++ dep ++ "\"") (!o.keepGoing))

/-- The dependency of an item on one of its build platforms. -/
def addEdge (itemName : String) (item : BuildItem) (dep overridePlatform : String)
    (g : GraphConstruction) (itemPlatform : String) : Option GraphConstruction := do
  let platformItem ← createBuildGraphNode g.buildset o.buildgraphTreePrefixes itemName itemPlatform
  let depItem ← (← g.buildset[dep]?)
  if overridePlatform ≠ "" then
    addEdgeTo o itemName item itemPlatform platformItem dep depItem overridePlatform g
  else do
    let depPlatform ← depItem.getBestPlatformForPlatform item itemPlatform o.platformSelectors
    addEdgeTo o itemName item itemPlatform platformItem dep depItem depPlatform g

/-- A dependency of an item on all of its build platforms. -/
def addEdges (itemName : String) (item : BuildItem) (buildPlatforms : List String)
    (g : GraphConstruction) (dep : String) : Option GraphConstruction := do
  let depItem ← (← g.buildset[dep]?)
  let (depPlatformType, ps) := item.config.getDepPlatformType dep
  if depPlatformType = "" then buildPlatforms.foldlM (addEdge o itemName item dep "") g
  else do
    let overridePlatform ←
      depItem.getBestPlatformForType depPlatformType ps o.platformSelectors
    if overridePlatform = "" then
      some ((g.error item.getLocation ("\"" ++ itemName ++ "\" wants dependency \"" ++ dep ++
        "\" on platform type \"" ++ depPlatformType ++
        "\", but the dependency has no platforms belonging to that type") true).error
          depItem.getLocation ("here is the location of \"" ++ dep ++ "\"") true)
    else buildPlatforms.foldlM (addEdge o itemName item dep overridePlatform) g

/-- Whether an item has been added. -/
def addItemToBuildGraph (itemName : String) (item : BuildItem) (g : GraphConstruction) :
    Option (Bool × GraphConstruction) :=
  let buildPlatforms := item.buildPlatforms.toList
  if buildPlatforms.isEmpty then some (false, g)
  else do
    let g ← buildPlatforms.foldlM (addNode o itemName) g
    let g ← item.deps.foldlM (addEdges o itemName item buildPlatforms) g
    some (true, g)

/-- One round of the loop of `buildBuildset`. -/
def addFromBuildset (g : GraphConstruction) (itemName : String) : Option GraphConstruction := do
  let item ← (← g.buildset[itemName]?)
  some (← addItemToBuildGraph o itemName item g).2

/-- The loop of `buildBuildset`. -/
def construct (buildsetReverseOrder : List String) (buildset : Buildset) :
    Option GraphConstruction :=
  buildsetReverseOrder.foldlM (addFromBuildset o) (new buildset)

end GraphConstruction

/-- The items of the build set in reverse dependency order, from the sorted items of the forest. -/
def buildsetReverseOrder (sortedItemNames : List String) (buildset : Buildset) : List String :=
  sortedItemNames.reverse.filter buildset.contains

end Abuild
