import Abuild.Interface.Dump
import Abuild.PlatformTypes

/-!
`dumpData` of `Abuild-dump.cc`, which writes what is known about all forests, trees and items as an
XML document. Forests are written in an order in which each comes after those it backs to, and have
numbers in that order. What items and trees keep besides what their validation reads is added to
them here. A failed assertion, and a map that lacks what it is asked for, are the absence of a
value.
-/

set_option autoImplicit false
set_option relaxedAutoImplicit false

namespace Abuild

open Std (TreeMap TreeSet)

namespace FlagData

/-- An item has flags when there is a value. -/
def getFlags (d : FlagData) (name : String) : Option (TreeSet String) := d.flagData[name]?

end FlagData

namespace PlatformTables

/-- In the order of a set. -/
def getPlatformTypes (d : PlatformTables) (targetType : TargetType) : List String :=
  (d.targetTypes.toList.filter fun entry ↦ entry.2 = targetType).map Prod.fst

def getPlatformTypeParent (d : PlatformTables) (platformType : String) : Option String := do
  if ← d.isPlatformTypeValid platformType then d.platformTypeParents[platformType]? else none

end PlatformTables

namespace DumpData

structure Item extends BuildItem where
  description : String
  visibleTo : String
  supportedFlags : TreeSet String
  serial : Bool

structure Tree extends BuildTree where
  supportedTraits : TreeSet String
  platformData : PlatformTables

structure Forest where
  rootPath : String
  buildTrees : TreeMap String Tree
  buildItems : TreeMap String Item
  backingAreas : List String
  deletedTrees : TreeSet String
  deletedItems : TreeSet String
  globalPlugins : TreeSet String
  treeAccessTable : TreeMap String (TreeSet String)
  sortedTreeNames : List String
  sortedItemNames : List String

def Forest.toBuildForest (forest : Forest) : BuildForest where
  rootPath := forest.rootPath
  buildTrees := forest.buildTrees.map fun _ tree ↦ tree.toBuildTree
  buildItems := forest.buildItems.map fun _ item ↦ item.toBuildItem
  backingAreas := forest.backingAreas
  deletedTrees := forest.deletedTrees
  deletedItems := forest.deletedItems
  globalPlugins := forest.globalPlugins
  treeAccessTable := forest.treeAccessTable
  sortedTreeNames := forest.sortedTreeNames
  sortedItemNames := forest.sortedItemNames

namespace Item

def omittedDependencies (item : Item) : List String :=
  (item.optionalDepPresence.toList.filter fun entry ↦ !entry.2).map Prod.fst

/-- In the order of a set. -/
def buildablePlatforms (item : Item) : List String :=
  (TreeSet.ofList item.toBuildItem.getBuildablePlatforms).toList

def anySubelements (item : Item) : Bool :=
  !(item.getBuildAlso.isEmpty && item.deps.isEmpty && item.expandedDependencies.isEmpty &&
    item.omittedDependencies.isEmpty && item.getPlatformTypes.isEmpty &&
    item.buildablePlatforms.isEmpty && item.supportedFlags.isEmpty &&
    item.traitData.traitData.isEmpty)

end Item

end DumpData

/-- What `dumpData` reads. -/
structure DumpData where
  forests : TreeMap String DumpData.Forest
  anyErrors : Bool
  internalPlatformData : PlatformTables
  validTraits : TreeSet String
  plugins : TreeSet String

namespace DumpData

open Util (xmlify)

def isPlugin (data : DumpData) (item : String) : Bool := data.plugins.contains item

/-- One of the elements that have only a name. -/
def dumpName (indent child name : String) : String :=
  indent ++ "<" ++ child ++ " name=\"" ++ name ++ "\"/>" ++ "\n"

/-- Names in an element of their own, which is left out when there are none. -/
def dumpNames (indent tag child : String) (names : List String) : String :=
  if names.isEmpty then ""
  else indent ++ "<" ++ tag ++ ">" ++ "\n" ++
    String.join (names.map (dumpName (indent ++ " ") child)) ++
    indent ++ "</" ++ tag ++ ">" ++ "\n"

/-! ### `dumpPlatformData` -/

def dumpPlatform (indent : String) (platform : String × Bool) : String :=
  indent ++ "  <platform name=\"" ++ platform.1 ++ "\" selected=\"" ++
    (if platform.2 then "1" else "0") ++ "\"/>" ++ "\n"

def dumpPlatformType (d : PlatformTables) (indent : String) (targetType : TargetType)
    (platformType : String) : Option String := do
  let parent ← d.getPlatformTypeParent platformType
  let platforms ← d.getPlatformsByType platformType
  some (indent ++ " <platform-type name=\"" ++ platformType ++ "\"" ++
    (if parent.isEmpty then "" else " parent=\"" ++ parent ++ "\"") ++
    " target-type=\"" ++ targetType.getName ++ "\"" ++
    if platforms.isEmpty then "/>" ++ "\n"
    else ">" ++ "\n" ++ String.join (platforms.map (dumpPlatform indent)) ++
      indent ++ " </platform-type>" ++ "\n")

def targetTypes : List TargetType := [.platformIndependent, .objectCode, .java]

def dumpPlatformData (d : PlatformTables) (indent : String) : Option String := do
  let types ← targetTypes.mapM fun targetType ↦
    (d.getPlatformTypes targetType).mapM (dumpPlatformType d indent targetType)
  some (indent ++ "<platform-data>" ++ "\n" ++ String.join types.flatten ++
    indent ++ "</platform-data>" ++ "\n")

/-! ### `dumpBuildItem` -/

def dumpBuildAlsoEntry (b : BuildAlso) : String :=
  "     <build-also name=\"" ++ b.name ++ "\"" ++
    (if ¬ (b.isTree ∨ b.desc ∨ b.withTreeDeps) then ""
    else (if b.isTree then " is-tree=\"1\"" else "") ++ (if b.desc then " desc=\"1\"" else "") ++
      if b.withTreeDeps then " with-tree-deps=\"1\"" else "") ++
    "/>" ++ "\n"

def dumpBuildAlso (trees : Bool) (entries : List BuildAlso) : String :=
  if entries.isEmpty then ""
  else
    let tag := if trees then "build-also-trees" else "build-also-items"
    "    <" ++ tag ++ ">" ++ "\n" ++ String.join (entries.map dumpBuildAlsoEntry) ++
      "    </" ++ tag ++ ">" ++ "\n"

def dumpDependency (item : Item) (dep : String) : String :=
  let platformType := (item.config.getDepPlatformType dep).1
  "     <dependency name=\"" ++ dep ++ "\"" ++
    (if platformType.isEmpty then "" else " platform-type=\"" ++ platformType ++ "\"") ++
    match item.flagData.getFlags dep with
    | none => "/>" ++ "\n"
    | some flags =>
      ">" ++ "\n" ++ String.join (flags.toList.map (dumpName "      " "flag")) ++
        "     </dependency>" ++ "\n"

def dumpDependencies (item : Item) : String :=
  if item.deps.isEmpty then ""
  else "    <declared-dependencies>" ++ "\n" ++ String.join (item.deps.map (dumpDependency item)) ++
    "    </declared-dependencies>" ++ "\n"

def dumpTrait (entry : String × TreeSet String) : String :=
  "     <trait name=\"" ++ entry.1 ++ "\"" ++
    if entry.2.isEmpty then "/>" ++ "\n"
    else ">" ++ "\n" ++ String.join (entry.2.toList.map (dumpName "      " "trait-referent")) ++
      "     </trait>" ++ "\n"

def dumpTraits (traits : TreeMap String (TreeSet String)) : String :=
  if traits.isEmpty then ""
  else "    <traits>" ++ "\n" ++ String.join (traits.toList.map dumpTrait) ++
    "    </traits>" ++ "\n"

def dumpItemAttributes (data : DumpData) (item : Item) (name : String) (homeForest : ℕ) : String :=
  let description := xmlify item.description true
  "    name=\"" ++ name ++ "\"" ++ "\n" ++
    (if description.isEmpty then "" else "    description=\"" ++ description ++ "\"" ++ "\n") ++
    "    home-forest=\"f-" ++ toString homeForest ++ "\"" ++ "\n" ++
    "    absolute-path=\"" ++ item.getAbsolutePath ++ "\"" ++ "\n" ++
    "    backing-depth=\"" ++ toString item.backingDepth ++ "\"" ++ "\n" ++
    (if item.shadowedReferences.isEmpty then ""
      else "    has-shadowed-references=\"1\"" ++ "\n") ++
    (if item.visibleTo.isEmpty then ""
      else "    visible-to=\"" ++ item.visibleTo ++ "\"" ++ "\n") ++
    "    target-type=\"" ++ item.targetType.getName ++ "\"" ++ "\n" ++
    "    is-plugin=\"" ++ (if data.isPlugin name then "1" else "0") ++ "\"" ++ "\n" ++
    if item.serial then "    serial=\"1\"" ++ "\n" else ""

def dumpSubelements (item : Item) : String :=
  dumpBuildAlso true (item.getBuildAlso.filter (·.isTree)) ++
    dumpBuildAlso false (item.getBuildAlso.filter (!·.isTree)) ++
    dumpDependencies item ++
    dumpNames "    " "expanded-dependencies" "dependency" item.expandedDependencies ++
    dumpNames "    " "omitted-dependencies" "dependency" item.omittedDependencies ++
    dumpNames "    " "platform-types" "platform-type" item.getPlatformTypes ++
    dumpNames "    " "buildable-platforms" "platform" item.buildablePlatforms ++
    dumpNames "    " "supported-flags" "supported-flag" item.supportedFlags.toList ++
    dumpTraits item.traitData.traitData

def dumpBuildItem (data : DumpData) (forestNumbers : TreeMap String ℕ) (item : Item)
    (name : String) : Option String := do
  let homeForest ← forestNumbers[item.forestRoot]?
  some ("   <build-item" ++ "\n" ++ dumpItemAttributes data item name homeForest ++
    if item.anySubelements then
      "   >" ++ "\n" ++ dumpSubelements item ++ "   </build-item>" ++ "\n"
    else "   />" ++ "\n")

/-! ### `dumpBuildTree` -/

/-- The items of a tree, among all of its forest. -/
def dumpBuildItems (data : DumpData) (forestNumbers : TreeMap String ℕ) (forest : Forest)
    (treeName : String) : List String → Option String
  | [] => some ""
  | name :: names => do
    let item ← forest.buildItems[name]?
    let text ← if item.treeName = treeName then dumpBuildItem data forestNumbers item name
      else some ""
    let rest ← dumpBuildItems data forestNumbers forest treeName names
    some (text ++ rest)

def dumpBuildTree (data : DumpData) (forestNumbers : TreeMap String ℕ) (tree : Tree)
    (treeName : String) (forest : Forest) : Option String := do
  let homeForest ← forestNumbers[tree.forestRoot]?
  let platforms ← dumpPlatformData tree.platformData "   "
  let items ← dumpBuildItems data forestNumbers forest treeName forest.sortedItemNames
  some ("  <build-tree" ++ "\n" ++
    "   name=\"" ++ treeName ++ "\"" ++ "\n" ++
    "   absolute-path=\"" ++ tree.rootPath ++ "\"" ++ "\n" ++
    "   home-forest=\"f-" ++ toString homeForest ++ "\"" ++ "\n" ++
    "   backing-depth=\"" ++ toString tree.backingDepth ++ "\"" ++ "\n" ++
    "  >" ++ "\n" ++ platforms ++
    dumpNames "   " "supported-traits" "supported-trait" tree.supportedTraits.toList ++
    dumpNames "   " "plugins" "plugin" tree.plugins ++
    dumpNames "   " "declared-tree-dependencies" "tree-dependency" tree.treeDeps ++
    dumpNames "   " "expanded-tree-dependencies" "tree-dependency" tree.expandedTreeDeps ++
    dumpNames "   " "omitted-tree-dependencies" "tree-dependency" tree.omittedTreeDeps.toList ++
    items ++ "  </build-tree>" ++ "\n")

/-! ### `dumpData` -/

/-- A forest without a number gets 0 by being looked up. -/
def dumpBackingArea (forestNumbers : TreeMap String ℕ) (area : String) : String :=
  "  <backing-area forest=\"f-" ++ toString (forestNumbers.getD area 0) ++ "\"/>" ++ "\n"

def dumpBuildTrees (data : DumpData) (forestNumbers : TreeMap String ℕ) (forest : Forest) :
    List String → Option String
  | [] => some ""
  | treeName :: treeNames => do
    let tree ← forest.buildTrees[treeName]?
    let text ← dumpBuildTree data forestNumbers tree treeName forest
    let rest ← dumpBuildTrees data forestNumbers forest treeNames
    some (text ++ rest)

/-- Of a forest that has its number. -/
def dumpForest (data : DumpData) (forestNumbers : TreeMap String ℕ) (curForest : ℕ)
    (forestRoot : String) (forest : Forest) : Option String := do
  let trees ← dumpBuildTrees data forestNumbers forest forest.sortedTreeNames
  some (" <forest" ++ "\n" ++
    "  id=\"f-" ++ toString curForest ++ "\"" ++ "\n" ++
    "  absolute-path=\"" ++ forestRoot ++ "\"" ++ "\n" ++
    " >" ++ "\n" ++
    String.join (forest.backingAreas.map (dumpBackingArea forestNumbers)) ++
    dumpNames "  " "deleted-trees" "deleted-tree" forest.deletedTrees.toList ++
    dumpNames "  " "deleted-items" "deleted-item" forest.deletedItems.toList ++
    dumpNames "  " "global-plugins" "plugin" forest.globalPlugins.toList ++
    trees ++ " </forest>" ++ "\n")

def dumpForests (data : DumpData) (forestNumbers : TreeMap String ℕ) (curForest : ℕ) :
    List String → Option String
  | [] => some ""
  | forestRoot :: allForests => do
    let forest ← data.forests[forestRoot]?
    let forestNumbers := forest.backingAreas.foldl (fun numbers area ↦ numbers.insertIfNew area 0)
      (forestNumbers.insert forestRoot (curForest + 1))
    let text ← dumpForest data forestNumbers (curForest + 1) forestRoot forest
    let rest ← dumpForests data forestNumbers (curForest + 1) allForests
    some (text ++ rest)

def dumpData (data : DumpData) : Option String := do
  let g ← BuildForest.computeBackingGraph (data.forests.map fun _ forest ↦ forest.toBuildForest)
  let allForests ← g.getSortedGraph
  let platforms ← dumpPlatformData data.internalPlatformData " "
  let forests ← dumpForests data ∅ 0 allForests
  some ("<?xml version=\"1.0\"?>" ++ "\n" ++
    "<abuild-data version=\"2\"" ++ (if data.anyErrors then " errors=\"1\"" else "") ++ ">" ++
    "\n" ++ platforms ++
    dumpNames " " "supported-traits" "supported-trait" data.validTraits.toList ++
    forests ++ "</abuild-data>" ++ "\n")

end DumpData

end Abuild
