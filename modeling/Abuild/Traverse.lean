import Abuild.BuildForest.TreeDeps
import Abuild.DependencyGraph.IndependentSets
import Abuild.Util.Digits

/-!
The traversal of `Abuild-traverse.cc`, by which the forests come about that are validated then. From
the root of a forest `traverseItems` goes down through the directories that are listed as children,
and registers the trees and the items that it finds; `traverseForests` goes on with the forests that
a forest backs to. In 1.0-compatibility mode the externals of a forest are traversed as parts of it,
and forests that have an external in common are merged in the end.

What is on the disk does not change meanwhile, and files that have been read are kept, so that the
configuration of a directory, or that it cannot be read, is a function of its path. Directories are
given by canonical paths.
-/

set_option autoImplicit false
set_option relaxedAutoImplicit false

namespace Abuild

open Std (TreeMap TreeSet)

/-- What the traversal reads in the configuration file of a directory. The lists of dependencies
have been checked when the file was read, and consist of names. -/
structure DirConfig (dir : String) where
  item : ItemConfig
  treeName : String
  isTreeRoot : Bool
  isForestRoot : Bool
  isChildOnly : Bool
  /-- The directory whose item lists this one as a child, or the empty text. -/
  parentDir : String
  children : List String
  optionalChildren : TreeSet String
  externals : List String
  treeDeps : List String
  optionalTreeDeps : TreeSet String
  plugins : List String
  globalPlugins : TreeSet String
  deleted : TreeSet String
  absolutePath_eq : item.absolutePath = dir
  location_eq : item.location = .new (dir ++ "/" ++ BuildTree.fileConf) 0 0
  deps_ne : "" ∉ item.deps
  treeDeps_ne : "" ∉ treeDeps

structure BackingConfig where
  location : FileLocation
  /-- The file is a 1.0-style one. -/
  isDeprecated : Bool
  backingAreas : List String
  deletedTrees : TreeSet String
  deletedItems : TreeSet String

/-- What is on the disk, as the functions of `Util.cc` and the constructors that read files find
it. -/
structure Disk where
  isFile : String → Bool
  isDirectory : String → Bool
  canonicalizePath : String → String
  getCurrentDirectory : String
  /-- What the configuration of a directory is, if it can be read. -/
  config : (dir : String) → DirConfig dir
  /-- What reading the configuration of a directory throws, if it cannot be read. -/
  configError : String → Option String
  backing : String → BackingConfig
  backingError : String → Option String

/-- Why a traversal comes to no result. -/
inductive Halt
  | fatal (message : String)
  /-- An exception that nothing catches. -/
  | exception (text : String)
  | assertion (text : String)
  /-- A null pointer is followed. -/
  | nullPointer
  /-- The bound on the steps is too small. -/
  | outOfSteps
deriving DecidableEq, Repr

/-- The members of the program that the traversal changes, and the errors that it reports. -/
structure Traversal where
  findTopCache : TreeMap String String
  readExternalConfigCache : TreeMap String (TreeMap String (Option String))
  assignedTreeNames : TreeMap String String
  lastAssignedTreeNumber : ℕ
  itemsTraversed : TreeSet String
  /-- What has been added to the graph of the externals. -/
  externalGraph : List DependencyGraph.Addition
  localTree : String
  findings : Findings

namespace Traversal

def new : Traversal := ⟨∅, ∅, ∅, 0, ∅, [], "", .none⟩

def error (t : Traversal) (location : FileLocation) (message : String) : Traversal :=
  { t with findings := t.findings ++ .error location message }

end Traversal

namespace Disk

variable (disk : Disk)

def readConfig (dir : String) : Except Halt (DirConfig dir) :=
  match disk.configError dir with
  | some text => .error (.fatal text)
  | none => .ok (disk.config dir)

def readBacking (dir : String) : Except Halt BackingConfig :=
  match disk.backingError dir with
  | some text => .error (.exception text)
  | none => .ok (disk.backing dir)

def hasConf (dir : String) : Bool := disk.isFile (dir ++ "/" ++ BuildTree.fileConf)

def hasBacking (dir : String) : Bool := disk.isFile (dir ++ "/" ++ BuildForest.fileBacking)

/-- The directory of a child, as it is listed. -/
def childDir (dir child : String) : String := disk.canonicalizePath (dir ++ "/" ++ child)

/-- The configuration file of a child, by the path with which it is looked for. -/
def childConf (childDir : String) : String :=
  Util.absToRel (childDir ++ "/" ++ BuildTree.fileConf) disk.getCurrentDirectory

/-! ### Roots of forests -/

/-- The loop of `findTop`: the root of the forest, or the empty text if there is none. -/
def searchTop : ℕ → String → Except Halt String
  | 0, _ => .error .outOfSteps
  | steps + 1, dir => do
    let config ← disk.readConfig dir
    if config.isForestRoot then .ok dir
    else if config.parentDir.isEmpty then .ok ""
    else searchTop steps config.parentDir

def findTop (steps : ℕ) (t : Traversal) (startDir description : String) :
    Except Halt (String × Traversal) :=
  match t.findTopCache[startDir]? with
  | some top => .ok (top, t)
  | none => do
    let top ← disk.searchTop steps startDir
    let t := if top.isEmpty then
        t.error .empty ("unable to find top of build forest containing \"" ++ startDir ++ "\" (" ++
          description ++ "); run with --verbose for details")
      else t
    .ok (top, { t with findTopCache := t.findTopCache.insert startDir top })

/-! ### Backing areas -/

def readBackingData (t : Traversal) (dir : String) : Except Halt (BackingConfig × Traversal) := do
  let backing ← disk.readBacking dir
  .ok (backing,
    if backing.backingAreas.isEmpty then
      t.error (.new (dir ++ "/" ++ BuildForest.fileBacking) 0 0) "unable to get backing area data"
    else t)

/-- A backing area is appended if the root of its forest can be found. -/
def appendBackingArea (steps : ℕ) (dir : String) (backing : BackingConfig)
    (s : BuildForest × Traversal) (bdir : String) : Except Halt (BuildForest × Traversal) := do
  let (btop, t) ← disk.findTop steps s.2 bdir
    ("backing area \"" ++ bdir ++ "\" from \"" ++ dir ++ "/" ++ BuildForest.fileBacking ++ "\"")
  if btop.isEmpty then
    .ok (s.1, t.error backing.location
      ("unable to determine top of forest containing backing area \"" ++ bdir ++ "\""))
  else .ok ({ s.1 with backingAreas := s.1.backingAreas ++ [bdir] }, t)

/-- The part of `appendBackingData` that is about a backing file. -/
def appendBackingFile (steps : ℕ) (forest : BuildForest) (t : Traversal) (dir : String) :
    Except Halt (BuildForest × Traversal) :=
  if disk.hasBacking dir then do
    let (backing, t) ← disk.readBackingData t dir
    let (forest, t) ← backing.backingAreas.foldlM (disk.appendBackingArea steps dir backing)
      (forest, t)
    .ok ({ forest with
      deletedTrees := forest.deletedTrees.insertMany backing.deletedTrees
      deletedItems := forest.deletedItems.insertMany backing.deletedItems }, t)
  else .ok (forest, t)

def appendBackingData (allow10 : Bool) (steps : ℕ) (forest : BuildForest) (t : Traversal)
    (dir : String) : Except Halt (BuildForest × Traversal) := do
  let (forest, t) ← disk.appendBackingFile steps forest t dir
  if allow10 && disk.hasConf dir then do
    let config ← disk.readConfig dir
    .ok ({ forest with deletedItems := forest.deletedItems.insertMany config.deleted }, t)
  else .ok (forest, t)

/-! ### Names and externals of 1.0 trees -/

/-- A new name, with a random number in it, which nobody is to rely on. -/
def generateTreeName (rand : ℕ → ℕ) (t : Traversal) (dir : String) : String × Traversal :=
  let number := t.lastAssignedTreeNumber + 1
  let name := "tree." ++ Util.intToString number 0 ++ ".-" ++
    Util.intToString (rand number % 9999 : ℕ) 0 ++ "-"
  (name, { t with
    lastAssignedTreeNumber := number
    assignedTreeNames := t.assignedTreeNames.insert dir name })

/-- The name that a 1.0 tree inherits from the tree at a directory that it backs to. -/
def inheritTreeName (assignTreeName : Traversal → String → Except Halt (String × Traversal))
    (visiting : TreeSet String) (t : Traversal) (dir backingArea : String) :
    Except Halt (String × Traversal) :=
  if ¬ disk.hasConf backingArea then
    .error (.fatal ("1.0-style " ++ BuildForest.fileBacking ++ " file in " ++ dir ++
      " appears not to point to a directory containing " ++ BuildTree.fileConf))
  else do
    let config ← disk.readConfig backingArea
    if ¬ config.isTreeRoot then
      .error (.fatal ("1.0-style " ++ BuildForest.fileBacking ++ " file in " ++ dir ++
        " appears not to point to a tree root"))
    else if ¬ config.treeName.isEmpty then .ok (config.treeName, t)
    else
      match t.assignedTreeNames[backingArea]? with
      | some name => .ok (name, t)
      | none =>
        if visiting.contains backingArea then
          .error (.fatal ("backing area loop found for " ++ backingArea ++
            ", a backing area of " ++ dir))
        else assignTreeName t backingArea

/-- `getAssignedTreeName` for a tree without a name so far: a 1.0 tree has the name of the tree that
it backs to, or a new one. -/
def assignTreeName (rand : ℕ → ℕ) (useBackingNameOnly : Bool) :
    ℕ → TreeSet String → Traversal → String → Except Halt (String × Traversal)
  | 0, _, _, _ => .error .outOfSteps
  | steps + 1, visiting, t, dir => do
    let (treeName, t) ←
      (if disk.hasBacking dir then do
        let (backing, t) ← disk.readBackingData t dir
        match backing.isDeprecated, backing.backingAreas with
        | true, backingArea :: _ =>
          disk.inheritTreeName (assignTreeName rand useBackingNameOnly steps (visiting.insert dir))
            (visiting.insert dir) t dir backingArea
        | _, _ => .ok ("", t)
      else .ok ("", t))
    .ok (if treeName.isEmpty && !useBackingNameOnly then generateTreeName rand t dir
      else (treeName, t))

def getAssignedTreeName (rand : ℕ → ℕ) (steps : ℕ) (t : Traversal) (dir : String) :
    Except Halt (String × Traversal) :=
  match t.assignedTreeNames[dir]? with
  | some name => .ok (name, t)
  | none => disk.assignTreeName rand false steps ∅ t dir

def externalDir (dir ext : String) : String := if ext.isEmpty then dir else dir ++ "/" ++ ext

/-- Where the directory of an external exists, we work relative to it from there on. -/
def enterExternal (dir ext : String) : String × String :=
  if !ext.isEmpty && disk.isDirectory (externalDir dir ext) then (externalDir dir ext, "")
  else (dir, ext)

/-- The loop of `readExternalConfig` over the candidates, which finds a directory. -/
def searchExternal (startDir startExternal : String) :
    ℕ → TreeSet String → List (String × String) → Traversal →
      Except Halt (Option String × Traversal)
  | 0, _, _, _ => .error .outOfSteps
  | _ + 1, _, [], t => .ok (none, t)
  | steps + 1, seen, (dir, ext) :: candidates, t =>
    let fulldir := externalDir dir ext
    if seen.contains fulldir then
      .ok (none, t.error .empty ("loop detected trying to find " ++
        BuildTree.fileConf ++ " for \"" ++
        startExternal ++ "\" relative to \"" ++ startDir ++ "\""))
    else
      let (dir, ext) := disk.enterExternal dir ext
      if disk.hasConf fulldir then do
        let config ← disk.readConfig (disk.canonicalizePath fulldir)
        .ok (some config.item.absolutePath, t)
      else if disk.hasBacking dir then do
        let (backing, t) ← disk.readBackingData t dir
        searchExternal startDir startExternal steps (seen.insert fulldir)
          (candidates ++ backing.backingAreas.map fun area ↦ (area, ext)) t
      else searchExternal startDir startExternal steps (seen.insert fulldir) candidates t

def readExternalConfig (steps : ℕ) (t : Traversal) (startDir startExternal : String) :
    Except Halt (Option String × Traversal) :=
  match (t.readExternalConfigCache.getD startDir ∅)[startExternal]? with
  | some found => .ok (found, t)
  | none => do
    let (found, t) ← disk.searchExternal startDir startExternal steps ∅
      [(startDir, startExternal)] t
    .ok (found, { t with
      readExternalConfigCache := t.readExternalConfigCache.insert startDir
        ((t.readExternalConfigCache.getD startDir ∅).insert startExternal found) })

end Disk

/-! ### Trees and items -/

namespace BuildForest

def new (rootPath : String) : BuildForest where
  rootPath
  buildTrees := ∅
  buildItems := ∅
  backingAreas := []
  deletedTrees := ∅
  deletedItems := ∅
  globalPlugins := ∅
  treeAccessTable := ∅
  sortedTreeNames := []
  sortedItemNames := []

def addTreeToForest (forest : BuildForest) (t : Traversal) (treeName : String) (tree : BuildTree) :
    BuildForest × Traversal :=
  match forest.buildTrees[treeName]? with
  | some other =>
    if tree.rootPath = other.rootPath then (forest, t)
    else
      (forest, (t.error tree.location ("another tree with the name \"" ++ treeName ++
        "\" has been found in this forest")).error other.location "here is the other tree")
  | none =>
    ({ forest with
      buildTrees := forest.buildTrees.insert treeName (tree.setForestRoot forest.rootPath) }, t)

def addItemToForest (allow10 : Bool) (forest : BuildForest) (t : Traversal) (itemName : String)
    (item : BuildItem) : Except Halt (BuildForest × Traversal) :=
  match forest.buildItems[itemName]? with
  | some other =>
    if item.getLocation = other.getLocation then .ok (forest, t)
    else
      .ok (forest, (t.error item.getLocation ("build item " ++ itemName ++
        " appears in multiple locations")).error other.getLocation "here is another location")
  | none =>
    if item.treeName.isEmpty then
      .ok (forest, t.error item.getLocation
        "named build items are not allowed outside of named build trees")
    -- the root of the tree is looked at, to see whether an upgrade is to be suggested
    else if allow10 && !forest.buildTrees.contains item.treeName then .error .nullPointer
    else
      .ok ({ forest with
        buildItems := forest.buildItems.insert itemName
          { item with forestRoot := forest.rootPath } }, t)

end BuildForest

/-! ### `traverseItems` -/

/-- Where the traversal of a forest is. -/
structure ItemsTraversal where
  forest : BuildForest
  dirsWithExternals : List String
  traversal : Traversal

/-- The directories that are still to be seen, the directory by which each was found, and the trees
of those that have been seen. -/
structure DirQueue where
  dirs : List String
  parentDirs : TreeMap String String
  dirTrees : TreeMap String String

/-- What a traversal is given: the mode, the disk, what comes of loading the platform data of a tree
from its plugins, random numbers, the directory in which the program was started, and a bound on the
steps of its loops. -/
structure Traverser where
  allow10 : Bool
  disk : Disk
  /-- The plugins are given by their directories. -/
  loadPlatformData : List String → Except Halt Unit
  rand : ℕ → ℕ
  thisConfigDir : String
  steps : ℕ

namespace Traverser

variable (r : Traverser)

/-- The name of the tree at a directory, which has one of its own but for 1.0 trees. -/
def nameTree (t : Traversal) (dir : String) : Except Halt (String × Traversal) :=
  if (r.disk.config dir).treeName.isEmpty then
    if r.allow10 then r.disk.getAssignedTreeName r.rand r.steps t dir
    else .error (.assertion "! tree_name.empty()")
  else .ok ((r.disk.config dir).treeName, t)

/-- The dependency on a tree for an external. -/
def registerExternal (dir : String) (config : DirConfig dir) (s : List String × Traversal)
    (edecl : String) : Except Halt (List String × Traversal) := do
  let (found, t) ← r.disk.readExternalConfig r.steps s.2 dir edecl
  match found with
  | none => .ok (s.1, t.error config.item.location
      ("unable to locate or resolve external \"" ++ edecl ++ "\""))
  | some epath =>
    if (r.disk.config epath).isTreeRoot then do
      let (extTreeName, t) ← r.nameTree t epath
      .ok (s.1 ++ [extTreeName], t)
    else
      .ok (s.1, (t.error (.new (epath ++ "/" ++ BuildTree.fileConf) 0 0)
        ("this build item does not appear to be a build tree root, but it is referenced as " ++
          "external \"" ++ edecl ++ "\" of \"" ++ dir ++ "\"")).error config.item.location
        "here is the referring item")

def registerBuildTree (s : ItemsTraversal) (dir : String) :
    Except Halt (String × ItemsTraversal) := do
  let config := r.disk.config dir
  let (treeName, t) ← r.nameTree s.traversal dir
  let externals := if r.allow10 then config.externals else []
  let (treeDeps, t) ← externals.foldlM (r.registerExternal dir config) (config.treeDeps, t)
  let tree := BuildTree.new treeName dir treeDeps config.optionalTreeDeps config.plugins
  let (forest, t) := s.forest.addTreeToForest t treeName tree
  .ok (treeName,
    { forest := { forest with
        globalPlugins := forest.globalPlugins.insertMany config.globalPlugins }
      dirsWithExternals :=
        if externals.isEmpty then s.dirsWithExternals else s.dirsWithExternals ++ [dir]
      traversal := t })

/-- A child that a directory lists. -/
def traverseChild (hasBackingArea : Bool) (dir : String) (config : DirConfig dir)
    (s : DirQueue × Traversal) (child : String) : DirQueue × Traversal :=
  let childDir := r.disk.childDir dir child
  if r.disk.isDirectory childDir then
    if r.disk.isFile (r.disk.childConf childDir) then
      ({ s.1 with
        dirs := s.1.dirs ++ [childDir]
        parentDirs := s.1.parentDirs.insert childDir dir }, s.2)
    else
      (s.1, s.2.error config.item.location
        ("child " ++ r.disk.childConf childDir ++ " is missing"))
  else if hasBackingArea || config.optionalChildren.contains child then s
  else (s.1, s.2.error config.item.location ("unable to find child " ++ child))

def noteLocalTree (t : Traversal) (dir treeName : String) : Traversal :=
  if dir = r.thisConfigDir then { t with localTree := treeName } else t

/-- The item of a directory, if it has a name. -/
def traverseItem (forest : BuildForest) (t : Traversal) (dir treeName : String) :
    Except Halt (BuildForest × Traversal) :=
  let item := (r.disk.config dir).item
  if item.name.isEmpty then .ok (forest, t)
  else
    forest.addItemToForest r.allow10 t item.name (BuildItem.new item.name treeName item)

/-- The tree that a directory is in: its own, or that of the directory by which it was found. -/
def traverseTree (s : ItemsTraversal) (q : DirQueue) (dir : String) :
    Except Halt (String × ItemsTraversal) :=
  if (r.disk.config dir).isTreeRoot then r.registerBuildTree s dir
  else .ok (q.dirTrees.getD (q.parentDirs.getD dir "") "", s)

/-- What is done for a directory: its tree, its item and its children. -/
def traverseDir (hasBackingArea : Bool) (s : ItemsTraversal) (q : DirQueue) (dir : String) :
    Except Halt (ItemsTraversal × DirQueue) := do
  let config ← r.disk.readConfig dir
  let (treeName, s) ← r.traverseTree s q dir
  let (forest, t) ←
    r.traverseItem s.forest (r.noteLocalTree s.traversal dir treeName) dir treeName
  let (q, t) := config.children.foldl (r.traverseChild hasBackingArea dir config)
    ({ q with dirTrees := q.dirTrees.insert dir treeName }, t)
  .ok ({ s with
    forest
    traversal := t }, q)

/-- The loop of `traverseItems`. -/
def traverseDirs (hasBackingArea : Bool) :
    ℕ → ItemsTraversal → DirQueue → Except Halt ItemsTraversal
  | 0, _, _ => .error .outOfSteps
  | steps + 1, s, q =>
    match q.dirs with
    | [] => .ok s
    | dir :: dirs => do
      let (s, q) ← r.traverseDir hasBackingArea s { q with dirs } dir
      traverseDirs hasBackingArea steps s q

/-- The root of a forest, or of an external, is noted in 1.0-compatibility mode, so that it is not
traversed again. -/
def noteTraversed (t : Traversal) (topPath : String) : Traversal :=
  if r.allow10 then
    { t with
      externalGraph := t.externalGraph ++ [.addItem topPath]
      itemsTraversed := t.itemsTraversed.insert topPath }
  else t

def traverseItems (s : ItemsTraversal) (topPath : String) : Except Halt ItemsTraversal :=
  if r.allow10 && s.traversal.itemsTraversed.contains topPath then .ok s
  else do
    let t := r.noteTraversed s.traversal topPath
    let (forest, t) ←
      (if r.disk.hasBacking topPath then
        r.disk.appendBackingData r.allow10 r.steps s.forest t topPath
      else .ok (s.forest, t))
    r.traverseDirs (r.disk.hasBacking topPath) r.steps { s with
        forest
        traversal := t } ⟨[topPath], ∅, ∅⟩

/-! ### `traverseForests` -/

/-- An external of a forest is traversed as if it were a part of the forest. -/
def traverseExternal (topPath dir : String) (s : ItemsTraversal) (edecl : String) :
    Except Halt ItemsTraversal := do
  let epath := r.disk.canonicalizePath (dir ++ "/" ++ edecl)
  if ¬ (r.disk.hasConf epath || r.disk.hasBacking epath) then .ok s
  else if ¬ r.disk.hasConf epath then do
    let (forest, t) ← r.disk.appendBackingData r.allow10 r.steps s.forest s.traversal epath
    .ok { s with
      forest
      traversal := t }
  else do
    let (extTop, t) ← r.disk.findTop r.steps s.traversal epath
      ("external \"" ++ edecl ++ "\" of \"" ++ dir ++ "\"")
    if extTop.isEmpty then
      .ok { s with traversal := t }
    else
      let t := if epath = extTop then
          { t with externalGraph := t.externalGraph ++ [.addDependency topPath extTop] }
        else t
      r.traverseItems { s with traversal := t } extTop

/-- The externals of the directories that have some, among which come those of the externals. -/
def traverseExternals (topPath : String) : ℕ → ItemsTraversal → Except Halt ItemsTraversal
  | 0, _ => .error .outOfSteps
  | steps + 1, s =>
    match s.dirsWithExternals with
    | [] => .ok s
    | dir :: dirsWithExternals => do
      let s ← (r.disk.config dir).externals.foldlM (r.traverseExternal topPath dir)
        { s with dirsWithExternals }
      traverseExternals topPath steps s

/-- The forests that have been traversed, and the backing areas of one that is being traversed, by
the roots of their forests. -/
structure BackingTraversal where
  forests : BuildForestMap
  backingAreas : List String
  traversal : Traversal

/-- A backing area is kept if it is in another forest that has not come up yet, and that forest is
traversed. -/
def traverseBackingArea (traverseForests : BuildForestMap → Traversal → String → String →
      Except Halt (BuildForestMap × Traversal))
    (topPath : String) (s : BackingTraversal) (bdir : String) :
    Except Halt BackingTraversal := do
  let (btop, t) ← r.disk.findTop r.steps s.traversal bdir
    ("backing area of \"" ++ topPath ++ "\"")
  if btop.isEmpty then .error (.assertion "! btop.empty()")
  else if btop = topPath then
    let location := FileLocation.new (topPath ++ "/" ++ BuildForest.fileBacking) 0 0
    .ok { s with
      traversal := t.error location
        (if bdir = btop then "this forest lists itself as a backing area"
        else "backing area " ++ bdir ++ " belongs to this forest") }
  else if btop ∈ s.backingAreas then
    .ok { s with traversal := t }
  else do
    let (forests, t) ← traverseForests s.forests t btop ("backing area of \"" ++ topPath ++ "\"")
    .ok ⟨forests, s.backingAreas ++ [btop], t⟩

/-- The trees and items of a forest, with those of its externals. -/
def traverseForest (t : Traversal) (topPath : String) : Except Halt ItemsTraversal := do
  let s ← r.traverseItems ⟨.new topPath, [], t⟩ topPath
  if r.allow10 then r.traverseExternals topPath r.steps s
  else if s.dirsWithExternals.isEmpty then .ok s
  else .error (.assertion "dirs_with_externals.empty()")

/-- The bound is on the depth of the recursion here, which follows the backing areas. -/
def traverseForests : ℕ → TreeSet String → BuildForestMap → Traversal → String → String →
    Except Halt (BuildForestMap × Traversal)
  | 0, _, _, _, _, _ => .error .outOfSteps
  | depth + 1, visiting, forests, t, topPath, description =>
    if visiting.contains topPath then
      .error (.fatal ("backing area cycle detected for " ++ topPath ++ " (" ++ description ++ ")"))
    else if forests.contains topPath then .ok (forests, t)
    else do
      let config ← r.disk.readConfig topPath
      if ¬ config.isForestRoot then .error (.assertion "config->isForestRoot()")
      else do
        let s ← r.traverseForest t topPath
        let s' ← s.forest.backingAreas.foldlM
          (r.traverseBackingArea (traverseForests depth (visiting.insert topPath)) topPath)
          ⟨forests, [], s.traversal⟩
        .ok (s'.forests.insert topPath { s.forest with backingAreas := s'.backingAreas },
          s'.traversal)

end Traverser

/-! ### `mergeForests` -/

/-- Forests that are to be merged: the root that is kept, and the others. -/
structure ForestMerges where
  forestRenames : TreeMap String String
  forestMerges : TreeMap String (List String)

namespace BuildForest

/-- The forests of one of the sets into which externals fall apart. The last one is kept. -/
def addMerge (forests : BuildForestMap) (m : ForestMerges) (set : ItemList) :
    ForestMerges :=
  let merge := set.filter fun dir ↦ forests.contains dir
  match merge.getLast? with
  | none => m
  | some first =>
    if merge.length ≤ 1 then m
    else
      { forestRenames := merge.dropLast.foldl (fun renames other ↦ renames.insert other first)
          m.forestRenames
        forestMerges := m.forestMerges.insert first merge.dropLast }

/-- The trees and items of a forest become those of the one that is kept. -/
def mergeInto (keep remove : BuildForest) (t : Traversal) :
    Except Halt (BuildForest × Traversal) := do
  let (keep, t) := remove.buildTrees.toList.foldl
    (fun s tree ↦ s.1.addTreeToForest s.2 tree.1 tree.2) (keep, t)
  let (keep, t) ← remove.buildItems.toList.foldlM
    (fun s item ↦ s.1.addItemToForest true s.2 item.1 item.2) (keep, t)
  .ok ({ keep with
      backingAreas := keep.backingAreas ++ remove.backingAreas
      deletedTrees := keep.deletedTrees.insertMany remove.deletedTrees
      deletedItems := keep.deletedItems.insertMany remove.deletedItems
      globalPlugins := keep.globalPlugins.insertMany remove.globalPlugins }, t)

def mergeForest (keepDir : String) (s : BuildForestMap × Traversal) (removeDir : String) :
    Except Halt (BuildForestMap × Traversal) :=
  match s.1[keepDir]?, s.1[removeDir]? with
  | some keep, some remove => do
    let (keep, t) ← mergeInto keep remove s.2
    .ok ((s.1.insert keepDir keep).erase removeDir, t)
  | _, _ => .error .nullPointer

/-- Backing areas by the names that their forests have now, without duplicates. -/
def coalesceBackingAreas (forestRenames : TreeMap String String) (backingAreas : List String) :
    List String :=
  backingAreas.foldl
    (fun kept ba ↦
      if forestRenames.getD ba ba ∈ kept then kept else kept ++ [forestRenames.getD ba ba])
    []

def mergeForests (forests : BuildForestMap) (t : Traversal) (sets : List ItemList) :
    Except Halt (BuildForestMap × Traversal) := do
  let m := sets.foldl (addMerge forests) ⟨∅, ∅⟩
  let (forests, t) ← m.forestMerges.toList.foldlM
    (fun s merge ↦ merge.2.foldlM (mergeForest merge.1) s) (forests, t)
  .ok (forests.map fun _ forest ↦
    { forest with backingAreas := coalesceBackingAreas m.forestRenames forest.backingAreas }, t)

/-! ### `removeEmptyTrees` -/

/-- The trees of a forest that seem to be roots in 1.0-compatibility mode only: they are child-only,
have no items, and no tree depends on them. -/
def treesToDelete (disk : Disk) (forest : BuildForest) : TreeSet String :=
  let childOnly := forest.buildTrees.toList.filter fun tree ↦
    (disk.config tree.2.rootPath).isChildOnly
  let toDelete := childOnly.foldl (fun toDelete tree ↦ toDelete.insert tree.1) (∅ : TreeSet String)
  let toDelete := (forest.buildTrees.values.flatMap BuildTree.treeDeps).foldl (·.erase ·) toDelete
  forest.buildItems.values.foldl (fun toDelete item ↦ toDelete.erase item.treeName) toDelete

def removeEmptyTrees (disk : Disk) (forests : BuildForestMap) (t : Traversal) :
    BuildForestMap × Traversal :=
  (forests.map fun _ forest ↦
      { forest with
        buildTrees := (treesToDelete disk forest).toList.foldl (·.erase ·) forest.buildTrees },
    { t with
      localTree := forests.values.foldl
        (fun localTree forest ↦
          if (treesToDelete disk forest).contains localTree then "" else localTree) t.localTree })

/-! ### The whole traversal -/

def reportDirectoryGraphErrors (g : DependencyGraph) (description : String) : Findings :=
  let unknowns := g.unknowns.toList.flatMap fun deps ↦ deps.2.map fun dep ↦
    Findings.error .empty
      ("directory \"" ++ deps.1 ++ "\" references unknown " ++ description ++ " \"" ++ dep ++ "\"")
  let cycles := g.cycles.flatMap fun cycle ↦
    Findings.error .empty
        ("the following trees are involved in a cycle (" ++ description ++ "):") ::
      cycle.map fun dir ↦ .error .empty ("  " ++ dir)
  .concat unknowns ++ .concat cycles

/-- What is done about the externals of all forests in 1.0-compatibility mode. -/
def mergeExternals (forests : BuildForestMap) (t : Traversal) :
    Except Halt (BuildForestMap × Traversal) :=
  match (DependencyGraph.build t.externalGraph).bind DependencyGraph.check with
  | none => .error .nullPointer
  | some (false, g) =>
    .ok (forests, { t with findings := (t.findings ++
      .error .empty ("1.0 compatibility mode was unable to determine proper relationships among " ++
        "externals; some errors about unknown tree dependencies may be spurious and may " ++
        "disappear after you fix tree dependency cycles")) ++
      reportDirectoryGraphErrors g "external-dir" })
  | some (true, g) =>
    match g.getIndependentSets with
    | none => .error .nullPointer
    | some (sets, _) => mergeForests forests t sets

end BuildForest

namespace Traverser

variable (r : Traverser)

/-- `traverse` up to the validation: the forests as they are read. -/
def readForests (topPath : String) : Except Halt (BuildForestMap × Traversal) := do
  let (forests, t) ← r.traverseForests r.steps ∅ ∅ .new topPath "root of local forest"
  if r.allow10 then do
    let (forests, t) ← BuildForest.mergeExternals forests t
    .ok (BuildForest.removeEmptyTrees r.disk forests t)
  else .ok (forests, t)

/-- What `checkPlatformTypes` loads for the trees of a forest that has been read, and is validated
now. Their plugins are looked up among the items that the forest has by then. -/
def loadPlatforms (forests validated : BuildForestMap) (path : String) : Except Halt Unit :=
  match forests[path]?, validated[path]? with
  | some read, some forest =>
    read.propagateGlobals.buildTrees.values.forM fun tree ↦
      r.loadPlatformData
        ((tree.plugins.filterMap (forest.buildItems[·]?)).map BuildItem.getAbsolutePath)
  | _, _ => .error .nullPointer

/-- Forests are validated one after the other. Loading platform data may end the program in the
middle of it, and does not matter for the rest. -/
def traverse (fullIntegrity : Bool) (topPath : String) :
    Except Halt (BuildForestMap × Traversal) := do
  let (forests, t) ← r.readForests topPath
  match (BuildForest.computeBackingGraph forests).bind DependencyGraph.getSortedGraph,
      BuildForest.validateForests fullIntegrity forests with
  | some allForests, some (validated, findings) => do
    allForests.forM (r.loadPlatforms forests validated)
    .ok (validated, { t with findings := t.findings ++ findings })
  | _, _ => .error (.fatal "unable to continue after backing area error")

end Traverser

end Abuild
