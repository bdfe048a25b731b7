import Abuild.DumpData.Forests
import Abuild.ItemConfig.VisibleTo
import Abuild.PlatformSelector.Grammar
import Abuild.PlatformTables.Load

/-!
What the readers of configuration files accept, after the checks that go through all forests, and
that `dumpData` writes it so that it can be read back exactly if paths and descriptions are written
well (`dumps_iff_of_accepted`). Names have only letters, digits and a few other characters, none of
which means anything in a document. Paths may have any, and are written as they are.
-/

set_option autoImplicit false
set_option relaxedAutoImplicit false

namespace Abuild

open Std (TreeMap TreeSet)

namespace DumpData

open BuildForest (Backs BackingOk)
open ItemConfig (isItemName)
open PlatformSelector (isName isComponentChar)
open Relation (ReflTransGen)
open Xml (Attribute Gap Declared Stands startText)

/-! ### What is accepted -/

/-- Platform data that have been loaded and checked. -/
structure AcceptedTables (d : PlatformTables) : Prop where
  checked : d.checked = true
  known : ∀ platformType ∈ d.targetTypes,
    platformType ∈ d.platformsByType ∧ platformType ∈ d.platformTypeParents
  names : ∀ platformType ∈ d.targetTypes, isName platformType = true
  parents : ∀ platformType parent : String, d.platformTypeParents[platformType]? = some parent →
    parent = "" ∨ isName parent = true
  platforms : ∀ (platformType : String) (platforms : List (String × Bool)),
    d.platformsByType[platformType]? = some platforms →
      ∀ platform ∈ platforms, IsPlatformText platform.1

/-- A platform type or a selector that a dependency has been declared with. -/
def AcceptedDepType (depPlatformType : String) : Prop :=
  depPlatformType = "" ∨ isName depPlatformType = true ∨
    (PlatformSelector.matchSelector depPlatformType).isSome = true

structure AcceptedItem (name : String) (item : Item) : Prop where
  valid : isItemName name = true
  visibleTo : ∃ location value,
    ItemConfig.checkVisibleTo location name value = (item.visibleTo, [])
  buildAlso : ∀ b ∈ item.getBuildAlso, isItemName b.name = true
  deps : ∀ dep ∈ item.deps, isItemName dep = true
  depPlatformTypes : ∀ dep ∈ item.deps, AcceptedDepType (item.config.getDepPlatformType dep).1
  flags : ∀ (dep : String) (flags : TreeSet String), item.flagData.getFlags dep = some flags →
    ∀ flag ∈ flags, isItemName flag = true
  expandedDependencies : ∀ dep ∈ item.expandedDependencies, isItemName dep = true
  optionalDepPresence : ∀ dep ∈ item.optionalDepPresence, isItemName dep = true
  platformTypes : ∀ platformType ∈ item.getPlatformTypes, isName platformType = true
  buildablePlatforms : ∀ platform ∈ item.toBuildItem.getBuildablePlatforms, IsPlatformText platform
  supportedFlags : ∀ flag ∈ item.supportedFlags, isItemName flag = true
  traits : ∀ (trait : String) (referents : TreeSet String),
    item.traitData.traitData[trait]? = some referents →
      isItemName trait = true ∧ ∀ referent ∈ referents, isItemName referent = true

structure AcceptedTree (name : String) (tree : Tree) : Prop where
  valid : isItemName name = true
  platformData : AcceptedTables tree.platformData
  supportedTraits : ∀ trait ∈ tree.supportedTraits, isItemName trait = true
  plugins : ∀ plugin ∈ tree.plugins, isItemName plugin = true
  treeDeps : ∀ dep ∈ tree.treeDeps, isItemName dep = true
  expandedTreeDeps : ∀ dep ∈ tree.expandedTreeDeps, isItemName dep = true
  omittedTreeDeps : ∀ dep ∈ tree.omittedTreeDeps, isItemName dep = true

/-- What has been deleted is the name of a tree or of an item, as it has been found. -/
structure AcceptedForest (forest : Forest) : Prop where
  deletedTrees : ∀ name ∈ forest.deletedTrees, isItemName name = true
  deletedItems : ∀ name ∈ forest.deletedItems, isItemName name = true
  globalPlugins : ∀ name ∈ forest.globalPlugins, isItemName name = true
  trees : ∀ (name : String) (tree : Tree), forest.buildTrees[name]? = some tree →
    AcceptedTree name tree
  items : ∀ (name : String) (item : Item), forest.buildItems[name]? = some item →
    AcceptedItem name item
  sortedTreeNames : ∀ name, name ∈ forest.sortedTreeNames ↔ name ∈ forest.buildTrees
  sortedItemNames : ∀ name, name ∈ forest.sortedItemNames ↔ name ∈ forest.buildItems
  treeNames : ∀ (name : String) (item : Item), forest.buildItems[name]? = some item →
    item.treeName ∈ forest.buildTrees

def backingForests (data : DumpData) : BuildForestMap :=
  data.forests.map fun _ forest ↦ forest.toBuildForest

/-- Trees and items come from their own forest or one that it backs to. -/
structure Accepted (data : DumpData) : Prop where
  backing : BackingOk data.backingForests
  internalPlatformData : AcceptedTables data.internalPlatformData
  validTraits : ∀ trait ∈ data.validTraits, isItemName trait = true
  forests : ∀ (forestRoot : String) (forest : Forest), data.forests[forestRoot]? = some forest →
    AcceptedForest forest
  treeHomes : ∀ (forestRoot : String) (forest : Forest), data.forests[forestRoot]? = some forest →
    ∀ (name : String) (tree : Tree), forest.buildTrees[name]? = some tree →
      ReflTransGen (Backs data.backingForests) forestRoot tree.forestRoot
  itemHomes : ∀ (forestRoot : String) (forest : Forest), data.forests[forestRoot]? = some forest →
    ∀ (name : String) (item : Item), forest.buildItems[name]? = some item →
      ReflTransGen (Backs data.backingForests) forestRoot item.forestRoot

/-! ### Names are plain -/

theorem plain_of_isPlatformText {text : String} (h : IsPlatformText text) : Plain text := by
  refine List.all_eq_true.mpr fun c hc ↦ ?_
  rcases h.chars c hc with hcomponent | rfl
  · unfold isComponentChar at hcomponent
    simp only [Bool.or_eq_true, decide_eq_true_eq] at hcomponent
    rcases hcomponent with (halphanum | rfl) | rfl
    · exact isPlain_of_isAlphanum halphanum
    · rfl
    · rfl
  · rfl

theorem plain_of_isName {name : String} (h : isName name = true) : Plain name :=
  plain_of_isPlatformText (isPlatformText_of_isName h)

theorem plain_of_isItemName {name : String} (h : isItemName name = true) : Plain name := by
  refine plain_of_isPlatformText (isPlatformText_of_split ?_)
  unfold isItemName at h
  cases hsplit : Util.split '.' name with
  | nil => exact absurd hsplit (Util.split_ne_nil '.' name)
  | cons first rest =>
    rw [hsplit] at h
    obtain ⟨hfirst, hrest⟩ := Bool.and_eq_true_iff.mp h
    exact Bool.and_eq_true_iff.mpr ⟨(Bool.and_eq_true_iff.mp hfirst).1, hrest⟩

section Selectors

open PlatformSelector

theorem plain_pattern (p : Pattern) : Plain p.text := by
  cases p with
  | any => decide +kernel
  | name name => exact plain_of_isName name.valid

theorem plain_joined (patterns : List Pattern) : Plain (joined patterns) := by
  refine List.all_eq_true.mpr fun c hc ↦ ?_
  have hdot : ".".toList = ['.'] := rfl
  rcases Util.mem_join hdot hc with rfl | ⟨part, hpart, hc⟩
  · rfl
  · obtain ⟨p, -, rfl⟩ := List.mem_map.mp hpart
    exact List.all_eq_true.mp (plain_pattern p) c hc

theorem plain_criterion (k : Criterion) : Plain k.text := by
  cases k with
  | all => decide +kernel
  | skip => decide +kernel
  | dfault => decide +kernel
  | option o =>
    refine plain_append (by decide) ?_
    cases o with
    | none => decide +kernel
    | some p => exact plain_pattern p
  | compiler compiler o => exact plain_append (by decide) (plain_joined _)
  | platform os cpu toolset compiler o => exact plain_append (by decide) (plain_joined _)

theorem plain_selector (s : Selector) : Plain s.text := by
  obtain ⟨platformType, criterion⟩ := s
  cases platformType with
  | none => exact plain_criterion criterion
  | some name =>
    have hcolon : Plain ":" := by
      decide +kernel
    exact plain_append (plain_append (plain_of_isName name.valid) hcolon)
      (plain_criterion criterion)

end Selectors

theorem AcceptedDepType.plain {depPlatformType : String} (h : AcceptedDepType depPlatformType) :
    Plain depPlatformType := by
  rcases h with rfl | hname | hselector
  · decide +kernel
  · exact plain_of_isName hname
  · obtain ⟨⟨platformType, criterion⟩, hmatch⟩ := Option.isSome_iff_exists.mp hselector
    obtain ⟨s, rfl, -⟩ := PlatformSelector.matchSelector_eq_some_iff.mp hmatch
    exact plain_selector s

/-- A value that is accepted is made of the components of the name, dots and a star. -/
theorem plain_visibleTo {location : FileLocation} {name value visibleTo : String}
    (hname : isItemName name = true)
    (h : ItemConfig.checkVisibleTo location name value = (visibleTo, [])) : Plain visibleTo := by
  rcases ItemConfig.checkVisibleTo_cases location name value with
    ⟨-, hcheck⟩ | ⟨-, -, e, hcheck⟩ | ⟨-, hpublic, hstar, errors, hcheck, hancestor⟩
  · obtain ⟨rfl, -⟩ := Prod.mk.inj (h.symm.trans hcheck)
    decide +kernel
  · cases (Prod.mk.inj (h.symm.trans hcheck)).2
  · obtain ⟨rfl, rfl⟩ := Prod.mk.inj (h.symm.trans hcheck)
    rcases ItemConfig.star_cases hstar with rfl | ⟨p, rfl, hcomponents⟩
    · decide +kernel
    · rw [hcomponents] at hancestor
      have hproper := (ItemConfig.isAncestorScope_iff hpublic p).mp (hancestor.mp rfl)
      refine plain_append ?_ (by decide)
      refine List.all_eq_true.mpr fun c hc ↦ ?_
      rw [← ItemConfig.join_components p] at hc
      rcases Util.mem_join ItemConfig.joint_dot hc with rfl | ⟨part, hpart, hc⟩
      · rfl
      · have hmem : part ∈ ItemConfig.components name :=
          List.dropLast_subset _ (hproper.1.subset hpart)
        exact List.all_eq_true.mp (plain_of_isItemName hname) c (Util.mem_of_mem_split hmem hc)

theorem AcceptedTables.plain {d : PlatformTables} (h : AcceptedTables d) : PlainTables d where
  checked := h.checked
  known := h.known
  names platformType hmem := plain_of_isName (h.names platformType hmem)
  parents platformType := by
    rw [TreeMap.getD_eq_getD_getElem?]
    cases hparent : d.platformTypeParents[platformType]? with
    | none => decide +kernel
    | some parent =>
      rcases h.parents platformType parent hparent with rfl | hname
      · decide +kernel
      · exact plain_of_isName hname
  platforms platformType platform hmem := by
    rw [TreeMap.getD_eq_getD_getElem?] at hmem
    cases hplatforms : d.platformsByType[platformType]? with
    | none =>
      rw [hplatforms] at hmem
      cases hmem
    | some platforms =>
      rw [hplatforms] at hmem
      exact plain_of_isPlatformText (h.platforms platformType platforms hplatforms platform hmem)

theorem plain_of_mem_toList {names : TreeSet String} (h : ∀ name ∈ names, isItemName name = true) :
    ∀ name ∈ names.toList, Plain name :=
  fun name hname ↦ plain_of_isItemName (h name (TreeSet.mem_toList.mp hname))

theorem AcceptedItem.plain {name : String} {item : Item} (h : AcceptedItem name item) :
    PlainItem item where
  visibleTo := by
    obtain ⟨location, value, hcheck⟩ := h.visibleTo
    exact plain_visibleTo h.valid hcheck
  buildAlso b hb := plain_of_isItemName (h.buildAlso b hb)
  deps dep hdep := by
    refine ⟨plain_of_isItemName (h.deps dep hdep), (h.depPlatformTypes dep hdep).plain, ?_⟩
    intro flag hflag
    unfold dependencyRecord at hflag
    cases hflags : item.flagData.getFlags dep with
    | none =>
      rw [hflags] at hflag
      cases hflag
    | some flags =>
      rw [hflags] at hflag
      exact plain_of_isItemName (h.flags dep flags hflags flag (TreeSet.mem_toList.mp hflag))
  expandedDependencies dep hdep := plain_of_isItemName (h.expandedDependencies dep hdep)
  omittedDependencies dep hdep := by
    unfold Item.omittedDependencies at hdep
    obtain ⟨entry, hentry, rfl⟩ := List.mem_map.mp hdep
    exact plain_of_isItemName (h.optionalDepPresence _ (BuildForest.mem_of_getElem?
      (TreeMap.mem_toList_iff_getElem?_eq_some.mp (List.mem_of_mem_filter hentry))))
  platformTypes platformType hmem := plain_of_isName (h.platformTypes platformType hmem)
  buildablePlatforms platform hmem := by
    unfold Item.buildablePlatforms at hmem
    rw [TreeSet.mem_toList, TreeSet.mem_ofList, List.contains_iff_mem] at hmem
    exact plain_of_isPlatformText (h.buildablePlatforms platform hmem)
  supportedFlags := plain_of_mem_toList h.supportedFlags
  traits entry hentry := by
    obtain ⟨hname, hreferents⟩ :=
      h.traits entry.1 entry.2 (TreeMap.mem_toList_iff_getElem?_eq_some.mp hentry)
    exact ⟨plain_of_isItemName hname, plain_of_mem_toList hreferents⟩

theorem AcceptedTree.plain {name : String} {tree : Tree} (h : AcceptedTree name tree) :
    PlainTree tree where
  platformData := h.platformData.plain
  supportedTraits := plain_of_mem_toList h.supportedTraits
  plugins plugin hplugin := plain_of_isItemName (h.plugins plugin hplugin)
  treeDeps dep hdep := plain_of_isItemName (h.treeDeps dep hdep)
  expandedTreeDeps dep hdep := plain_of_isItemName (h.expandedTreeDeps dep hdep)
  omittedTreeDeps := plain_of_mem_toList h.omittedTreeDeps

theorem AcceptedForest.plain {forest : Forest} (h : AcceptedForest forest) :
    PlainForest forest where
  deletedTrees := plain_of_mem_toList h.deletedTrees
  deletedItems := plain_of_mem_toList h.deletedItems
  globalPlugins := plain_of_mem_toList h.globalPlugins
  trees name hname := by
    obtain ⟨tree, htree⟩ := BuildForest.exists_of_mem ((h.sortedTreeNames name).mp hname)
    exact ⟨tree, htree, (h.trees name tree htree).plain,
      plain_of_isItemName (h.trees name tree htree).valid⟩
  items name hname := by
    obtain ⟨item, hitem⟩ := BuildForest.exists_of_mem ((h.sortedItemNames name).mp hname)
    exact ⟨item, hitem, (h.items name item hitem).plain,
      plain_of_isItemName (h.items name item hitem).valid⟩

/-! ### The document -/

/-- All forests, in the order in which they are written. -/
def allForests (data : DumpData) : List String :=
  ((BuildForest.computeBackingGraph data.backingForests).bind
    DependencyGraph.getSortedGraph).getD []

/-- What the document is to tell. -/
def record (data : DumpData) : DataRecord where
  errors := data.anyErrors
  platformData := platformRecords data.internalPlatformData
  supportedTraits := data.validTraits.toList
  forests := data.allForests.filterMap fun forestRoot ↦
    data.forests[forestRoot]?.map (forestRecord data data.allForests forestRoot)

/-- All forests, trees and items are told of. -/
structure Complete (data : DumpData) : Prop where
  forests : ∀ (forestRoot : String) (forest : Forest), data.forests[forestRoot]? = some forest →
    forestRecord data data.allForests forestRoot forest ∈ data.record.forests
  trees : ∀ (forestRoot : String) (forest : Forest), data.forests[forestRoot]? = some forest →
    ∀ (name : String) (tree : Tree), forest.buildTrees[name]? = some tree →
      treeRecord data data.allForests forest name tree ∈
        (forestRecord data data.allForests forestRoot forest).trees
  items : ∀ (forestRoot : String) (forest : Forest), data.forests[forestRoot]? = some forest →
    ∀ (name : String) (item : Item), forest.buildItems[name]? = some item →
      ∃ tree, forest.buildTrees[item.treeName]? = some tree ∧
        itemRecord data (number data.allForests item.forestRoot) item name ∈
          (treeRecord data data.allForests forest item.treeName tree).items

open Classical in
/-- The record that a document stands for. -/
noncomputable def readData (document : Xml.Node) : Option DataRecord :=
  match document.elements attlist with
  | [root] => (decode root).filter fun r ↦ r.toElement = root
  | _ => none

open Classical in
theorem readData_eq_some_iff {document : Xml.Node} {r : DataRecord} :
    readData document = some r ↔ document.elements attlist = [r.toElement] := by
  unfold readData
  constructor
  · intro h
    split at h
    · rename_i root helements
      obtain ⟨-, hroot⟩ := Option.filter_eq_some_iff.mp h
      rw [helements, of_decide_eq_true hroot]
    · cases h
  · intro h
    rw [h]
    show Option.filter _ (decode r.toElement) = _
    rw [decode_toElement]
    exact Option.filter_eq_some_iff.mpr ⟨rfl, decide_eq_true rfl⟩

/-- The text is a document, from which the record is read back. -/
def Dumps (data : DumpData) : Prop :=
  ∃ text document, dumpData data = some text ∧ Xml.read text.toList = some document ∧
    readData document = some data.record

/-- All paths and all descriptions have their property. -/
structure Texts (data : DumpData) (path description : String → Prop) : Prop where
  forests : ∀ (forestRoot : String) (forest : Forest), data.forests[forestRoot]? = some forest →
    path forestRoot
  trees : ∀ (forestRoot : String) (forest : Forest), data.forests[forestRoot]? = some forest →
    ∀ (name : String) (tree : Tree), forest.buildTrees[name]? = some tree → path tree.rootPath
  items : ∀ (forestRoot : String) (forest : Forest), data.forests[forestRoot]? = some forest →
    ∀ (name : String) (item : Item), forest.buildItems[name]? = some item →
      path item.getAbsolutePath ∧ description item.description

/-- Paths may be written as they are, and descriptions have no tabs and no characters that no
document may have. -/
def Legible (data : DumpData) : Prop := data.Texts Plain Readable

/-- A document may have the text in it, whether written as it is or not. -/
def IsLegal (text : String) : Prop := text.toList.all Xml.isChar = true

instance (text : String) : Decidable (IsLegal text) :=
  inferInstanceAs (Decidable (text.toList.all Xml.isChar = true))

section Document

variable {data : DumpData}

theorem Accepted.validationOrder (h : data.Accepted) :
    ∃ g, BuildForest.computeBackingGraph data.backingForests = some g ∧
      g.getSortedGraph = some data.allForests ∧
      BuildForest.ValidationOrder data.backingForests data.allForests := by
  obtain ⟨g, order, hg, horder, hvalid⟩ := BuildForest.getSortedGraph_spec h.backing
  have hall : data.allForests = order := by
    unfold allForests
    rw [hg, Option.bind_some, horder, Option.getD_some]
  rw [hall]
  exact ⟨g, hg, horder, hvalid⟩

theorem mem_backingForests {forestRoot : String} :
    forestRoot ∈ data.backingForests ↔ forestRoot ∈ data.forests := TreeMap.mem_map

theorem Accepted.mem_allForests (h : data.Accepted) (forestRoot : String) :
    forestRoot ∈ data.allForests ↔ forestRoot ∈ data.forests := by
  obtain ⟨-, -, -, hvalid⟩ := h.validationOrder
  rw [hvalid.mem_iff, mem_backingForests]

theorem Accepted.complete (h : data.Accepted) : data.Complete where
  forests forestRoot forest hforest := by
    have hmem := (h.mem_allForests forestRoot).mpr (BuildForest.mem_of_getElem? hforest)
    exact List.mem_filterMap.mpr ⟨forestRoot, hmem, by rw [hforest, Option.map_some]⟩
  trees forestRoot forest hforest name tree htree := by
    have hmem := ((h.forests forestRoot forest hforest).sortedTreeNames name).mpr
      (BuildForest.mem_of_getElem? htree)
    exact List.mem_filterMap.mpr ⟨name, hmem, by rw [htree, Option.map_some]⟩
  items forestRoot forest hforest name item hitem := by
    have haccepted := h.forests forestRoot forest hforest
    obtain ⟨tree, htree⟩ := BuildForest.exists_of_mem (haccepted.treeNames name item hitem)
    have hmem := (haccepted.sortedItemNames name).mpr (BuildForest.mem_of_getElem? hitem)
    refine ⟨tree, htree, List.mem_map.mpr ⟨(name, item), List.mem_filterMap.mpr
      ⟨name, hmem, ?_⟩, rfl⟩⟩
    rw [hitem, Option.filter_some, if_pos (decide_eq_true rfl), Option.map_some]

theorem Accepted.legibleForest_iff (h : data.Accepted) {forestRoot : String} {forest : Forest}
    (hforest : data.forests[forestRoot]? = some forest) :
    LegibleForest forestRoot forest ↔ Plain forestRoot ∧
      (∀ (name : String) (tree : Tree), forest.buildTrees[name]? = some tree →
        Plain tree.rootPath) ∧
      ∀ (name : String) (item : Item), forest.buildItems[name]? = some item → LegibleItem item := by
  have haccepted := h.forests forestRoot forest hforest
  constructor
  · rintro ⟨hroot, htrees⟩
    have htree : ∀ (name : String) (tree : Tree), forest.buildTrees[name]? = some tree →
        LegibleTree forest name tree := fun name tree htree ↦
      htrees name ((haccepted.sortedTreeNames name).mpr (BuildForest.mem_of_getElem? htree)) tree
        htree
    refine ⟨hroot, fun name tree hname ↦ (htree name tree hname).1, fun name item hitem ↦ ?_⟩
    obtain ⟨tree, hhome⟩ := BuildForest.exists_of_mem (haccepted.treeNames name item hitem)
    have hmem := (haccepted.sortedItemNames name).mpr (BuildForest.mem_of_getElem? hitem)
    exact (htree item.treeName tree hhome).2 name hmem item hitem rfl
  · rintro ⟨hroot, htrees, hitems⟩
    exact ⟨hroot, fun treeName _ tree htree ↦ ⟨htrees treeName tree htree,
      fun name _ item hitem _ ↦ hitems name item hitem⟩⟩

theorem Accepted.legible_iff (h : data.Accepted) :
    data.Legible ↔ ∀ forestRoot ∈ data.allForests, ∀ forest,
      data.forests[forestRoot]? = some forest → LegibleForest forestRoot forest := by
  constructor
  · intro hlegible forestRoot _ forest hforest
    exact (h.legibleForest_iff hforest).mpr ⟨hlegible.forests forestRoot forest hforest,
      hlegible.trees forestRoot forest hforest, hlegible.items forestRoot forest hforest⟩
  · intro hall
    have hforests : ∀ (forestRoot : String) (forest : Forest),
        data.forests[forestRoot]? = some forest → _ := fun forestRoot forest hforest ↦
      (h.legibleForest_iff hforest).mp (hall forestRoot
        ((h.mem_allForests forestRoot).mpr (BuildForest.mem_of_getElem? hforest)) forest hforest)
    exact ⟨fun forestRoot forest hforest ↦ (hforests forestRoot forest hforest).1,
      fun forestRoot forest hforest ↦ (hforests forestRoot forest hforest).2.1,
      fun forestRoot forest hforest ↦ (hforests forestRoot forest hforest).2.2⟩

theorem backs_iff {forestRoot area : String} {forest : Forest}
    (hforest : data.forests[forestRoot]? = some forest) :
    Backs data.backingForests forestRoot area ↔ area ∈ forest.backingAreas := by
  have hget : data.backingForests[forestRoot]? = some forest.toBuildForest := by
    unfold backingForests
    rw [TreeMap.getElem?_map, hforest, Option.map_some]
  constructor
  · rintro ⟨other, hother, harea⟩
    obtain rfl := Option.some_inj.mp (hget.symm.trans hother)
    exact harea
  · exact fun harea ↦ ⟨_, hget, harea⟩

/-- A forest refers to itself and to those before it only. -/
theorem Accepted.refersTo (h : data.Accepted) {front back : List String} {forestRoot : String}
    (horder : data.allForests = front ++ forestRoot :: back) {forest : Forest}
    (hforest : data.forests[forestRoot]? = some forest) :
    RefersTo forest (front ++ [forestRoot]) := by
  obtain ⟨-, -, -, hvalid⟩ := h.validationOrder
  have hreach : ∀ home, ReflTransGen (Backs data.backingForests) forestRoot home →
      home ∈ front ++ [forestRoot] := by
    intro home hhome
    rcases Relation.reflTransGen_iff_eq_or_transGen.mp hhome with rfl | hbelow
    · exact List.mem_append_right _ (List.mem_singleton_self _)
    · exact List.mem_append_left _ (hvalid.ordered.transGen front forestRoot back horder _ hbelow)
  refine ⟨fun area harea ↦ ?_, fun name tree htree ↦ ?_, fun name item hitem ↦ ?_⟩
  · exact hreach area (ReflTransGen.single ((backs_iff hforest).mpr harea))
  · exact hreach _ (h.treeHomes forestRoot forest hforest name tree htree)
  · exact hreach _ (h.itemHomes forestRoot forest hforest name item hitem)

theorem isName_version : Xml.isName "version".toList = true := by
  decide

def dataWritten (data : DumpData) : List Attribute :=
  [.raw .blank "version" "2" isName_version] ++
    flagAttribute .blank "errors" data.anyErrors (by decide)

theorem declared_dataWritten (data : DumpData) :
    Declared attlist "abuild-data" data.dataWritten := by
  refine ⟨by decide, nodup_attlist _, ?_⟩
  unfold dataWritten
  rw [List.map_append]
  exact (List.Sublist.refl ["version"]).append (map_key_flagAttribute ..)

theorem good_dataWritten (data : DumpData) : ∀ a ∈ data.dataWritten, a.good := by
  unfold dataWritten
  rw [List.forall_mem_append]
  have hversion : Plain "2" := by
    decide +kernel
  exact ⟨List.forall_mem_singleton.mpr hversion, good_flagAttribute _ _ _ _⟩

theorem toElement_record (data : DumpData) : data.record.toElement =
    ⟨"abuild-data", data.dataWritten.map Attribute.pair,
      [platformDataElement (platformRecords data.internalPlatformData)] ++
        nameElements "supported-traits" "supported-trait" data.validTraits.toList ++
        data.record.forests.map ForestRecord.toElement⟩ := by
  unfold dataWritten
  rw [List.map_append, map_pair_flagAttribute]
  rfl

/-- What is between the tags of the whole document. -/
theorem Accepted.stands (h : data.Accepted) :
    ∃ platforms forests, dumpPlatformData data.internalPlatformData " " = some platforms ∧
      dumpForests data ∅ 0 data.allForests = some forests ∧
      Stands attlist (platforms ++ dumpNames " " "supported-traits" "supported-trait"
          data.validTraits.toList ++ forests).toList data.record.toElement.children
        data.Legible := by
  obtain ⟨-, -, -, hvalid⟩ := h.validationOrder
  have hone : " ".toList.all Xml.isSpace = true := rfl
  obtain ⟨platforms, hplatforms, hplatformsStand⟩ :=
    stands_dumpPlatformData h.internalPlatformData.plain hone
  have htraits := stands_dumpNames "supported-traits" "supported-trait" hone
    (by decide) (by decide) (plain_of_mem_toList h.validTraits)
  have hforests : ∀ front forestRoot back, data.allForests = front ++ forestRoot :: back →
      ∃ forest, data.forests[forestRoot]? = some forest ∧ PlainForest forest ∧
        RefersTo forest (front ++ [forestRoot]) := by
    intro front forestRoot back horder
    have hmem : forestRoot ∈ data.allForests :=
      horder ▸ List.mem_append_right _ List.mem_cons_self
    obtain ⟨forest, hforest⟩ := BuildForest.exists_of_mem ((h.mem_allForests forestRoot).mp hmem)
    exact ⟨forest, hforest, (h.forests forestRoot forest hforest).plain,
      h.refersTo horder hforest⟩
  have horder : data.allForests = [] ++ data.allForests := rfl
  have hnumbers : Numbered data.allForests [] ∅ := fun _ hmem ↦ absurd hmem List.not_mem_nil
  obtain ⟨forests, hdump, hforestsStand⟩ :=
    stands_dumpForests data hvalid.nodup hforests horder hnumbers
  refine ⟨platforms, forests, hplatforms, hdump, ?_⟩
  rw [String.toList_append, String.toList_append, toElement_record]
  refine ((hplatformsStand.append htraits).append hforestsStand).of_iff ?_
  rw [h.legible_iff, true_and, true_and]

/-- What is written tells the data exactly if all paths and descriptions are written well. -/
theorem Accepted.dumps_iff_legible (h : data.Accepted) : data.Dumps ↔ data.Legible := by
  obtain ⟨g, hg, hsorted, -⟩ := h.validationOrder
  obtain ⟨platforms, forests, hplatforms, hforests, hstands⟩ := h.stands
  unfold backingForests at hg
  have hdump : dumpData data = some ("<?xml version=\"1.0\"?>" ++ "\n" ++
      "<abuild-data version=\"2\"" ++ (if data.anyErrors then " errors=\"1\"" else "") ++ ">" ++
      "\n" ++ platforms ++
      dumpNames " " "supported-traits" "supported-trait" data.validTraits.toList ++
      forests ++ "</abuild-data>" ++ "\n") := by
    unfold dumpData
    simp only [hg, hsorted, hplatforms, hforests, Option.bind_eq_bind, Option.bind_some]
  have hspace : ['\n'].all Xml.isSpace = true := rfl
  have hinner : Stands attlist (['\n'] ++ (platforms ++ dumpNames " " "supported-traits"
      "supported-trait" data.validTraits.toList ++ forests).toList ++ [])
      data.record.toElement.children data.Legible := hstands.between hspace nil_isSpace
  rw [← Xml.read_iff data.declared_dataWritten nil_isSpace data.good_dataWritten hspace hspace
    hinner]
  have htext : ("<?xml version=\"1.0\"?>" ++ "\n" ++
      "<abuild-data version=\"2\"" ++ (if data.anyErrors then " errors=\"1\"" else "") ++ ">" ++
      "\n" ++ platforms ++
      dumpNames " " "supported-traits" "supported-trait" data.validTraits.toList ++
      forests ++ "</abuild-data>" ++ "\n").toList = Xml.declaration ++ (['\n'] ++
        (startText "abuild-data" data.dataWritten [] ++ ['>'] ++ ((['\n'] ++ (platforms ++
          dumpNames " " "supported-traits" "supported-trait" data.validTraits.toList ++
            forests).toList ++ []) ++ ('<' :: '/' :: "abuild-data".toList ++ '>' :: ['\n'])))) := by
    unfold Xml.declaration dataWritten flagAttribute
    cases data.anyErrors <;> simp [startText, Attribute.toList_raw, Gap.blank]
  rw [← htext]
  unfold Dumps
  rw [hdump]
  constructor
  · rintro ⟨text, document, htext, hread, hdata⟩
    obtain rfl := Option.some_inj.mp htext
    exact ⟨document, hread, by rw [readData_eq_some_iff.mp hdata, toElement_record]⟩
  · rintro ⟨document, hread, helements⟩
    exact ⟨_, document, rfl, hread, by rw [readData_eq_some_iff, helements, toElement_record]⟩

end Document

/-- What is accepted is written so that it can be read back exactly if all paths and descriptions
are written well, and nothing is left out. -/
theorem dumps_iff_of_accepted {data : DumpData} (h : data.Accepted) :
    (data.Dumps ↔ data.Legible) ∧ data.Complete :=
  ⟨h.dumps_iff_legible, h.complete⟩

/-! ### A forest with one item -/

section Sample

theorem getElem?_empty_ne {β : Type} {name : String} {b : β} :
    (∅ : TreeMap String β)[name]? ≠ some b := by
  rw [TreeMap.getElem?_emptyc]
  exact Option.some_ne_none b ∘ Eq.symm

theorem getElem?_singleton_iff {β : Type} {name other : String} {a b : β} :
    ((∅ : TreeMap String β).insert name a)[other]? = some b ↔ name = other ∧ a = b := by
  rw [TreeMap.getElem?_insert]
  split_ifs with heq
  · rw [Option.some_inj, and_iff_right (compare_eq_iff_eq.mp heq)]
  · exact iff_of_false getElem?_empty_ne fun hsame ↦ heq (compare_eq_iff_eq.mpr hsame.1)

theorem mem_singleton_iff {β : Type} {name other : String} {a : β} :
    other ∈ (∅ : TreeMap String β).insert name a ↔ other = name := by
  rw [TreeMap.mem_insert, compare_eq_iff_eq, or_iff_left TreeMap.not_mem_emptyc, eq_comm]

/-- The platforms that there always are, and one for the compiler. -/
def samplePlatforms : PlatformTables :=
  (PlatformTables.run [.addPlatform "linux.x86_64.gcc" "native" false, .check ∅ ∅]).getD .initial

theorem forall_mem_iff_keys {β : Type} {m : TreeMap String β} {p : String → Prop} :
    (∀ name ∈ m, p name) ↔ ∀ name ∈ m.keys, p name := by
  simp only [TreeMap.mem_keys]

theorem forall_getElem?_iff {β : Type} {m : TreeMap String β} {p : String → β → Prop} :
    (∀ (name : String) (b : β), m[name]? = some b → p name b) ↔
      ∀ entry ∈ m.toList, p entry.1 entry.2 :=
  ⟨fun h _ hentry ↦ h _ _ (TreeMap.mem_toList_iff_getElem?_eq_some.mp hentry),
    fun h name b hname ↦ h (name, b) (TreeMap.mem_toList_iff_getElem?_eq_some.mpr hname)⟩

theorem acceptedTables_samplePlatforms : AcceptedTables samplePlatforms where
  checked := by decide
  known := forall_mem_iff_keys.mpr (by decide)
  names := forall_mem_iff_keys.mpr (by decide)
  parents := forall_getElem?_iff.mpr (by decide)
  platforms := by
    have hnames : ∀ entry ∈ samplePlatforms.platformsByType.toList, ∀ platform ∈ entry.2,
        (Util.split '.' platform.1).all isName = true := by
      decide +kernel
    exact forall_getElem?_iff.mpr fun entry hentry platform hplatform ↦
      isPlatformText_of_split (hnames entry hentry platform hplatform)

def sampleConfig (path : String) : ItemConfig where
  name := "lib"
  location := ⟨path ++ "/Abuild.conf", 0, 0⟩
  absolutePath := path
  deps := []
  optionalDeps := ∅
  depPlatformTypes := ∅
  depPlatformSelectors := ∅
  buildAlso := []
  flagData := .empty
  traitData := .empty

def sampleItem (root : String) : Item :=
  { BuildItem.new "lib" "main" (sampleConfig (root ++ "/lib")) with
    forestRoot := root
    targetType := .objectCode
    platformTypes := (∅ : TreeMap String (List String)).insert "native" ["linux.x86_64.gcc"]
    description := "The \"first\" library"
    visibleTo := ""
    supportedFlags := ∅
    serial := false }

def sampleTree (root : String) : Tree :=
  { BuildTree.new "main" root [] ∅ [] with
    forestRoot := root
    supportedTraits := ∅
    platformData := samplePlatforms }

def sampleForest (root : String) : Forest where
  rootPath := root
  buildTrees := (∅ : TreeMap String Tree).insert "main" (sampleTree root)
  buildItems := (∅ : TreeMap String Item).insert "lib" (sampleItem root)
  backingAreas := []
  deletedTrees := ∅
  deletedItems := ∅
  globalPlugins := ∅
  treeAccessTable := ∅
  sortedTreeNames := ["main"]
  sortedItemNames := ["lib"]

/-- A tree at the root of its forest, with an item below it. -/
def sample (root : String) : DumpData where
  forests := (∅ : TreeMap String Forest).insert root (sampleForest root)
  anyErrors := false
  internalPlatformData := samplePlatforms
  validTraits := ∅
  plugins := ∅

theorem acceptedItem_sampleItem (root : String) : AcceptedItem "lib" (sampleItem root) where
  valid := by decide
  visibleTo := ⟨⟨root, 0, 0⟩, "", rfl⟩
  buildAlso _ hmem := absurd hmem List.not_mem_nil
  deps _ hmem := absurd hmem List.not_mem_nil
  depPlatformTypes _ hmem := absurd hmem List.not_mem_nil
  flags _ _ hflags := absurd hflags getElem?_empty_ne
  expandedDependencies _ hmem := absurd hmem List.not_mem_nil
  optionalDepPresence _ hmem := absurd hmem TreeMap.not_mem_emptyc
  platformTypes := by
    have htypes : (sampleItem root).getPlatformTypes = ["native"] := rfl
    rw [htypes]
    decide +kernel
  buildablePlatforms := by
    have hplatforms : (sampleItem root).toBuildItem.getBuildablePlatforms = ["linux.x86_64.gcc"] :=
      rfl
    rw [hplatforms]
    exact List.forall_mem_singleton.mpr (isPlatformText_of_split (by decide))
  supportedFlags _ hmem := absurd hmem TreeSet.not_mem_emptyc
  traits _ _ htrait := absurd htrait getElem?_empty_ne

theorem acceptedTree_sampleTree (root : String) : AcceptedTree "main" (sampleTree root) where
  valid := by decide
  platformData := acceptedTables_samplePlatforms
  supportedTraits _ hmem := absurd hmem TreeSet.not_mem_emptyc
  plugins _ hmem := absurd hmem List.not_mem_nil
  treeDeps _ hmem := absurd hmem List.not_mem_nil
  expandedTreeDeps _ hmem := absurd hmem List.not_mem_nil
  omittedTreeDeps _ hmem := absurd hmem TreeSet.not_mem_emptyc

theorem acceptedForest_sampleForest (root : String) : AcceptedForest (sampleForest root) where
  deletedTrees _ hmem := absurd hmem TreeSet.not_mem_emptyc
  deletedItems _ hmem := absurd hmem TreeSet.not_mem_emptyc
  globalPlugins _ hmem := absurd hmem TreeSet.not_mem_emptyc
  trees name tree htree := by
    obtain ⟨rfl, rfl⟩ := getElem?_singleton_iff.mp htree
    exact acceptedTree_sampleTree root
  items name item hitem := by
    obtain ⟨rfl, rfl⟩ := getElem?_singleton_iff.mp hitem
    exact acceptedItem_sampleItem root
  sortedTreeNames _ := List.mem_singleton.trans mem_singleton_iff.symm
  sortedItemNames _ := List.mem_singleton.trans mem_singleton_iff.symm
  treeNames name item hitem := by
    obtain ⟨rfl, rfl⟩ := getElem?_singleton_iff.mp hitem
    exact TreeMap.mem_insert_self

theorem accepted_sample {root : String} (h : root ≠ "") : (sample root).Accepted where
  backing := by
    have hbacks : ∀ p q, ¬ Backs (sample root).backingForests p q := by
      rintro p q ⟨backed, hbacked, hq⟩
      unfold backingForests at hbacked
      rw [TreeMap.getElem?_map] at hbacked
      obtain ⟨forest, hforest, rfl⟩ := Option.map_eq_some_iff.mp hbacked
      obtain ⟨-, rfl⟩ := getElem?_singleton_iff.mp hforest
      cases hq
    refine ⟨?_, fun p q hpq ↦ absurd hpq (hbacks p q), fun p hcycle ↦ ?_⟩
    · rw [mem_backingForests]
      exact fun hmem ↦ h (mem_singleton_iff.mp hmem).symm
    · obtain ⟨q, hpq, -⟩ := Relation.TransGen.head'_iff.mp hcycle
      exact hbacks p q hpq
  internalPlatformData := acceptedTables_samplePlatforms
  validTraits _ hmem := absurd hmem TreeSet.not_mem_emptyc
  forests forestRoot forest hforest := by
    obtain ⟨rfl, rfl⟩ := getElem?_singleton_iff.mp hforest
    exact acceptedForest_sampleForest root
  treeHomes forestRoot forest hforest name tree htree := by
    obtain ⟨rfl, rfl⟩ := getElem?_singleton_iff.mp hforest
    obtain ⟨-, rfl⟩ := getElem?_singleton_iff.mp htree
    exact ReflTransGen.refl
  itemHomes forestRoot forest hforest name item hitem := by
    obtain ⟨rfl, rfl⟩ := getElem?_singleton_iff.mp hforest
    obtain ⟨-, rfl⟩ := getElem?_singleton_iff.mp hitem
    exact ReflTransGen.refl

theorem texts_sample_iff {path description : String → Prop} (root : String) :
    (sample root).Texts path description ↔
      path root ∧ path (root ++ "/lib") ∧ description "The \"first\" library" := by
  have hforest : (sample root).forests[root]? = some (sampleForest root) :=
    getElem?_singleton_iff.mpr ⟨rfl, rfl⟩
  constructor
  · intro h
    have hitem : (sampleForest root).buildItems["lib"]? = some (sampleItem root) :=
      getElem?_singleton_iff.mpr ⟨rfl, rfl⟩
    exact ⟨h.forests root _ hforest, h.items root _ hforest "lib" _ hitem⟩
  · rintro ⟨hroot, hpath, hdescription⟩
    refine ⟨fun forestRoot forest hmem ↦ ?_, fun forestRoot forest hmem name tree htree ↦ ?_,
      fun forestRoot forest hmem name item hitem ↦ ?_⟩
    · obtain ⟨rfl, -⟩ := getElem?_singleton_iff.mp hmem
      exact hroot
    · obtain ⟨-, rfl⟩ := getElem?_singleton_iff.mp hmem
      obtain ⟨-, rfl⟩ := getElem?_singleton_iff.mp htree
      exact hroot
    · obtain ⟨-, rfl⟩ := getElem?_singleton_iff.mp hmem
      obtain ⟨-, rfl⟩ := getElem?_singleton_iff.mp hitem
      exact ⟨hpath, hdescription⟩

theorem dumps_sample : (sample "/work").Dumps ∧ (sample "/work").Complete := by
  obtain ⟨hdumps, hcomplete⟩ := dumps_iff_of_accepted (accepted_sample (by decide : "/work" ≠ ""))
  exact ⟨hdumps.mpr ((texts_sample_iff _).mpr (by decide)), hcomplete⟩

/-- A path with a character that means something is not escaped. -/
theorem not_dumps_of_isLegal :
    ¬ ∀ data : DumpData, data.Accepted → data.Texts IsLegal IsLegal → data.Dumps := by
  intro h
  have haccepted := accepted_sample (by decide : "/a&b" ≠ "")
  have hdumps := h (sample "/a&b") haccepted ((texts_sample_iff _).mpr (by decide))
  have hlegible := (texts_sample_iff _).mp (haccepted.dumps_iff_legible.mp hdumps)
  exact absurd hlegible.1 (by decide)

end Sample

end DumpData

end Abuild
