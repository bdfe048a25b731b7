import Abuild.Library.Fallible
import Abuild.BuildForest.Expand

/-!
One forest is validated: what `validateForest` does to a forest as it was read, once
all forests it backs to have been validated. Each step of it has its own lemma; the
records of trees and items that come out are described by `Records`.
-/

set_option autoImplicit false
set_option relaxedAutoImplicit false

namespace Abuild.BuildForest

open Relation Precedence Inheritance OptionalDependency
open Fallible (mapM_isSome_iff mem_of_mapM)
open Std (TreeMap TreeSet)

/-! ### Forests as they are read -/

/-- A tree as it is read, in the forest whose root is `p`. -/
structure TreeRead (p name : String) (tree : BuildTree) : Prop where
  name_eq : tree.name = name
  name_ne : name ≠ ""
  deps_ne : "" ∉ tree.treeDeps
  forestRoot : tree.forestRoot = p
  backingDepth : tree.backingDepth = 0
  notExpanded : tree.expandedTreeDeps = []

/-- An item as it is read: it belongs to a tree of the forest. -/
structure ItemRead (forests : BuildForestMap) (p name : String) (item : BuildItem) : Prop where
  itemName : item.itemName = name
  name_ne : name ≠ ""
  deps_ne : "" ∉ item.deps
  forestRoot : item.forestRoot = p
  backingDepth : item.backingDepth = 0
  notExpanded : item.expandedDependencies = []
  notShadowed : ∀ ref, ref ∉ item.shadowedReferences
  tree : ∃ tree, ownTree forests p item.treeName = some tree

/-- Forests as their files are read, with a backing relation that is closed and has no
cycle. -/
structure AsRead (forests : BuildForestMap) : Prop where
  backing : BackingOk forests
  tree : ∀ p name tree, ownTree forests p name = some tree → TreeRead p name tree
  item : ∀ p name item, ownItem forests p name = some item → ItemRead forests p name item

theorem ownTree_eq {forests : BuildForestMap} {p name : String} {forest : BuildForest}
    (h : forests[p]? = some forest) : ownTree forests p name = forest.buildTrees[name]? := by
  unfold ownTree
  rw [h, Option.bind_some]

theorem ownItem_eq {forests : BuildForestMap} {p name : String} {forest : BuildForest}
    (h : forests[p]? = some forest) : ownItem forests p name = forest.buildItems[name]? := by
  unfold ownItem
  rw [h, Option.bind_some]

instance (p name : String) (tree : BuildTree) : Decidable (TreeRead p name tree) :=
  decidable_of_iff (tree.name = name ∧ name ≠ "" ∧ "" ∉ tree.treeDeps ∧ tree.forestRoot = p ∧
      tree.backingDepth = 0 ∧ tree.expandedTreeDeps = [])
    ⟨fun ⟨h₁, h₂, h₃, h₄, h₅, h₆⟩ ↦ ⟨h₁, h₂, h₃, h₄, h₅, h₆⟩,
      fun ⟨h₁, h₂, h₃, h₄, h₅, h₆⟩ ↦ ⟨h₁, h₂, h₃, h₄, h₅, h₆⟩⟩

instance (forests : BuildForestMap) (p name : String) (item : BuildItem) :
    Decidable (ItemRead forests p name item) :=
  decidable_of_iff (item.itemName = name ∧ name ≠ "" ∧ "" ∉ item.deps ∧ item.forestRoot = p ∧
      item.backingDepth = 0 ∧ item.expandedDependencies = [] ∧
      (∀ ref ∈ item.shadowedReferences.toList, False) ∧ (ownTree forests p item.treeName).isSome)
    ⟨fun ⟨h₁, h₂, h₃, h₄, h₅, h₆, h₇, h₈⟩ ↦ ⟨h₁, h₂, h₃, h₄, h₅, h₆,
        fun ref href ↦ h₇ ref (TreeSet.mem_toList.mpr href), Option.isSome_iff_exists.mp h₈⟩,
      fun ⟨h₁, h₂, h₃, h₄, h₅, h₆, h₇, h₈⟩ ↦ ⟨h₁, h₂, h₃, h₄, h₅, h₆,
        fun ref href ↦ h₇ ref (TreeSet.mem_toList.mp href), Option.isSome_iff_exists.mpr h₈⟩⟩

/-- Forests that are listed, with a list in which every forest stands after those it
backs to. -/
theorem asRead_of_toList {forests : BuildForestMap} (order : List String)
    (hbacking : ∀ e ∈ forests.toList, e.1 ≠ "" ∧ ∀ q ∈ e.2.backingAreas, q ∈ forests ∧
      order.idxOf q < order.idxOf e.1)
    (htree : ∀ e ∈ forests.toList, ∀ t ∈ e.2.buildTrees.toList, TreeRead e.1 t.1 t.2)
    (hitem : ∀ e ∈ forests.toList, ∀ i ∈ e.2.buildItems.toList, ItemRead forests e.1 i.1 i.2) :
    AsRead forests := by
  have hbacks : ∀ p q, Backs forests p q → q ∈ forests ∧ order.idxOf q < order.idxOf p := by
    rintro p q ⟨forest, hforest, hq⟩
    exact (hbacking (p, forest) (TreeMap.mem_toList_iff_getElem?_eq_some.mpr hforest)).2 q hq
  have hless : ∀ p q, TransGen (Backs forests) p q → order.idxOf q < order.idxOf p := by
    intro p q hreach
    induction hreach with
    | single h => exact (hbacks _ _ h).2
    | tail _ h ih => exact (hbacks _ _ h).2.trans ih
  refine ⟨⟨fun hempty ↦ ?_, fun p q h ↦ (hbacks p q h).1, fun p h ↦ lt_irrefl _ (hless p p h)⟩,
    fun p name tree h ↦ ?_, fun p name item h ↦ ?_⟩
  · obtain ⟨forest, hforest⟩ := exists_of_mem hempty
    exact (hbacking ("", forest) (TreeMap.mem_toList_iff_getElem?_eq_some.mpr hforest)).1 rfl
  · obtain ⟨forest, hforest, hname⟩ := Option.bind_eq_some_iff.mp h
    exact htree (p, forest) (TreeMap.mem_toList_iff_getElem?_eq_some.mpr hforest) (name, tree)
      (TreeMap.mem_toList_iff_getElem?_eq_some.mpr hname)
  · obtain ⟨forest, hforest, hname⟩ := Option.bind_eq_some_iff.mp h
    exact hitem (p, forest) (TreeMap.mem_toList_iff_getElem?_eq_some.mpr hforest) (name, item)
      (TreeMap.mem_toList_iff_getElem?_eq_some.mpr hname)

theorem AsRead.allLocal {forests : BuildForestMap} (h : AsRead forests) {p : String}
    {forest : BuildForest} (hforest : forests[p]? = some forest) : AllLocal forest := by
  refine ⟨fun name tree htree ↦ ?_, fun name item hitem ↦ ?_⟩
  · have hread := h.tree p name tree ((ownTree_eq hforest).trans htree)
    simp [BuildTree.isLocal, hread.backingDepth]
  · have hread := h.item p name item ((ownItem_eq hforest).trans hitem)
    simp [BuildItem.isLocal, hread.backingDepth]

/-! ### What names stand for -/

/-- The trees of the forests, as entries with optional dependencies. -/
noncomputable def treeDeclarations (forests : BuildForestMap) :
    Declarations String String TreeOrigin where
  visible := visibleTree forests
  home := TreeOrigin.forestRoot
  declared p name := ((ownTree forests p name).map BuildTree.treeDeps).getD []
  isOptional origin := origin.optionalTreeDeps.contains

noncomputable def itemDeclarations (forests : BuildForestMap) :
    Declarations String String ItemOrigin where
  visible := visibleItem forests
  home := ItemOrigin.forestRoot
  declared p name := ((ownItem forests p name).map BuildItem.deps).getD []
  isOptional origin := origin.config.optionalDeps.contains

def treeEntries (forest : BuildForest) (name : String) : Option (Entry String) :=
  (forest.buildTrees[name]?).map BuildTree.entry

def itemEntries (forest : BuildForest) (name : String) : Option (Entry String) :=
  (forest.buildItems[name]?).map BuildItem.entry

/-- The plugins of an item are those of its tree in the forest that the item is from,
with the global ones of that forest. -/
def itemPlugins (forests : BuildForestMap) (origin : ItemOrigin) : List String :=
  match forests[origin.forestRoot]? with
  | some read =>
    ((read.propagateGlobals.buildTrees[origin.treeName]?).map BuildTree.plugins).getD []
  | none => []

/-- An item that is seen in a forest is its own or one of a forest that it backs to,
directly or not, and it is the item of that name there. -/
theorem exists_home {forests : BuildForestMap} (h : AsRead forests) {p name : String}
    {origin : ItemOrigin} (hvisible : visibleItem forests p name = some origin) :
    ReflTransGen (Backs forests) p origin.forestRoot ∧
      ∃ own, ownItem forests origin.forestRoot name = some own ∧ own.origin = origin := by
  obtain ⟨q, hreach, hq⟩ := Areas.exists_own_of_view (itemAreas forests) hvisible
  obtain ⟨own, hown, rfl⟩ := Option.map_eq_some_iff.mp hq
  have hroot : own.origin.forestRoot = q := (h.item q name own hown).forestRoot
  rw [hroot]
  exact ⟨ReflTransGen.mono (fun _ _ hb ↦ (mem_uncovered.mp hb).1) p q hreach, own, hown, rfl⟩

/-! ### Plugins -/

theorem checkPlugins_getElem? (forest : BuildForest) (name : String) :
    (checkPlugins forest).1.buildItems[name]? = (forest.buildItems[name]?).map fun item ↦
      if item.isLocal then
        item.setPlugins ((forest.buildTrees[item.treeName]?.map BuildTree.plugins).getD [])
      else item := by
  unfold checkPlugins
  exact TreeMap.getElem?_map

theorem pluginErrors_failed (globalPlugins : TreeSet String) (tree : BuildTree)
    (itemName : String) (item : BuildItem) :
    (pluginErrors globalPlugins tree itemName item).failed = [] := by
  unfold pluginErrors
  split_ifs <;> rfl

theorem checkPlugin_failed (forest : BuildForest) (tree : BuildTree) (itemName : String) :
    (checkPlugin forest tree itemName).2.failed = [] := by
  unfold checkPlugin
  split
  · rfl
  · dsimp only
    split_ifs
    · rfl
    · exact pluginErrors_failed _ _ _ _

theorem checkPluginDeps_failed (forest : BuildForest) (item : BuildItem) :
    (checkPluginDeps forest item).failed = [] := by
  unfold checkPluginDeps
  split
  · rfl
  · rw [List.eq_nil_iff_forall_not_mem]
    intro a ha
    obtain ⟨found, hfound, ha⟩ := Findings.mem_failed_concat.mp ha
    obtain ⟨dep, -, rfl⟩ := List.mem_map.mp hfound
    split at ha
    · cases ha
    · split_ifs at ha <;> cases ha

theorem checkPlugins_failed (forest : BuildForest) : (checkPlugins forest).2.failed = [] := by
  rw [List.eq_nil_iff_forall_not_mem]
  intro a
  unfold checkPlugins
  simp only [Findings.failed_append, List.mem_append, Findings.mem_failed_concat, List.mem_map,
    List.mem_flatMap]
  rintro (⟨found, ⟨tree, -, name, -, rfl⟩, ha⟩ | ⟨found, ⟨item, -, rfl⟩, ha⟩)
  · rw [checkPlugin_failed] at ha
    cases ha
  · rw [checkPluginDeps_failed] at ha
    cases ha

/-- Where no error is found, the plugins of a local tree exist. -/
theorem checkPlugins_known {forest : BuildForest} (hnone : (checkPlugins forest).2.errors = [])
    {name : String} {tree : BuildTree} (htree : forest.buildTrees[name]? = some tree)
    (hlocal : tree.isLocal = true) {plugin : String} (hplugin : plugin ∈ tree.plugins) :
    (forest.buildItems[plugin]?).isSome := by
  by_contra hunknown
  rw [Option.not_isSome_iff_eq_none] at hunknown
  have herror : (tree.location, "plugin \"" ++ plugin ++ "\" does not exist") ∈
      (checkPlugins forest).2.errors := by
    unfold checkPlugins
    refine List.mem_append_left _ (Findings.mem_errors_concat.mpr
      ⟨(checkPlugin forest tree plugin).2, List.mem_flatMap.mpr ⟨tree, List.mem_filter.mpr
        ⟨mem_values.mpr ⟨name, htree⟩, hlocal⟩, List.mem_map_of_mem hplugin⟩, ?_⟩)
    unfold checkPlugin
    rw [hunknown]
    exact List.mem_singleton_self _
  rw [hnone] at herror
  cases herror

/-! ### The other checks -/

theorem checkAllowedTreeItem_failed (forest : BuildForest) (referrer referent : BuildItem)
    (action : String) : (checkAllowedTreeItem forest referrer referent action).failed = [] := by
  unfold checkAllowedTreeItem
  split_ifs <;> rfl

theorem checkAllowedTreeTree_failed (forest : BuildForest) (referrer : BuildItem)
    (referentTree action : String) :
    (checkAllowedTreeTree forest referrer referentTree action).failed = [] := by
  unfold checkAllowedTreeTree
  split_ifs <;> rfl

theorem checkBuildAlso_failed (forest : BuildForest) : (checkBuildAlso forest).failed = [] := by
  rw [List.eq_nil_iff_forall_not_mem]
  intro a ha
  obtain ⟨found, hfound, ha⟩ := Findings.mem_failed_concat.mp ha
  obtain ⟨⟨name, item⟩, -, hfound⟩ := List.mem_flatMap.mp hfound
  obtain ⟨also, -, rfl⟩ := List.mem_map.mp hfound
  split_ifs at ha
  · rw [checkAllowedTreeTree_failed] at ha
    cases ha
  · cases ha
  · split at ha
    · cases ha
    · rw [checkAllowedTreeItem_failed] at ha
      cases ha

theorem checkDepTreeAccess_failed (forest : BuildForest) :
    (checkDepTreeAccess forest).failed = [] := by
  rw [List.eq_nil_iff_forall_not_mem]
  intro a ha
  obtain ⟨found, hfound, ha⟩ := Findings.mem_failed_concat.mp ha
  obtain ⟨item, -, hfound⟩ := List.mem_flatMap.mp hfound
  obtain ⟨dep, -, rfl⟩ := List.mem_map.mp hfound
  split at ha
  · cases ha
  · rw [checkAllowedTreeItem_failed] at ha
    cases ha

/-! ### Integrity -/

/-- A reference is shadowed where both forests have an item of the name, at different
paths. -/
theorem mem_shadowedReferences {buildItems itemForestItems : BuildItemMap} {item : BuildItem}
    {ref : String} : ref ∈ shadowedReferences buildItems itemForestItems item ↔
      ref ∈ item.getReferences ∧ ∃ here there, buildItems[ref]? = some here ∧
        itemForestItems[ref]? = some there ∧ here.getAbsolutePath ≠ there.getAbsolutePath := by
  unfold shadowedReferences
  refine Iff.trans ?_ (or_iff_right (TreeSet.not_mem_emptyc : ref ∉ (∅ : TreeSet String)))
  generalize (∅ : TreeSet String) = shadowed
  generalize item.getReferences = refs
  induction refs generalizing shadowed with
  | nil => simp
  | cons r refs ih =>
    rw [List.foldl_cons, ih, List.mem_cons, or_and_right, ← or_assoc]
    refine or_congr_left ?_
    split
    · next here there hhere hthere =>
      split_ifs with hpath
      · rw [TreeSet.mem_insert, compare_eq_iff_eq, or_comm]
        refine or_congr_right ⟨?_, fun h ↦ h.1.symm⟩
        rintro rfl
        exact ⟨rfl, here, there, hhere, hthere, hpath⟩
      · refine (or_iff_left ?_).symm
        rintro ⟨rfl, here', there', hhere', hthere', hpath'⟩
        rw [hhere, Option.some_inj] at hhere'
        rw [hthere, Option.some_inj] at hthere'
        subst hhere' hthere'
        exact hpath hpath'
    · next hnot =>
      refine (or_iff_left ?_).symm
      rintro ⟨rfl, here, there, hhere, hthere, -⟩
      exact hnot here there hhere hthere

theorem checkIntegrity_getElem? (forests : BuildForestMap) (forest : BuildForest) (name : String) :
    (checkIntegrity forests forest).buildItems[name]? =
      (forest.buildItems[name]?).map fun item ↦
        if item.isLocal then item
        else item.setShadowedReferences (shadowedReferences forest.buildItems
          ((forests[item.forestRoot]?.map BuildForest.buildItems).getD ∅) item) := by
  unfold checkIntegrity
  exact TreeMap.getElem?_map

/-- The report meets no null pointer where all items are there and so are their
shadowed references. -/
theorem reportIntegrityErrors_isSome_iff {buildItems : TreeMap String (Option BuildItem)} :
    (reportIntegrityErrors buildItems).isSome ↔
      ∀ (name : String) (entry : Option BuildItem), buildItems[name]? = some entry →
        ∃ item, entry = some item ∧
          ∀ ref ∈ item.shadowedReferences, ∃ other, buildItems[ref]? = some (some other) := by
  have hreport : ∀ (name : String) (item : BuildItem) (ref : String),
      (reportShadowed buildItems name item ref).isSome ↔
        ∃ other, buildItems[ref]? = some (some other) := by
    intro name item ref
    unfold reportShadowed
    cases h : buildItems[ref]? with
    | none => simp
    | some entry => cases entry <;> simp
  unfold reportIntegrityErrors
  constructor
  · intro h name entry hentry
    obtain ⟨found, hfound⟩ := Option.isSome_iff_exists.mp h
    obtain ⟨items, hitems, hfound⟩ := Option.bind_eq_some_iff.mp hfound
    obtain ⟨messages, hmessages, -⟩ := Option.bind_eq_some_iff.mp hfound
    obtain ⟨⟨name', item⟩, hin, hmap⟩ := (mem_of_mapM hitems).1 (name, entry)
      (TreeMap.mem_toList_iff_getElem?_eq_some.mpr hentry)
    obtain ⟨item', rfl, heq⟩ := Option.map_eq_some_iff.mp hmap
    cases heq
    obtain ⟨l, -, hl⟩ := (mem_of_mapM hmessages).1 (name, item) hin
    refine ⟨item, rfl, fun ref href ↦ (hreport name item ref).mp ?_⟩
    obtain ⟨message, -, hmessage⟩ := (mem_of_mapM hl).1 ref (TreeSet.mem_toList.mpr href)
    exact Option.isSome_iff_exists.mpr ⟨message, hmessage⟩
  · intro h
    have hitems : (buildItems.toList.mapM fun ((name, item) : String × Option BuildItem) ↦
        item.map fun item ↦ (name, item)).isSome := by
      refine mapM_isSome_iff.mpr fun ⟨name, entry⟩ hin ↦ ?_
      obtain ⟨item, rfl, -⟩ := h name entry (TreeMap.mem_toList_iff_getElem?_eq_some.mp hin)
      rfl
    obtain ⟨items, hitems⟩ := Option.isSome_iff_exists.mp hitems
    have hmessages : (items.mapM fun ((name, item) : String × BuildItem) ↦
        item.shadowedReferences.toList.mapM (reportShadowed buildItems name item)).isSome := by
      refine mapM_isSome_iff.mpr fun ⟨name, item⟩ hin ↦ mapM_isSome_iff.mpr fun ref href ↦ ?_
      obtain ⟨⟨name', entry⟩, hentry, hmap⟩ := (mem_of_mapM hitems).2 (name, item) hin
      obtain ⟨item', rfl, heq⟩ := Option.map_eq_some_iff.mp hmap
      cases heq
      obtain ⟨item'', heq, hrefs⟩ := h name _ (TreeMap.mem_toList_iff_getElem?_eq_some.mp hentry)
      cases heq
      exact (hreport name item ref).mpr (hrefs ref (TreeSet.mem_toList.mp href))
    obtain ⟨messages, hmessages⟩ := Option.isSome_iff_exists.mp hmessages
    simp only [hitems, hmessages, Option.bind_eq_bind, Option.bind_some, Option.isSome_some]

theorem reportIntegrityErrors_failed {buildItems : TreeMap String (Option BuildItem)}
    {found : Findings} (h : reportIntegrityErrors buildItems = some found) :
    found.failed = [] := by
  obtain ⟨items, -, h⟩ := Option.bind_eq_some_iff.mp h
  obtain ⟨messages, hmessages, h⟩ := Option.bind_eq_some_iff.mp h
  obtain rfl := Option.some_inj.mp h
  rw [List.eq_nil_iff_forall_not_mem]
  intro a ha
  obtain ⟨message, hmessage, ha⟩ := Findings.mem_failed_concat.mp ha
  obtain ⟨l, hl, hmessage⟩ := List.mem_flatten.mp hmessage
  obtain ⟨⟨name, item⟩, -, hrun⟩ := (mem_of_mapM hmessages).2 l hl
  obtain ⟨ref, -, hreport⟩ := (mem_of_mapM hrun).2 message hmessage
  obtain ⟨other, -, hreport⟩ := Option.bind_eq_some_iff.mp hreport
  obtain rfl := Option.some_inj.mp hreport
  cases ha

end Abuild.BuildForest
