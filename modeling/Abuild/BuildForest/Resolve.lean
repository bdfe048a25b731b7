import Abuild.BuildForest.Backing

/-!
What `resolveFromBackingAreas` makes of a forest whose backing areas have been
validated. The trees and items that are seen in a forest are the views of two
hierarchies of areas (`treeAreas`, `itemAreas`), and copying computes these views.
An assertion fails exactly where a name is met twice: where two of the backing areas
that are not covered offer the same tree or item.
-/

set_option autoImplicit false
set_option relaxedAutoImplicit false

namespace Abuild

open Std (TreeMap TreeSet)

/-- What stays of a tree in all forests that inherit it. -/
structure TreeOrigin where
  location : FileLocation
  rootPath : String
  forestRoot : String
  optionalTreeDeps : TreeSet String

def BuildTree.origin (tree : BuildTree) : TreeOrigin :=
  ⟨tree.location, tree.rootPath, tree.forestRoot, tree.optionalTreeDeps⟩

/-- What stays of an item in all forests that inherit it. -/
structure ItemOrigin where
  config : ItemConfig
  treeName : String
  forestRoot : String

def BuildItem.origin (item : BuildItem) : ItemOrigin :=
  ⟨item.config, item.treeName, item.forestRoot⟩

namespace BuildForest

open Relation Precedence Inheritance
open DependencyGraph (SortedFrom)

/-! ### What is seen in a forest -/

def ownTree (forests : BuildForestMap) (p name : String) : Option BuildTree :=
  (forests[p]?).bind fun forest ↦ forest.buildTrees[name]?

def ownItem (forests : BuildForestMap) (p name : String) : Option BuildItem :=
  (forests[p]?).bind fun forest ↦ forest.buildItems[name]?

def deletesTree (forests : BuildForestMap) (p name : String) : Bool :=
  ((forests[p]?).map fun forest ↦ forest.deletedTrees.contains name).getD false

def deletesItem (forests : BuildForestMap) (p name : String) : Bool :=
  ((forests[p]?).map fun forest ↦ forest.deletedItems.contains name).getD false

noncomputable def treeAreas (forests : BuildForestMap) : Areas String String TreeOrigin where
  own p name := (ownTree forests p name).map BuildTree.origin
  backing := uncovered forests
  hides p name _ := deletesTree forests p name

noncomputable def itemAreas (forests : BuildForestMap) : Areas String String ItemOrigin where
  own p name := (ownItem forests p name).map BuildItem.origin
  backing := uncovered forests
  hides p name origin := deletesTree forests p origin.treeName || deletesItem forests p name

/-- The tree that a name stands for in a forest: its own, or the first that is
offered by a backing area and not deleted. -/
noncomputable def visibleTree (forests : BuildForestMap) : String → String → Option TreeOrigin :=
  (treeAreas forests).view forests.size

/-- The item that a name stands for in a forest. -/
noncomputable def visibleItem (forests : BuildForestMap) : String → String → Option ItemOrigin :=
  (itemAreas forests).view forests.size

/-- What comes of a name that is met twice. -/
inductive Outcome
  /-- An error is reported. -/
  | reported
  /-- The assertion about the locations fails. -/
  | failed

def treeClash : Outcome → TreeOrigin → TreeOrigin → Prop
  | .reported, _, _ => True
  | .failed, first, other => other.location = first.location

def itemClash : Outcome → ItemOrigin → ItemOrigin → Prop
  | .reported, _, _ => True
  | .failed, first, other => other.config.location = first.config.location

/-- A tree that the forest does not have itself is offered by two of its backing
areas, from one place where the assertion fails. -/
def TreeTwice (forests : BuildForestMap) (outcome : Outcome) (p name : String) : Prop :=
  Twice (treeClash outcome) ((treeAreas forests).own p)
    ((treeAreas forests).offers (visibleTree forests) p) name

def ItemTwice (forests : BuildForestMap) (outcome : Outcome) (p name : String) : Prop :=
  Twice (itemClash outcome) ((itemAreas forests).own p)
    ((itemAreas forests).offers (visibleItem forests) p) name

theorem ordered_uncovered {forests : BuildForestMap} {order : List String}
    (h : ValidationOrder forests order) :
    Ordered (fun p q ↦ q ∈ uncovered forests p) order :=
  h.ordered.mono fun _ _ _ hq ↦ (mem_uncovered.mp hq).1

theorem visibleTree_eq {forests : BuildForestMap} {order : List String}
    (h : ValidationOrder forests order) {p : String} (hp : p ∈ order) :
    visibleTree forests p = inherited ((treeAreas forests).own p)
      ((treeAreas forests).offers (visibleTree forests) p) :=
  Areas.view_eq (treeAreas forests) (ordered_uncovered h) (Nat.le_of_eq h.length_eq) hp

theorem visibleItem_eq {forests : BuildForestMap} {order : List String}
    (h : ValidationOrder forests order) {p : String} (hp : p ∈ order) :
    visibleItem forests p = inherited ((itemAreas forests).own p)
      ((itemAreas forests).offers (visibleItem forests) p) :=
  Areas.view_eq (itemAreas forests) (ordered_uncovered h) (Nat.le_of_eq h.length_eq) hp

/-! ### Copying -/

/-- The trees and items that a resolution has, as origins. -/
def Resolution.trees (r : Resolution) (name : String) : Option TreeOrigin :=
  (r.buildTrees[name]?).map BuildTree.origin

def Resolution.items (r : Resolution) (name : String) : Option ItemOrigin :=
  (r.buildItems[name]?).map BuildItem.origin

/-- The entries of a resolution are the forest's own or copies from an area. -/
structure Copied (forest : BuildForest) (areas : List BuildForest) (r : Resolution) : Prop where
  ownTree : ∀ (name : String) (tree : BuildTree), forest.buildTrees[name]? = some tree →
    r.buildTrees[name]? = some tree
  ownItem : ∀ (name : String) (item : BuildItem), forest.buildItems[name]? = some item →
    r.buildItems[name]? = some item
  tree : ∀ (name : String) (tree : BuildTree), r.buildTrees[name]? = some tree →
    forest.buildTrees[name]? = some tree ∨
    (forest.buildTrees[name]? = none ∧ ∃ area ∈ areas, ∃ other,
      area.buildTrees[name]? = some other ∧ tree = other.incrementBackingDepth)
  item : ∀ (name : String) (item : BuildItem), r.buildItems[name]? = some item →
    forest.buildItems[name]? = some item ∨
    (forest.buildItems[name]? = none ∧ ∃ area ∈ areas, ∃ other,
      area.buildItems[name]? = some other ∧ item = other.incrementBackingDepth)

/-- The trees and items of a forest as it was read are local. -/
structure AllLocal (forest : BuildForest) : Prop where
  tree : ∀ (name : String) (tree : BuildTree), forest.buildTrees[name]? = some tree →
    tree.isLocal = true
  item : ∀ (name : String) (item : BuildItem), forest.buildItems[name]? = some item →
    item.isLocal = true

theorem BuildTree_isLocal_increment (tree : BuildTree) :
    tree.incrementBackingDepth.isLocal = false := by
  simp [BuildTree.isLocal, BuildTree.incrementBackingDepth]

theorem BuildItem_isLocal_increment (item : BuildItem) :
    item.incrementBackingDepth.isLocal = false := by
  simp [BuildItem.isLocal, BuildItem.incrementBackingDepth]

/-- A tree of a resolution is local where it is the forest's own. -/
theorem Copied.tree_isLocal {forest : BuildForest} {areas : List BuildForest} {r : Resolution}
    (h : Copied forest areas r) (hlocal : AllLocal forest) {name : String} {tree : BuildTree}
    (htree : r.buildTrees[name]? = some tree) :
    tree.isLocal = true ↔ forest.buildTrees[name]? ≠ none := by
  rcases h.tree name tree htree with hown | ⟨hnone, area, -, other, -, rfl⟩
  · simp [hown, hlocal.tree name tree hown]
  · simp [hnone, BuildTree_isLocal_increment]

theorem Copied.item_isLocal {forest : BuildForest} {areas : List BuildForest} {r : Resolution}
    (h : Copied forest areas r) (hlocal : AllLocal forest) {name : String} {item : BuildItem}
    (hitem : r.buildItems[name]? = some item) :
    item.isLocal = true ↔ forest.buildItems[name]? ≠ none := by
  rcases h.item name item hitem with hown | ⟨hnone, area, -, other, -, rfl⟩
  · simp [hown, hlocal.item name item hown]
  · simp [hnone, BuildItem_isLocal_increment]

/-- A resolution has reported a tree that is met twice, or failed because of one. -/
def Resolution.TreeOutcome (r : Resolution) : Outcome → Prop
  | .reported => ∃ location, (location, "this tree appears in multiple backing areas") ∈
      r.findings.errors
  | .failed => .treeLocations ∈ r.findings.failed

def Resolution.ItemOutcome (r : Resolution) : Outcome → Prop
  | .reported => ∃ location, (location, "this item appears in multiple backing areas") ∈
      r.findings.errors
  | .failed => .itemLocations ∈ r.findings.failed

section Copy

variable {forest : BuildForest} {areas : List BuildForest} {area : BuildForest}
  {location : FileLocation}

/-- What a copying step keeps: the entries are the forest's own or copies, and no
assertion but those about locations has failed. -/
structure Copying (forest : BuildForest) (areas : List BuildForest) (r : Resolution) : Prop where
  copied : Copied forest areas r
  failed : ∀ a ∈ r.findings.failed, a = .treeLocations ∨ a = .itemLocations

abbrev TreeStep (forest : BuildForest) (name : String) (offer : Option TreeOrigin)
    (r r' : Resolution) : Prop :=
  CopyStep Resolution.trees (fun outcome r ↦ r.TreeOutcome outcome) treeClash
    (fun n ↦ (forest.buildTrees[n]?).map BuildTree.origin) name offer r r'

abbrev ItemStep (forest : BuildForest) (name : String) (offer : Option ItemOrigin)
    (r r' : Resolution) : Prop :=
  CopyStep Resolution.items (fun outcome r ↦ r.ItemOutcome outcome) itemClash
    (fun n ↦ (forest.buildItems[n]?).map BuildItem.origin) name offer r r'

/-- A name that a resolution does not have is not one of the forest's own. -/
theorem Copied.tree_eq_none {r : Resolution} (h : Copied forest areas r) {name : String}
    (hnone : r.buildTrees[name]? = none) : forest.buildTrees[name]? = none := by
  cases hfound : forest.buildTrees[name]? with
  | none => rfl
  | some own =>
    rw [h.ownTree name own hfound] at hnone
    cases hnone

theorem Copied.item_eq_none {r : Resolution} (h : Copied forest areas r) {name : String}
    (hnone : r.buildItems[name]? = none) : forest.buildItems[name]? = none := by
  cases hfound : forest.buildItems[name]? with
  | none => rfl
  | some own =>
    rw [h.ownItem name own hfound] at hnone
    cases hnone

/-- An inherited tree may be inserted under a name that is not there. -/
theorem Copied.insertTree {r : Resolution} (h : Copied forest areas r) (harea : area ∈ areas)
    {name : String} {tree : BuildTree} (htree : area.buildTrees[name]? = some tree)
    (hnone : r.buildTrees[name]? = none) :
    Copied forest areas
      { r with buildTrees := r.buildTrees.insert name tree.incrementBackingDepth } := by
  have hown := h.tree_eq_none hnone
  refine ⟨fun n own hn ↦ ?_, h.ownItem, fun n copy hn ↦ ?_, h.item⟩
  · have hne : name ≠ n := by
      rintro rfl
      rw [hown] at hn
      cases hn
    simpa [TreeMap.getElem?_insert, hne] using h.ownTree n own hn
  · by_cases hne : name = n
    · subst hne
      have hcopy : tree.incrementBackingDepth = copy := by simpa using hn
      exact Or.inr ⟨hown, area, harea, tree, htree, hcopy.symm⟩
    · exact h.tree n copy (by simpa [TreeMap.getElem?_insert, hne] using hn)

theorem Copied.insertItem {r : Resolution} (h : Copied forest areas r) (harea : area ∈ areas)
    {name : String} {item : BuildItem} (hitem : area.buildItems[name]? = some item)
    (hnone : r.buildItems[name]? = none) :
    Copied forest areas
      { r with buildItems := r.buildItems.insert name item.incrementBackingDepth } := by
  have hown := h.item_eq_none hnone
  refine ⟨h.ownTree, fun n own hn ↦ ?_, h.tree, fun n copy hn ↦ ?_⟩
  · have hne : name ≠ n := by
      rintro rfl
      rw [hown] at hn
      cases hn
    simpa [TreeMap.getElem?_insert, hne] using h.ownItem n own hn
  · by_cases hne : name = n
    · subst hne
      have hcopy : item.incrementBackingDepth = copy := by simpa using hn
      exact Or.inr ⟨hown, area, harea, item, hitem, hcopy.symm⟩
    · exact h.item n copy (by simpa [TreeMap.getElem?_insert, hne] using hn)

/-- One tree of a backing area. -/
theorem copyTree_spec (hlocal : AllLocal forest) {r : Resolution} (hr : Copying forest areas r)
    (harea : area ∈ areas) {name : String} {tree : BuildTree}
    (htree : area.buildTrees[name]? = some tree) :
    Copying forest areas (copyTree forest.deletedTrees r name tree) ∧
    TreeStep forest name ((some tree.origin).filter fun _ ↦ !forest.deletedTrees.contains name) r
      (copyTree forest.deletedTrees r name tree) ∧
    (copyTree forest.deletedTrees r name tree).buildItems = r.buildItems ∧
    ∀ outcome, (copyTree forest.deletedTrees r name tree).ItemOutcome outcome ↔
      r.ItemOutcome outcome := by
  obtain ⟨hcopied, hfailed⟩ := hr
  unfold copyTree
  split_ifs with hdeleted
  · refine ⟨⟨⟨hcopied.ownTree, hcopied.ownItem, hcopied.tree, hcopied.item⟩, hfailed⟩,
      ⟨?_, fun _ _ ↦ rfl, fun outcome ↦ ?_⟩, rfl, fun outcome ↦ Iff.rfl⟩
    · simp [hdeleted, Resolution.trees]
    · cases outcome <;> simp [hdeleted, Resolution.TreeOutcome]
  · rw [Bool.not_eq_true] at hdeleted
    split
    · next other hother =>
      have hiff := hcopied.tree_isLocal hlocal hother
      by_cases hotherLocal : other.isLocal = true
      · rw [if_pos hotherLocal]
        have hown := hiff.mp hotherLocal
        refine ⟨⟨hcopied, hfailed⟩, ⟨?_, fun _ _ ↦ rfl, fun outcome ↦ ?_⟩, rfl, fun _ ↦ Iff.rfl⟩
        · simp [Resolution.trees, hother]
        · simp [hown]
      · rw [if_neg hotherLocal]
        have hown : forest.buildTrees[name]? = none := not_not.mp fun h ↦ hotherLocal (hiff.mpr h)
        refine ⟨⟨⟨hcopied.ownTree, hcopied.ownItem, hcopied.tree, hcopied.item⟩, fun a ha ↦ ?_⟩,
          ⟨?_, fun _ _ ↦ rfl, fun outcome ↦ ?_⟩, rfl, fun outcome ↦ ?_⟩
        · simp only [Findings.failed_append, List.mem_append, Findings.mem_failed_check] at ha
          rcases ha with ha | ⟨-, rfl⟩ | ha | ha
          · exact hfailed a ha
          · exact Or.inl rfl
          · cases ha
          · cases ha
        · simp [Resolution.trees, hother]
        · cases outcome <;>
            simp [hown, hdeleted, hother, Resolution.trees, Resolution.TreeOutcome, treeClash,
              BuildTree.origin]
        · cases outcome <;> simp [Resolution.ItemOutcome]
    · next hnone =>
      refine ⟨⟨hcopied.insertTree harea htree hnone, hfailed⟩,
        ⟨?_, fun n hne ↦ ?_, fun outcome ↦ ?_⟩, rfl, fun _ ↦ Iff.rfl⟩
      · simp [Option.filter_some, Resolution.trees, hnone, hdeleted, BuildTree.origin,
          BuildTree.incrementBackingDepth]
      · simp [Resolution.trees, TreeMap.getElem?_insert, Ne.symm hne]
      · cases outcome <;> simp [Resolution.trees, Resolution.TreeOutcome, hnone]

/-- The error about a deleted item is none of those about a name that is met twice. -/
theorem deletedItemErrors_spec (location : FileLocation) (name : String)
    (other : Option BuildItem) :
    (deletedItemErrors location name other).failed = [] ∧
      ∀ e ∈ (deletedItemErrors location name other).errors,
        e.2 ≠ "this tree appears in multiple backing areas" ∧
          e.2 ≠ "this item appears in multiple backing areas" := by
  cases other with
  | none => exact ⟨rfl, fun e he ↦ by cases he⟩
  | some other =>
    refine ⟨rfl, fun e he ↦ ?_⟩
    rcases List.mem_cons.mp he with rfl | he
    · constructor <;>
      · intro h
        have htext := congrArg String.toList h
        simp [String.toList_append] at htext
    · rw [List.mem_singleton.mp he]
      constructor <;>
      · show "here is the location of the item in this forest" ≠ _
        decide

/-- One item of a backing area. -/
theorem copyItem_spec (hlocal : AllLocal forest) {r : Resolution} (hr : Copying forest areas r)
    (harea : area ∈ areas) {name : String} {item : BuildItem}
    (hitem : area.buildItems[name]? = some item) :
    Copying forest areas
      (copyItem forest.deletedTrees forest.deletedItems location r name item) ∧
    ItemStep forest name ((some item.origin).filter fun origin ↦
        !(forest.deletedTrees.contains origin.treeName || forest.deletedItems.contains name)) r
      (copyItem forest.deletedTrees forest.deletedItems location r name item) ∧
    (copyItem forest.deletedTrees forest.deletedItems location r name item).buildTrees =
      r.buildTrees ∧
    ∀ outcome,
      (copyItem forest.deletedTrees forest.deletedItems location r name item).TreeOutcome outcome ↔
        r.TreeOutcome outcome := by
  have htreeName : item.origin.treeName = item.treeName := rfl
  obtain ⟨hcopied, hfailed⟩ := hr
  unfold copyItem
  split_ifs with hdeletedTree hdeleted
  · refine ⟨⟨hcopied, hfailed⟩, ⟨?_, fun _ _ ↦ rfl, fun outcome ↦ ?_⟩, rfl, fun _ ↦ Iff.rfl⟩
    · simp [Option.filter_some, hdeletedTree, htreeName, Resolution.items]
    · simp [Option.filter_some, hdeletedTree, htreeName]
  · obtain ⟨hsame, hother⟩ := deletedItemErrors_spec location name r.buildItems[name]?
    refine ⟨⟨⟨hcopied.ownTree, hcopied.ownItem, hcopied.tree, hcopied.item⟩, fun a ha ↦ ?_⟩,
      ⟨?_, fun _ _ ↦ rfl, fun outcome ↦ ?_⟩, rfl, fun outcome ↦ ?_⟩
    · rw [Findings.failed_append, hsame, List.append_nil] at ha
      exact hfailed a ha
    · simp [Option.filter_some, hdeleted, Resolution.items]
    · cases outcome with
      | reported =>
        simp only [Resolution.ItemOutcome, Findings.errors_append, List.mem_append]
        have hnot : ∀ loc, (loc, "this item appears in multiple backing areas") ∉
            (deletedItemErrors location name r.buildItems[name]?).errors :=
          fun loc h ↦ (hother _ h).2 rfl
        simp [hnot, Option.filter_some, hdeleted]
      | failed => simp [Resolution.ItemOutcome, hsame, Option.filter_some, hdeleted]
    · cases outcome with
      | reported =>
        simp only [Resolution.TreeOutcome, Findings.errors_append, List.mem_append]
        have hnot : ∀ loc, (loc, "this tree appears in multiple backing areas") ∉
            (deletedItemErrors location name r.buildItems[name]?).errors :=
          fun loc h ↦ (hother _ h).1 rfl
        simp [hnot]
      | failed => simp [Resolution.TreeOutcome, hsame]
  · rw [Bool.not_eq_true] at hdeletedTree hdeleted
    split
    · next other hother =>
      have hiff := hcopied.item_isLocal hlocal hother
      by_cases hotherLocal : other.isLocal = true
      · rw [if_pos hotherLocal]
        have hown := hiff.mp hotherLocal
        refine ⟨⟨hcopied, hfailed⟩, ⟨?_, fun _ _ ↦ rfl, fun outcome ↦ ?_⟩, rfl, fun _ ↦ Iff.rfl⟩
        · simp [Resolution.items, hother]
        · simp [hown]
      · rw [if_neg hotherLocal]
        have hown : forest.buildItems[name]? = none := not_not.mp fun h ↦ hotherLocal (hiff.mpr h)
        refine ⟨⟨⟨hcopied.ownTree, hcopied.ownItem, hcopied.tree, hcopied.item⟩, fun a ha ↦ ?_⟩,
          ⟨?_, fun _ _ ↦ rfl, fun outcome ↦ ?_⟩, rfl, fun outcome ↦ ?_⟩
        · simp only [Findings.failed_append, List.mem_append, Findings.mem_failed_check] at ha
          rcases ha with ha | ⟨-, rfl⟩ | ha | ha
          · exact hfailed a ha
          · exact Or.inr rfl
          · cases ha
          · cases ha
        · simp [Resolution.items, hother]
        · cases outcome <;>
            simp only [Resolution.ItemOutcome, Findings.errors_append, Findings.errors_check,
              Findings.failed_append, Findings.mem_failed_check, List.mem_append] <;>
            simp [Option.filter_some, hown, hdeleted, hdeletedTree, hother, Resolution.items,
              itemClash, BuildItem.origin, BuildItem.getLocation]
        · cases outcome <;> simp [Resolution.TreeOutcome]
    · next hnone =>
      refine ⟨⟨hcopied.insertItem harea hitem hnone, hfailed⟩,
        ⟨?_, fun n hne ↦ ?_, fun outcome ↦ ?_⟩, rfl, fun _ ↦ Iff.rfl⟩
      · simp [Option.filter_some, Resolution.items, hnone, hdeleted, hdeletedTree, BuildItem.origin,
          BuildItem.incrementBackingDepth]
      · simp [Resolution.items, TreeMap.getElem?_insert, Ne.symm hne]
      · cases outcome <;> simp [Resolution.items, Resolution.ItemOutcome, hnone]

/-- What an area offers to a forest that hides some of it. -/
def offeredTree (forest area : BuildForest) (name : String) : Option TreeOrigin :=
  ((area.buildTrees[name]?).map BuildTree.origin).filter fun _ ↦
    !forest.deletedTrees.contains name

def offeredItem (forest area : BuildForest) (name : String) : Option ItemOrigin :=
  ((area.buildItems[name]?).map BuildItem.origin).filter fun origin ↦
    !(forest.deletedTrees.contains origin.treeName || forest.deletedItems.contains name)

abbrev TreesStep (forest area : BuildForest) (r r' : Resolution) : Prop :=
  TableStep Resolution.trees (fun outcome r ↦ r.TreeOutcome outcome) treeClash
    (fun n ↦ (forest.buildTrees[n]?).map BuildTree.origin) (offeredTree forest area) r r'

abbrev ItemsStep (forest area : BuildForest) (r r' : Resolution) : Prop :=
  TableStep Resolution.items (fun outcome r ↦ r.ItemOutcome outcome) itemClash
    (fun n ↦ (forest.buildItems[n]?).map BuildItem.origin) (offeredItem forest area) r r'

/-- The trees of a backing area. -/
theorem copyTrees_spec (hlocal : AllLocal forest) {r r' : Resolution}
    (hr : Copying forest areas r) (harea : area ∈ areas)
    (hrun : area.buildTrees.toList.foldl
      (fun r (name, tree) ↦ copyTree forest.deletedTrees r name tree) r = r') :
    Copying forest areas r' ∧ TreesStep forest area r r' ∧ r'.buildItems = r.buildItems ∧
      ∀ outcome, r'.ItemOutcome outcome ↔ r.ItemOutcome outcome := by
  let inv : Resolution → Prop := fun r' ↦ Copying forest areas r' ∧ r'.buildItems = r.buildItems ∧
    ∀ outcome, r'.ItemOutcome outcome ↔ r.ItemOutcome outcome
  have step : ∀ r', inv r' → ∀ (n : String) (tree : BuildTree), (n, tree) ∈ area.buildTrees.toList →
      inv (copyTree forest.deletedTrees r' n tree) ∧
      TreeStep forest n ((some tree.origin).filter fun _ ↦ !forest.deletedTrees.contains n) r'
        (copyTree forest.deletedTrees r' n tree) := by
    intro r' ⟨hr', hitems, houtcome⟩ n tree hin
    obtain ⟨hcopied, hstep, hsame, hother⟩ :=
      copyTree_spec hlocal hr' harea (TreeMap.mem_toList_iff_getElem?_eq_some.mp hin)
    exact ⟨⟨hcopied, hsame.trans hitems, fun outcome ↦ (hother outcome).trans (houtcome outcome)⟩,
      hstep⟩
  obtain ⟨⟨hr', hitems, houtcome⟩, hstep⟩ := foldl_copyStep inv
    (fun n (tree : BuildTree) ↦ (some tree.origin).filter fun _ ↦ !forest.deletedTrees.contains n)
    (fun n ↦ area.buildTrees[n]?) area.buildTrees.toList
    (by rw [TreeMap.map_fst_toList_eq_keys]; exact TreeMap.nodup_keys)
    (fun n tree ↦ TreeMap.mem_toList_iff_getElem?_eq_some) step ⟨hr, rfl, fun _ ↦ Iff.rfl⟩ hrun
  refine ⟨hr', ⟨fun n ↦ ?_, fun outcome ↦ ?_⟩, hitems, houtcome⟩
  · rw [hstep.look_eq n]
    unfold offeredTree
    cases area.buildTrees[n]? <;> rfl
  · rw [hstep.fails_iff outcome]
    refine or_congr_right (exists_congr fun n ↦ ?_)
    unfold offeredTree
    cases area.buildTrees[n]? <;> rfl

/-- The items of a backing area. -/
theorem copyItems_spec (hlocal : AllLocal forest) {r r' : Resolution}
    (hr : Copying forest areas r) (harea : area ∈ areas)
    (hrun : area.buildItems.toList.foldl (fun r (name, item) ↦
      copyItem forest.deletedTrees forest.deletedItems location r name item) r = r') :
    Copying forest areas r' ∧ ItemsStep forest area r r' ∧ r'.buildTrees = r.buildTrees ∧
      ∀ outcome, r'.TreeOutcome outcome ↔ r.TreeOutcome outcome := by
  let inv : Resolution → Prop := fun r' ↦ Copying forest areas r' ∧ r'.buildTrees = r.buildTrees ∧
    ∀ outcome, r'.TreeOutcome outcome ↔ r.TreeOutcome outcome
  let offer : String → BuildItem → Option ItemOrigin := fun n item ↦
    (some item.origin).filter fun origin ↦
      !(forest.deletedTrees.contains origin.treeName || forest.deletedItems.contains n)
  have step : ∀ r', inv r' → ∀ (n : String) (item : BuildItem), (n, item) ∈ area.buildItems.toList →
      inv (copyItem forest.deletedTrees forest.deletedItems location r' n item) ∧
      ItemStep forest n (offer n item) r'
        (copyItem forest.deletedTrees forest.deletedItems location r' n item) := by
    intro r' ⟨hr', htrees, houtcome⟩ n item hin
    obtain ⟨hcopied, hstep, hsame, hother⟩ :=
      copyItem_spec hlocal hr' harea (TreeMap.mem_toList_iff_getElem?_eq_some.mp hin)
    exact ⟨⟨hcopied, hsame.trans htrees, fun outcome ↦ (hother outcome).trans (houtcome outcome)⟩,
      hstep⟩
  obtain ⟨⟨hr', htrees, houtcome⟩, hstep⟩ := foldl_copyStep inv offer
    (fun n ↦ area.buildItems[n]?) area.buildItems.toList
    (by rw [TreeMap.map_fst_toList_eq_keys]; exact TreeMap.nodup_keys)
    (fun n item ↦ TreeMap.mem_toList_iff_getElem?_eq_some) step ⟨hr, rfl, fun _ ↦ Iff.rfl⟩ hrun
  refine ⟨hr', ⟨fun n ↦ ?_, fun outcome ↦ ?_⟩, htrees, houtcome⟩
  · rw [hstep.look_eq n]
    unfold offeredItem
    cases area.buildItems[n]? <;> rfl
  · rw [hstep.fails_iff outcome]
    refine or_congr_right (exists_congr fun n ↦ ?_)
    unfold offeredItem
    cases area.buildItems[n]? <;> rfl

/-- One backing area: its trees, then its items. -/
theorem copyArea_spec (hlocal : AllLocal forest) {r r' : Resolution} (hr : Copying forest areas r)
    (harea : area ∈ areas)
    (hrun : copyArea forest.deletedTrees forest.deletedItems location r area = r') :
    Copying forest areas r' ∧ TreesStep forest area r r' ∧ ItemsStep forest area r r' := by
  unfold copyArea at hrun
  generalize hmid : area.buildTrees.toList.foldl _ r = r₁ at hrun
  obtain ⟨hr₁, htrees, hsameItems, hitemOutcome⟩ := copyTrees_spec hlocal hr harea hmid
  obtain ⟨hr₂, hitems, hsameTrees, htreeOutcome⟩ := copyItems_spec hlocal hr₁ harea hrun
  have htreesEq : r'.trees = r₁.trees := by
    ext1 n
    exact congrArg (fun m ↦ (m[n]?).map BuildTree.origin) hsameTrees
  have hitemsEq : r₁.items = r.items := by
    ext1 n
    exact congrArg (fun m ↦ (m[n]?).map BuildItem.origin) hsameItems
  refine ⟨hr₂, ⟨fun n ↦ ?_, fun outcome ↦ ?_⟩, ⟨fun n ↦ ?_, fun outcome ↦ ?_⟩⟩
  · rw [htreesEq, htrees.look_eq n]
  · rw [htreeOutcome outcome, htrees.fails_iff outcome]
  · rw [hitems.look_eq n, hitemsEq]
  · rw [hitems.fails_iff outcome, hitemOutcome outcome, hitemsEq]

end Copy

/-! ### Resolution -/

/-- A forest that has been validated: what it has is what is seen in it. -/
structure Resolved (forests : BuildForestMap) (p : String) (forest : BuildForest) : Prop where
  backing : forest.backingAreas = uncovered forests p
  trees : ∀ name : String,
    (forest.buildTrees[name]?).map BuildTree.origin = visibleTree forests p name
  items : ∀ name : String,
    (forest.buildItems[name]?).map BuildItem.origin = visibleItem forests p name

/-- The forests of a list have been validated, the others are as they were read. -/
structure Progress (forests : BuildForestMap) (done : List String) (now : BuildForestMap) :
    Prop where
  todo : ∀ p, p ∉ done → now[p]? = forests[p]?
  done : ∀ p ∈ done, ∃ forest, now[p]? = some forest ∧ Resolved forests p forest

theorem Progress.pruned {forests now : BuildForestMap} {done : List String}
    (h : Progress forests done now) : Pruned forests done now := by
  refine ⟨h.todo, fun p hp ↦ ?_⟩
  obtain ⟨forest, hforest, hresolved⟩ := h.done p hp
  exact ⟨forest, hforest, hresolved.backing⟩

theorem mapM_eq_some_map {α β : Type} {f : α → Option β} {g : α → β} {l : List α}
    (h : ∀ a ∈ l, f a = some (g a)) : l.mapM f = some (l.map g) := by
  induction l with
  | nil => rfl
  | cons a l ih =>
    rw [List.mapM_cons, h a List.mem_cons_self, ih fun b hb ↦ h b (List.mem_cons_of_mem _ hb)]
    rfl

/-- All but the last of the sorted dependencies of an item are what it depends on. -/
theorem mem_dropLast_sorted {dependencies : ItemMap} {item : String} {l : List String}
    (h : SortedFrom dependencies item l)
    (hacyclic : ¬ TransGen (DependencyGraph.DependsOn dependencies) item item) {b : String} :
    b ∈ l.dropLast ↔ b ∈ dependencies ∧
      TransGen (DependencyGraph.DependsOn dependencies) item b := by
  obtain ⟨rest, rfl⟩ := List.getLast?_eq_some_iff.mp h.last
  have hmem := h.mem_iff b
  have hnodup := List.nodup_append.mp h.nodup
  rw [List.dropLast_concat]
  constructor
  · intro hb
    obtain ⟨hknown, hreach⟩ := hmem.mp (List.mem_append_left _ hb)
    refine ⟨hknown, (reflTransGen_iff_eq_or_transGen.mp hreach).resolve_left ?_⟩
    rintro rfl
    exact hnodup.2.2 b hb b (by simp) rfl
  · rintro ⟨hknown, hreach⟩
    rcases List.mem_append.mp (hmem.mpr ⟨hknown, hreach.to_reflTransGen⟩) with hb | hb
    · exact hb
    · rw [List.mem_singleton.mp hb] at hreach
      exact absurd hreach hacyclic

/-- The graph of forests that are being validated tells what the backing areas of a
forest that has not been cover. -/
theorem covered_spec {forests now : BuildForestMap} {done order : List String}
    (hok : BackingOk forests) (horder : ValidationOrder forests order)
    (hnow : Progress forests done now) (hmem : ∀ p, p ∈ now ↔ p ∈ forests) {p : String}
    {forest : BuildForest} (hforest : forests[p]? = some forest) :
    ∃ g sorted, computeBackingGraph now = some g ∧
      forest.backingAreas.mapM g.getSortedDependencies = some (forest.backingAreas.map sorted) ∧
      (∀ area ∈ forest.backingAreas, (sorted area).getLast? = some area) ∧
      forest.backingAreas.filter
          (· ∉ (forest.backingAreas.map sorted).flatMap List.dropLast) = uncovered forests p := by
  classical
  have hnowOk := hnow.pruned.backingOk horder hok hmem
  obtain ⟨g, hg, htable, hdepends⟩ := computeBackingGraph_spec hnowOk
  have hbacks : ∀ area ∈ forest.backingAreas, Backs forests p area :=
    fun area harea ↦ ⟨forest, hforest, harea⟩
  have hsorted : ∀ area ∈ forest.backingAreas,
      g.getSortedDependencies area = some ((g.getSortedDependencies area).getD []) ∧
      SortedFrom g.dependencies area ((g.getSortedDependencies area).getD []) := by
    intro area harea
    have hknown : area ∈ now := by
      rw [hmem]
      exact hok.known p area (hbacks area harea)
    obtain ⟨l, hl, hspec⟩ := htable.sorted area hknown
    rw [hl]
    exact ⟨rfl, hspec⟩
  refine ⟨g, fun area ↦ (g.getSortedDependencies area).getD [], hg,
    mapM_eq_some_map fun area harea ↦ (hsorted area harea).1,
    fun area harea ↦ (hsorted area harea).2.last, ?_⟩
  unfold uncovered
  rw [hforest]
  refine List.filter_congr fun area _ ↦ ?_
  rw [decide_eq_decide]
  have hcovers : ∀ other ∈ forest.backingAreas,
      (area ∈ ((g.getSortedDependencies other).getD []).dropLast ↔
        TransGen (Backs forests) other area) := by
    intro other hother
    rw [mem_dropLast_sorted (hsorted other hother).2, hdepends, hnow.pruned.transGen_iff horder]
    · refine and_iff_right_of_imp fun hreach ↦ ?_
      rw [htable.mem_iff, hmem]
      obtain ⟨b, -, hb⟩ := TransGen.tail'_iff.mp hreach
      exact hok.known b area hb
    · rw [hdepends]
      exact hnowOk.acyclic other
  simp only [List.mem_flatMap, List.mem_map, not_exists, not_and]
  constructor
  · rintro h other ⟨forest', hforest', hother⟩ hreach
    obtain rfl : forest = forest' := by simpa [hforest] using hforest'
    exact h _ ⟨other, hother, rfl⟩ ((hcovers other hother).mpr hreach)
  · rintro h _ ⟨other, hother, rfl⟩ harea
    exact h other (hbacks other hother) ((hcovers other hother).mp harea)

/-- The record of a tree in a forest whose backing areas have been copied: its own
one, or the one of a backing area. -/
def TreeFrom (forests now : BuildForestMap) (p name : String) (read : BuildForest)
    (tree : BuildTree) : Prop :=
  (∃ own, read.buildTrees[name]? = some own ∧ tree = own.addPlugins read.globalPlugins) ∨
    (read.buildTrees[name]? = none ∧ ∃ q ∈ uncovered forests p, ∃ area, now[q]? = some area ∧
      ∃ other, area.buildTrees[name]? = some other ∧ tree = other.incrementBackingDepth)

def ItemFrom (forests now : BuildForestMap) (p name : String) (read : BuildForest)
    (item : BuildItem) : Prop :=
  read.buildItems[name]? = some item ∨
    (read.buildItems[name]? = none ∧ ∃ q ∈ uncovered forests p, ∃ area, now[q]? = some area ∧
      ∃ other, area.buildItems[name]? = some other ∧ item = other.incrementBackingDepth)

/-- What `resolveFromBackingAreas` does to a forest as it was read. -/
structure Resolves (forests now : BuildForestMap) (p : String) (read resolved : BuildForest)
    (found : Findings) : Prop where
  isResolved : Resolved forests p resolved
  treeFrom : ∀ (name : String) (tree : BuildTree), resolved.buildTrees[name]? = some tree →
    TreeFrom forests now p name read tree
  itemFrom : ∀ (name : String) (item : BuildItem), resolved.buildItems[name]? = some item →
    ItemFrom forests now p name read item
  onlyLocations : ∀ a ∈ found.failed, a = .treeLocations ∨ a = .itemLocations
  treeFailed : .treeLocations ∈ found.failed ↔ ∃ name, TreeTwice forests .failed p name
  itemFailed : .itemLocations ∈ found.failed ↔ ∃ name, ItemTwice forests .failed p name
  treeReported : ∀ name, TreeTwice forests .reported p name → ∃ location,
    (location, "this tree appears in multiple backing areas") ∈ found.errors
  itemReported : ∀ name, ItemTwice forests .reported p name → ∃ location,
    (location, "this item appears in multiple backing areas") ∈ found.errors

theorem AllLocal.propagateGlobals {forest : BuildForest} (h : AllLocal forest) :
    AllLocal forest.propagateGlobals := by
  refine ⟨fun name tree htree ↦ ?_, h.item⟩
  unfold BuildForest.propagateGlobals at htree
  rw [TreeMap.getElem?_map] at htree
  obtain ⟨own, hown, rfl⟩ := Option.map_eq_some_iff.mp htree
  exact h.tree name own hown

theorem propagateGlobals_tree_origin (forest : BuildForest) (name : String) :
    (forest.propagateGlobals.buildTrees[name]?).map BuildTree.origin =
      (forest.buildTrees[name]?).map BuildTree.origin := by
  unfold BuildForest.propagateGlobals
  rw [TreeMap.getElem?_map, Option.map_map]
  rfl

/-- What the backing areas offer to a forest is what is seen in them. -/
theorem offered_eq {forests now : BuildForestMap} {done : List String}
    (hnow : Progress forests done now) {p : String} {read : BuildForest}
    (hread : forests[p]? = some read) (hbacked : ∀ q, Backs forests p q → q ∈ done) :
    ∃ areaOf : String → BuildForest,
      (∀ q ∈ uncovered forests p, now[q]? = some (areaOf q)) ∧
      ((uncovered forests p).map areaOf).map (offeredTree read.propagateGlobals) =
        (treeAreas forests).offers (visibleTree forests) p ∧
      ((uncovered forests p).map areaOf).map (offeredItem read.propagateGlobals) =
        (itemAreas forests).offers (visibleItem forests) p := by
  have hdone : ∀ q ∈ uncovered forests p, ∃ forest, now[q]? = some forest ∧
      Resolved forests q forest := fun q hq ↦ hnow.done q (hbacked q (mem_uncovered.mp hq).1)
  refine ⟨fun q ↦ (now[q]?).getD read, fun q hq ↦ ?_, ?_, ?_⟩
  · obtain ⟨forest, hforest, -⟩ := hdone q hq
    simp [hforest]
  · unfold Areas.offers
    rw [List.map_map]
    refine List.map_congr_left fun q hq ↦ ?_
    obtain ⟨forest, hforest, hresolved⟩ := hdone q hq
    ext1 n
    show offeredTree read.propagateGlobals ((now[q]?).getD read) n =
      (visibleTree forests q n).filter fun _ ↦ !deletesTree forests p n
    unfold offeredTree deletesTree
    rw [hforest, hread, Option.getD_some, hresolved.trees n]
    rfl
  · unfold Areas.offers
    rw [List.map_map]
    refine List.map_congr_left fun q hq ↦ ?_
    obtain ⟨forest, hforest, hresolved⟩ := hdone q hq
    ext1 n
    show offeredItem read.propagateGlobals ((now[q]?).getD read) n =
      (visibleItem forests q n).filter fun origin ↦
        !(deletesTree forests p origin.treeName || deletesItem forests p n)
    unfold offeredItem deletesTree deletesItem
    rw [hforest, hread, Option.getD_some, hresolved.items n]
    rfl

/-- No area is found that its sorted dependencies do not end with. -/
theorem sortedEnds_failed {areas : List String} {sorted : String → List String}
    (hends : ∀ area ∈ areas, (sorted area).getLast? = some area) (a : Assertion) :
    a ∉ (Findings.concat ((areas.zip (areas.map sorted)).map fun (area, deps) ↦
      Findings.check (deps.getLast? = some area) .sortedDependenciesEnd)).failed := by
  intro ha
  have hzip : areas.zip (areas.map sorted) = areas.map fun area ↦ (area, sorted area) := by
    simpa using List.zip_map' (f := id) (g := sorted) (l := areas)
  obtain ⟨found, hin, ha⟩ := Findings.mem_failed_concat.mp ha
  simp only [hzip, List.map_map, List.mem_map, Function.comp_apply] at hin
  obtain ⟨area, harea, rfl⟩ := hin
  exact (Findings.mem_failed_check.mp ha).1 (hends area harea)

/-- A forest whose backing areas have been validated is resolved. -/
theorem resolveFromBackingAreas_spec {forests now : BuildForestMap} {done order : List String}
    (hok : BackingOk forests) (horder : ValidationOrder forests order)
    (hnow : Progress forests done now) (hmem : ∀ p, p ∈ now ↔ p ∈ forests) {p : String}
    {read : BuildForest} (hread : forests[p]? = some read) (hlocal : AllLocal read)
    (hbacked : ∀ q, Backs forests p q → q ∈ done) :
    ∃ resolved found, resolveFromBackingAreas now read.propagateGlobals p = some (resolved, found) ∧
      Resolves forests now p read resolved found := by
  obtain ⟨g, sorted, hg, hsorted, hends, huncovered⟩ := covered_spec hok horder hnow hmem hread
  obtain ⟨areaOf, hareaOf, htreeOffers, hitemOffers⟩ := offered_eq hnow hread hbacked
  have hp : p ∈ order := (horder.mem_iff p).mpr (mem_of_getElem? hread)
  let forest := read.propagateGlobals
  let areas := (uncovered forests p).map areaOf
  have hareas : (uncovered forests p).mapM (now[·]?) = some areas := mapM_eq_some_map hareaOf
  let location := FileLocation.new (p ++ "/" ++ fileBacking) 0 0
  let start : Resolution :=
    { buildTrees := forest.buildTrees
      buildItems := forest.buildItems
      treesNotDeleted := forest.deletedTrees
      itemsNotDeleted := forest.deletedItems
      findings := .none }
  let r := areas.foldl (copyArea forest.deletedTrees forest.deletedItems location) start
  have hstart : Copying forest areas start :=
    ⟨⟨fun _ _ h ↦ h, fun _ _ h ↦ h, fun _ _ h ↦ Or.inl h, fun _ _ h ↦ Or.inl h⟩,
      fun a ha ↦ by cases ha⟩
  have htreesOwn : start.trees = (treeAreas forests).own p := by
    ext1 n
    show (forest.buildTrees[n]?).map BuildTree.origin = (ownTree forests p n).map BuildTree.origin
    unfold ownTree
    rw [propagateGlobals_tree_origin, hread, Option.bind_some]
  have hitemsOwn : start.items = (itemAreas forests).own p := by
    ext1 n
    show (forest.buildItems[n]?).map BuildItem.origin = (ownItem forests p n).map BuildItem.origin
    unfold ownItem
    rw [hread, Option.bind_some]
    rfl
  have hlocal' := hlocal.propagateGlobals
  obtain ⟨hcopying, htrees, htreeIff⟩ := foldl_tableStep (Copying forest areas)
    (offeredTree forest) areas (fun r hr area harea ↦
      ⟨(copyArea_spec hlocal' hr harea rfl).1, (copyArea_spec hlocal' hr harea rfl).2.1⟩)
    (f := copyArea forest.deletedTrees forest.deletedItems location) hstart rfl
    (fun outcome h ↦ by cases outcome <;> simp [start, Resolution.TreeOutcome] at h)
  obtain ⟨-, hitems, hitemIff⟩ := foldl_tableStep (Copying forest areas)
    (offeredItem forest) areas (fun r hr area harea ↦
      ⟨(copyArea_spec hlocal' hr harea rfl).1, (copyArea_spec hlocal' hr harea rfl).2.2⟩)
    (f := copyArea forest.deletedTrees forest.deletedItems location) hstart rfl
    (fun outcome h ↦ by cases outcome <;> simp [start, Resolution.ItemOutcome] at h)
  change start.trees = _ at htreesOwn
  change r.trees = inherited start.trees _ at htrees
  change r.items = inherited start.items _ at hitems
  change ∀ outcome, r.TreeOutcome outcome ↔ ∃ n, Twice _ start.trees _ n at htreeIff
  change ∀ outcome, r.ItemOutcome outcome ↔ ∃ n, Twice _ start.items _ n at hitemIff
  rw [htreesOwn, htreeOffers] at htrees htreeIff
  rw [hitemsOwn, hitemOffers] at hitems hitemIff
  let ends := (forest.backingAreas.zip (forest.backingAreas.map sorted)).map fun entry ↦
    Findings.check (entry.2.getLast? = some entry.1) .sortedDependenciesEnd
  let unseenTrees := r.treesNotDeleted.toList.map fun name ↦ Findings.error location
    ("tree \"" ++ name ++ "\" was marked for deletion but was not seen in a backing area")
  let unseenItems := r.itemsNotDeleted.toList.map fun name ↦ Findings.error location
    ("item \"" ++ name ++ "\" was marked for deletion but was not seen in a backing area")
  let found := Findings.concat ends ++
    (r.findings ++ (Findings.concat unseenTrees ++ Findings.concat unseenItems))
  -- no assertion fails but in the copying
  have hends : ∀ a, a ∉ (Findings.concat ends).failed := sortedEnds_failed hends
  have hunseen : ∀ a, a ∉ (Findings.concat unseenTrees).failed ∧
      a ∉ (Findings.concat unseenItems).failed := by
    intro a
    simp [unseenTrees, unseenItems]
  have hfailed : ∀ a, a ∈ found.failed ↔ a ∈ r.findings.failed := by
    intro a
    simp only [found, Findings.failed_append, List.mem_append, hends, hunseen, false_or, or_false,
      or_self]
  refine ⟨{ forest with
      buildTrees := r.buildTrees
      buildItems := r.buildItems
      backingAreas := uncovered forests p }, found, ?_, ?_⟩
  · unfold resolveFromBackingAreas
    have hsorted' : forest.backingAreas.mapM g.getSortedDependencies =
        some (forest.backingAreas.map sorted) := hsorted
    have huncovered' : forest.backingAreas.filter
        (· ∉ (forest.backingAreas.map sorted).flatMap List.dropLast) = uncovered forests p :=
      huncovered
    simp only [hg, hsorted', huncovered', hareas, forest, Option.bind_eq_bind, Option.bind_some]
    rfl
  · refine ⟨⟨rfl, fun n ↦ ?_, fun n ↦ ?_⟩, fun n tree htree ↦ ?_, fun n item hitem ↦ ?_,
      fun a ha ↦ hcopying.failed a ((hfailed a).mp ha), ?_, ?_, fun n hn ↦ ?_, fun n hn ↦ ?_⟩
    · rw [visibleTree_eq horder hp, ← htrees]
      rfl
    · rw [visibleItem_eq horder hp, ← hitems]
      rfl
    · rcases hcopying.copied.tree n tree htree with hown | ⟨hnone, area, harea, other, hother, rfl⟩
      · obtain ⟨own, hread, rfl⟩ :=
          Option.map_eq_some_iff.mp (TreeMap.getElem?_map.symm.trans hown)
        exact Or.inl ⟨own, hread, rfl⟩
      · obtain ⟨q, hq, rfl⟩ := List.mem_map.mp harea
        have hnone := Option.map_eq_none_iff.mp (TreeMap.getElem?_map.symm.trans hnone)
        exact Or.inr ⟨hnone, q, hq, areaOf q, hareaOf q hq, other, hother, rfl⟩
    · rcases hcopying.copied.item n item hitem with hown | ⟨hnone, area, harea, other, hother, rfl⟩
      · exact Or.inl hown
      · obtain ⟨q, hq, rfl⟩ := List.mem_map.mp harea
        exact Or.inr ⟨hnone, q, hq, areaOf q, hareaOf q hq, other, hother, rfl⟩
    · rw [hfailed]
      exact htreeIff .failed
    · rw [hfailed]
      exact hitemIff .failed
    · obtain ⟨loc, hloc⟩ := (htreeIff .reported).mpr ⟨n, hn⟩
      exact ⟨loc, List.mem_append_right _ (List.mem_append_left _ hloc)⟩
    · obtain ⟨loc, hloc⟩ := (hitemIff .reported).mpr ⟨n, hn⟩
      exact ⟨loc, List.mem_append_right _ (List.mem_append_left _ hloc)⟩

end BuildForest

end Abuild
