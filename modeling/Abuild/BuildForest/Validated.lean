import Abuild.BuildForest.Validate

/-!
The forests that `validateForests` leaves behind. A forest is validated after those it
backs to, and then has what is seen in it, with the references that are shadowed
(`Records`). Whether an assertion fails in this, and what the entries of the forest
are afterwards, is told from the forests as they were read (`Validates`). The run
lemma is `validateForests_spec`.
-/

set_option autoImplicit false
set_option relaxedAutoImplicit false

namespace Abuild.BuildForest

open Relation Precedence Inheritance OptionalDependency
open Std (TreeMap TreeSet)

/-- The record of an item in a validated forest. -/
structure ItemRecord (forests : BuildForestMap) (p name : String) (item : BuildItem) : Prop where
  itemName : item.itemName = name
  name_ne : name ≠ ""
  deps_ne : "" ∉ item.deps
  isLocal_iff : item.isLocal = true ↔ item.forestRoot = p
  plugins : item.plugins = itemPlugins forests item.origin
  shadowed_iff : ∀ ref, ref ∈ item.shadowedReferences ↔ item.forestRoot ≠ p ∧
    ref ∈ item.getReferences ∧ ∃ here there, visibleItem forests p ref = some here ∧
      visibleItem forests item.forestRoot ref = some there ∧
      here.config.absolutePath ≠ there.config.absolutePath

/-- The records of a validated forest. -/
structure Records (forests : BuildForestMap) (p : String) (forest : BuildForest) : Prop where
  tree : ∀ (name : String) (tree : BuildTree), forest.buildTrees[name]? = some tree →
    tree.name = name ∧ name ≠ "" ∧ "" ∉ tree.treeDeps
  item : ∀ (name : String) (item : BuildItem), forest.buildItems[name]? = some item →
    ItemRecord forests p name item

/-- The forests of a list have been validated. -/
structure Run (forests : BuildForestMap) (done : List String) (now : BuildForestMap) : Prop where
  progress : Progress forests done now
  records : ∀ p ∈ done, ∀ forest, now[p]? = some forest → Records forests p forest

/-- What validating a forest finds and leaves. -/
structure Validates (forests now : BuildForestMap) (p : String) (forest : BuildForest)
    (found : Findings) : Prop where
  isResolved : Resolved forests p forest
  records : Records forests p forest
  sortedEnd : .sortedDependenciesEnd ∉ found.failed
  treeFailed : .treeLocations ∈ found.failed ↔ ∃ name, TreeTwice forests .failed p name
  itemFailed : .itemLocations ∈ found.failed ↔ ∃ name, ItemTwice forests .failed p name
  treeReported : ∀ name, TreeTwice forests .reported p name → ∃ location,
    (location, "this tree appears in multiple backing areas") ∈ found.errors
  itemReported : ∀ name, ItemTwice forests .reported p name → ∃ location,
    (location, "this item appears in multiple backing areas") ∈ found.errors
  trees : (∀ q ∈ uncovered forests p, ∀ area, now[q]? = some area →
      (treeDeclarations forests).Intact q (treeEntries area)) →
    (.expandedTreeDepsEmpty ∈ found.failed ↔ ¬ (treeDeclarations forests).Keeps p) ∧
      ((treeDeclarations forests).Keeps p →
        (treeDeclarations forests).Intact p (treeEntries forest))
  items : (∀ q ∈ uncovered forests p, ∀ area, now[q]? = some area →
      (itemDeclarations forests).Intact q (itemEntries area)) →
    (.expandedDependenciesEmpty ∈ found.failed ↔ ¬ (itemDeclarations forests).Keeps p) ∧
      ((itemDeclarations forests).Keeps p →
        (itemDeclarations forests).Intact p (itemEntries forest))
  itemsSound : found.errors = [] → Sound BuildItem.entry forest.buildItems forest.sortedItemNames
  order_nodup : forest.sortedItemNames.Nodup
  mem_order : ∀ name : String, name ∈ forest.sortedItemNames ↔ (forest.buildItems[name]?).isSome
  expanded_known : ∀ (name : String) (item : BuildItem), forest.buildItems[name]? = some item →
    ∀ d ∈ item.expandedDependencies, (forest.buildItems[d]?).isSome
  plugins_known : found.errors = [] → ∀ (name : String) (item : BuildItem),
    forest.buildItems[name]? = some item → item.isLocal = true → ∀ plugin ∈ item.plugins,
      (forest.buildItems[plugin]?).isSome

/-! ### Resolved records -/

section Resolved

variable {forests now : BuildForestMap} {done order : List String} {p : String}
  {read resolved : BuildForest} {found : Findings}

/-- The forest that an inherited item is from is another one. -/
theorem forestRoot_ne (h : AsRead forests) {q name : String} {origin : ItemOrigin}
    (hpq : Backs forests p q) (hvisible : visibleItem forests q name = some origin) :
    origin.forestRoot ≠ p := by
  rintro rfl
  exact h.backing.acyclic _ (TransGen.head' hpq (exists_home h hvisible).1)

theorem resolved_tree (h : AsRead forests) (hnow : Run forests done now)
    (hread : forests[p]? = some read) (hbacked : ∀ q, Backs forests p q → q ∈ done)
    (hresolves : Resolves forests now p read resolved found) {name : String} {tree : BuildTree}
    (htree : resolved.buildTrees[name]? = some tree) :
    tree.name = name ∧ name ≠ "" ∧ "" ∉ tree.treeDeps := by
  rcases hresolves.treeFrom name tree htree with ⟨own, hown, rfl⟩ |
    ⟨-, q, hq, area, harea, other, hother, rfl⟩
  · have hread := h.tree p name own ((ownTree_eq hread).trans hown)
    exact ⟨hread.name_eq, hread.name_ne, hread.deps_ne⟩
  · exact (hnow.records q (hbacked q (mem_uncovered.mp hq).1) area harea).tree name other hother

/-- An item of a forest whose backing areas have been copied. -/
structure ResolvedItem (forests : BuildForestMap) (p name : String) (item : BuildItem) :
    Prop where
  itemName : item.itemName = name
  name_ne : name ≠ ""
  deps_ne : "" ∉ item.deps
  isLocal_iff : item.isLocal = true ↔ item.forestRoot = p
  plugins : item.forestRoot ≠ p → item.plugins = itemPlugins forests item.origin
  notShadowed : item.forestRoot = p → ∀ ref, ref ∉ item.shadowedReferences

theorem resolved_item (h : AsRead forests) (hnow : Run forests done now)
    (hread : forests[p]? = some read) (hbacked : ∀ q, Backs forests p q → q ∈ done)
    (hresolves : Resolves forests now p read resolved found) {name : String} {item : BuildItem}
    (hitem : resolved.buildItems[name]? = some item) : ResolvedItem forests p name item := by
  rcases hresolves.itemFrom name item hitem with hown | ⟨-, q, hq, area, harea, other, hother, rfl⟩
  · have hread := h.item p name item ((ownItem_eq hread).trans hown)
    refine ⟨hread.itemName, hread.name_ne, hread.deps_ne, ?_, fun hne ↦ absurd hread.forestRoot hne,
      fun _ ↦ hread.notShadowed⟩
    simp [BuildItem.isLocal, hread.backingDepth, hread.forestRoot]
  · have hbacks := (mem_uncovered.mp hq).1
    have hrecord := (hnow.records q (hbacked q hbacks) area harea).item name other hother
    obtain ⟨area', harea', hresolved⟩ := hnow.progress.done q (hbacked q hbacks)
    obtain rfl : area = area' := by simpa [harea] using harea'
    have hvisible : visibleItem forests q name = some other.origin := by
      rw [← hresolved.items name, hother]
      rfl
    have hne : other.forestRoot ≠ p := forestRoot_ne h hbacks hvisible
    refine ⟨hrecord.itemName, hrecord.name_ne, hrecord.deps_ne, ?_, fun _ ↦ hrecord.plugins,
      fun heq ↦ absurd heq hne⟩
    rw [BuildItem_isLocal_increment]
    exact iff_of_false Bool.false_ne_true hne

/-- Where the trees of the backing areas are intact, the entries of the trees come from
them. -/
theorem resolved_tree_from (h : AsRead forests) (hread : forests[p]? = some read)
    (hnow : Run forests done now) (hbacked : ∀ q, Backs forests p q → q ∈ done)
    (hresolves : Resolves forests now p read resolved found)
    (hintact : ∀ q ∈ uncovered forests p, ∀ area, now[q]? = some area →
      (treeDeclarations forests).Intact q (treeEntries area))
    {name : String} {tree : BuildTree} (htree : resolved.buildTrees[name]? = some tree) :
    (treeDeclarations forests).From p name tree.origin tree.entry := by
  rcases hresolves.treeFrom name tree htree with ⟨own, hown, rfl⟩ |
    ⟨-, q, hq, area, harea, other, hother, rfl⟩
  · have hown' := (ownTree_eq hread).trans hown
    have htreeRead := h.tree p name own hown'
    refine Or.inl ⟨htreeRead.forestRoot, ?_⟩
    show (⟨own.treeDeps, own.expandedTreeDeps⟩ : Entry String) =
      ⟨((ownTree forests p name).map BuildTree.treeDeps).getD [], []⟩
    rw [hown', htreeRead.notExpanded]
    rfl
  · obtain ⟨area', harea', hresolved⟩ := hnow.progress.done q (hbacked q (mem_uncovered.mp hq).1)
    obtain rfl : area = area' := by simpa [harea] using harea'
    refine Or.inr ⟨q, treeEntries area, hintact q hq area harea, ?_, ?_⟩
    · exact (hresolved.trees name).symm.trans (congrArg _ hother)
    · exact congrArg _ hother

theorem resolved_item_from (h : AsRead forests) (hread : forests[p]? = some read)
    (hnow : Run forests done now) (hbacked : ∀ q, Backs forests p q → q ∈ done)
    (hresolves : Resolves forests now p read resolved found)
    (hintact : ∀ q ∈ uncovered forests p, ∀ area, now[q]? = some area →
      (itemDeclarations forests).Intact q (itemEntries area))
    {name : String} {item : BuildItem} (hitem : resolved.buildItems[name]? = some item) :
    (itemDeclarations forests).From p name item.origin item.entry := by
  rcases hresolves.itemFrom name item hitem with hown | ⟨-, q, hq, area, harea, other, hother, rfl⟩
  · have hown' := (ownItem_eq hread).trans hown
    have hitemRead := h.item p name item hown'
    refine Or.inl ⟨hitemRead.forestRoot, ?_⟩
    show (⟨item.deps, item.expandedDependencies⟩ : Entry String) =
      ⟨((ownItem forests p name).map BuildItem.deps).getD [], []⟩
    rw [hown', hitemRead.notExpanded]
    rfl
  · obtain ⟨area', harea', hresolved⟩ := hnow.progress.done q (hbacked q (mem_uncovered.mp hq).1)
    obtain rfl : area = area' := by simpa [harea] using harea'
    refine Or.inr ⟨q, itemEntries area, hintact q hq area harea, ?_, ?_⟩
    · exact (hresolved.items name).symm.trans (congrArg _ hother)
    · exact congrArg _ hother

end Resolved

/-- A tree that a forest has itself is resolved to it, with the global plugins. -/
theorem resolved_own_tree {forests now : BuildForestMap} {order : List String} {p : String}
    {read resolved : BuildForest} {found : Findings} (horder : ValidationOrder forests order)
    (hread : forests[p]? = some read) (hresolves : Resolves forests now p read resolved found)
    {name : String} {tree : BuildTree} (htree : read.buildTrees[name]? = some tree) :
    resolved.buildTrees[name]? = some (tree.addPlugins read.globalPlugins) := by
  have hp : p ∈ order := (horder.mem_iff p).mpr (mem_of_getElem? hread)
  have hown : (treeAreas forests).own p name = some tree.origin :=
    congrArg (Option.map BuildTree.origin) ((ownTree_eq hread).trans htree)
  have hvisible : (resolved.buildTrees[name]?).map BuildTree.origin = some tree.origin := by
    rw [hresolves.isResolved.trees name, visibleTree_eq horder hp, inherited_of_own hown]
  obtain ⟨found, hfound, -⟩ := Option.map_eq_some_iff.mp hvisible
  rcases hresolves.treeFrom name found hfound with ⟨own, hown, rfl⟩ | ⟨hnone, -⟩
  · rw [htree, Option.some_inj] at hown
    rw [hfound, hown]
  · rw [htree] at hnone
    cases hnone

/-! ### One forest -/

section Step

variable {forests now : BuildForestMap} {done order : List String} {p : String}
  {read resolved expandedTrees expandedItems : BuildForest}
  {found foundTrees foundItems : Findings}

/-- What the steps after the resolution make of an item: a local one gets the plugins of
its tree, an inherited one is checked for references that are shadowed. -/
theorem passed_item (now : BuildForestMap)
    (htrees : expandedTrees.buildItems = resolved.buildItems)
    (hexpands : Expands BuildItem.kept BuildItem.entry isOptionalItem .expandedDependenciesEmpty
      (checkPlugins expandedTrees).1.buildItems expandedItems.buildItems
      expandedItems.sortedItemNames foundItems)
    {name : String} {final : BuildItem}
    (hfinal : (checkIntegrity now expandedItems).buildItems[name]? = some final) :
    ∃ item expanded, resolved.buildItems[name]? = some item ∧
      expandedItems.buildItems[name]? = some expanded ∧
      final.kept = { item.kept with
        plugins :=
          if item.isLocal then
            ((expandedTrees.buildTrees[item.treeName]?).map BuildTree.plugins).getD []
          else item.plugins
        shadowedReferences := if item.isLocal then item.shadowedReferences else
          shadowedReferences expandedItems.buildItems
            ((now[item.forestRoot]?.map BuildForest.buildItems).getD ∅) final } ∧
      final.entry = expanded.entry ∧ Pass (isOptionalItem item.kept)
        (fun d ↦ (resolved.buildItems[d]?).isSome) name item.entry final.entry := by
  rw [checkIntegrity_getElem?] at hfinal
  obtain ⟨expanded, hexpanded, rfl⟩ := Option.map_eq_some_iff.mp hfinal
  have hplugged : ((checkPlugins expandedTrees).1.buildItems[name]?).isSome := by
    rw [← hexpands.isSome_eq, hexpanded]
    rfl
  obtain ⟨plugged, hplugged⟩ := Option.isSome_iff_exists.mp hplugged
  have hkept := hexpands.kept_eq name plugged expanded hplugged hexpanded
  have hpass := hexpands.pass name plugged expanded hplugged hexpanded
  have hpresent : (fun d : String ↦ ((checkPlugins expandedTrees).1.buildItems[d]?).isSome) =
      fun d ↦ (resolved.buildItems[d]?).isSome := by
    ext d
    rw [checkPlugins_getElem?, Option.isSome_map, htrees]
  rw [checkPlugins_getElem?, htrees] at hplugged
  obtain ⟨item, hitem, rfl⟩ := Option.map_eq_some_iff.mp hplugged
  have hdepth : expanded.backingDepth = item.backingDepth := by
    refine (congrArg KeptItem.backingDepth hkept).trans ?_
    split_ifs <;> rfl
  have hlocal : expanded.isLocal = item.isLocal := by
    unfold BuildItem.isLocal
    rw [hdepth]
  have hroot : expanded.forestRoot = item.forestRoot := by
    refine (congrArg (fun kept ↦ kept.origin.forestRoot) hkept).trans ?_
    split_ifs <;> rfl
  refine ⟨item, expanded, hitem, hexpanded, ?_, ?_, ?_⟩
  · rw [hlocal, hroot]
    cases hcase : item.isLocal
    · rw [hcase, if_neg Bool.false_ne_true] at hkept
      rw [if_neg Bool.false_ne_true]
      show ({ expanded.kept with shadowedReferences := _ } : KeptItem) = _
      rw [hkept]
      rfl
    · rw [hcase, if_pos rfl] at hkept
      rw [if_pos rfl, hkept]
      rfl
  · rw [hlocal]
    cases item.isLocal <;> rfl
  · rw [hpresent] at hpass
    rw [hlocal]
    cases hcase : item.isLocal
    · rw [hcase, if_neg Bool.false_ne_true] at hpass
      exact hpass
    · rw [hcase, if_pos rfl] at hpass
      exact hpass

/-- The items of a forest keep their origins after the resolution. -/
theorem passed_origin (now : BuildForestMap)
    (htrees : expandedTrees.buildItems = resolved.buildItems)
    (hexpands : Expands BuildItem.kept BuildItem.entry isOptionalItem .expandedDependenciesEmpty
      (checkPlugins expandedTrees).1.buildItems expandedItems.buildItems
      expandedItems.sortedItemNames foundItems) (name : String) :
    (expandedItems.buildItems[name]?).map BuildItem.origin =
        (resolved.buildItems[name]?).map BuildItem.origin ∧
      ((checkIntegrity now expandedItems).buildItems[name]?).map BuildItem.origin =
        (resolved.buildItems[name]?).map BuildItem.origin := by
  have hexpanded : (expandedItems.buildItems[name]?).map BuildItem.origin =
      (resolved.buildItems[name]?).map BuildItem.origin := by
    have hkept := congrArg (Option.map KeptItem.origin) (hexpands.map_kept _ _ _ name)
    rw [Option.map_map, Option.map_map, checkPlugins_getElem?, Option.map_map, htrees] at hkept
    refine hkept.trans (congrArg (fun f ↦ Option.map f resolved.buildItems[name]?) ?_)
    ext1 item
    show (if item.isLocal then _ else item).origin = item.origin
    split_ifs <;> rfl
  refine ⟨hexpanded, ?_⟩
  rw [← hexpanded, checkIntegrity_getElem?, Option.map_map]
  refine congrArg (fun f ↦ Option.map f expandedItems.buildItems[name]?) ?_
  ext1 item
  show (if item.isLocal then item else _).origin = item.origin
  split_ifs <;> rfl

/-- The record of an item after the steps on a forest. -/
theorem passed_record (h : AsRead forests) (horder : ValidationOrder forests order)
    (hnow : Run forests done now)
    (hread : forests[p]? = some read)
    (hbacked : ∀ q, TransGen (Backs forests) p q → q ∈ done)
    (hresolves : Resolves forests now p read resolved found)
    (hexpandsTrees : Expands BuildTree.kept BuildTree.entry isOptionalTree .expandedTreeDepsEmpty
      resolved.buildTrees expandedTrees.buildTrees expandedTrees.sortedTreeNames foundTrees)
    (htrees : expandedTrees.buildItems = resolved.buildItems)
    (hexpands : Expands BuildItem.kept BuildItem.entry isOptionalItem .expandedDependenciesEmpty
      (checkPlugins expandedTrees).1.buildItems expandedItems.buildItems
      expandedItems.sortedItemNames foundItems)
    {name : String} {final : BuildItem}
    (hfinal : (checkIntegrity now expandedItems).buildItems[name]? = some final) :
    ItemRecord forests p name final := by
  obtain ⟨item, expanded, hitem, -, hkept, -, hpass⟩ := passed_item now htrees hexpands hfinal
  have hresolved := resolved_item h hnow hread (fun q hq ↦ hbacked q (TransGen.single hq)) hresolves
    hitem
  have hvisible : visibleItem forests p name = some item.origin := by
    rw [← hresolves.isResolved.items name, hitem]
    rfl
  have horigin : final.origin = item.origin := congrArg KeptItem.origin hkept
  have hroot : final.forestRoot = item.forestRoot := congrArg ItemOrigin.forestRoot horigin
  have hdepth : final.backingDepth = item.backingDepth := congrArg KeptItem.backingDepth hkept
  have hlocal : final.isLocal = item.isLocal := by
    unfold BuildItem.isLocal
    rw [hdepth]
  refine ⟨(congrArg KeptItem.itemName hkept).trans hresolved.itemName, hresolved.name_ne,
    ?_, ?_, ?_, fun ref ↦ ?_⟩
  · intro hempty
    rw [show final.deps = _ from hpass.deps_eq] at hempty
    exact hresolved.deps_ne (List.mem_of_mem_filter hempty)
  · rw [hlocal, hroot]
    exact hresolved.isLocal_iff
  · rw [horigin]
    refine (congrArg KeptItem.plugins hkept).trans ?_
    dsimp only
    split_ifs with hcase
    · -- the tree of a local item is the forest's own
      have hhome := hresolved.isLocal_iff.mp hcase
      obtain ⟨own, hown, horiginOwn⟩ := (exists_home h hvisible).2
      have hownp : ownItem forests p name = some own := by
        rw [← hhome]
        exact hown
      obtain ⟨tree, htree⟩ := (h.item p name own hownp).tree
      have htreeName : own.treeName = item.treeName := congrArg ItemOrigin.treeName horiginOwn
      rw [htreeName, ownTree_eq hread] at htree
      have hplugins := congrArg (Option.map KeptTree.plugins)
        (hexpandsTrees.map_kept _ _ _ item.treeName)
      rw [Option.map_map, Option.map_map,
        resolved_own_tree horder hread hresolves htree] at hplugins
      unfold itemPlugins
      rw [show item.origin.forestRoot = p from hhome, hread]
      refine congrArg (fun plugins ↦ Option.getD plugins []) (hplugins.trans ?_)
      unfold BuildForest.propagateGlobals
      rw [TreeMap.getElem?_map, show item.origin.treeName = item.treeName from rfl, htree]
      rfl
    · exact hresolved.plugins fun heq ↦ hcase (hresolved.isLocal_iff.mpr heq)
  · rw [show final.shadowedReferences = _ from congrArg KeptItem.shadowedReferences hkept]
    dsimp only
    split_ifs with hcase
    · have hhome := hresolved.isLocal_iff.mp hcase
      refine iff_of_false (hresolved.notShadowed hhome ref) fun hshadowed ↦ ?_
      exact hshadowed.1 (hroot.trans hhome)
    · have hne : item.forestRoot ≠ p := fun heq ↦ hcase (hresolved.isLocal_iff.mpr heq)
      have hreach : TransGen (Backs forests) p item.forestRoot :=
        (reflTransGen_iff_eq_or_transGen.mp (exists_home h hvisible).1).resolve_left hne
      obtain ⟨native, hnative, hnativeResolved⟩ := hnow.progress.done _ (hbacked _ hreach)
      have hhere := (passed_origin now htrees hexpands ref).1
      rw [hresolves.isResolved.items ref] at hhere
      have hthere := hnativeResolved.items ref
      rw [mem_shadowedReferences, hroot, and_iff_right hne, hnative, Option.map_some,
        Option.getD_some, ← hhere, ← hthere]
      refine and_congr_right fun _ ↦ ?_
      simp only [Option.map_eq_some_iff]
      constructor
      · rintro ⟨here, there, hhere, hthere, hpath⟩
        exact ⟨here.origin, there.origin, ⟨here, hhere, rfl⟩, ⟨there, hthere, rfl⟩, hpath⟩
      · rintro ⟨_, _, ⟨here, hhere, rfl⟩, ⟨there, hthere, rfl⟩, hpath⟩
        exact ⟨here, there, hhere, hthere, hpath⟩

end Step

section Step

variable {forests now : BuildForestMap} {done order : List String} {p : String}
  {read resolved expandedTrees expandedItems : BuildForest}
  {found foundTrees foundItems : Findings}

/-- The pass over the trees of a forest whose backing areas are intact. -/
theorem passed_trees (h : AsRead forests) (hnow : Run forests done now)
    (hread : forests[p]? = some read) (hbacked : ∀ q, Backs forests p q → q ∈ done)
    (hresolves : Resolves forests now p read resolved found)
    (hexpands : Expands BuildTree.kept BuildTree.entry isOptionalTree .expandedTreeDepsEmpty
      resolved.buildTrees expandedTrees.buildTrees expandedTrees.sortedTreeNames foundTrees)
    (hintact : ∀ q ∈ uncovered forests p, ∀ area, now[q]? = some area →
      (treeDeclarations forests).Intact q (treeEntries area)) :
    (.expandedTreeDepsEmpty ∈ foundTrees.failed ↔ ¬ (treeDeclarations forests).Keeps p) ∧
      ((treeDeclarations forests).Keeps p →
        (treeDeclarations forests).Intact p (treeEntries expandedTrees)) := by
  obtain ⟨hsteps, hfailed⟩ := hexpands.steps (treeDeclarations forests) KeptTree.origin
    hresolves.isResolved.trees (fun _ _ ↦ rfl)
    (fun name tree ↦ resolved_tree_from h hread hnow hbacked hresolves hintact)
  exact ⟨hfailed, hsteps.intact⟩

theorem passed_items (h : AsRead forests) (hnow : Run forests done now)
    (hread : forests[p]? = some read) (hbacked : ∀ q, Backs forests p q → q ∈ done)
    (hresolves : Resolves forests now p read resolved found)
    (htrees : expandedTrees.buildItems = resolved.buildItems)
    (hexpands : Expands BuildItem.kept BuildItem.entry isOptionalItem .expandedDependenciesEmpty
      (checkPlugins expandedTrees).1.buildItems expandedItems.buildItems
      expandedItems.sortedItemNames foundItems)
    (hintact : ∀ q ∈ uncovered forests p, ∀ area, now[q]? = some area →
      (itemDeclarations forests).Intact q (itemEntries area)) :
    (.expandedDependenciesEmpty ∈ foundItems.failed ↔ ¬ (itemDeclarations forests).Keeps p) ∧
      ((itemDeclarations forests).Keeps p →
        (itemDeclarations forests).Intact p (itemEntries expandedItems)) := by
  have hplugged : ∀ (name : String) (plugged : BuildItem),
      (checkPlugins expandedTrees).1.buildItems[name]? = some plugged →
        ∃ item, resolved.buildItems[name]? = some item ∧ plugged.origin = item.origin ∧
          plugged.entry = item.entry := by
    intro name plugged hplugged
    rw [checkPlugins_getElem?, htrees] at hplugged
    obtain ⟨item, hitem, rfl⟩ := Option.map_eq_some_iff.mp hplugged
    refine ⟨item, hitem, ?_, ?_⟩
    · split_ifs <;> rfl
    · split_ifs <;> rfl
  obtain ⟨hsteps, hfailed⟩ := hexpands.steps (itemDeclarations forests) KeptItem.origin
    (fun name ↦ by
      refine Eq.trans ?_ (hresolves.isResolved.items name)
      rw [checkPlugins_getElem?, htrees, Option.map_map]
      refine congrArg (fun f ↦ Option.map f resolved.buildItems[name]?) ?_
      ext1 item
      show (if item.isLocal then _ else item).origin = item.origin
      split_ifs <;> rfl)
    (fun _ _ ↦ rfl)
    (fun name plugged hin ↦ by
      obtain ⟨item, hitem, horigin, hentry⟩ := hplugged name plugged hin
      show (itemDeclarations forests).From p name plugged.origin plugged.entry
      rw [horigin, hentry]
      exact resolved_item_from h hread hnow hbacked hresolves hintact hitem)
  exact ⟨hfailed, hsteps.intact⟩

theorem checkIntegrity_entries (now : BuildForestMap) (forest : BuildForest) :
    itemEntries (checkIntegrity now forest) = itemEntries forest := by
  ext1 name
  unfold itemEntries
  rw [checkIntegrity_getElem?, Option.map_map]
  refine congrArg (fun f ↦ Option.map f forest.buildItems[name]?) ?_
  ext1 item
  show (if item.isLocal then item else _).entry = item.entry
  split_ifs <;> rfl

/-- The plugins of a local item exist where no error is found. -/
theorem passed_plugins (h : AsRead forests) (horder : ValidationOrder forests order)
    (hread : forests[p]? = some read)
    (hresolves : Resolves forests now p read resolved found)
    (hexpandsTrees : Expands BuildTree.kept BuildTree.entry isOptionalTree .expandedTreeDepsEmpty
      resolved.buildTrees expandedTrees.buildTrees expandedTrees.sortedTreeNames foundTrees)
    (htrees : expandedTrees.buildItems = resolved.buildItems)
    (hexpands : Expands BuildItem.kept BuildItem.entry isOptionalItem .expandedDependenciesEmpty
      (checkPlugins expandedTrees).1.buildItems expandedItems.buildItems
      expandedItems.sortedItemNames foundItems)
    (hnone : (checkPlugins expandedTrees).2.errors = []) {name : String} {final : BuildItem}
    (hfinal : (checkIntegrity now expandedItems).buildItems[name]? = some final)
    (hrecord : ItemRecord forests p name final) (hlocal : final.isLocal = true) {plugin : String}
    (hplugin : plugin ∈ final.plugins) :
    ((checkIntegrity now expandedItems).buildItems[plugin]?).isSome := by
  have hvisible : visibleItem forests p name = some final.origin := by
    rw [← hresolves.isResolved.items name, ← (passed_origin now htrees hexpands name).2,
      hfinal]
    rfl
  have hhome := hrecord.isLocal_iff.mp hlocal
  obtain ⟨own, hown, horiginOwn⟩ := (exists_home h hvisible).2
  rw [show final.origin.forestRoot = p from hhome] at hown
  obtain ⟨tree, htree⟩ := (h.item p name own hown).tree
  rw [show own.treeName = final.treeName from congrArg ItemOrigin.treeName horiginOwn] at htree
  have htreeRead := h.tree p _ tree htree
  rw [ownTree_eq hread] at htree
  -- the plugins of the item are those of its tree
  have hkept := hexpandsTrees.map_kept _ _ _ final.treeName
  rw [resolved_own_tree horder hread hresolves htree, Option.map_some] at hkept
  obtain ⟨expanded, hexpanded, hkept⟩ := Option.map_eq_some_iff.mp hkept
  have hplugins : final.plugins = expanded.plugins := by
    rw [hrecord.plugins, show expanded.plugins = _ from congrArg KeptTree.plugins hkept]
    unfold itemPlugins BuildForest.propagateGlobals
    rw [show final.origin.forestRoot = p from hhome, hread]
    show ((TreeMap.map _ read.buildTrees)[final.treeName]?.map BuildTree.plugins).getD [] = _
    rw [TreeMap.getElem?_map, htree]
    rfl
  have hdepth : expanded.backingDepth = 0 :=
    (congrArg KeptTree.backingDepth hkept).trans htreeRead.backingDepth
  rw [hplugins] at hplugin
  have hknown := checkPlugins_known hnone hexpanded (by simp [BuildTree.isLocal, hdepth]) hplugin
  rw [htrees, ← Option.isSome_map (f := BuildItem.origin)] at hknown
  rw [← Option.isSome_map (f := BuildItem.origin), (passed_origin now htrees hexpands plugin).2]
  exact hknown

/-- A tree keeps its name, and its dependencies are among those that it had. -/
theorem passed_tree (h : AsRead forests) (hnow : Run forests done now)
    (hread : forests[p]? = some read) (hbacked : ∀ q, Backs forests p q → q ∈ done)
    (hresolves : Resolves forests now p read resolved found)
    (hexpands : Expands BuildTree.kept BuildTree.entry isOptionalTree .expandedTreeDepsEmpty
      resolved.buildTrees expandedTrees.buildTrees expandedTrees.sortedTreeNames foundTrees)
    {name : String} {tree : BuildTree} (htree : expandedTrees.buildTrees[name]? = some tree) :
    tree.name = name ∧ name ≠ "" ∧ "" ∉ tree.treeDeps := by
  have hsome : (resolved.buildTrees[name]?).isSome := by
    rw [← hexpands.isSome_eq, htree]
    rfl
  obtain ⟨old, hold⟩ := Option.isSome_iff_exists.mp hsome
  obtain ⟨hname, hne, hdeps⟩ := resolved_tree h hnow hread hbacked hresolves hold
  refine ⟨(congrArg KeptTree.name (hexpands.kept_eq name old tree hold htree)).trans hname,
    hne, fun hempty ↦ hdeps ?_⟩
  have hpass := (hexpands.pass name old tree hold htree).deps_eq
  rw [show tree.treeDeps = _ from hpass] at hempty
  exact List.mem_of_mem_filter hempty

/-- A shadowed reference is one that the forest has, so that no integrity check fails. -/
theorem exists_integrity (hresolves : Resolves forests now p read resolved found)
    (htrees : expandedTrees.buildItems = resolved.buildItems)
    (hexpands : Expands BuildItem.kept BuildItem.entry isOptionalItem .expandedDependenciesEmpty
      (checkPlugins expandedTrees).1.buildItems expandedItems.buildItems
      expandedItems.sortedItemNames foundItems)
    (hrecord : ∀ (name : String) (item : BuildItem),
      (checkIntegrity now expandedItems).buildItems[name]? = some item →
        ItemRecord forests p name item) (fullIntegrity : Bool) :
    ∃ integrity, (if fullIntegrity then
      reportIntegrityErrors
        ((checkIntegrity now expandedItems).buildItems.map fun _ item ↦ some item)
      else some .none) = some integrity ∧ integrity.failed = [] := by
  cases fullIntegrity with
  | false => exact ⟨.none, rfl, rfl⟩
  | true =>
    have hsome : (reportIntegrityErrors
        ((checkIntegrity now expandedItems).buildItems.map fun _ item ↦ some item)).isSome := by
      refine reportIntegrityErrors_isSome_iff.mpr fun name entry hentry ↦ ?_
      rw [TreeMap.getElem?_map] at hentry
      obtain ⟨item, hitem, rfl⟩ := Option.map_eq_some_iff.mp hentry
      refine ⟨item, rfl, fun ref href ↦ ?_⟩
      obtain ⟨-, -, here, -, hhere, -⟩ := ((hrecord name item hitem).shadowed_iff ref).mp href
      rw [← hresolves.isResolved.items ref,
        ← (passed_origin now htrees hexpands ref).2] at hhere
      obtain ⟨other, hother, -⟩ := Option.map_eq_some_iff.mp hhere
      exact ⟨other, by rw [TreeMap.getElem?_map]; exact congrArg _ hother⟩
    obtain ⟨integrity, hintegrity⟩ := Option.isSome_iff_exists.mp hsome
    exact ⟨integrity, hintegrity, reportIntegrityErrors_failed hintegrity⟩

/-- What an item's dependencies expand to is in the forest. -/
theorem passed_known
    (hexpands : Expands BuildItem.kept BuildItem.entry isOptionalItem .expandedDependenciesEmpty
      (checkPlugins expandedTrees).1.buildItems expandedItems.buildItems
      expandedItems.sortedItemNames foundItems) {name : String} {item : BuildItem}
    (hitem : (checkIntegrity now expandedItems).buildItems[name]? = some item) {d : String}
    (hd : d ∈ item.entry.expanded) :
    ((checkIntegrity now expandedItems).buildItems[d]?).isSome := by
  have hentry := congrFun (checkIntegrity_entries now expandedItems)
  have hname := hentry name
  unfold itemEntries at hname
  rw [hitem, Option.map_some] at hname
  obtain ⟨expanded, hexpanded, heq⟩ := Option.map_eq_some_iff.mp hname.symm
  have hknown := hexpands.expanded_known name expanded hexpanded d (by rw [heq]; exact hd)
  rw [← Option.isSome_map (f := BuildItem.entry)] at hknown
  rw [← Option.isSome_map (f := BuildItem.entry)]
  exact (congrArg Option.isSome (hentry d)).trans hknown

end Step

theorem failed_append_append {a b c d e f g : Findings} (hc : c.failed = []) (he : e.failed = [])
    (hf : f.failed = []) (hg : g.failed = []) (x : Assertion) :
    x ∈ (a ++ (b ++ (c ++ (d ++ (e ++ (f ++ g)))))).failed ↔
      x ∈ a.failed ∨ x ∈ b.failed ∨ x ∈ d.failed := by
  simp only [Findings.failed_append, List.mem_append, hc, he, hf, hg, List.not_mem_nil, false_or,
    or_false]

/-- A forest is validated after those it backs to. -/
theorem validateForest_spec {forests now : BuildForestMap} {done order : List String} {p : String}
    {read : BuildForest} (h : AsRead forests) (horder : ValidationOrder forests order)
    (hnow : Run forests done now) (hmem : ∀ p, p ∈ now ↔ p ∈ forests)
    (hread : forests[p]? = some read) (hp : p ∉ done)
    (hbacked : ∀ q, TransGen (Backs forests) p q → q ∈ done) (fullIntegrity : Bool) :
    ∃ forest found, validateForest fullIntegrity now p = some (now.insert p forest, found) ∧
      Validates forests now p forest found := by
  have hbacks : ∀ q, Backs forests p q → q ∈ done := fun q hq ↦ hbacked q (TransGen.single hq)
  obtain ⟨resolved, found₁, hresolve, hresolves⟩ := resolveFromBackingAreas_spec h.backing horder
    hnow.progress hmem hread (h.allLocal hread) hbacks
  obtain ⟨expandedTrees, found₂, hcheckTrees, hexpandsTrees, hitems, hareas⟩ :=
    checkTreeDependencies_spec (fun name tree ↦ resolved_tree h hnow hread hbacks hresolves)
  have hplugged : ∀ (name : String) (item : BuildItem),
      (checkPlugins expandedTrees).1.buildItems[name]? = some item →
        item.itemName = name ∧ name ≠ "" ∧ "" ∉ item.deps := by
    intro name item hitem
    rw [checkPlugins_getElem?, hitems] at hitem
    obtain ⟨old, hold, rfl⟩ := Option.map_eq_some_iff.mp hitem
    have hresolved := resolved_item h hnow hread hbacks hresolves hold
    split_ifs
    · exact ⟨hresolved.itemName, hresolved.name_ne, hresolved.deps_ne⟩
    · exact ⟨hresolved.itemName, hresolved.name_ne, hresolved.deps_ne⟩
  obtain ⟨expandedItems, found₃, hcheckItems, hexpands, htrees, hareas'⟩ :=
    checkItemDependencies_spec hplugged
  let forest := checkIntegrity now expandedItems
  have hrecord : ∀ (name : String) (item : BuildItem), forest.buildItems[name]? = some item →
      ItemRecord forests p name item := fun name item hitem ↦
    passed_record h horder hnow hread hbacked hresolves hexpandsTrees hitems hexpands hitem
  obtain ⟨integrity, hintegrity, hfailed⟩ :=
    exists_integrity hresolves hitems hexpands hrecord fullIntegrity
  have hforest : now[p]? = some read := (hnow.progress.todo p hp).trans hread
  let plugins := (checkPlugins expandedTrees).2
  let also := checkBuildAlso expandedItems
  let access := checkDepTreeAccess expandedItems
  refine ⟨forest, found₁ ++ (found₂ ++ (plugins ++ (found₃ ++ (also ++ (access ++ integrity))))),
    ?_, ?_⟩
  · unfold validateForest
    simp only [hforest, hresolve, hcheckTrees, hcheckItems, Option.bind_eq_bind, Option.bind_some]
    cases fullIntegrity with
    | false =>
      obtain rfl : Findings.none = integrity := Option.some_inj.mp hintegrity
      rfl
    | true =>
      have hreport : reportIntegrityErrors
          ((checkIntegrity now expandedItems).buildItems.map fun _ item ↦ some item) =
            some integrity := hintegrity
      rw [if_pos rfl, hreport]
      rfl
  have hiff := failed_append_append (a := found₁) (b := found₂) (d := found₃)
    (checkPlugins_failed expandedTrees) (checkBuildAlso_failed expandedItems)
    (checkDepTreeAccess_failed expandedItems) hfailed
  have horigin := fun name ↦ (passed_origin now hitems hexpands name).2
  have htreesEq : forest.buildTrees = expandedTrees.buildTrees := htrees
  refine ⟨⟨?_, fun name ↦ ?_, fun name ↦ ?_⟩, ⟨fun name tree htree ↦ ?_, hrecord⟩, ?_, ?_, ?_,
    fun name hn ↦ ?_, fun name hn ↦ ?_, fun hintact ↦ ?_, fun hintact ↦ ?_, fun hnone ↦ ?_,
    hexpands.order_nodup, fun name ↦ ?_, fun name item hitem ↦ ?_,
    fun hnone name item hitem hlocal plugin hplugin ↦ ?_⟩
  · exact hareas'.trans (hareas.trans hresolves.isResolved.backing)
  · rw [← hresolves.isResolved.trees name, htreesEq]
    have hkept := congrArg (Option.map KeptTree.origin) (hexpandsTrees.map_kept _ _ _ name)
    rw [Option.map_map, Option.map_map] at hkept
    exact hkept
  · rw [horigin, hresolves.isResolved.items name]
  · rw [htreesEq] at htree
    exact passed_tree h hnow hread hbacks hresolves hexpandsTrees htree
  · rw [hiff]
    rintro (hin | hin | hin)
    · rcases hresolves.onlyLocations _ hin with heq | heq <;> cases heq
    · cases ((hexpandsTrees.failed_iff _).mp hin).1
    · cases ((hexpands.failed_iff _).mp hin).1
  · rw [hiff, ← hresolves.treeFailed, hexpandsTrees.failed_iff, hexpands.failed_iff]
    simp
  · rw [hiff, ← hresolves.itemFailed, hexpandsTrees.failed_iff, hexpands.failed_iff]
    simp
  · obtain ⟨location, hlocation⟩ := hresolves.treeReported name hn
    exact ⟨location, List.mem_append_left _ hlocation⟩
  · obtain ⟨location, hlocation⟩ := hresolves.itemReported name hn
    exact ⟨location, List.mem_append_left _ hlocation⟩
  · obtain ⟨hfailedTrees, hintactTrees⟩ :=
      passed_trees h hnow hread hbacks hresolves hexpandsTrees hintact
    refine ⟨?_, fun hkeeps ↦ ?_⟩
    · rw [hiff, ← hfailedTrees]
      constructor
      · rintro (hin | hin | hin)
        · rcases hresolves.onlyLocations _ hin with heq | heq <;> cases heq
        · exact hin
        · cases ((hexpands.failed_iff _).mp hin).1
      · exact fun hin ↦ Or.inr (Or.inl hin)
    · have hentries : treeEntries forest = treeEntries expandedTrees := by
        unfold treeEntries
        rw [htreesEq]
      rw [hentries]
      exact hintactTrees hkeeps
  · obtain ⟨hfailedItems, hintactItems⟩ :=
      passed_items h hnow hread hbacks hresolves hitems hexpands hintact
    refine ⟨?_, fun hkeeps ↦ ?_⟩
    · rw [hiff, ← hfailedItems]
      constructor
      · rintro (hin | hin | hin)
        · rcases hresolves.onlyLocations _ hin with heq | heq <;> cases heq
        · cases ((hexpandsTrees.failed_iff _).mp hin).1
        · exact hin
      · exact fun hin ↦ Or.inr (Or.inr hin)
    · rw [checkIntegrity_entries]
      exact hintactItems hkeeps
  · have hnone₃ : found₃.errors = [] := by
      simp only [Findings.errors_append, List.append_eq_nil_iff] at hnone
      exact hnone.2.2.2.1
    exact (hexpands.sound hnone₃).congr fun name ↦
      congrFun (checkIntegrity_entries now expandedItems) name
  · rw [show forest.sortedItemNames = expandedItems.sortedItemNames from rfl, hexpands.mem_order,
      ← Option.isSome_map (f := BuildItem.entry)]
    rw [show (expandedItems.buildItems[name]?).map BuildItem.entry = _ from
      (congrFun (checkIntegrity_entries now expandedItems) name).symm]
    unfold itemEntries
    rw [Option.isSome_map]
  · exact fun d hd ↦ passed_known hexpands hitem hd
  · have hnone₂ : plugins.errors = [] := by
      simp only [Findings.errors_append, List.append_eq_nil_iff] at hnone
      exact hnone.2.2.1
    exact passed_plugins h horder hread hresolves hexpandsTrees hitems hexpands hnone₂ hitem
      (hrecord name item hitem) hlocal hplugin

/-! ### All forests -/

theorem Validates.congr {forests now now' : BuildForestMap} {p : String} {forest : BuildForest}
    {found : Findings} (h : Validates forests now p forest found)
    (heq : ∀ q ∈ uncovered forests p, now'[q]? = now[q]?) :
    Validates forests now' p forest found :=
  { h with
    trees := fun hintact ↦ h.trees fun q hq area harea ↦ hintact q hq area ((heq q hq).trans harea)
    items := fun hintact ↦ h.items fun q hq area harea ↦
      hintact q hq area ((heq q hq).trans harea) }

/-- The forests of a list have been validated, and what has been found in each. -/
structure Validation (forests : BuildForestMap) (done : List String) (now : BuildForestMap)
    (found : Findings) (foundAt : String → Findings) : Prop where
  mem_iff : ∀ p, p ∈ now ↔ p ∈ forests
  todo : ∀ p, p ∉ done → now[p]? = forests[p]?
  validates : ∀ p ∈ done, ∃ forest, now[p]? = some forest ∧
    Validates forests now p forest (foundAt p)
  failed_iff : ∀ a, a ∈ found.failed ↔ ∃ p ∈ done, a ∈ (foundAt p).failed
  errors_iff : ∀ e, e ∈ found.errors ↔ ∃ p ∈ done, e ∈ (foundAt p).errors

theorem Validation.run {forests now : BuildForestMap} {done : List String} {found : Findings}
    {foundAt : String → Findings} (h : Validation forests done now found foundAt) :
    Run forests done now := by
  refine ⟨⟨h.todo, fun p hp ↦ ?_⟩, fun p hp forest hforest ↦ ?_⟩
  · obtain ⟨forest, hforest, hvalidates⟩ := h.validates p hp
    exact ⟨forest, hforest, hvalidates.isResolved⟩
  · obtain ⟨forest', hforest', hvalidates⟩ := h.validates p hp
    obtain rfl : forest = forest' := by simpa [hforest] using hforest'
    exact hvalidates.records

/-- One more forest. -/
theorem Validation.step {forests now : BuildForestMap} {done : List String} {found : Findings}
    {foundAt : String → Findings} (h : Validation forests done now found foundAt) {p : String}
    (hp : p ∉ done) (hmem : p ∈ forests) (hbacked : ∀ q ∈ uncovered forests p, q ∈ done)
    {forest : BuildForest} {foundHere : Findings}
    (hvalidates : Validates forests now p forest foundHere)
    (hclosed : ∀ q ∈ done, ∀ r ∈ uncovered forests q, r ∈ done) :
    Validation forests (done ++ [p]) (now.insert p forest) (found ++ foundHere)
      (Function.update foundAt p foundHere) := by
  have hsame : ∀ q ∈ done, (now.insert p forest)[q]? = now[q]? := by
    intro q hq
    have hne : p ≠ q := fun heq ↦ hp (heq ▸ hq)
    rw [TreeMap.getElem?_insert, if_neg (by simpa using hne)]
  have hfoundAt : ∀ q ∈ done, Function.update foundAt p foundHere q = foundAt q := by
    intro q hq
    have hne : q ≠ p := fun heq ↦ hp (heq ▸ hq)
    exact Function.update_of_ne hne _ _
  refine ⟨fun q ↦ ?_, fun q hq ↦ ?_, fun q hq ↦ ?_, fun a ↦ ?_, fun e ↦ ?_⟩
  · rw [TreeMap.mem_insert, h.mem_iff, compare_eq_iff_eq]
    exact or_iff_right_of_imp fun heq ↦ heq ▸ hmem
  · rw [List.mem_append, List.mem_singleton, not_or] at hq
    rw [TreeMap.getElem?_insert, if_neg (by simpa using Ne.symm hq.2)]
    exact h.todo q hq.1
  · rcases List.mem_append.mp hq with hq | hq
    · obtain ⟨forest', hforest', hvalidates'⟩ := h.validates q hq
      refine ⟨forest', (hsame q hq).trans hforest', ?_⟩
      rw [hfoundAt q hq]
      exact hvalidates'.congr fun r hr ↦ hsame r (hclosed q hq r hr)
    · rw [List.mem_singleton.mp hq]
      refine ⟨forest, by simp, ?_⟩
      rw [Function.update_self]
      exact hvalidates.congr fun r hr ↦ hsame r (hbacked r hr)
  · rw [Findings.failed_append, List.mem_append, h.failed_iff]
    simp only [List.mem_append, List.mem_singleton, or_and_right, exists_or, exists_eq_left,
      Function.update_self]
    refine or_congr_left (exists_congr fun q ↦ and_congr_right fun hq ↦ ?_)
    rw [hfoundAt q hq]
  · rw [Findings.errors_append, List.mem_append, h.errors_iff]
    simp only [List.mem_append, List.mem_singleton, or_and_right, exists_or, exists_eq_left,
      Function.update_self]
    refine or_congr_left (exists_congr fun q ↦ and_congr_right fun hq ↦ ?_)
    rw [hfoundAt q hq]

/-- Validation in the order of the backing graph. -/
theorem foldlM_validateForest {forests : BuildForestMap} {order : List String}
    (h : AsRead forests) (horder : ValidationOrder forests order) (fullIntegrity : Bool)
    {done todo : List String} (hsplit : order = done ++ todo) {now : BuildForestMap}
    {found : Findings} {foundAt : String → Findings}
    (hvalidation : Validation forests done now found foundAt) :
    ∃ validated found' foundAt', todo.foldlM
        (fun (forests, findings) path ↦ do
          let (forests, found) ← validateForest fullIntegrity forests path
          some (forests, findings ++ found)) (now, found) = some (validated, found') ∧
      Validation forests order validated found' foundAt' := by
  induction todo generalizing done now found foundAt with
  | nil =>
    rw [List.append_nil] at hsplit
    subst hsplit
    exact ⟨now, found, foundAt, rfl, hvalidation⟩
  | cons p todo ih =>
    have hnodup := horder.nodup
    rw [hsplit, List.nodup_append] at hnodup
    have hp : p ∉ done := fun hin ↦ hnodup.2.2 p hin p List.mem_cons_self rfl
    have hmem : p ∈ order := by
      rw [hsplit]
      simp
    obtain ⟨read, hread⟩ := exists_of_mem ((horder.mem_iff p).mp hmem)
    have hordered := hsplit ▸ horder.ordered
    have hbacked : ∀ q, TransGen (Backs forests) p q → q ∈ done := fun q hq ↦
      hordered.transGen done p todo rfl q hq
    have hclosed : ∀ q ∈ done, ∀ r ∈ uncovered forests q, r ∈ done := fun q hq r hr ↦
      hordered.of_append.mem hq (mem_uncovered.mp hr).1
    obtain ⟨forest, foundHere, hrun, hvalidates⟩ := validateForest_spec h horder hvalidation.run
      hvalidation.mem_iff hread hp hbacked fullIntegrity
    have hstep := hvalidation.step hp ((horder.mem_iff p).mp hmem)
      (fun q hq ↦ hbacked q (TransGen.single (mem_uncovered.mp hq).1)) hvalidates hclosed
    obtain ⟨validated, found', foundAt', hrest, hfinal⟩ := ih (by simp [hsplit]) hstep
    refine ⟨validated, found', foundAt', ?_, hfinal⟩
    rw [List.foldlM_cons]
    simp only [hrun, Option.bind_eq_bind, Option.bind_some]
    exact hrest

/-- Forests as they are read are validated to the end, whatever is found in them. -/
theorem validateForests_spec {forests : BuildForestMap} (h : AsRead forests)
    (fullIntegrity : Bool) :
    ∃ order validated found foundAt, ValidationOrder forests order ∧
      validateForests fullIntegrity forests = some (validated, found) ∧
      Validation forests order validated found foundAt := by
  obtain ⟨g, order, hg, horder, hvalid⟩ := getSortedGraph_spec h.backing
  have hstart : Validation forests [] forests .none fun _ ↦ .none :=
    ⟨fun _ ↦ Iff.rfl, fun _ _ ↦ rfl, fun p hp ↦ absurd hp List.not_mem_nil,
      fun a ↦ ⟨fun ha ↦ absurd ha List.not_mem_nil, by simp⟩,
      fun e ↦ ⟨fun he ↦ absurd he List.not_mem_nil, by simp⟩⟩
  obtain ⟨validated, found, foundAt, hrun, hvalidation⟩ :=
    foldlM_validateForest h hvalid fullIntegrity (List.nil_append order).symm hstart
  refine ⟨order, validated, found, foundAt, hvalid, ?_, hvalidation⟩
  unfold validateForests
  simp only [hg, horder, Option.bind_eq_bind, Option.bind_some]
  exact hrun

end Abuild.BuildForest
