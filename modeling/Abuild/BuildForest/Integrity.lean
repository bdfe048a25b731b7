import Abuild.BuildForest.Assertions

/-!
The integrity of an inherited item. Where `checkIntegrity` finds no shadowed reference
of an item, the forest that inherits it and the forest it is from follow its
dependencies to the same items; they have the same plugins as well, unless the plugin
is missing where the item is inherited, about which nothing is reported.
-/

set_option autoImplicit false
set_option relaxedAutoImplicit false

namespace Abuild.BuildForest

open Relation Precedence Inheritance OptionalDependency
open Std (TreeMap TreeSet)

/-- A directory belongs to one forest. -/
def Apart (forests : BuildForestMap) : Prop :=
  ∀ p q name own other, ownItem forests p name = some own → ownItem forests q name = some other →
    own.getAbsolutePath = other.getAbsolutePath → p = q

/-- A name is met where dependencies of items are followed. -/
def Reaches (forest : BuildForest) : String → String → Prop :=
  ReflTransGen (DepOn BuildItem.entry forest.buildItems)

/-- A name stands for items at one path in two forests. -/
def SamePath (forest native : BuildForest) (name : String) : Prop :=
  ∃ here there, forest.buildItems[name]? = some here ∧ native.buildItems[name]? = some there ∧
    here.getAbsolutePath = there.getAbsolutePath

/-- What an item of a forest refers to is the same in its native forest. -/
structure Consistent (forest native : BuildForest) (name : String) (item : BuildItem) : Prop where
  reaches_iff : ∀ dep, Reaches forest name dep ↔ Reaches native name dep
  samePath : ∀ dep, Reaches forest name dep → SamePath forest native dep
  pluginPath : ∀ plugin ∈ item.plugins, SamePath forest native plugin

/-- A forest that has been validated without an error. -/
structure Clean (forests : BuildForestMap) (p : String) (forest : BuildForest) : Prop where
  isResolved : Resolved forests p forest
  records : Records forests p forest
  intact : (itemDeclarations forests).Intact p (itemEntries forest)
  sound : Sound BuildItem.entry forest.buildItems forest.sortedItemNames
  plugins_known : ∀ (name : String) (item : BuildItem), forest.buildItems[name]? = some item →
    item.isLocal = true → ∀ plugin ∈ item.plugins, (forest.buildItems[plugin]?).isSome

/-- A validation that reports no error and in which no assertion fails. -/
theorem validateForests_clean {forests validated : BuildForestMap} (h : AsRead forests)
    {fullIntegrity : Bool}
    (hrun : validateForests fullIntegrity forests = some (validated, .none)) :
    (∀ p, p ∈ validated ↔ p ∈ forests) ∧
      ∀ p forest, validated[p]? = some forest → Clean forests p forest := by
  obtain ⟨order, validated', found, foundAt, horder, hrun', hvalidation⟩ :=
    validateForests_spec h fullIntegrity
  rw [hrun, Option.some_inj, Prod.mk.injEq] at hrun'
  obtain ⟨rfl, rfl⟩ := hrun'
  obtain ⟨-, hitems, hintact⟩ := hvalidation.keeps horder
  refine ⟨hvalidation.mem_iff, fun p forest hforest ↦ ?_⟩
  have hmem : p ∈ order := by
    rw [horder.mem_iff, ← hvalidation.mem_iff, TreeMap.mem_iff_isSome_getElem?, hforest]
    rfl
  obtain ⟨forest', hforest', hvalidates⟩ := hvalidation.validates p hmem
  obtain rfl : forest = forest' := by simpa [hforest] using hforest'
  have herrors : (foundAt p).errors = [] := by
    rw [List.eq_nil_iff_forall_not_mem]
    intro e he
    exact List.not_mem_nil ((hvalidation.errors_iff e).mpr ⟨p, hmem, he⟩)
  have hkeeps := hitems.mp List.not_mem_nil
  exact ⟨hvalidates.isResolved, hvalidates.records,
    hintact hkeeps p hmem forest hforest, hvalidates.itemsSound herrors,
    hvalidates.plugins_known herrors⟩

section Inherited

variable {forests : BuildForestMap} {p n name : String} {forest native : BuildForest}
  {item : BuildItem}

/-- The item of a name, and what it is in the forest. -/
theorem Clean.visible (h : Clean forests p forest) (hitem : forest.buildItems[name]? = some item) :
    visibleItem forests p name = some item.origin := by
  rw [← h.isResolved.items name, hitem]
  rfl

theorem Clean.exists_item (h : Clean forests p forest) {origin : ItemOrigin}
    (hvisible : visibleItem forests p name = some origin) :
    ∃ item, forest.buildItems[name]? = some item ∧ item.origin = origin := by
  rw [← h.isResolved.items name] at hvisible
  exact Option.map_eq_some_iff.mp hvisible

/-- Items of one name at one path are one item. -/
theorem Apart.origin_eq (hapart : Apart forests) (h : AsRead forests) {here there : ItemOrigin}
    (hhere : visibleItem forests p name = some here)
    (hthere : visibleItem forests n name = some there)
    (hpath : here.config.absolutePath = there.config.absolutePath) : here = there := by
  obtain ⟨-, own, hown, rfl⟩ := exists_home h hhere
  obtain ⟨-, other, hother, rfl⟩ := exists_home h hthere
  have hroot := hapart _ _ name own other hown hother hpath
  rw [← hroot, hown, Option.some_inj] at hother
  rw [hother]

/-- An item is seen in the forest it is from. -/
theorem visible_home (h : AsRead forests) {origin : ItemOrigin}
    (hvisible : visibleItem forests p name = some origin) :
    origin.forestRoot ∈ forests ∧ visibleItem forests origin.forestRoot name = some origin := by
  obtain ⟨-, own, hown, rfl⟩ := exists_home h hvisible
  obtain ⟨native, hnative, -⟩ := Option.bind_eq_some_iff.mp hown
  have hmem : own.origin.forestRoot ∈ forests :=
    TreeMap.mem_iff_isSome_getElem?.mpr (Option.isSome_iff_exists.mpr ⟨native, hnative⟩)
  obtain ⟨-, order, -, -, horder⟩ := getSortedGraph_spec h.backing
  refine ⟨hmem, ?_⟩
  rw [visibleItem_eq horder ((horder.mem_iff _).mpr hmem)]
  refine inherited_of_own ?_
  show (ownItem forests own.origin.forestRoot name).map BuildItem.origin = some own.origin
  rw [hown, Option.map_some]

/-- A name stands for one item in two forests. -/
def Shared (forests : BuildForestMap) (p n name : String) : Prop :=
  ∃ origin, visibleItem forests p name = some origin ∧ visibleItem forests n name = some origin

theorem Shared.samePath (hforest : Clean forests p forest) (hnative : Clean forests n native)
    (h : Shared forests p n name) : SamePath forest native name := by
  obtain ⟨origin, hhere, hthere⟩ := h
  obtain ⟨here, hin, rfl⟩ := hforest.exists_item hhere
  obtain ⟨there, hin', horigin⟩ := hnative.exists_item hthere
  exact ⟨here, there, hin, hin', congrArg (·.config.absolutePath) horigin.symm⟩

/-- The dependencies of an item are the same in all forests. -/
theorem Shared.depOn_iff (hforest : Clean forests p forest) (hnative : Clean forests n native)
    (h : Shared forests p n name) (dep : String) :
    DepOn BuildItem.entry forest.buildItems name dep ↔
      DepOn BuildItem.entry native.buildItems name dep := by
  obtain ⟨origin, hhere, hthere⟩ := h
  obtain ⟨here, hin, -⟩ := hforest.exists_item hhere
  obtain ⟨there, hin', -⟩ := hnative.exists_item hthere
  have hdeps : here.entry.deps = there.entry.deps := by
    rw [hforest.intact.deps_eq name origin here.entry hhere (by simp [itemEntries, hin]),
      hnative.intact.deps_eq name origin there.entry hthere (by simp [itemEntries, hin'])]
  unfold DepOn
  simp only [hin, hin', Option.some_inj, exists_eq_left', hdeps]

/-- Names that both forests know and that are not shadowed stand for one item. -/
theorem Clean.shared (h : AsRead forests) (hapart : Apart forests)
    (hforest : Clean forests p forest) (hnative : Clean forests item.forestRoot native)
    (hitem : forest.buildItems[name]? = some item) (hinherited : item.isLocal = false)
    (hshadowed : ∀ ref, ref ∉ item.shadowedReferences) {ref : String}
    (href : ref ∈ item.getReferences) (hhere : (forest.buildItems[ref]?).isSome)
    (hthere : (native.buildItems[ref]?).isSome) : Shared forests p item.forestRoot ref := by
  obtain ⟨here, hhere⟩ := Option.isSome_iff_exists.mp hhere
  obtain ⟨there, hthere⟩ := Option.isSome_iff_exists.mp hthere
  have hrecord := hforest.records.item name item hitem
  have hne : item.forestRoot ≠ p := by
    intro heq
    rw [hrecord.isLocal_iff.mpr heq] at hinherited
    cases hinherited
  have hpath : here.origin.config.absolutePath = there.origin.config.absolutePath := by
    by_contra hpath
    exact hshadowed ref ((hrecord.shadowed_iff ref).mpr ⟨hne, href, here.origin, there.origin,
      hforest.visible hhere, hnative.visible hthere, hpath⟩)
  have horigin := hapart.origin_eq h (hforest.visible hhere) (hnative.visible hthere) hpath
  exact ⟨here.origin, hforest.visible hhere, horigin ▸ hnative.visible hthere⟩

/-- Where nothing is shadowed, everything that is reached is shared. -/
theorem Clean.reaches_shared (h : AsRead forests) (hapart : Apart forests)
    (hforest : Clean forests p forest) (hnative : Clean forests item.forestRoot native)
    (hitem : forest.buildItems[name]? = some item) (hinherited : item.isLocal = false)
    (hshadowed : ∀ ref, ref ∉ item.shadowedReferences)
    (hstart : Shared forests p item.forestRoot name) {dep : String}
    (hreach : Reaches forest name dep) : Shared forests p item.forestRoot dep := by
  induction hreach with
  | refl => exact hstart
  | tail hreach hdep ih =>
    refine hforest.shared h hapart hnative hitem hinherited hshadowed ?_
      (hforest.sound.known _ _ hdep)
      (hnative.sound.known _ _ ((ih.depOn_iff hforest hnative _).mp hdep))
    unfold BuildItem.getReferences
    exact List.mem_append_left _ (List.mem_append_left _
      ((hforest.sound.mem_expanded name item hitem _).mpr (TransGen.tail' hreach hdep)))

end Inherited

/-- An inherited item that has no shadowed reference is consistent with its native
forest exactly where the plugins it has there are not missing in the forest that
inherits it. -/
theorem validateForests_integrity {forests validated : BuildForestMap} (h : AsRead forests)
    (hapart : Apart forests) {fullIntegrity : Bool}
    (hrun : validateForests fullIntegrity forests = some (validated, .none))
    {p name : String} {forest : BuildForest} {item : BuildItem}
    (hforest : validated[p]? = some forest) (hitem : forest.buildItems[name]? = some item)
    (hinherited : item.isLocal = false) (hshadowed : item.shadowedReferences.isEmpty) :
    ∃ native, validated[item.forestRoot]? = some native ∧
      (Consistent forest native name item ↔ ∀ plugin ∈ itemPlugins forests item.origin,
        (visibleItem forests p plugin).isSome) := by
  obtain ⟨hmem, hclean⟩ := validateForests_clean h hrun
  have hhere := hclean p forest hforest
  have hrecord := hhere.records.item name item hitem
  have hvisible := hhere.visible hitem
  obtain ⟨hroot, hhome⟩ := visible_home h hvisible
  obtain ⟨native, hnative⟩ := exists_of_mem ((hmem _).mpr hroot)
  have hthere := hclean item.forestRoot native hnative
  have hnone : ∀ ref, ref ∉ item.shadowedReferences :=
    TreeSet.isEmpty_iff_forall_not_mem.mp hshadowed
  have hshared : ∀ dep, Reaches forest name dep → Shared forests p item.forestRoot dep :=
    fun dep ↦ hhere.reaches_shared h hapart hthere hitem hinherited hnone
      ⟨item.origin, hvisible, hhome⟩
  have hpluginsKnown : ∀ plugin ∈ item.plugins, (native.buildItems[plugin]?).isSome := by
    obtain ⟨own, hown, horigin⟩ := hthere.exists_item hhome
    have hownRecord := hthere.records.item name own hown
    have hlocal : own.isLocal = true :=
      hownRecord.isLocal_iff.mpr (congrArg ItemOrigin.forestRoot horigin)
    intro plugin hplugin
    refine hthere.plugins_known name own hown hlocal plugin ?_
    rw [hownRecord.plugins, horigin, ← hrecord.plugins]
    exact hplugin
  refine ⟨native, hnative, fun hconsistent plugin hplugin ↦ ?_, fun hmissing ↦ ⟨?_, ?_, ?_⟩⟩
  · rw [← hrecord.plugins] at hplugin
    obtain ⟨found, -, hfound, -⟩ := hconsistent.pluginPath plugin hplugin
    rw [hhere.visible hfound]
    rfl
  · exact reflTransGen_iff_of_agree fun dep hdep ↦
      (hshared dep hdep).depOn_iff hhere hthere
  · exact fun dep hdep ↦ (hshared dep hdep).samePath hhere hthere
  · intro plugin hplugin
    have hknown : (forest.buildItems[plugin]?).isSome := by
      have hseen := hmissing plugin (hrecord.plugins ▸ hplugin)
      rwa [← hhere.isResolved.items plugin, Option.isSome_map] at hseen
    refine (hhere.shared h hapart hthere hitem hinherited hnone ?_ hknown
      (hpluginsKnown plugin hplugin)).samePath hhere hthere
    unfold BuildItem.getReferences
    exact List.mem_append_left _ (List.mem_append_right _ hplugin)

theorem apart_of_toList {forests : BuildForestMap}
    (h : ∀ e ∈ forests.toList, ∀ i ∈ e.2.buildItems.toList, ∀ e' ∈ forests.toList,
      ∀ i' ∈ e'.2.buildItems.toList, i.2.getAbsolutePath = i'.2.getAbsolutePath → e.1 = e'.1) :
    Apart forests := by
  intro p q name own other hown hother hpath
  obtain ⟨forest, hforest, hname⟩ := Option.bind_eq_some_iff.mp hown
  obtain ⟨forest', hforest', hname'⟩ := Option.bind_eq_some_iff.mp hother
  rw [← TreeMap.mem_toList_iff_getElem?_eq_some] at hforest hname hforest' hname'
  exact h (p, forest) hforest (name, own) hname (q, forest') hforest' (name, other) hname' hpath

/-- An item whose tree has a plugin, and a forest that inherits the item and deletes the
plugin. -/
def deletedPlugin : BuildForestMap :=
  let native := readForest "/n" [("t", [])] [("d", "t", []), ("p", "t", []), ("x", "t", ["d"])] []
  let withPlugin := fun (tree : BuildTree) ↦ { tree with plugins := ["p"] }
  .ofList
    [("/n", { native with buildTrees := native.buildTrees.modify "t" withPlugin }),
      ("/f", { readForest "/f" [("u", [])] [] ["/n"] with deletedItems := .ofList ["p"] })]

set_option maxRecDepth 10000 in
theorem deletedPlugin_run : AsRead deletedPlugin ∧ Apart deletedPlugin ∧
    ∃ validated forest native item, validateForests true deletedPlugin = some (validated, .none) ∧
      validated["/f"]? = some forest ∧ forest.buildItems["x"]? = some item ∧
      item.isLocal = false ∧ item.shadowedReferences.isEmpty ∧
      validated[item.forestRoot]? = some native ∧ "p" ∈ item.plugins ∧
      forest.buildItems["p"]? = none := by
  refine ⟨asRead_of_toList ["/n", "/f"] (by decide) (by decide) (by decide),
    apart_of_toList (by decide), ?_⟩
  have hrun : ((validateForests true deletedPlugin).bind fun result ↦
      (result.1["/f"]?).bind fun forest ↦ (forest.buildItems["x"]?).bind fun item ↦
        (result.1[item.forestRoot]?).map fun _ ↦ decide (result.2 = .none ∧ item.isLocal = false ∧
          item.shadowedReferences.isEmpty ∧ "p" ∈ item.plugins ∧
          (forest.buildItems["p"]?).isNone)) = some true := by decide
  obtain ⟨⟨validated, found⟩, hvalidated, hrun⟩ := Option.bind_eq_some_iff.mp hrun
  obtain ⟨forest, hforest, hrun⟩ := Option.bind_eq_some_iff.mp hrun
  obtain ⟨item, hitem, hrun⟩ := Option.bind_eq_some_iff.mp hrun
  obtain ⟨native, hnative, hrun⟩ := Option.map_eq_some_iff.mp hrun
  obtain ⟨rfl, hlocal, hshadowed, hplugin, hnone⟩ := of_decide_eq_true hrun
  exact ⟨validated, forest, native, item, hvalidated, hforest, hitem, hlocal, hshadowed, hnative,
    hplugin, Option.isNone_iff_eq_none.mp hnone⟩

/-- The theorem, for the forest that deletes a plugin. -/
theorem validateForests_integrity_deletedPlugin :
    ∃ forest native item, forest.buildItems["x"]? = some item ∧
      (Consistent forest native "x" item ↔ ∀ plugin ∈ itemPlugins deletedPlugin item.origin,
        (visibleItem deletedPlugin "/f" plugin).isSome) := by
  obtain ⟨hread, hapart, validated, forest, -, item, hrun, hforest, hitem, hlocal, hshadowed, -⟩ :=
    deletedPlugin_run
  obtain ⟨native, -, hiff⟩ :=
    validateForests_integrity hread hapart hrun hforest hitem hlocal hshadowed
  exact ⟨forest, native, item, hitem, hiff⟩

/-- An inherited item without a shadowed reference is not consistent where the forest
that inherits it deletes a plugin, and no error is reported. -/
theorem not_consistent_deletedPlugin : AsRead deletedPlugin ∧ Apart deletedPlugin ∧
    ∃ validated forest native item, validateForests true deletedPlugin = some (validated, .none) ∧
      validated["/f"]? = some forest ∧ forest.buildItems["x"]? = some item ∧
      item.isLocal = false ∧ item.shadowedReferences.isEmpty ∧
      validated[item.forestRoot]? = some native ∧ ¬ Consistent forest native "x" item := by
  obtain ⟨hread, hapart, validated, forest, native, item, hrun, hforest, hitem, hlocal, hshadowed,
    hnative, hplugin, hnone⟩ := deletedPlugin_run
  refine ⟨hread, hapart, validated, forest, native, item, hrun, hforest, hitem, hlocal, hshadowed,
    hnative, fun hconsistent ↦ ?_⟩
  obtain ⟨here, there, hhere, -⟩ := hconsistent.pluginPath "p" hplugin
  rw [hnone] at hhere
  cases hhere

end Abuild.BuildForest
