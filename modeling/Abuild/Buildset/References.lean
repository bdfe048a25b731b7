import Abuild.BuildForest.Integrity
import Abuild.Buildset.Selection

/-!
The report of integrity errors for a build set. It looks up the shadowed references of all
items in the build set, which is closed under dependencies where they are added, but has
the plugins of the expanded items only, and nothing more for these plugins; and where
dependencies are not added it may have neither. Which forests and invocations are safe is
told from what the invocation asks for (`asked`) and from the names that stand for other
items where an item is from (`computeBuildset_references`).
-/

set_option autoImplicit false
set_option relaxedAutoImplicit false

namespace Abuild.Buildset

open BuildForest Saturation
open Std (TreeMap TreeSet)

/-! ### What is asked for -/

section Asked

variable (validated : BuildForestMap) (forest : BuildForest) (o : BuildsetOptions)

/-- The items that an invocation asks for: those that it selects, and those that the rules
bring in for them. -/
def asked : Set String :=
  expanded o forest.buildTrees forest.buildItems (addsDependencies o (cleaning o))
    (closure (buildAlsoRule o forest.buildTrees forest.buildItems)
      {name | Selects o forest.buildTrees forest.buildItems name})

/-- The plugins of the items that are asked for. -/
def askedPlugins : Set String := pluginRule forest.buildItems (asked forest o)

/-- A name stands for another item in the forest than in the one that an item is from. -/
def Masked (item : BuildItem) (ref : String) : Prop :=
  ∃ native here there, validated[item.forestRoot]? = some native ∧
    forest.buildItems[ref]? = some here ∧ native.buildItems[ref]? = some there ∧
    here.getAbsolutePath ≠ there.getAbsolutePath

/-- What an item depends on and its plugins are in a set where their names are masked. -/
def MaskedIn (s : Set String) (item : BuildItem) : Prop :=
  ∀ ref, ref ∈ item.expandedDependencies ∨ ref ∈ item.plugins →
    Masked validated forest item ref → ref ∈ s

/-- Where dependencies are added, plugins are known, and those that only the last pass adds
refer to nothing else under a masked name. -/
def PluginsCovered : Prop :=
  ∀ plugin ∈ askedPlugins forest o, ∃ item, forest.buildItems[plugin]? = some item ∧
    (plugin ∉ asked forest o →
      MaskedIn validated forest (asked forest o ∪ askedPlugins forest o) item)

/-- Where dependencies are not added, three kinds of items may be inherited: the one of the
current directory, its dependencies in the set of this name, and those that are related to
items by traits. What they refer to under masked names is asked for. -/
structure InheritedCovered : Prop where
  current : ForCurrent o → ∀ item, Current o forest.buildItems item →
    MaskedIn validated forest (asked forest o) item
  dependencies : Plain o "deps" → ∀ item, Current o forest.buildItems item →
    ∀ dep ∈ item.expandedDependencies, ∀ other, forest.buildItems[dep]? = some other →
      ∀ plugin ∈ other.plugins, Masked validated forest other plugin → plugin ∈ asked forest o
  related : o.relatedByTraits ≠ [] →
    ∀ name ∈ asked forest o, name ∈ traitsRule o forest.buildItems (asked forest o) →
      ∀ item, forest.buildItems[name]? = some item →
        MaskedIn validated forest (asked forest o) item

/-- What the forests and the invocation have to be like. -/
def ReferencesCovered : Prop :=
  if addsDependencies o (cleaning o) then PluginsCovered validated forest o
  else InheritedCovered validated forest o

variable {validated forest o}

/-- An item that is asked for without dependencies being added is local, or it is of one of
the three kinds. -/
theorem asked_inherited (hadds : addsDependencies o (cleaning o) = false) {name : String}
    {item : BuildItem} (hasked : name ∈ asked forest o)
    (hitem : forest.buildItems[name]? = some item) (hinherited : item.isLocal = false) :
    (ForCurrent o ∧ Current o forest.buildItems item) ∨
      (Plain o "deps" ∧ ∃ current, Current o forest.buildItems current ∧
        name ∈ current.expandedDependencies) ∨
      (o.relatedByTraits ≠ [] ∧ name ∈ traitsRule o forest.buildItems (asked forest o)) := by
  let kinds : Set String := {name | ∀ item, forest.buildItems[name]? = some item →
    item.isLocal = false → (ForCurrent o ∧ Current o forest.buildItems item) ∨
      (Plain o "deps" ∧ ∃ current, Current o forest.buildItems current ∧
        name ∈ current.expandedDependencies) ∨
      (o.relatedByTraits ≠ [] ∧ name ∈ traitsRule o forest.buildItems (asked forest o))}
  have halso : ∀ s, buildAlsoRule o forest.buildTrees forest.buildItems s ⊆ kinds := by
    rintro s name ⟨item, hitem, hlocal, -⟩ item' hitem' hinherited
    obtain rfl := Option.some_inj.mp (hitem.symm.trans hitem')
    rw [hlocal] at hinherited
    cases hinherited
  have hselected : {name | Selects o forest.buildTrees forest.buildItems name} ⊆ kinds := by
    rintro name hselects item' hitem' hinherited
    cases hselects with
    | current item hset hitem =>
      obtain rfl := Option.some_inj.mp (hitem.2.symm.trans hitem')
      exact Or.inl ⟨hset, hitem⟩
    | dependency _ item hset hitem hdep => exact Or.inr (Or.inl ⟨hset, item, hitem, hdep⟩)
    | picked _ item _ _ hitem hlocal _ _ =>
      obtain rfl := Option.some_inj.mp (hitem.symm.trans hitem')
      rw [hlocal] at hinherited
      cases hinherited
  have hrdeps : o.withRdeps = false := by
    unfold addsDependencies at hadds
    rw [Bool.or_eq_false_iff] at hadds
    exact hadds.2
  have hkinds : asked forest o ⊆ kinds := by
    refine expanded_induction (closure_induction hselected fun u _ _ ↦ halso u) fun u hu _ ↦ ?_
    refine Set.union_subset (Set.union_subset (Set.union_subset ?_ (halso u)) ?_) ?_
    · rw [hadds]
      exact Set.empty_subset _
    · rw [hrdeps]
      exact Set.empty_subset _
    · intro name hname item hitem _
      cases htraits : o.relatedByTraits with
      | nil =>
        rw [htraits] at hname
        cases hname
      | cons trait traits =>
        rw [htraits] at hname
        exact Or.inr (Or.inr ⟨List.cons_ne_nil _ _,
          (traitsRule o forest.buildItems).monotone hu hname⟩)
  exact hkinds hasked item hitem hinherited

theorem selects_subset_asked :
    {name | Selects o forest.buildTrees forest.buildItems name} ⊆ asked forest o := by
  have hstart := @subset_closure _ (buildAlsoRule o forest.buildTrees forest.buildItems)
    {name | Selects o forest.buildTrees forest.buildItems name}
  unfold asked
  exact hstart.trans subset_expanded

end Asked

/-! ### The report -/

section Report

variable {o : BuildsetOptions} {buildtrees : BuildTreeMap} {builditems : BuildItemMap}
  {buildset : Buildset}

theorem computeBuildset_eq_some {forest : BuildForest} {fuel : ℕ} {targets : TreeSet String}
    {errors : List ErrorMessage}
    (hrun : computeBuildset o forest.buildTrees forest.buildItems fuel =
      some (buildset, targets, errors)) :
    Faithful forest.buildItems buildset ∧ asked forest o ⊆ known forest.buildItems ∧
      members buildset = asked forest o ∪ used (addsDependencies o (cleaning o))
        (pluginRule forest.buildItems) (asked forest o) := by
  unfold computeBuildset at hrun
  obtain ⟨⟨selected, errors'⟩, hselected, hrun⟩ := Option.bind_eq_some_iff.mp hrun
  obtain ⟨e, he, hrun⟩ := Option.bind_eq_some_iff.mp hrun
  obtain ⟨final, hfinal, hrun⟩ := Option.bind_eq_some_iff.mp hrun
  obtain ⟨rfl, -⟩ := Prod.mk.inj (Option.some_inj.mp hrun)
  obtain ⟨hstart, hselects⟩ := members_selectBuildset hselected
  obtain ⟨hfaithful, hknown, hmembers⟩ := members_expandBuildset hstart he
  obtain ⟨hfinalFaithful, hfinalMembers⟩ := members_addPlugins hfaithful hfinal
  rw [hselects] at hmembers
  have hasked : members e.buildset = asked forest o := hmembers
  rw [hasked] at hknown hfinalMembers
  exact ⟨hfinalFaithful, hknown, hfinalMembers⟩

/-- The report of a faithful build set. -/
theorem isSome_report_iff (h : Faithful builditems buildset) :
    (reportIntegrityErrors buildset).isSome ↔ ∀ name ∈ members buildset,
      ∃ item, builditems[name]? = some item ∧
        ∀ ref ∈ item.shadowedReferences, ref ∈ members buildset ∧ ref ∈ known builditems := by
  have hentry : ∀ (name : String) (item : BuildItem), buildset[name]? = some (some item) ↔
      name ∈ members buildset ∧ builditems[name]? = some item := by
    intro name item
    constructor
    · intro hname
      exact ⟨mem_of_getElem? hname, (h name _ hname).symm⟩
    · rintro ⟨hname, hitem⟩
      obtain ⟨entry, hin⟩ := exists_of_mem (mem_members.mp hname)
      rw [hin, h name entry hin, hitem]
  rw [reportIntegrityErrors_isSome_iff]
  constructor
  · intro hall name hname
    obtain ⟨entry, hin⟩ := exists_of_mem (mem_members.mp hname)
    obtain ⟨item, rfl, hrefs⟩ := hall name entry hin
    refine ⟨item, ((hentry name item).mp hin).2, fun ref href ↦ ?_⟩
    obtain ⟨other, hother⟩ := hrefs ref href
    obtain ⟨hmem, hitem⟩ := (hentry ref other).mp hother
    exact ⟨hmem, mem_of_getElem? hitem⟩
  · intro hall name entry hin
    obtain ⟨item, hitem, hrefs⟩ := hall name (mem_of_getElem? hin)
    refine ⟨item, (h name entry hin).trans hitem, fun ref href ↦ ?_⟩
    obtain ⟨hmem, hknown⟩ := hrefs ref href
    obtain ⟨other, hother⟩ := exists_of_mem (mem_known.mp hknown)
    exact ⟨other, (hentry ref other).mpr ⟨hmem, hother⟩⟩

end Report

/-- The shadowed references of an item are the dependencies and the plugins of which the
names are masked. -/
theorem mem_shadowedReferences_iff {forests validated : BuildForestMap} (h : AsRead forests)
    (hmem : ∀ p, p ∈ validated ↔ p ∈ forests)
    (hclean : ∀ p forest, validated[p]? = some forest → Clean forests p forest)
    {p name : String} {forest : BuildForest} {item : BuildItem}
    (hforest : validated[p]? = some forest) (hitem : forest.buildItems[name]? = some item)
    (ref : String) : ref ∈ item.shadowedReferences ↔
      (ref ∈ item.expandedDependencies ∨ ref ∈ item.plugins) ∧
        Masked validated forest item ref := by
  have hhere := hclean p forest hforest
  have hrecord := hhere.records.item name item hitem
  rw [hrecord.shadowed_iff ref]
  obtain ⟨hroot, hhome⟩ := visible_home h (hhere.visible hitem)
  obtain ⟨native, hnative⟩ := exists_of_mem ((hmem _).mpr hroot)
  constructor
  · rintro ⟨-, hreference, own, other, hown, hother, hpath⟩
    obtain ⟨here, hhere', rfl⟩ := hhere.exists_item hown
    obtain ⟨there, hthere, rfl⟩ := (hclean _ native hnative).exists_item hother
    refine ⟨?_, native, here, there, hnative, hhere', hthere, hpath⟩
    unfold BuildItem.getReferences at hreference
    rw [List.mem_append, List.mem_append, List.mem_singleton, hrecord.itemName] at hreference
    refine hreference.resolve_right ?_
    -- the item itself is the same in both forests
    rintro rfl
    obtain rfl := Option.some_inj.mp (hitem.symm.trans hhere')
    have hsame := Option.some_inj.mp (hother.symm.trans hhome)
    exact hpath (congrArg (·.config.absolutePath) hsame.symm)
  · rintro ⟨hreference, native', here, there, hnative', hhere', hthere, hpath⟩
    refine ⟨?_, ?_, here.origin, there.origin, hhere.visible hhere',
      (hclean _ native' hnative').visible hthere, hpath⟩
    · intro heq
      rw [heq, hforest, Option.some_inj] at hnative'
      rw [← hnative', hhere', Option.some_inj] at hthere
      exact hpath (congrArg BuildItem.getAbsolutePath hthere)
    · unfold BuildItem.getReferences
      exact List.mem_append_left _ (List.mem_append.mpr hreference)

/-- A name that is masked for an item is one for which the item is inherited. -/
theorem Masked.inherited {forests validated : BuildForestMap} {p name ref : String}
    {forest : BuildForest} {item : BuildItem} (hclean : Clean forests p forest)
    (hforest : validated[p]? = some forest) (hitem : forest.buildItems[name]? = some item)
    (h : Masked validated forest item ref) : item.isLocal = false := by
  obtain ⟨native, here, there, hnative, hhere, hthere, hpath⟩ := h
  rw [← Bool.not_eq_true, (hclean.records.item name item hitem).isLocal_iff]
  intro heq
  rw [heq, hforest, Option.some_inj] at hnative
  rw [← hnative, hhere, Option.some_inj] at hthere
  exact hpath (congrArg BuildItem.getAbsolutePath hthere)

/-- Where dependencies are not added, it is enough to look at the three kinds of items that
may be inherited. -/
theorem inheritedCovered_iff {forests validated : BuildForestMap} {p : String}
    {forest : BuildForest} (hclean : Clean forests p forest) (hforest : validated[p]? = some forest)
    {o : BuildsetOptions} (hadds : addsDependencies o (cleaning o) = false) :
    InheritedCovered validated forest o ↔ ∀ name ∈ asked forest o, ∀ item,
      forest.buildItems[name]? = some item → MaskedIn validated forest (asked forest o) item := by
  constructor
  · intro hcovered name hname item hitem ref href hmasked
    rcases asked_inherited hadds hname hitem (hmasked.inherited hclean hforest hitem) with
      ⟨hset, hcurrent⟩ | ⟨hset, current, hcurrent, hdep⟩ | ⟨htraits, hrelated⟩
    · exact hcovered.current hset item hcurrent ref href hmasked
    · rcases href with hreference | hplugin
      · -- a dependency of a dependency of the item of the current directory is its own
        refine selects_subset_asked (.dependency ref current hset hcurrent ?_)
        have hexpanded := hclean.sound.mem_expanded
        exact (hexpanded _ current hcurrent.2 ref).mpr
          (((hexpanded _ current hcurrent.2 name).mp hdep).trans
            ((hexpanded name item hitem ref).mp hreference))
      · exact hcovered.dependencies hset current hcurrent name hdep item hitem ref hplugin hmasked
    · exact hcovered.related htraits name hname hrelated item hitem ref href hmasked
  · intro hall
    refine ⟨fun hset item hcurrent ↦ ?_, fun hset item hcurrent dep hdep other hother ↦ ?_,
      fun _ name hname _ ↦ hall name hname⟩
    · exact hall _ (selects_subset_asked (.current item hset hcurrent)) item hcurrent.2
    · intro plugin hplugin
      exact hall dep (selects_subset_asked (.dependency dep item hset hcurrent hdep)) other hother
        plugin (Or.inr hplugin)

/-- After a validation that reports nothing, the shadowed references of the items in the
build set are in it, and the report meets no null pointer, exactly where the forests and the
invocation are such that references are covered. -/
theorem computeBuildset_references {forests validated : BuildForestMap} (h : AsRead forests)
    {fullIntegrity : Bool}
    (hvalidate : validateForests fullIntegrity forests = some (validated, .none))
    {p : String} {forest : BuildForest} (hforest : validated[p]? = some forest)
    {o : BuildsetOptions} {fuel : ℕ} {buildset : Buildset} {targets : TreeSet String}
    {errors : List ErrorMessage}
    (hrun : computeBuildset o forest.buildTrees forest.buildItems fuel =
      some (buildset, targets, errors)) :
    ((∀ (name : String) (item : BuildItem), buildset[name]? = some (some item) →
        ∀ ref ∈ item.shadowedReferences, ref ∈ buildset) ∧
      (reportIntegrityErrors buildset).isSome) ↔ ReferencesCovered validated forest o := by
  obtain ⟨hmem, hclean⟩ := validateForests_clean h hvalidate
  have hhere := hclean p forest hforest
  obtain ⟨hfaithful, hknown, hmembers⟩ := computeBuildset_eq_some hrun
  have hkeys : (reportIntegrityErrors buildset).isSome → ∀ (name : String) (item : BuildItem),
      buildset[name]? = some (some item) → ∀ ref ∈ item.shadowedReferences, ref ∈ buildset := by
    intro hsome name item hin ref href
    obtain ⟨item', heq, hrefs⟩ := reportIntegrityErrors_isSome_iff.mp hsome name _ hin
    obtain rfl := Option.some_inj.mp heq
    obtain ⟨other, hother⟩ := hrefs ref href
    exact mem_of_getElem? hother
  rw [and_iff_right_of_imp hkeys, isSome_report_iff hfaithful]
  have hshadowed : ∀ {name : String} {item : BuildItem}, forest.buildItems[name]? = some item →
      ∀ ref, ref ∈ item.shadowedReferences ↔
        (ref ∈ item.expandedDependencies ∨ ref ∈ item.plugins) ∧
          Masked validated forest item ref :=
    fun hitem ↦ mem_shadowedReferences_iff h hmem hclean hforest hitem
  -- the references that are looked up are known, so that they only have to be members
  have hlookups : ∀ {name : String} {item : BuildItem}, forest.buildItems[name]? = some item →
      ((∀ ref ∈ item.shadowedReferences, ref ∈ members buildset ∧ ref ∈ known forest.buildItems) ↔
        MaskedIn validated forest (members buildset) item) := by
    intro name item hitem
    constructor
    · intro hall ref href hmasked
      exact (hall ref ((hshadowed hitem ref).mpr ⟨href, hmasked⟩)).1
    · intro hin ref href
      obtain ⟨hreference, hmasked⟩ := (hshadowed hitem ref).mp href
      obtain ⟨native, here, there, -, hother, -⟩ := id hmasked
      exact ⟨hin ref hreference hmasked, mem_of_getElem? hother⟩
  unfold ReferencesCovered
  cases hadds : addsDependencies o (cleaning o) with
  | true =>
    rw [hadds, used_true] at hmembers
    rw [if_pos rfl]
    constructor
    · intro hall plugin hplugin
      obtain ⟨item, hitem, hrefs⟩ := hall plugin (hmembers ▸ Or.inr hplugin)
      refine ⟨item, hitem, fun _ ↦ ?_⟩
      have hin := (hlookups hitem).mp hrefs
      rwa [hmembers] at hin
    · intro hplugins name hname
      by_cases hasked : name ∈ asked forest o
      · obtain ⟨item, hitem⟩ := exists_of_mem (mem_known.mp (hknown hasked))
        refine ⟨item, hitem, (hlookups hitem).mpr fun ref href hmasked ↦ ?_⟩
        rw [hmembers]
        rcases href with hdep | hplugin
        · have hclosed := (@rules_subset_expanded o forest.buildTrees forest.buildItems true
            (closure (buildAlsoRule o forest.buildTrees forest.buildItems)
              {name | Selects o forest.buildTrees forest.buildItems name})).1
          refine Or.inl ?_
          unfold asked at hasked ⊢
          rw [hadds] at hasked ⊢
          exact hclosed (Or.inl ⟨name, hasked, item, hitem, hdep⟩)
        · exact Or.inr ⟨name, hasked, item, hitem, hplugin⟩
      · rw [hmembers] at hname
        obtain ⟨item, hitem, hmasked⟩ := hplugins name (hname.resolve_left hasked)
        refine ⟨item, hitem, (hlookups hitem).mpr ?_⟩
        rw [hmembers]
        exact hmasked hasked
  | false =>
    rw [hadds, used_false, Set.union_empty] at hmembers
    rw [if_neg Bool.false_ne_true, inheritedCovered_iff hhere hforest hadds, hmembers]
    rw [hmembers] at hlookups
    constructor
    · intro hall name hname item hitem
      obtain ⟨item', hitem', hrefs⟩ := hall name hname
      obtain rfl := Option.some_inj.mp (hitem.symm.trans hitem')
      exact (hlookups hitem).mp hrefs
    · intro hcovered name hname
      obtain ⟨item, hitem⟩ := exists_of_mem (mem_known.mp (hknown hname))
      exact ⟨item, hitem, (hlookups hitem).mpr (hcovered name hname item hitem)⟩

/-- An item with a dependency on an inherited item, whose plugin has the name of an item
in the forest that inherits it. -/
def shadowedPlugin : BuildForestMap :=
  let native := readForest "/n" [("t", [])] [("q", "t", []), ("x", "t", [])] []
  let withPlugin := fun (tree : BuildTree) ↦ { tree with plugins := ["q"] }
  .ofList
    [("/n", { native with buildTrees := native.buildTrees.modify "t" withPlugin }),
      ("/f", readForest "/f" [("u", ["t"])] [("q", "u", []), ("y", "u", ["x"])] ["/n"])]

/-- The clean set `deps`, in the directory of the item. -/
def cleanDeps : BuildsetOptions where
  buildsetName := ""
  cleansetName := "deps"
  buildsetNamedItems := ∅
  buildsetPattern := none
  onlyWithTraits := []
  relatedByTraits := []
  withRdeps := false
  repeatExpansion := false
  applyTargetsToDeps := false
  specialTarget := ""
  localTree := "u"
  thisName := "y"
  currentDirectory := "/f/y"

set_option maxRecDepth 10000 in
theorem shadowedPlugin_run : AsRead shadowedPlugin ∧
    ∃ validated forest buildset targets errors item,
      validateForests false shadowedPlugin = some (validated, .none) ∧
      validated["/f"]? = some forest ∧
      computeBuildset cleanDeps forest.buildTrees forest.buildItems 2 =
        some (buildset, targets, errors) ∧
      buildset["x"]? = some (some item) ∧ "q" ∈ item.shadowedReferences ∧ "q" ∉ buildset ∧
      reportIntegrityErrors buildset = none := by
  refine ⟨asRead_of_toList ["/n", "/f"] (by decide) (by decide) (by decide), ?_⟩
  have hrun : ((validateForests false shadowedPlugin).bind fun result ↦
      (result.1["/f"]?).bind fun forest ↦
        (computeBuildset cleanDeps forest.buildTrees forest.buildItems 2).bind
          fun chosen ↦ (chosen.1["x"]?).bind fun entry ↦ entry.map fun item ↦
            decide (result.2 = .none ∧ "q" ∈ item.shadowedReferences ∧ "q" ∉ chosen.1 ∧
              (reportIntegrityErrors chosen.1).isNone)) = some true := by decide
  obtain ⟨⟨validated, found⟩, hvalidated, hrun⟩ := Option.bind_eq_some_iff.mp hrun
  obtain ⟨forest, hforest, hrun⟩ := Option.bind_eq_some_iff.mp hrun
  obtain ⟨⟨buildset, targets, errors⟩, hbuildset, hrun⟩ := Option.bind_eq_some_iff.mp hrun
  obtain ⟨entry, hentry, hrun⟩ := Option.bind_eq_some_iff.mp hrun
  obtain ⟨item, rfl, hfound⟩ := Option.map_eq_some_iff.mp hrun
  obtain ⟨rfl, hshadowed, habsent, hnone⟩ := of_decide_eq_true hfound
  exact ⟨validated, forest, buildset, targets, errors, item, hvalidated, hforest, hbuildset,
    hentry, hshadowed, habsent, Option.isNone_iff_eq_none.mp hnone⟩

/-- The theorem, for the clean set that does not cover the plugin. -/
theorem computeBuildset_references_shadowedPlugin :
    ∃ validated forest, validateForests false shadowedPlugin = some (validated, .none) ∧
      validated["/f"]? = some forest ∧ ¬ ReferencesCovered validated forest cleanDeps := by
  obtain ⟨hread, validated, forest, buildset, targets, errors, item, hvalidated, hforest, hrun, -,
    -, -, hnone⟩ := shadowedPlugin_run
  have hiff := computeBuildset_references hread hvalidated hforest hrun
  refine ⟨validated, forest, hvalidated, hforest, fun hcovered ↦ ?_⟩
  have hsome := (hiff.mpr hcovered).2
  rw [hnone] at hsome
  cases hsome

/-- The report uses a null pointer where a shadowed reference of an item in the build set is
not in the build set. -/
theorem not_references_shadowedPlugin : AsRead shadowedPlugin ∧
    ∃ validated forest buildset targets errors,
      validateForests false shadowedPlugin = some (validated, .none) ∧
      validated["/f"]? = some forest ∧
      computeBuildset cleanDeps forest.buildTrees forest.buildItems 2 =
        some (buildset, targets, errors) ∧
      (¬ ∀ (name : String) (item : BuildItem), buildset[name]? = some (some item) →
        ∀ ref ∈ item.shadowedReferences, ref ∈ buildset) ∧
      reportIntegrityErrors buildset = none := by
  obtain ⟨hread, validated, forest, buildset, targets, errors, item, hvalidated, hforest, hrun,
    hitem, hshadowed, habsent, hnone⟩ := shadowedPlugin_run
  refine ⟨hread, validated, forest, buildset, targets, errors, hvalidated, hforest, hrun, ?_, hnone⟩
  intro hall
  exact habsent (hall "x" item hitem "q" hshadowed)

end Abuild.Buildset
