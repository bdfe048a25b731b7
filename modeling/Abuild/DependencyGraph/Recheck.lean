import Abuild.DependencyGraph.Errors
import Abuild.DependencyGraph.IndependentSets
import Abuild.Library.Fallible

/-!
Graphs that are added to after a check, and checked again. A check sorts anew, but it appends
to the errors and to the reverse dependencies that there are. So the answers are those of a
new graph unless an earlier check has seen a dependency (`recheck_same_iff`).
-/

set_option autoImplicit false
set_option relaxedAutoImplicit false

namespace Abuild.DependencyGraph

open Std (TreeMap)
open DepthFirst Relation

/-! ### Maps with the same entries -/

section Congr

variable {d d' : ItemMap}

theorem addRoot_congr (h : d.Equiv d') : (addRoot d).Equiv (addRoot d') := by
  have hinsert := h.insert "" []
  unfold addRoot
  dsimp only
  rw [hinsert.keys_eq]
  exact hinsert.insert "" _

theorem searchFrom_congr (h : d.Equiv d') : searchFrom d = searchFrom d' := by
  have hnext : next d = next d' := funext fun _ ↦ h.getElem?_eq
  funext item
  unfold searchFrom
  rw [hnext, h.size_eq]

theorem sortedItems_congr (h : d.Equiv d') : sortedItems d = sortedItems d' := by
  unfold sortedItems
  rw [searchFrom_congr (addRoot_congr h)]

theorem foundEvents_congr (h : d.Equiv d') : foundEvents d = foundEvents d' := by
  unfold foundEvents eventsFrom
  rw [searchFrom_congr (addRoot_congr h), (addRoot_congr h).keys_eq]

theorem DependsOn.congr (h : d.Equiv d') : DependsOn d = DependsOn d' :=
  dependsOn_congr fun _ ↦ h.getElem?_eq

theorem erase_addRoot_equiv (h : "" ∉ d) : ((addRoot d).erase "").Equiv d :=
  TreeMap.Equiv.of_forall_constGet?_eq (getElem?_erase_addRoot h)

end Congr

/-! ### The reverse dependencies -/

/-- The items that depend on an item, each as often as it says so. -/
def reversesOf (table : List (ItemType × ItemList)) (a : ItemType) : ItemList :=
  table.flatMap fun row ↦ List.replicate (row.2.count a) row.1

theorem getD_reverseItem (reverse : ItemMap) (item : ItemType) (deps : ItemList) (a : ItemType) :
    (reverseItem reverse item deps).getD a [] =
      reverse.getD a [] ++ List.replicate (deps.count a) item := by
  unfold reverseItem
  induction deps generalizing reverse with
  | nil => exact (List.append_nil _).symm
  | cons dep deps ih =>
    rw [List.foldl_cons, ih, TreeMap.getD_insert]
    by_cases ha : dep = a
    · subst ha
      rw [if_pos Std.ReflCmp.compare_self, List.count_cons_self, List.append_assoc]
      rfl
    · rw [if_neg fun heq ↦ ha (compare_eq_iff_eq.mp heq), List.count_cons_of_ne ha]

theorem getD_foldl_reverseItem (table : List (ItemType × ItemList)) (reverse : ItemMap)
    (a : ItemType) :
    (table.foldl (fun reverse (x : ItemType × ItemList) ↦ reverseItem reverse x.1 x.2)
      reverse).getD a [] = reverse.getD a [] ++ reversesOf table a := by
  induction table generalizing reverse with
  | nil => exact (List.append_nil _).symm
  | cons row table ih =>
    rw [List.foldl_cons, ih, getD_reverseItem, List.append_assoc]
    rfl

theorem mem_reverseItem (reverse : ItemMap) (item : ItemType) (deps : ItemList) (a : ItemType) :
    a ∈ reverseItem reverse item deps ↔ a ∈ reverse ∨ a ∈ deps := by
  unfold reverseItem
  induction deps generalizing reverse with
  | nil => simp
  | cons dep deps ih =>
    rw [List.foldl_cons, ih, TreeMap.mem_insert, compare_eq_iff_eq, List.mem_cons]
    tauto

theorem mem_foldl_reverseItem_iff (table : List (ItemType × ItemList)) (reverse : ItemMap)
    (a : ItemType) :
    a ∈ table.foldl (fun reverse (x : ItemType × ItemList) ↦ reverseItem reverse x.1 x.2) reverse ↔
      a ∈ reverse ∨ ∃ row ∈ table, a ∈ row.2 := by
  induction table generalizing reverse with
  | nil => simp
  | cons row table ih =>
    rw [List.foldl_cons, ih, mem_reverseItem]
    simp [or_assoc]

theorem mem_reversesOf {table : List (ItemType × ItemList)} {a b : ItemType} :
    b ∈ reversesOf table a ↔ ∃ deps, (b, deps) ∈ table ∧ a ∈ deps := by
  unfold reversesOf
  rw [List.mem_flatMap]
  constructor
  · rintro ⟨⟨item, deps⟩, hrow, hb⟩
    obtain ⟨hcount, rfl⟩ := List.mem_replicate.mp hb
    exact ⟨deps, hrow, List.count_pos_iff.mp (Nat.pos_of_ne_zero hcount)⟩
  · rintro ⟨deps, hrow, ha⟩
    refine ⟨(b, deps), hrow, List.mem_replicate.mpr ⟨?_, rfl⟩⟩
    exact (List.count_pos_iff.mpr ha).ne'

theorem mem_reversesOf_toList {d : ItemMap} {a b : ItemType} :
    b ∈ reversesOf d.toList a ↔ DependsOn d b a := by
  rw [mem_reversesOf]
  unfold DependsOn
  rw [TreeMap.getD_eq_getD_getElem?]
  simp only [TreeMap.mem_toList_iff_getElem?_eq_some]
  cases d[b]? <;> simp

/-! ### What a check leaves of a graph -/

/-- A check of `g`, by the entries of its tables. -/
structure Rechecked (g g' : DependencyGraph) : Prop where
  dependencies : g'.dependencies.Equiv g.dependencies
  sorted : ∀ a : ItemType, g'.sortedDependencies[a]? =
    if a ∈ g.dependencies then some (searchFrom (addRoot g.dependencies) a).result
    else if a = "" then none else g.sortedDependencies[a]?
  inOrder : g'.inOrder = sortedItems g.dependencies
  itemOrder : ∀ a : ItemType, g'.itemOrder[a]? =
    if a ∈ g.dependencies then some ((sortedItems g.dependencies).idxOf a + 1)
    else g.itemOrder[a]?
  reverse : ∀ a, g'.reverseDependencies.getD a [] =
    g.reverseDependencies.getD a [] ++ reversesOf g.dependencies.toList a
  mem_reverse : ∀ a, a ∈ g'.reverseDependencies ↔
    a ∈ g.reverseDependencies ∨ ∃ b, DependsOn g.dependencies b a
  unknowns : ∀ a, g'.unknowns.getD a [] =
    g.unknowns.getD a [] ++ dependenciesOf (reportedUnknowns (foundEvents g.dependencies)) a
  cycles : g'.cycles = g.cycles ++ reportedCycles (foundEvents g.dependencies)
  independentSets : g'.independentSets = g.independentSets
  graphState : g'.graphState =
    if g'.unknowns.isEmpty ∧ g'.cycles.isEmpty then .ready else .error

theorem check_rechecked {g : DependencyGraph} (hproper : Proper g.dependencies)
    (hinit : g.graphState = .init) :
    ∃ g', g.check = some (decide (g'.graphState = .ready), g') ∧ Rechecked g g' := by
  obtain ⟨sorted, report, g', hcheck, hsorted, hevents, heq⟩ := check_eq hproper hinit
  have hrecorded := recorded_of_foldlM _ hevents
  have hequiv := erase_addRoot_equiv hproper.item_ne
  have hroot : ∀ a, a ∈ addRoot g.dependencies ↔ a = "" ∨ a ∈ g.dependencies :=
    fun a ↦ mem_addRoot
  obtain ⟨inOrder, hresult, hnodup, hmem, -⟩ := root_searched hproper
  have hitems : sortedItems g.dependencies = inOrder := by
    unfold sortedItems
    rw [hresult, List.dropLast_concat]
  refine ⟨g', hcheck, ?_⟩
  subst heq
  refine ⟨hequiv, fun a ↦ ?_, rfl, fun a ↦ ?_, fun a ↦ ?_, fun a ↦ ?_, hrecorded.unknowns,
    hrecorded.cycles, rfl, rfl⟩
  · show (sorted.erase "")[a]? = _
    rw [TreeMap.getElem?_erase, hsorted]
    by_cases ha : a = ""
    · subst ha
      rw [if_pos Std.ReflCmp.compare_self, if_neg hproper.item_ne, if_pos rfl]
    · rw [if_neg fun hcompare ↦ ha (compare_eq_iff_eq.mp hcompare).symm, if_neg ha]
      exact if_congr ((hroot a).trans (or_iff_right ha)) rfl rfl
  · show (orderItems g.itemOrder (sortedItems g.dependencies))[a]? = _
    rw [hitems, getElem?_orderItems _ hnodup]
    exact if_congr (hmem a) rfl rfl
  · refine (getD_foldl_reverseItem _ _ a).trans ?_
    rw [hequiv.toList_eq]
  · refine (mem_foldl_reverseItem_iff _ _ a).trans ?_
    rw [hequiv.toList_eq]
    refine or_congr_right ⟨?_, ?_⟩
    · rintro ⟨⟨b, deps⟩, hrow, ha⟩
      exact ⟨b, mem_reversesOf_toList.mp (mem_reversesOf.mpr ⟨deps, hrow, ha⟩)⟩
    · rintro ⟨b, hb⟩
      obtain ⟨deps, hrow, ha⟩ := mem_reversesOf.mp (mem_reversesOf_toList.mpr hb)
      exact ⟨(b, deps), hrow, ha⟩

/-! ### The answers of a graph -/

/-- Two graphs answer every query alike. -/
structure SameAnswers (g g' : DependencyGraph) : Prop where
  checked : g.checked = g'.checked
  directDependencies : ∀ item, g.getDirectDependencies item = g'.getDirectDependencies item
  sortedDependencies : ∀ item, g.getSortedDependencies item = g'.getSortedDependencies item
  reverseDependencies : ∀ item, g.getReverseDependencies item = g'.getReverseDependencies item
  sortedGraph : g.getSortedGraph = g'.getSortedGraph
  compareItems : ∀ i1 i2, g.compareItems i1 i2 = g'.compareItems i1 i2
  independentSets : g.getIndependentSets.map Prod.fst = g'.getIndependentSets.map Prod.fst
  unknowns : ∀ item : ItemType, g.getErrors.map (·.1[item]?) = g'.getErrors.map (·.1[item]?)
  cycles : g.getErrors.map Prod.snd = g'.getErrors.map Prod.snd

/-- There are errors, or reverse dependencies, from before. -/
def Stale (g : DependencyGraph) : Prop :=
  (∃ a, g.unknowns.getD a [] ≠ []) ∨ g.cycles ≠ [] ∨ ∃ a, g.reverseDependencies.getD a [] ≠ []

/-- What all calls keep. -/
structure Kept (g : DependencyGraph) : Prop where
  wf : Wf g
  sorted : ∀ a : ItemType, a ∉ g.dependencies → g.sortedDependencies[a]? = none
  itemOrder : ∀ a : ItemType, a ∉ g.dependencies → g.itemOrder[a]? = none
  independentSets : g.independentSets = []
  reverse_nil : ∀ a : ItemType, g.reverseDependencies[a]? = some [] → a ∈ g.dependencies
  reverse_unknown : ∀ a, a ∉ g.dependencies → g.reverseDependencies.getD a [] ≠ [] →
    ∃ b, g.unknowns.getD b [] ≠ []

/-- A map without empty lists is told by its lists. -/
theorem getElem?_eq_of_getD {m m' : ItemMap} {a : ItemType} (h : m.getD a [] = m'.getD a [])
    (hm : m[a]? = some [] ↔ m'[a]? = some []) : m[a]? = m'[a]? := by
  rw [TreeMap.getD_eq_getD_getElem?, TreeMap.getD_eq_getD_getElem?] at h
  cases hma : m[a]? with
  | none =>
    cases hma' : m'[a]? with
    | none => rfl
    | some l =>
      rw [hma, hma'] at h
      obtain rfl : [] = l := h
      rw [hm.mpr hma'] at hma
      cases hma
  | some l =>
    cases hma' : m'[a]? with
    | none =>
      rw [hma, hma'] at h
      obtain rfl : l = [] := h
      rw [hm.mp hma] at hma'
      cases hma'
    | some l' =>
      rw [hma, hma'] at h
      exact congrArg some h

section Answers

variable {g g' g₀ g₀' : DependencyGraph} {result result₀ : Bool}

theorem graphState_of_check (hinit : g.graphState = .init)
    (h : g.check = some (result, g')) (hproper : Proper g.dependencies) :
    Rechecked g g' ∧ g'.graphState ≠ .init ∧ result = decide (g'.graphState = .ready) := by
  obtain ⟨g'', hcheck, hrechecked⟩ := check_rechecked hproper hinit
  obtain ⟨rfl, rfl⟩ := Prod.mk.inj (Option.some_inj.mp (hcheck.symm.trans h))
  refine ⟨hrechecked, ?_, rfl⟩
  rw [hrechecked.graphState]
  split_ifs <;> exact GraphState.noConfusion

theorem assertChecked_of_ne_init (h : g.graphState ≠ .init) : g.assertChecked true = some () :=
  if_pos (decide_eq_true h).symm

theorem getErrors_of_ne_init (h : g.graphState ≠ .init) :
    g.getErrors = some (g.unknowns, g.cycles) := by
  unfold getErrors
  rw [assertChecked_of_ne_init h]
  rfl

theorem getReverseDependencies_of_ne_init (h : g.graphState ≠ .init) (item : ItemType) :
    g.getReverseDependencies item = g.reverseDependencies[item]? := by
  unfold getReverseDependencies
  rw [assertChecked_of_ne_init h]
  rfl

/-- Graphs with the same tables answer alike. -/
theorem sameAnswers_of_tables (hstate : g.graphState = g₀.graphState)
    (hne : g.graphState ≠ .init) (hdependencies : g.dependencies.Equiv g₀.dependencies)
    (hsorted : ∀ a : ItemType, g.sortedDependencies[a]? = g₀.sortedDependencies[a]?)
    (hreverse : ∀ a : ItemType, g.reverseDependencies[a]? = g₀.reverseDependencies[a]?)
    (hinOrder : g.inOrder = g₀.inOrder)
    (hitemOrder : ∀ a : ItemType, g.itemOrder[a]? = g₀.itemOrder[a]?)
    (hsets : g.independentSets = g₀.independentSets)
    (hunknowns : ∀ a : ItemType, g.unknowns[a]? = g₀.unknowns[a]?)
    (hcycles : g.cycles = g₀.cycles) : SameAnswers g g₀ := by
  have hassert : ∀ val, g.assertChecked val = g₀.assertChecked val := by
    intro val
    unfold assertChecked
    rw [hstate]
  have hdirect : ∀ item, g.getDirectDependencies item = g₀.getDirectDependencies item := by
    intro item
    unfold getDirectDependencies
    rw [hassert, hdependencies.getElem?_eq]
  have hrdeps : ∀ item, g.getReverseDependencies item = g₀.getReverseDependencies item := by
    intro item
    unfold getReverseDependencies
    rw [hassert, hreverse]
  have hcompare : ∀ i1 i2, g.compareItems i1 i2 = g₀.compareItems i1 i2 := by
    intro i1 i2
    unfold DependencyGraph.compareItems
    rw [hassert, hitemOrder, hitemOrder]
  have hadjacent : g.adjacentNodes = g₀.adjacentNodes := by
    funext node
    unfold adjacentNodes
    rw [hdirect, hrdeps]
  have hassign : ∀ (set turns : ℕ) (nodes : ItemList) (numbers : TreeMap ItemType ℕ),
      g.assignSet set turns nodes numbers = g₀.assignSet set turns nodes numbers := by
    intro set turns
    induction turns with
    | zero => exact fun nodes numbers ↦ by cases nodes <;> rfl
    | succ turns ih =>
      intro nodes numbers
      cases nodes with
      | nil => rfl
      | cons node nodes =>
        unfold assignSet
        simp only [ih, hadjacent]
  have hless : g.itemLess = g₀.itemLess := by
    funext i1 i2
    unfold itemLess
    rw [hcompare]
  have hcompute : g.computeIndependentSets = g₀.computeIndependentSets := by
    unfold computeIndependentSets assignSets turnLimit
    simp only [hassign, hinOrder, hadjacent, hless]
  refine ⟨?_, hdirect, fun item ↦ ?_, hrdeps, ?_, hcompare, ?_, fun item ↦ ?_, ?_⟩
  · unfold DependencyGraph.checked
    rw [hassert, hstate]
  · unfold getSortedDependencies
    rw [hassert, hsorted]
  · unfold getSortedGraph
    rw [hassert, hinOrder]
  · unfold getIndependentSets
    rw [hstate, hsets, hcompute]
    split_ifs
    · rfl
    · rfl
    · cases g₀.computeIndependentSets <;> rfl
  · rw [getErrors_of_ne_init hne, getErrors_of_ne_init (hstate ▸ hne)]
    exact congrArg some (hunknowns item)
  · rw [getErrors_of_ne_init hne, getErrors_of_ne_init (hstate ▸ hne)]
    exact congrArg some hcycles

theorem Rechecked.mem_iff (h : Rechecked g g') {a : ItemType} :
    a ∈ g'.dependencies ↔ a ∈ g.dependencies := h.dependencies.mem_iff

/-- A dependency on an item that does not exist is reported. -/
theorem exists_unknown (hproper : Proper g.dependencies) {a b : ItemType}
    (hab : DependsOn g.dependencies a b) (hb : b ∉ g.dependencies) :
    ∃ c, dependenciesOf (reportedUnknowns (foundEvents g.dependencies)) c ≠ [] := by
  have hfound : (a, b) ∈ (foundEvents g.dependencies).filterMap unknownOf :=
    (mem_filterMap_unknownOf hproper).mpr ⟨hab, hb⟩
  obtain ⟨p, hp, -⟩ := List.mem_map.mp (FirstBy.mem_map_firstBy.mpr
    (List.mem_map_of_mem (f := unknownString) hfound))
  exact ⟨p.1, List.ne_nil_of_mem (mem_dependenciesOf.mpr hp)⟩

theorem getD_ne_nil_of_mem {m : ItemMap} {a : ItemType} (h : a ∈ m) (hne : m[a]? ≠ some []) :
    m.getD a [] ≠ [] := by
  obtain ⟨l, hl⟩ := Option.isSome_iff_exists.mp (TreeMap.mem_iff_isSome_getElem?.mp h)
  rw [TreeMap.getD_eq_getD_getElem?, hl]
  rintro rfl
  exact hne hl

theorem Kept.check (h : Kept g) (hinit : g.graphState = .init)
    (hcheck : g.check = some (result, g')) : Kept g' := by
  obtain ⟨hrechecked, -, -⟩ := graphState_of_check hinit hcheck h.wf.proper
  obtain ⟨result', g'', hcheck', -, hwf, -⟩ := check_spec h.wf hinit
  obtain ⟨-, rfl⟩ := Prod.mk.inj (Option.some_inj.mp (hcheck'.symm.trans hcheck))
  have hnot : ∀ {a}, a ∉ g''.dependencies → a ∉ g.dependencies :=
    fun ha hmem ↦ ha (hrechecked.mem_iff.mpr hmem)
  refine ⟨hwf, fun a ha ↦ ?_, fun a ha ↦ ?_, ?_, fun a ha ↦ ?_, fun a ha hreverse ↦ ?_⟩
  · rw [hrechecked.sorted, if_neg (hnot ha)]
    by_cases hempty : a = ""
    · rw [if_pos hempty]
    · rw [if_neg hempty, h.sorted a (hnot ha)]
  · rw [hrechecked.itemOrder, if_neg (hnot ha), h.itemOrder a (hnot ha)]
  · rw [hrechecked.independentSets, h.independentSets]
  · have hlist := hrechecked.reverse a
    rw [TreeMap.getD_eq_getD_getElem?, ha] at hlist
    obtain ⟨hold, hnew⟩ := List.append_eq_nil_iff.mp hlist.symm
    have hmem : a ∈ g''.reverseDependencies := by
      rw [TreeMap.mem_iff_isSome_getElem?, ha]
      rfl
    refine hrechecked.mem_iff.mpr ?_
    rcases (hrechecked.mem_reverse a).mp hmem with hmem | ⟨b, hb⟩
    · by_contra hnone
      exact getD_ne_nil_of_mem hmem (fun hnil ↦ hnone (h.reverse_nil a hnil)) hold
    · rw [← mem_reversesOf_toList, hnew] at hb
      cases hb
  · rw [hrechecked.reverse] at hreverse
    rcases not_and_or.mp (fun hboth ↦ hreverse (List.append_eq_nil_iff.mpr hboth)) with hold | hnew
    · obtain ⟨b, hb⟩ := h.reverse_unknown a (hnot ha) hold
      refine ⟨b, ?_⟩
      rw [hrechecked.unknowns]
      exact List.append_ne_nil_of_left_ne_nil hb _
    · obtain ⟨b, hb⟩ := List.exists_mem_of_ne_nil _ hnew
      obtain ⟨c, hc⟩ := exists_unknown h.wf.proper (mem_reversesOf_toList.mp hb) (hnot ha)
      refine ⟨c, ?_⟩
      rw [hrechecked.unknowns]
      exact List.append_ne_nil_of_right_ne_nil _ hc

theorem Kept.add (h : Kept g) {addition : Addition} (hadd : g.add addition = some g') :
    Kept g' := by
  obtain ⟨hwf, -⟩ := h.wf.add hadd
  cases addition with
  | addItem item =>
    obtain ⟨hmem, -, rfl⟩ := addItem_spec hadd
    have hnot : ∀ {a}, a ∉ g.dependencies.insert item [] → a ∉ g.dependencies ∧ item ≠ a :=
      fun ha ↦ ⟨fun hmem ↦ ha (TreeMap.mem_insert.mpr (Or.inr hmem)),
        fun heq ↦ ha (TreeMap.mem_insert.mpr (Or.inl (compare_eq_iff_eq.mpr heq)))⟩
    refine ⟨hwf, fun a ha ↦ h.sorted a (hnot ha).1, fun a ha ↦ h.itemOrder a (hnot ha).1,
      h.independentSets, fun a ha ↦ ?_, fun a ha hreverse ↦ ?_⟩
    · change (g.reverseDependencies.insert item [])[a]? = some [] at ha
      show a ∈ g.dependencies.insert item []
      rw [TreeMap.getElem?_insert] at ha
      rw [TreeMap.mem_insert]
      by_cases hcompare : compare item a = .eq
      · exact Or.inl hcompare
      · rw [if_neg hcompare] at ha
        exact Or.inr (h.reverse_nil a ha)
    · change (g.reverseDependencies.insert item []).getD a [] ≠ [] at hreverse
      obtain ⟨hmem, hne⟩ := hnot ha
      rw [TreeMap.getD_insert, if_neg fun hcompare ↦ hne (compare_eq_iff_eq.mp hcompare)]
        at hreverse
      exact h.reverse_unknown a hmem hreverse
  | addDependency item dep =>
    obtain ⟨hmem, -, rfl⟩ := addDependency_spec hadd
    have hiff : ∀ a, a ∈ g.dependencies.insert item (g.dependencies.getD item [] ++ [dep]) ↔
        a ∈ g.dependencies := by
      intro a
      rw [TreeMap.mem_insert, compare_eq_iff_eq]
      exact or_iff_right_of_imp fun heq ↦ heq ▸ hmem
    refine ⟨hwf, fun a ha ↦ ?_, fun a ha ↦ ?_, h.independentSets, fun a ha ↦ ?_, fun a ha ↦ ?_⟩
    · exact h.sorted a fun hmem ↦ ha ((hiff a).mpr hmem)
    · exact h.itemOrder a fun hmem ↦ ha ((hiff a).mpr hmem)
    · exact (hiff a).mpr (h.reverse_nil a ha)
    · exact h.reverse_unknown a fun hmem ↦ ha ((hiff a).mpr hmem)

theorem kept_new : Kept new where
  wf := wf_new
  sorted := fun _ _ ↦ TreeMap.getElem?_emptyc
  itemOrder := fun _ _ ↦ TreeMap.getElem?_emptyc
  independentSets := rfl
  reverse_nil := fun a ha ↦ by
    rw [show new.reverseDependencies[a]? = none from TreeMap.getElem?_emptyc] at ha
    cases ha
  reverse_unknown := fun a _ hne ↦ absurd TreeMap.getD_emptyc hne

/-- The answers after two checks of graphs with the same dependencies, of which the second has
not been checked before. -/
theorem same_iff_not_stale (h : Kept g) (h₀ : Kept g₀) (hfresh : ¬ Stale g₀)
    (hinit : g.graphState = .init) (hinit₀ : g₀.graphState = .init)
    (hequiv : g.dependencies.Equiv g₀.dependencies) (hcheck : g.check = some (result, g'))
    (hcheck₀ : g₀.check = some (result₀, g₀')) :
    (result = result₀ ∧ SameAnswers g' g₀') ↔ ¬ Stale g := by
  obtain ⟨hr, hne, hresult⟩ := graphState_of_check hinit hcheck h.wf.proper
  obtain ⟨hr₀, hne₀, hresult₀⟩ := graphState_of_check hinit₀ hcheck₀ h₀.wf.proper
  have h' := h.check hinit hcheck
  have h₀' := h₀.check hinit₀ hcheck₀
  obtain ⟨hnounknowns, hnocycles, hnoreverse⟩ : (∀ a, g₀.unknowns.getD a [] = []) ∧
      g₀.cycles = [] ∧ ∀ a, g₀.reverseDependencies.getD a [] = [] := by
    simpa [Stale] using hfresh
  have hunknowns := hr₀.unknowns
  have hcycles := hr₀.cycles
  have hreverse := hr₀.reverse
  simp only [hnounknowns, hnocycles, hnoreverse, List.nil_append, ← foundEvents_congr hequiv,
    ← hequiv.toList_eq] at hunknowns hcycles hreverse
  constructor
  · rintro ⟨-, hsame⟩ hstale
    rcases hstale with ⟨a, ha⟩ | hstale | ⟨a, ha⟩
    · have heq := hsame.unknowns a
      rw [getErrors_of_ne_init hne, getErrors_of_ne_init hne₀] at heq
      have hgetD : g'.unknowns.getD a [] = g₀'.unknowns.getD a [] := by
        rw [TreeMap.getD_eq_getD_getElem?, TreeMap.getD_eq_getD_getElem?,
          show g'.unknowns[a]? = g₀'.unknowns[a]? from Option.some_inj.mp heq]
      rw [hr.unknowns, hunknowns] at hgetD
      exact ha (List.append_left_eq_self.mp hgetD)
    · have heq := hsame.cycles
      rw [getErrors_of_ne_init hne, getErrors_of_ne_init hne₀] at heq
      have hlist : g'.cycles = g₀'.cycles := Option.some_inj.mp heq
      rw [hr.cycles, hcycles] at hlist
      exact hstale (List.append_left_eq_self.mp hlist)
    · have heq := hsame.reverseDependencies a
      rw [getReverseDependencies_of_ne_init hne, getReverseDependencies_of_ne_init hne₀] at heq
      have hgetD : g'.reverseDependencies.getD a [] = g₀'.reverseDependencies.getD a [] := by
        rw [TreeMap.getD_eq_getD_getElem?, TreeMap.getD_eq_getD_getElem?, heq]
      rw [hr.reverse, hreverse] at hgetD
      exact ha (List.append_left_eq_self.mp hgetD)
  · intro hnot
    obtain ⟨hunknowns', hcycles', hreverse'⟩ : (∀ a, g.unknowns.getD a [] = []) ∧
        g.cycles = [] ∧ ∀ a, g.reverseDependencies.getD a [] = [] := by
      simpa [Stale] using hnot
    have hmem : ∀ a, a ∈ g.dependencies ↔ a ∈ g₀.dependencies := fun a ↦ hequiv.mem_iff
    have hmem' : ∀ a, a ∈ g'.dependencies ↔ a ∈ g₀'.dependencies :=
      fun a ↦ hr.mem_iff.trans ((hmem a).trans hr₀.mem_iff.symm)
    have hunknownsEq : ∀ a : ItemType, g'.unknowns[a]? = g₀'.unknowns[a]? := by
      intro a
      refine getElem?_eq_of_getD ?_ (iff_of_false (fun hnil ↦ h'.wf.unknowns_ne a [] hnil rfl)
        fun hnil ↦ h₀'.wf.unknowns_ne a [] hnil rfl)
      rw [hr.unknowns, hunknowns, hunknowns', List.nil_append]
    have hcyclesEq : g'.cycles = g₀'.cycles := by
      rw [hr.cycles, hcycles, hcycles', List.nil_append]
    have hreverseD : ∀ a, g'.reverseDependencies.getD a [] = g₀'.reverseDependencies.getD a [] := by
      intro a
      rw [hr.reverse, hreverse, hreverse', List.nil_append]
    have hnil : ∀ {k k' : DependencyGraph} {a : ItemType}, Kept k → Kept k' →
        (a ∈ k.dependencies ↔ a ∈ k'.dependencies) →
        k.reverseDependencies.getD a [] = k'.reverseDependencies.getD a [] →
        k.reverseDependencies[a]? = some [] → k'.reverseDependencies[a]? = some [] := by
      intro k k' a hk hk' hiff hgetD hka
      by_contra hne
      refine getD_ne_nil_of_mem (hk'.wf.reverse_known a (hiff.mp (hk.reverse_nil a hka))) hne ?_
      rw [← hgetD, TreeMap.getD_eq_getD_getElem?, hka]
      rfl
    have hreverseEq : ∀ a : ItemType, g'.reverseDependencies[a]? = g₀'.reverseDependencies[a]? :=
      fun a ↦ getElem?_eq_of_getD (hreverseD a) ⟨hnil h' h₀' (hmem' a) (hreverseD a),
        hnil h₀' h' (hmem' a).symm (hreverseD a).symm⟩
    have hisEmpty : g'.unknowns.isEmpty = g₀'.unknowns.isEmpty :=
      (TreeMap.Equiv.of_forall_constGet?_eq hunknownsEq).isEmpty_eq
    have hstate : g'.graphState = g₀'.graphState := by
      rw [hr.graphState, hr₀.graphState, hisEmpty, hcyclesEq]
    refine ⟨by rw [hresult, hresult₀, hstate], sameAnswers_of_tables hstate hne ?_ (fun a ↦ ?_)
      hreverseEq ?_ (fun a ↦ ?_) ?_ hunknownsEq hcyclesEq⟩
    · exact hr.dependencies.trans (hequiv.trans hr₀.dependencies.symm)
    · rw [hr.sorted, hr₀.sorted, searchFrom_congr (addRoot_congr hequiv)]
      by_cases ha : a ∈ g.dependencies
      · rw [if_pos ha, if_pos ((hmem a).mp ha)]
      · rw [if_neg ha, if_neg fun hmem₀ ↦ ha ((hmem a).mpr hmem₀), h.sorted a ha,
          h₀.sorted a fun hmem₀ ↦ ha ((hmem a).mpr hmem₀)]
    · rw [hr.inOrder, hr₀.inOrder, sortedItems_congr hequiv]
    · rw [hr.itemOrder, hr₀.itemOrder, sortedItems_congr hequiv]
      by_cases ha : a ∈ g.dependencies
      · rw [if_pos ha, if_pos ((hmem a).mp ha)]
      · rw [if_neg ha, if_neg fun hmem₀ ↦ ha ((hmem a).mpr hmem₀), h.itemOrder a ha,
          h₀.itemOrder a fun hmem₀ ↦ ha ((hmem a).mpr hmem₀)]
    · rw [h'.independentSets, h₀'.independentSets]

/-- A check leaves something behind exactly if it sees a dependency. -/
theorem Rechecked.stale_iff (h : Rechecked g g') (hproper : Proper g.dependencies) :
    Stale g' ↔ Stale g ∨ ∃ a b, DependsOn g.dependencies a b := by
  unfold Stale
  simp only [h.unknowns, h.cycles, h.reverse, ne_eq, List.append_eq_nil_iff, not_and_or]
  constructor
  · rintro (⟨a, ha | ha⟩ | (hcycles | hcycles) | ⟨a, ha | ha⟩)
    · exact Or.inl (Or.inl ⟨a, ha⟩)
    · obtain ⟨b, hb⟩ := List.exists_mem_of_ne_nil _ ha
      have hfound := FirstBy.mem_of_mem_firstBy (mem_dependenciesOf.mp hb)
      exact Or.inr ⟨a, b, ((mem_filterMap_unknownOf hproper).mp hfound).1⟩
    · exact Or.inl (Or.inr (Or.inl hcycles))
    · obtain ⟨c, hc⟩ := List.exists_mem_of_ne_nil _ hcycles
      have hcycle := isCycle_of_mem hproper (FirstBy.mem_of_mem_firstBy hc)
      obtain ⟨a, ha, -⟩ := hcycle.least
      exact Or.inr ⟨a, hcycle.dependsOn (List.mem_of_head? ha)⟩
    · exact Or.inl (Or.inr (Or.inr ⟨a, ha⟩))
    · obtain ⟨b, hb⟩ := List.exists_mem_of_ne_nil _ ha
      exact Or.inr ⟨b, a, mem_reversesOf_toList.mp hb⟩
  · rintro ((⟨a, ha⟩ | hcycles | ⟨a, ha⟩) | ⟨a, b, hab⟩)
    · exact Or.inl ⟨a, Or.inl ha⟩
    · exact Or.inr (Or.inl (Or.inl hcycles))
    · exact Or.inr (Or.inr ⟨a, Or.inl ha⟩)
    · exact Or.inr (Or.inr ⟨b, Or.inr (List.ne_nil_of_mem (mem_reversesOf_toList.mpr hab))⟩)

/-- An addition changes nothing of what an earlier check has left behind. -/
theorem Kept.stale_add_iff (h : Kept g) {addition : Addition} (hadd : g.add addition = some g') :
    Stale g' ↔ Stale g := by
  cases addition with
  | addDependency item dep =>
    obtain ⟨-, -, rfl⟩ := addDependency_spec hadd
    exact Iff.rfl
  | addItem item =>
    obtain ⟨hmem, -, rfl⟩ := addItem_spec hadd
    unfold Stale
    dsimp only
    constructor
    · rintro (hunknowns | hcycles | ⟨a, ha⟩)
      · exact Or.inl hunknowns
      · exact Or.inr (Or.inl hcycles)
      · refine Or.inr (Or.inr ⟨a, ?_⟩)
        rw [TreeMap.getD_insert] at ha
        by_cases hcompare : compare item a = .eq
        · rw [if_pos hcompare] at ha
          exact absurd rfl ha
        · rwa [if_neg hcompare] at ha
    · rintro (hunknowns | hcycles | ⟨a, ha⟩)
      · exact Or.inl hunknowns
      · exact Or.inr (Or.inl hcycles)
      · by_cases heq : item = a
        · subst heq
          exact Or.inl (h.reverse_unknown item hmem ha)
        · refine Or.inr (Or.inr ⟨a, ?_⟩)
          rw [TreeMap.getD_insert, if_neg fun hcompare ↦ heq (compare_eq_iff_eq.mp hcompare)]
          exact ha

theorem add_congr (hequiv : g.dependencies.Equiv g₀.dependencies) {addition : Addition}
    (hadd : g.add addition = some g') :
    ∃ g₀', g₀.add addition = some g₀' ∧ g'.dependencies.Equiv g₀'.dependencies := by
  cases addition with
  | addItem item =>
    obtain ⟨hmem, hne, rfl⟩ := addItem_spec hadd
    have hcontains : ¬ g₀.dependencies.contains item = true := fun hmem₀ ↦
      hmem (hequiv.mem_iff.mpr hmem₀)
    have hempty : ¬ item.isEmpty = true := fun h ↦ hne (String.isEmpty_iff.mp h)
    refine ⟨{ g₀ with
      graphState := .init
      dependencies := g₀.dependencies.insert item []
      reverseDependencies := g₀.reverseDependencies.insert item [] }, ?_, hequiv.insert item []⟩
    unfold add addItem
    dsimp only
    rw [if_neg hcontains, if_neg hempty]
  | addDependency item dep =>
    obtain ⟨hmem, hne, rfl⟩ := addDependency_spec hadd
    have hcontains : ¬ ¬ g₀.dependencies.contains item = true := fun hnot ↦
      hnot (hequiv.mem_iff.mp hmem)
    have hempty : ¬ dep.isEmpty = true := fun h ↦ hne (String.isEmpty_iff.mp h)
    refine ⟨{ g₀ with
      graphState := .init
      dependencies := g₀.dependencies.insert item (g₀.dependencies.getD item [] ++ [dep]) }, ?_, ?_⟩
    · unfold add addDependency
      dsimp only
      rw [if_neg hcontains, if_neg hempty]
    · show (g.dependencies.insert item (g.dependencies.getD item [] ++ [dep])).Equiv
        (g₀.dependencies.insert item (g₀.dependencies.getD item [] ++ [dep]))
      rw [hequiv.getD_eq]
      exact hequiv.insert item _

end Answers

/-! ### Sequences of calls -/

/-- A call that changes a graph. -/
inductive Call
  | add (addition : Addition)
  | check
deriving DecidableEq, Repr

def call (g : DependencyGraph) : Call → Option DependencyGraph
  | .add addition => g.add addition
  | .check => g.check.map Prod.snd

/-- The additions among some calls. -/
def additionsIn (calls : List Call) : List Addition :=
  calls.filterMap fun
    | .add addition => some addition
    | .check => none

/-- A check has seen a dependency. -/
def SeenDependency (calls : List Call) : Prop :=
  ∃ a b, [.add (.addDependency a b), .check].Sublist calls

/-- There are additions after a check that has seen a dependency. -/
def ExtendedAfterCheck (calls : List Call) : Prop :=
  ∃ a b addition, [.add (.addDependency a b), .check, .add addition].Sublist calls

section Sequences

variable {calls : List Call}

theorem concat_sublist_concat_iff {α : Type*} {l l' : List α} {a b : α} :
    (l ++ [a]).Sublist (l' ++ [b]) ↔ (l ++ [a]).Sublist l' ∨ (a = b ∧ l.Sublist l') := by
  have hreverse : ∀ (l : List α) (a : α), (l ++ [a]).reverse = a :: l.reverse := fun l a ↦ by
    rw [List.reverse_append, List.reverse_singleton, List.singleton_append]
  calc (l ++ [a]).Sublist (l' ++ [b])
    _ ↔ (a :: l.reverse).Sublist (b :: l'.reverse) := by
      rw [← List.reverse_sublist, hreverse, hreverse]
    _ ↔ (a :: l.reverse).Sublist l'.reverse ∨ (a = b ∧ l.reverse.Sublist l'.reverse) :=
      List.cons_sublist_cons'
    _ ↔ _ := by rw [← hreverse, List.reverse_sublist, List.reverse_sublist]

theorem additionsIn_append (calls calls' : List Call) :
    additionsIn (calls ++ calls') = additionsIn calls ++ additionsIn calls' :=
  List.filterMap_append

theorem mem_additionsIn {addition : Addition} :
    addition ∈ additionsIn calls ↔ Call.add addition ∈ calls := by
  unfold additionsIn
  rw [List.mem_filterMap]
  constructor
  · rintro ⟨_ | _, hmem, heq⟩
    · obtain rfl := Option.some_inj.mp heq
      exact hmem
    · cases heq
  · exact fun h ↦ ⟨_, h, rfl⟩

theorem seenDependency_add (addition : Addition) :
    SeenDependency (calls ++ [.add addition]) ↔ SeenDependency calls := by
  unfold SeenDependency
  refine exists_congr fun a ↦ exists_congr fun b ↦ ?_
  have hsplit : [Call.add (.addDependency a b), .check] =
    [.add (.addDependency a b)] ++ [.check] := rfl
  rw [hsplit, concat_sublist_concat_iff]
  exact or_iff_left fun h ↦ by cases h.1

theorem seenDependency_check : SeenDependency (calls ++ [.check]) ↔
    SeenDependency calls ∨ ∃ a b, Call.add (.addDependency a b) ∈ calls := by
  unfold SeenDependency
  rw [← exists_or]
  refine exists_congr fun a ↦ ?_
  rw [← exists_or]
  refine exists_congr fun b ↦ ?_
  have hsplit : [Call.add (.addDependency a b), .check] =
    [.add (.addDependency a b)] ++ [.check] := rfl
  rw [hsplit, concat_sublist_concat_iff, List.singleton_sublist]
  exact or_congr_right (and_iff_right rfl)

theorem extendedAfterCheck_add (addition : Addition) :
    ExtendedAfterCheck (calls ++ [.add addition]) ↔ SeenDependency calls := by
  constructor
  · rintro ⟨a, b, addition', h⟩
    refine ⟨a, b, ?_⟩
    have hsplit : [Call.add (.addDependency a b), .check, .add addition'] =
      [.add (.addDependency a b), .check] ++ [.add addition'] := rfl
    rw [hsplit, concat_sublist_concat_iff] at h
    rcases h with h | ⟨-, h⟩
    · exact (List.sublist_append_left _ _).trans h
    · exact h
  · rintro ⟨a, b, h⟩
    exact ⟨a, b, addition, h.append (List.Sublist.refl [Call.add addition])⟩

theorem extendedAfterCheck_check :
    ExtendedAfterCheck (calls ++ [.check]) ↔ ExtendedAfterCheck calls := by
  unfold ExtendedAfterCheck
  refine exists_congr fun a ↦ exists_congr fun b ↦ exists_congr fun addition ↦ ?_
  have hsplit : [Call.add (.addDependency a b), .check, .add addition] =
    [.add (.addDependency a b), .check] ++ [.add addition] := rfl
  rw [hsplit, concat_sublist_concat_iff]
  exact or_iff_left fun h ↦ by cases h.1

/-- A graph that calls have led to, and the check that its tables are from. -/
structure Follows (calls : List Call) (g : DependencyGraph) : Prop where
  kept : Kept g
  build : ∃ g₀, build (additionsIn calls) = some g₀ ∧ g.dependencies.Equiv g₀.dependencies
  stale : Stale g ↔ SeenDependency calls
  init : g.graphState = .init → (Stale g ↔ ExtendedAfterCheck calls)
  seen : g.graphState ≠ .init → (∃ a b, Call.add (.addDependency a b) ∈ calls) →
    SeenDependency calls
  checked : g.graphState ≠ .init → ∃ g₁, Kept g₁ ∧ g₁.graphState = .init ∧
    g₁.dependencies.Equiv g.dependencies ∧ g₁.check = some (decide (g.graphState = .ready), g) ∧
    (Stale g₁ ↔ ExtendedAfterCheck calls)

theorem not_stale_of_built {additions : List Addition} {g₀ : DependencyGraph}
    (h : DependencyGraph.build additions = some g₀) : Kept g₀ ∧ ¬ Stale g₀ := by
  unfold DependencyGraph.build at h
  refine Fallible.foldlM_induction (motive := fun g ↦ Kept g ∧ ¬ Stale g) h ⟨kept_new, ?_⟩ ?_
  · rintro (⟨a, ha⟩ | hcycles | ⟨a, ha⟩)
    · exact ha TreeMap.getD_emptyc
    · exact hcycles rfl
    · exact ha TreeMap.getD_emptyc
  · rintro addition - g g' hadd ⟨hkept, hnot⟩
    exact ⟨hkept.add hadd, fun hstale ↦ hnot ((hkept.stale_add_iff hadd).mp hstale)⟩

theorem Follows.dependsOn_iff {g : DependencyGraph} (h : Follows calls g) {a b : ItemType} :
    DependsOn g.dependencies a b ↔ Call.add (.addDependency a b) ∈ calls := by
  obtain ⟨g₀, hg₀, hequiv⟩ := h.build
  rw [DependsOn.congr hequiv, (build_spec hg₀).dependsOn_iff, ← mem_additionsIn]
  rfl

theorem Follows.add {g g' : DependencyGraph} (h : Follows calls g) {addition : Addition}
    (hadd : g.add addition = some g') : Follows (calls ++ [.add addition]) g' := by
  have hkept := h.kept.add hadd
  have hinit := (h.kept.wf.add hadd).2
  obtain ⟨g₀, hg₀, hequiv⟩ := h.build
  obtain ⟨g₀', hadd₀, hequiv'⟩ := add_congr hequiv hadd
  have hstale := h.kept.stale_add_iff hadd
  refine ⟨hkept, ⟨g₀', ?_, hequiv'⟩, ?_, fun _ ↦ ?_, fun hne ↦ absurd hinit hne,
    fun hne ↦ absurd hinit hne⟩
  · unfold DependencyGraph.build at hg₀ ⊢
    rw [additionsIn_append, List.foldlM_append, hg₀]
    show g₀.add addition >>= some = _
    rw [hadd₀]
    rfl
  · rw [hstale, h.stale, seenDependency_add]
  · rw [hstale, h.stale, extendedAfterCheck_add]

theorem Follows.check {g g' : DependencyGraph} {result : Bool} (h : Follows calls g)
    (hcheck : g.check = some (result, g')) : Follows (calls ++ [.check]) g' := by
  have hadditions : additionsIn (calls ++ [.check]) = additionsIn calls := by
    rw [additionsIn_append]
    exact List.append_nil _
  by_cases hinit : g.graphState = .init
  · obtain ⟨hrechecked, hne, hresult⟩ := graphState_of_check hinit hcheck h.kept.wf.proper
    obtain ⟨g₀, hg₀, hequiv⟩ := h.build
    have hdependency : (∃ a b, DependsOn g.dependencies a b) ↔
        ∃ a b, Call.add (.addDependency a b) ∈ calls :=
      exists_congr fun a ↦ exists_congr fun b ↦ h.dependsOn_iff
    refine ⟨h.kept.check hinit hcheck, ⟨g₀, by rw [hadditions, hg₀],
      hrechecked.dependencies.trans hequiv⟩, ?_, fun hinit' ↦ absurd hinit' hne, fun _ hmem ↦ ?_,
      fun _ ↦ ⟨g, h.kept, hinit, hrechecked.dependencies.symm, hresult ▸ hcheck, ?_⟩⟩
    · rw [hrechecked.stale_iff h.kept.wf.proper, seenDependency_check, h.stale, hdependency]
    · refine seenDependency_check.mpr (Or.inr ?_)
      obtain ⟨a, b, hab⟩ := hmem
      exact ⟨a, b, (List.mem_append.mp hab).resolve_right fun hlast ↦ by
        cases List.mem_singleton.mp hlast⟩
    · rw [h.init hinit, extendedAfterCheck_check]
  · rw [check_of_ne_init hinit] at hcheck
    obtain ⟨-, rfl⟩ := Prod.mk.inj (Option.some_inj.mp hcheck)
    obtain ⟨g₁, hkept₁, hinit₁, hequiv₁, hcheck₁, hstale₁⟩ := h.checked hinit
    refine ⟨h.kept, by rw [hadditions]; exact h.build, ?_, fun hinit' ↦ absurd hinit' hinit,
      fun _ hmem ↦ ?_, fun _ ↦ ⟨g₁, hkept₁, hinit₁, hequiv₁, hcheck₁, ?_⟩⟩
    · rw [h.stale, seenDependency_check]
      exact (or_iff_left_of_imp (h.seen hinit)).symm
    · refine seenDependency_check.mpr (Or.inr ?_)
      obtain ⟨a, b, hab⟩ := hmem
      exact ⟨a, b, (List.mem_append.mp hab).resolve_right fun hlast ↦ by
        cases List.mem_singleton.mp hlast⟩
    · rw [hstale₁, extendedAfterCheck_check]

theorem follows_new : Follows [] new where
  kept := kept_new
  build := ⟨new, rfl, TreeMap.Equiv.rfl⟩
  stale := iff_of_false (not_stale_of_built (show DependencyGraph.build [] = some new from rfl)).2
    fun ⟨_, _, h⟩ ↦ by cases h
  init _ :=
    iff_of_false (not_stale_of_built (show DependencyGraph.build [] = some new from rfl)).2
    fun ⟨_, _, _, h⟩ ↦ by cases h
  seen := fun hne ↦ absurd rfl hne
  checked := fun hne ↦ absurd rfl hne

theorem follows_of_run {g : DependencyGraph} (h : calls.foldlM call new = some g) :
    Follows calls g := by
  induction calls using List.reverseRecOn generalizing g with
  | nil =>
    obtain rfl := Option.some_inj.mp h
    exact follows_new
  | append_singleton calls last ih =>
    rw [List.foldlM_append] at h
    obtain ⟨g₁, hg₁, hlast⟩ := Option.bind_eq_some_iff.mp h
    have hcall : call g₁ last = some g := by simpa using hlast
    cases last with
    | add addition => exact (ih hg₁).add hcall
    | check =>
      obtain ⟨⟨result, g'⟩, hcheck, rfl⟩ := Option.map_eq_some_iff.mp hcall
      exact (ih hg₁).check hcheck

/-- After the last check every answer is that of a new graph with the same additions, checked
once, exactly if nothing has been added after a check that has seen a dependency. -/
theorem recheck_same_iff {g g' : DependencyGraph} {result : Bool}
    (hrun : calls.foldlM call new = some g) (hcheck : g.check = some (result, g')) :
    ∃ g₀ result₀ g₀', build (additionsIn calls) = some g₀ ∧ g₀.check = some (result₀, g₀') ∧
      ((result = result₀ ∧ SameAnswers g' g₀') ↔ ¬ ExtendedAfterCheck calls) := by
  have hfollows := follows_of_run hrun
  obtain ⟨g₀, hg₀, hequiv⟩ := hfollows.build
  obtain ⟨hkept₀, hfresh⟩ := not_stale_of_built hg₀
  have hinit₀ := (build_spec hg₀).init
  obtain ⟨g₀', hcheck₀, -⟩ := check_rechecked hkept₀.wf.proper hinit₀
  refine ⟨g₀, _, g₀', hg₀, hcheck₀, ?_⟩
  by_cases hinit : g.graphState = .init
  · rw [same_iff_not_stale hfollows.kept hkept₀ hfresh hinit hinit₀ hequiv hcheck hcheck₀,
      hfollows.init hinit]
  · rw [check_of_ne_init hinit] at hcheck
    obtain ⟨rfl, rfl⟩ := Prod.mk.inj (Option.some_inj.mp hcheck)
    obtain ⟨g₁, hkept₁, hinit₁, hequiv₁, hcheck₁, hstale₁⟩ := hfollows.checked hinit
    rw [same_iff_not_stale hkept₁ hkept₀ hfresh hinit₁ hinit₀ (hequiv₁.trans hequiv) hcheck₁
      hcheck₀, hstale₁]

end Sequences

/-- The theorem, where the first check has seen no dependency. -/
theorem recheck_same_noDependency : ∃ g result g' g₀ result₀ g₀',
    [Call.add (.addItem "a"), .check, .add (.addItem "b"),
      .add (.addDependency "b" "a")].foldlM call new = some g ∧ g.check = some (result, g') ∧
    build [.addItem "a", .addItem "b", .addDependency "b" "a"] = some g₀ ∧
    g₀.check = some (result₀, g₀') ∧ result = result₀ ∧ SameAnswers g' g₀' := by
  have hsome : (([Call.add (.addItem "a"), .check, .add (.addItem "b"),
      .add (.addDependency "b" "a")].foldlM call new).bind check).isSome := by decide
  obtain ⟨⟨result, g'⟩, hrun⟩ := Option.isSome_iff_exists.mp hsome
  obtain ⟨g, hg, hcheck⟩ := Option.bind_eq_some_iff.mp hrun
  obtain ⟨g₀, result₀, g₀', hg₀, hcheck₀, hiff⟩ := recheck_same_iff hg hcheck
  refine ⟨g, result, g', g₀, result₀, g₀', hg, hcheck, hg₀, hcheck₀, hiff.mpr ?_⟩
  show ¬ ExtendedAfterCheck ([.add (.addItem "a"), .check, .add (.addItem "b")] ++
    [.add (.addDependency "b" "a")])
  rw [extendedAfterCheck_add]
  show ¬ SeenDependency ([.add (.addItem "a"), .check] ++ [.add (.addItem "b")])
  rw [seenDependency_add]
  show ¬ SeenDependency ([.add (.addItem "a")] ++ [.check])
  rw [seenDependency_check]
  rintro (⟨a, b, h⟩ | ⟨a, b, h⟩)
  · cases h with
    | cons _ h => cases h
  · cases List.mem_singleton.mp h

/-- The item that has been depended on is said to be depended on twice. -/
theorem not_same_addedAfterCheck : ∃ g result g' g₀ result₀ g₀',
    [Call.add (.addItem "a"), .add (.addItem "b"), .add (.addDependency "b" "a"), .check,
      .add (.addItem "c")].foldlM call new = some g ∧ g.check = some (result, g') ∧
    build [.addItem "a", .addItem "b", .addDependency "b" "a", .addItem "c"] = some g₀ ∧
    g₀.check = some (result₀, g₀') ∧ ¬ SameAnswers g' g₀' := by
  have hfound : ((([Call.add (.addItem "a"), .add (.addItem "b"), .add (.addDependency "b" "a"),
      .check, .add (.addItem "c")].foldlM call new).bind check).map fun checked ↦
        checked.2.getReverseDependencies "a") = some (some ["b", "b"]) := by decide
  have hfound₀ : (((build [.addItem "a", .addItem "b", .addDependency "b" "a",
      .addItem "c"]).bind check).map fun checked ↦ checked.2.getReverseDependencies "a") =
        some (some ["b"]) := by decide
  obtain ⟨⟨result, g'⟩, hrun, hreverse⟩ := Option.map_eq_some_iff.mp hfound
  obtain ⟨g, hg, hcheck⟩ := Option.bind_eq_some_iff.mp hrun
  obtain ⟨⟨result₀, g₀'⟩, hrun₀, hreverse₀⟩ := Option.map_eq_some_iff.mp hfound₀
  obtain ⟨g₀, hg₀, hcheck₀⟩ := Option.bind_eq_some_iff.mp hrun₀
  refine ⟨g, result, g', g₀, result₀, g₀', hg, hcheck, hg₀, hcheck₀, fun hsame ↦ ?_⟩
  have heq := hsame.reverseDependencies "a"
  rw [hreverse, hreverse₀] at heq
  cases heq

end Abuild.DependencyGraph
