import Abuild.DependencyGraph.Check
import Mathlib.Order.RelClasses

/-!
Graphs that legal calls lead to. A graph built by additions alone holds the
items and dependencies that were added and has no errors yet (`build_spec`), so
`check` decides whether the additions name only added items and have no cycle
(`check_build`), and the sorted dependencies of every item are what can be
reached from it, whether or not the graph has errors (`sorted_build`). A graph
may also be checked and added to in turn; `Reachable.spec` says what then always
holds, and a graph without errors has every item it depends on
and lists its items in dependency order (`ErrorFree.allKnown`,
`ErrorFree.ordered`).
-/

set_option autoImplicit false
set_option relaxedAutoImplicit false

namespace Abuild.DependencyGraph

open Std (TreeMap TreeSet)
open Relation Precedence

/-! ### Additions -/

/-- The items that some additions add. -/
def added (additions : List Addition) : ItemList :=
  additions.filterMap fun
    | .addItem item => some item
    | .addDependency _ _ => none

/-- The additions make `b` a dependency of `a`. -/
def Requires (additions : List Addition) (a b : ItemType) : Prop :=
  .addDependency a b ∈ additions

theorem mem_added {additions : List Addition} {a : ItemType} :
    a ∈ added additions ↔ .addItem a ∈ additions := by
  unfold added
  rw [List.mem_filterMap]
  constructor
  · rintro ⟨addition, hmem, heq⟩
    cases addition with
    | addItem item =>
      obtain rfl : item = a := by simpa using heq
      exact hmem
    | addDependency item dep => simp at heq
  · intro hmem
    exact ⟨_, hmem, rfl⟩

theorem addItem_spec {g g' : DependencyGraph} {item : ItemType} (h : g.addItem item = some g') :
    item ∉ g.dependencies ∧ item ≠ "" ∧ g' = { g with
      graphState := .init
      dependencies := g.dependencies.insert item []
      reverseDependencies := g.reverseDependencies.insert item [] } := by
  unfold addItem at h
  split_ifs at h with hmem hempty
  cases h
  refine ⟨hmem, fun h ↦ hempty ?_, rfl⟩
  rw [h]
  rfl

theorem addDependency_spec {g g' : DependencyGraph} {item dep : ItemType}
    (h : g.addDependency item dep = some g') :
    item ∈ g.dependencies ∧ dep ≠ "" ∧ g' = { g with
      graphState := .init
      dependencies := g.dependencies.insert item (g.dependencies.getD item [] ++ [dep]) } := by
  unfold addDependency at h
  split_ifs at h with hmem hempty
  cases h
  refine ⟨hmem, fun h ↦ hempty ?_, rfl⟩
  rw [h]
  rfl

theorem dependsOn_insert_nil {d : ItemMap} {item : ItemType} (hitem : item ∉ d) (a b : ItemType) :
    DependsOn (d.insert item []) a b ↔ DependsOn d a b := by
  unfold DependsOn
  rw [TreeMap.getD_insert]
  by_cases ha : item = a
  · subst ha
    simp [TreeMap.getD_eq_fallback hitem]
  · simp [ha]

theorem dependsOn_insert_append {d : ItemMap} {item dep : ItemType} (a b : ItemType) :
    DependsOn (d.insert item (d.getD item [] ++ [dep])) a b ↔
      DependsOn d a b ∨ (a = item ∧ b = dep) := by
  unfold DependsOn
  rw [TreeMap.getD_insert]
  by_cases ha : item = a
  · subst ha
    simp
  · simp [ha, Ne.symm ha]

/-- An addition keeps what legal calls keep. -/
theorem Wf.add {g g' : DependencyGraph} (h : Wf g) {addition : Addition}
    (hadd : g.add addition = some g') : Wf g' ∧ g'.graphState = .init := by
  cases addition with
  | addItem item =>
    obtain ⟨hmem, hne, rfl⟩ := addItem_spec hadd
    refine ⟨⟨⟨?_, fun a b hab ↦ ?_⟩, fun a b hb ↦ ?_, fun a ha ↦ ?_, h.unknowns_ne⟩, rfl⟩
    · rw [TreeMap.mem_insert, compare_eq_iff_eq]
      exact not_or.mpr ⟨hne, h.proper.item_ne⟩
    · exact h.proper.dep_ne a b ((dependsOn_insert_nil hmem a b).mp hab)
    · apply (dependsOn_insert_nil hmem b a).mpr
      rw [TreeMap.getD_insert] at hb
      split_ifs at hb
      · simp at hb
      · exact h.reverse_sound a b hb
    · rw [TreeMap.mem_insert] at ha ⊢
      exact ha.imp_right (h.reverse_known a)
  | addDependency item dep =>
    obtain ⟨hmem, hne, rfl⟩ := addDependency_spec hadd
    refine ⟨⟨⟨?_, fun a b hab ↦ ?_⟩, fun a b hb ↦ ?_, fun a ha ↦ ?_, h.unknowns_ne⟩, rfl⟩
    · rw [TreeMap.mem_insert, compare_eq_iff_eq]
      refine not_or.mpr ⟨fun hitem ↦ ?_, h.proper.item_ne⟩
      exact h.proper.item_ne (hitem ▸ hmem)
    · rcases (dependsOn_insert_append a b).mp hab with hab | ⟨-, rfl⟩
      · exact h.proper.dep_ne a b hab
      · exact hne
    · exact (dependsOn_insert_append b a).mpr (Or.inl (h.reverse_sound a b hb))
    · rw [TreeMap.mem_insert, compare_eq_iff_eq] at ha
      exact h.reverse_known a (ha.elim (fun heq ↦ heq ▸ hmem) id)

theorem wf_new : Wf new where
  proper := by
    constructor
    · exact TreeMap.not_mem_emptyc
    · intro a b hab
      simp [DependsOn, new] at hab
  reverse_sound := by
    intro a b hb
    simp [new] at hb
  reverse_known := by
    intro a ha
    exact absurd ha TreeMap.not_mem_emptyc
  unknowns_ne := by
    intro a l hl
    simp [new] at hl

/-! ### A graph that is only added to -/

/-- The graph that some additions build. -/
structure Built (additions : List Addition) (g : DependencyGraph) : Prop where
  wf : Wf g
  init : g.graphState = .init
  mem_iff : ∀ a, a ∈ g.dependencies ↔ a ∈ added additions
  dependsOn_iff : ∀ a b, DependsOn g.dependencies a b ↔ Requires additions a b
  nodup : (added additions).Nodup
  unknowns : g.unknowns.isEmpty = true
  cycles : g.cycles = []

theorem Built.add {additions : List Addition} {g g' : DependencyGraph} (h : Built additions g)
    {addition : Addition} (hadd : g.add addition = some g') :
    Built (additions ++ [addition]) g' := by
  obtain ⟨hwf, hinit⟩ := h.wf.add hadd
  cases addition with
  | addItem item =>
    have hadded : added (additions ++ [.addItem item]) = added additions ++ [item] := by
      simp [added]
    obtain ⟨hmem, -, rfl⟩ := addItem_spec hadd
    refine ⟨hwf, hinit, fun a ↦ ?_, fun a b ↦ ?_, ?_, h.unknowns, h.cycles⟩
    · rw [TreeMap.mem_insert, compare_eq_iff_eq, h.mem_iff, hadded, List.mem_append,
        List.mem_singleton, or_comm, eq_comm (a := item)]
    · rw [dependsOn_insert_nil hmem, h.dependsOn_iff]
      simp [Requires]
    · rw [hadded, List.nodup_append]
      refine ⟨h.nodup, List.nodup_singleton item, fun a ha b hb hab ↦ hmem ?_⟩
      rw [h.mem_iff, ← List.mem_singleton.mp hb, ← hab]
      exact ha
  | addDependency item dep =>
    have hadded : added (additions ++ [.addDependency item dep]) = added additions := by
      simp [added]
    obtain ⟨hmem, -, rfl⟩ := addDependency_spec hadd
    refine ⟨hwf, hinit, fun a ↦ ?_, fun a b ↦ ?_, hadded ▸ h.nodup, h.unknowns, h.cycles⟩
    · rw [TreeMap.mem_insert, compare_eq_iff_eq, hadded, ← h.mem_iff]
      exact or_iff_right_of_imp fun ha ↦ ha ▸ hmem
    · rw [dependsOn_insert_append, h.dependsOn_iff]
      simp [Requires]

theorem build_spec {additions : List Addition} {g : DependencyGraph}
    (h : build additions = some g) : Built additions g := by
  unfold build at h
  induction additions using List.reverseRecOn generalizing g with
  | nil =>
    obtain rfl : new = g := by simpa using h
    refine ⟨wf_new, rfl, by simp [new, added], ?_, List.nodup_nil, rfl, rfl⟩
    simp [DependsOn, Requires, new]
  | append_singleton additions addition ih =>
    rw [List.foldlM_append] at h
    obtain ⟨g₀, hg₀, hadd⟩ := Option.bind_eq_some_iff.mp h
    exact (ih hg₀).add (by simpa using hadd)

theorem Built.dependsOn_eq {additions : List Addition} {g : DependencyGraph}
    (h : Built additions g) : DependsOn g.dependencies = Requires additions := by
  ext a b
  exact h.dependsOn_iff a b

/-- The check of a built graph, in terms of the additions. -/
theorem Built.check {additions : List Addition} {g : DependencyGraph} (h : Built additions g) :
    ∃ result g', g.check = some (result, g') ∧ Checked g' ∧
      g'.graphState = (if result then .ready else .error) ∧
      (∀ a, a ∈ g'.dependencies ↔ a ∈ added additions) ∧
      DependsOn g'.dependencies = Requires additions ∧
      (result = true ↔ (∀ a b, Requires additions a b → b ∈ added additions) ∧
        ∀ a, ¬ TransGen (Requires additions) a a) := by
  obtain ⟨result, g', hcheck, hdeps, -, hchecked, hstate, hresult⟩ := check_spec h.wf h.init
  refine ⟨result, g', hcheck, hchecked, hstate, fun a ↦ ?_, ?_, ?_⟩
  · rw [mem_congr hdeps, h.mem_iff]
  · rw [dependsOn_congr hdeps, h.dependsOn_eq]
  · rw [hresult]
    unfold AllKnown Acyclic
    rw [h.dependsOn_eq]
    simp only [h.mem_iff]
    exact and_iff_right ⟨h.unknowns, h.cycles⟩

theorem assertChecked_of_checked {g : DependencyGraph} {result : Bool}
    (h : g.graphState = (if result then .ready else .error)) :
    g.assertChecked true = some () := by
  unfold assertChecked
  rw [h]
  cases result <;> rfl

theorem compareItems_eq {g : DependencyGraph} (h : Checked g)
    (hstate : g.assertChecked true = some ()) {a b : ItemType} (ha : a ∈ g.inOrder)
    (hb : b ∈ g.inOrder) :
    g.compareItems a b = some (if g.inOrder.idxOf a < g.inOrder.idxOf b then -1
      else if g.inOrder.idxOf b < g.inOrder.idxOf a then 1 else 0) := by
  have hai := h.itemOrder a ((h.mem_inOrder a).mp ha)
  have hbi := h.itemOrder b ((h.mem_inOrder b).mp hb)
  unfold compareItems
  rw [hstate, hai, hbi]
  dsimp only [Option.bind_eq_bind, Option.bind_some]
  simp only [Nat.add_lt_add_iff_right, gt_iff_lt]
  split_ifs <;> rfl

theorem compareItems_eq_neg_one {g : DependencyGraph} (h : Checked g)
    (hstate : g.assertChecked true = some ()) {a b : ItemType} (ha : a ∈ g.inOrder)
    (hb : b ∈ g.inOrder) :
    g.compareItems a b = some (-1) ↔ g.inOrder.idxOf a < g.inOrder.idxOf b := by
  rw [compareItems_eq h hstate ha hb]
  split_ifs with hlt hgt <;> simp [hlt]

/-- The order of positions in a list is a strict total order of its elements. -/
theorem isStrictTotalOrder_compareItems {g : DependencyGraph} (h : Checked g)
    (hstate : g.assertChecked true = some ()) :
    IsStrictTotalOrder {a // a ∈ g.inOrder} fun a b ↦ g.compareItems a b = some (-1) := by
  have hiff : ∀ a b : {a // a ∈ g.inOrder}, g.compareItems a b = some (-1) ↔
      g.inOrder.idxOf a.1 < g.inOrder.idxOf b.1 :=
    fun a b ↦ compareItems_eq_neg_one h hstate a.2 b.2
  simp only [hiff]
  refine { trichotomous := ?_, irrefl := ?_, trans := ?_ }
  · intro a b hab hba
    have heq : g.inOrder.idxOf a.1 = g.inOrder.idxOf b.1 := by omega
    exact Subtype.ext (List.idxOf_inj a.2 |>.mp heq)
  · intro a
    exact Nat.lt_irrefl _
  · intro a b c
    exact Nat.lt_trans

/-- A single check of a built graph returns true exactly when the additions name
only added items and have no cycle, and then the sorted graph lists the added
items in dependency order. -/
theorem check_build {additions : List Addition} {g : DependencyGraph}
    (h : build additions = some g) :
    ∃ result g', g.check = some (result, g') ∧
      (result = true ↔ (∀ a b, Requires additions a b → b ∈ added additions) ∧
        ∀ a, ¬ TransGen (Requires additions) a a) ∧
      (result = true → ∃ sorted, g'.getSortedGraph = some sorted ∧ sorted.Nodup ∧
        sorted.Perm (added additions) ∧ Ordered (TransGen (Requires additions)) sorted ∧
        (∀ a ∈ sorted, ∀ b ∈ sorted,
          g'.compareItems a b = some (if sorted.idxOf a < sorted.idxOf b then -1
            else if sorted.idxOf b < sorted.idxOf a then 1 else 0)) ∧
        IsStrictTotalOrder {a // a ∈ sorted} fun a b ↦ g'.compareItems a b = some (-1)) := by
  have hbuilt := build_spec h
  obtain ⟨result, g', hcheck, hchecked, hstate, hmem, hdependsOn, hresult⟩ := hbuilt.check
  refine ⟨result, g', hcheck, hresult, fun htrue ↦ ⟨g'.inOrder, ?_, hchecked.nodup, ?_, ?_, ?_, ?_⟩⟩
  · unfold getSortedGraph
    rw [assertChecked_of_checked hstate]
    rfl
  · rw [List.perm_ext_iff_of_nodup hchecked.nodup hbuilt.nodup]
    intro a
    rw [hchecked.mem_inOrder, hmem]
  · rw [htrue, if_pos rfl] at hstate
    have hordered := (hchecked.ready hstate).2
    rw [hdependsOn] at hordered
    exact hordered.transGen
  · intro a ha b hb
    exact compareItems_eq hchecked (assertChecked_of_checked hstate) ha hb
  · exact isStrictTotalOrder_compareItems hchecked (assertChecked_of_checked hstate)

theorem check_build_chain :
    ∃ g, build [.addItem "b", .addItem "a", .addDependency "b" "a"] = some g ∧
      ∃ g' sorted, g.check = some (true, g') ∧ g'.getSortedGraph = some sorted ∧
        sorted.Perm ["b", "a"] := by
  obtain ⟨g, hg⟩ := Option.isSome_iff_exists.mp
    (show (build [.addItem "b", .addItem "a", .addDependency "b" "a"]).isSome by decide)
  obtain ⟨result, g', hcheck, -, hsorted⟩ := check_build hg
  have hresult : ((build [.addItem "b", .addItem "a", .addDependency "b" "a"]).bind check).map
      Prod.fst = some true := by decide
  rw [hg, Option.bind_some, hcheck] at hresult
  obtain rfl : result = true := by simpa using hresult
  obtain ⟨sorted, hget, -, hperm, -⟩ := hsorted rfl
  exact ⟨g, hg, g', sorted, hcheck, hget, hperm⟩

example : ((build [.addItem "b", .addItem "a", .addDependency "b" "a"]).bind check).map
    (fun (result, g) ↦ (result, g.inOrder)) = some (true, ["a", "b"]) := by decide

example : ((build [.addItem "b", .addItem "a", .addDependency "b" "a", .addDependency "b" "c",
      .addDependency "a" "b"]).bind check).map
    (fun (result, g) ↦ (result, g.unknowns.toList, g.cycles)) =
      some (false, [("b", ["c"])], [["a", "b"]]) := by decide

/-- A path to a known item passes through known items. -/
theorem transGen_known {d : ItemMap} {a b : ItemType} (h : TransGen (DependsOn d) a b)
    (hb : b ∈ d) : TransGen (fun a b ↦ DependsOn d a b ∧ b ∈ d) a b := by
  induction h with
  | single hab => exact TransGen.single ⟨hab, hb⟩
  | tail _ hstep ih => exact (ih hstep.mem).tail ⟨hstep, hb⟩

/-- After a single check of a built graph, with errors or without, the sorted
dependencies of every item are the known items reachable from it, the item last;
they are in dependency order when no cycle is reachable. -/
theorem sorted_build {additions : List Addition} {g : DependencyGraph}
    (h : build additions = some g) :
    ∃ result g', g.check = some (result, g') ∧ ∀ item ∈ added additions,
      ∃ l, g'.getSortedDependencies item = some l ∧ l.Nodup ∧ l.getLast? = some item ∧
        (∀ b, b ∈ l ↔ b ∈ added additions ∧ ReflTransGen (Requires additions) item b) ∧
        ((∀ b, ReflTransGen (Requires additions) item b →
            ¬ TransGen (Requires additions) b b) →
          Ordered (fun b c ↦ TransGen (Requires additions) b c ∧ c ∈ added additions) l) := by
  obtain ⟨result, g', hcheck, hchecked, hstate, hmem, hdependsOn, -⟩ := (build_spec h).check
  refine ⟨result, g', hcheck, fun item hitem ↦ ?_⟩
  obtain ⟨l, hl, hsorted⟩ := hchecked.sorted item ((hmem item).mpr hitem)
  refine ⟨l, ?_, hsorted.nodup, hsorted.last, fun b ↦ ?_, fun hacyclic ↦ ?_⟩
  · unfold getSortedDependencies
    rw [assertChecked_of_checked hstate, hl]
    rfl
  · rw [hsorted.mem_iff, hmem, hdependsOn]
  · have hordered := hsorted.ordered (by rwa [hdependsOn])
    refine hordered.transGen.mono fun b c _ ⟨hbc, hc⟩ ↦ ?_
    exact transGen_known (hdependsOn ▸ hbc) ((hmem c).mpr hc)

theorem sorted_build_cycle :
    ∃ g g' l, build [.addItem "b", .addItem "a", .addDependency "b" "a",
        .addDependency "a" "b", .addDependency "a" "c"] = some g ∧
      g.check = some (false, g') ∧ g'.getSortedDependencies "a" = some l ∧
      l.Nodup ∧ l.getLast? = some "a" := by
  obtain ⟨g, hg⟩ := Option.isSome_iff_exists.mp
    (show (build [.addItem "b", .addItem "a", .addDependency "b" "a",
      .addDependency "a" "b", .addDependency "a" "c"]).isSome by decide)
  obtain ⟨result, g', hcheck, hsorted⟩ := sorted_build hg
  have hresult : ((build [.addItem "b", .addItem "a", .addDependency "b" "a",
      .addDependency "a" "b", .addDependency "a" "c"]).bind check).map Prod.fst = some false := by
    decide
  rw [hg, Option.bind_some, hcheck] at hresult
  obtain rfl : result = false := by simpa using hresult
  obtain ⟨l, hl, hnodup, hlast, -⟩ := hsorted "a" (by simp [added])
  exact ⟨g, g', l, hg, hcheck, hl, hnodup, hlast⟩

/-! ### The graph of a table -/

theorem mem_additionsOf {table : List (ItemType × ItemList)} {a b : ItemType} :
    (.addItem a ∈ additionsOf table ↔ a ∈ table.map Prod.fst) ∧
    (.addDependency a b ∈ additionsOf table ↔ ∃ deps, (a, deps) ∈ table ∧ b ∈ deps) := by
  unfold additionsOf
  constructor
  · simp only [List.mem_flatMap, List.mem_cons, Addition.addItem.injEq, List.mem_map, reduceCtorEq,
      and_false, exists_false, or_false, Prod.exists, exists_and_right, exists_eq_right]
    exact ⟨fun ⟨x, ⟨deps, h⟩, hx⟩ ↦ ⟨deps, hx ▸ h⟩, fun ⟨deps, h⟩ ↦ ⟨a, ⟨deps, h⟩, rfl⟩⟩
  · simp only [List.mem_flatMap, List.mem_cons, reduceCtorEq, List.mem_map,
      Addition.addDependency.injEq, exists_eq_right_right, false_or, Prod.exists]
    exact ⟨fun ⟨x, deps, h, hb, hx⟩ ↦ ⟨deps, hx ▸ h, hb⟩, fun ⟨deps, h, hb⟩ ↦ ⟨a, deps, h, hb, rfl⟩⟩

theorem foldlM_addDependency {g : DependencyGraph} {item : ItemType} {deps : ItemList}
    (hitem : item ∈ g.dependencies) (hdeps : "" ∉ deps) :
    ∃ g', (deps.map (Addition.addDependency item)).foldlM add g = some g' := by
  induction deps generalizing g with
  | nil => exact ⟨g, rfl⟩
  | cons dep deps ih =>
    rw [List.mem_cons, not_or] at hdeps
    have hdep : dep.isEmpty = false := by
      rw [Bool.eq_false_iff, Ne, String.isEmpty_iff]
      exact Ne.symm hdeps.1
    have hadd : g.add (.addDependency item dep) = some { g with
        graphState := .init
        dependencies :=
          g.dependencies.insert item (g.dependencies.getD item [] ++ [dep]) } := by
      show g.addDependency item dep = _
      have hcontains : g.dependencies.contains item = true := hitem
      unfold addDependency
      rw [hcontains, hdep, if_neg (not_not.mpr rfl), if_neg Bool.false_ne_true]
    rw [List.map_cons, List.foldlM_cons, hadd]
    exact ih (TreeMap.mem_insert.mpr (Or.inr hitem)) hdeps.2

/-- A table of distinct items without empty names is the table of a graph. -/
theorem build_additionsOf {table : List (ItemType × ItemList)}
    (hnodup : (table.map Prod.fst).Nodup)
    (hne : ∀ item deps, (item, deps) ∈ table → item ≠ "" ∧ "" ∉ deps) :
    ∃ g, build (additionsOf table) = some g := by
  induction table using List.reverseRecOn with
  | nil => exact ⟨new, rfl⟩
  | append_singleton table p ih =>
    obtain ⟨item, deps⟩ := p
    rw [List.map_append, List.nodup_append] at hnodup
    obtain ⟨g, hg⟩ := ih hnodup.1 fun a l h ↦ hne a l (List.mem_append_left _ h)
    obtain ⟨hitem, hdeps⟩ := hne item deps (by simp)
    have hnew : item ∉ g.dependencies := by
      rw [(build_spec hg).mem_iff, mem_added, mem_additionsOf.1]
      · exact fun hin ↦ hnodup.2.2 item hin item (by simp) rfl
      · exact item
    have hempty : item.isEmpty = false := by
      rw [Bool.eq_false_iff, Ne, String.isEmpty_iff]
      exact hitem
    have hadd : g.add (.addItem item) = some { g with
        graphState := .init
        dependencies := g.dependencies.insert item []
        reverseDependencies := g.reverseDependencies.insert item [] } := by
      show g.addItem item = _
      have hcontains : g.dependencies.contains item = false := Bool.eq_false_iff.mpr hnew
      unfold addItem
      rw [hcontains, hempty, if_neg Bool.false_ne_true, if_neg Bool.false_ne_true]
    have hsplit : additionsOf (table ++ [(item, deps)]) =
        additionsOf table ++ .addItem item :: deps.map (.addDependency item) := by
      simp [additionsOf]
    unfold build at hg ⊢
    rw [hsplit, List.foldlM_append, hg]
    show ∃ g', (g.add (.addItem item)).bind
      (fun g ↦ (deps.map (Addition.addDependency item)).foldlM add g) = some g'
    rw [hadd, Option.bind_some]
    exact foldlM_addDependency (TreeMap.mem_insert.mpr (Or.inl Std.ReflCmp.compare_self)) hdeps

/-- The graph of a table, after its check. -/
structure CheckedTable (table : List (ItemType × ItemList)) (result : Bool)
    (g : DependencyGraph) : Prop where
  checked : Checked g
  getSortedGraph : g.getSortedGraph = some g.inOrder
  mem_iff : ∀ a, a ∈ g.dependencies ↔ a ∈ table.map Prod.fst
  dependsOn_iff : ∀ a b, DependsOn g.dependencies a b ↔ ∃ deps, (a, deps) ∈ table ∧ b ∈ deps
  sorted : ∀ a ∈ table.map Prod.fst, ∃ l, g.getSortedDependencies a = some l ∧
    SortedFrom g.dependencies a l
  errorFree : result = true → ErrorFree g
  state : g.graphState = if result then .ready else .error
  result_iff : result = true ↔
    (∀ a deps, (a, deps) ∈ table → ∀ b ∈ deps, b ∈ table.map Prod.fst) ∧ Acyclic g.dependencies

/-! ### A graph that is added to and checked in turn -/

theorem check_of_ne_init {g : DependencyGraph} (h : g.graphState ≠ .init) :
    g.check = some (decide (g.graphState = .ready), g) := by
  unfold check
  rw [if_pos h]

theorem Reachable.spec {g : DependencyGraph} (h : Reachable g) :
    Wf g ∧ (g.graphState ≠ .init → Checked g) := by
  induction h with
  | new => exact ⟨wf_new, fun h ↦ absurd rfl h⟩
  | add addition _ hadd ih =>
    obtain ⟨hwf, hinit⟩ := ih.1.add hadd
    exact ⟨hwf, fun h ↦ absurd hinit h⟩
  | @check g g' result _ hcheck ih =>
    by_cases hinit : g.graphState = .init
    · obtain ⟨result', g'', hcheck', -, hwf, hchecked, -⟩ := check_spec ih.1 hinit
      obtain ⟨-, rfl⟩ : result' = result ∧ g'' = g' := by simpa [hcheck'] using hcheck
      exact ⟨hwf, fun _ ↦ hchecked⟩
    · rw [check_of_ne_init hinit] at hcheck
      obtain ⟨-, rfl⟩ : _ ∧ g = g' := by simpa using hcheck
      exact ih

theorem reachable_of_build {additions : List Addition} {g : DependencyGraph}
    (h : build additions = some g) : Reachable g := by
  unfold build at h
  induction additions using List.reverseRecOn generalizing g with
  | nil =>
    obtain rfl : new = g := by simpa using h
    exact Reachable.new
  | append_singleton additions addition ih =>
    rw [List.foldlM_append] at h
    obtain ⟨g₀, hg₀, hadd⟩ := Option.bind_eq_some_iff.mp h
    exact (ih hg₀).add addition (by simpa using hadd)

/-- A graph that is built and checked without errors. -/
theorem errorFree_of_build {additions : List Addition} {g : DependencyGraph}
    (h : (build additions).bind check = some (true, g)) : ErrorFree g := by
  obtain ⟨g₀, hg₀, hcheck⟩ := Option.bind_eq_some_iff.mp h
  refine ⟨(reachable_of_build hg₀).check hcheck, ?_⟩
  obtain ⟨result, g', hcheck', -, hstate, -⟩ := (build_spec hg₀).check
  obtain ⟨rfl, rfl⟩ : result = true ∧ g' = g := by simpa [hcheck'] using hcheck
  exact hstate

/-- The check of the graph of a table. -/
theorem check_additionsOf {table : List (ItemType × ItemList)}
    (hnodup : (table.map Prod.fst).Nodup)
    (hne : ∀ item deps, (item, deps) ∈ table → item ≠ "" ∧ "" ∉ deps) :
    ∃ result g, (build (additionsOf table)).bind check = some (result, g) ∧
      CheckedTable table result g := by
  obtain ⟨g₀, hg₀⟩ := build_additionsOf hnodup hne
  obtain ⟨result, g, hcheck, hchecked, hstate, hmem, hdepends, hresult⟩ := (build_spec hg₀).check
  have hmem' : ∀ a, a ∈ g.dependencies ↔ a ∈ table.map Prod.fst := fun a ↦ by
    rw [hmem, mem_added, (mem_additionsOf (b := a)).1]
  have hdepends' : ∀ a b, DependsOn g.dependencies a b ↔ ∃ deps, (a, deps) ∈ table ∧ b ∈ deps :=
    fun a b ↦ by
      rw [hdepends]
      exact mem_additionsOf.2
  have hasserted := assertChecked_of_checked hstate
  have hbind : (build (additionsOf table)).bind check = some (result, g) := by
    rw [hg₀, Option.bind_some, hcheck]
  refine ⟨result, g, hbind, hchecked, ?_, hmem', hdepends', fun a ha ↦ ?_, ?_, hstate, ?_⟩
  · unfold DependencyGraph.getSortedGraph
    rw [hasserted]
    rfl
  · obtain ⟨l, hl, hsorted⟩ := hchecked.sorted a ((hmem' a).mpr ha)
    refine ⟨l, ?_, hsorted⟩
    unfold getSortedDependencies
    rw [hasserted, hl]
    rfl
  · rintro rfl
    exact errorFree_of_build hbind
  · rw [hresult, ← hdepends]
    refine and_congr_left fun _ ↦ ?_
    constructor
    · intro h a deps hin b hb
      rw [← hmem', hmem]
      exact h a b (hdepends ▸ (hdepends' a b).mpr ⟨deps, hin, hb⟩)
    · intro h a b hab
      obtain ⟨deps, hin, hb⟩ := (hdepends' a b).mp hab
      rw [← hmem, hmem']
      exact h a deps hin b hb

/-! ### The graph of a map -/

section Map

variable {β : Type*} {m : TreeMap ItemType β} {deps : β → ItemList}

/-- The items of a map and the dependencies of each. -/
def tableOf (m : TreeMap ItemType β) (deps : β → ItemList) : List (ItemType × ItemList) :=
  m.toList.map fun (item, b) ↦ (item, deps b)

theorem mem_tableOf {item : ItemType} {l : ItemList} :
    (item, l) ∈ tableOf m deps ↔ ∃ b, m[item]? = some b ∧ deps b = l := by
  unfold tableOf
  rw [List.mem_map]
  constructor
  · rintro ⟨⟨item', b⟩, hmem, heq⟩
    cases heq
    exact ⟨b, TreeMap.mem_toList_iff_getElem?_eq_some.mp hmem, rfl⟩
  · rintro ⟨b, hb, rfl⟩
    exact ⟨(item, b), TreeMap.mem_toList_iff_getElem?_eq_some.mpr hb, rfl⟩

theorem tableOf_keys (m : TreeMap ItemType β) (deps : β → ItemList) :
    (tableOf m deps).map Prod.fst = m.keys := by
  unfold tableOf
  rw [List.map_map, ← TreeMap.map_fst_toList_eq_keys]
  rfl

/-- The graph of a map, after its check. -/
structure CheckedMap (m : TreeMap ItemType β) (deps : β → ItemList) (result : Bool)
    (g : DependencyGraph) : Prop where
  checked : Checked g
  getSortedGraph : g.getSortedGraph = some g.inOrder
  mem_iff : ∀ a, a ∈ g.dependencies ↔ a ∈ m
  dependsOn_iff : ∀ a b, DependsOn g.dependencies a b ↔ ∃ x, m[a]? = some x ∧ b ∈ deps x
  sorted : ∀ a ∈ m, ∃ l, g.getSortedDependencies a = some l ∧ SortedFrom g.dependencies a l
  errorFree : result = true → ErrorFree g
  state : g.graphState = if result then .ready else .error
  result_iff : result = true ↔
    (∀ (a : ItemType) (x : β), m[a]? = some x → ∀ b ∈ deps x, b ∈ m) ∧ Acyclic g.dependencies

/-- The check of the graph of a map. -/
theorem check_tableOf
    (hne : ∀ (a : ItemType) (x : β), m[a]? = some x → a ≠ "" ∧ "" ∉ deps x) :
    ∃ result g, (build (additionsOf (tableOf m deps))).bind check = some (result, g) ∧
      CheckedMap m deps result g := by
  have hkeys : ∀ a, a ∈ (tableOf m deps).map Prod.fst ↔ a ∈ m := fun a ↦ by
    rw [tableOf_keys]
    exact TreeMap.mem_keys
  have hnodup : ((tableOf m deps).map Prod.fst).Nodup := by
    rw [tableOf_keys]
    exact TreeMap.nodup_keys
  obtain ⟨result, g, hbuild, hg⟩ := check_additionsOf hnodup (by
    intro a l hin
    obtain ⟨x, hx, rfl⟩ := mem_tableOf.mp hin
    exact hne a x hx)
  refine ⟨result, g, hbuild, hg.checked, hg.getSortedGraph, fun a ↦ ?_, fun a b ↦ ?_,
    fun a ha ↦ hg.sorted a ((hkeys a).mpr ha), hg.errorFree, hg.state, ?_⟩
  · rw [hg.mem_iff, hkeys]
  · rw [hg.dependsOn_iff]
    constructor
    · rintro ⟨l, hin, hb⟩
      obtain ⟨x, hx, rfl⟩ := mem_tableOf.mp hin
      exact ⟨x, hx, hb⟩
    · rintro ⟨x, hx, hb⟩
      exact ⟨deps x, mem_tableOf.mpr ⟨x, hx, rfl⟩, hb⟩
  · rw [hg.result_iff]
    refine and_congr_left fun _ ↦ ?_
    constructor
    · intro h a x hx b hb
      exact (hkeys b).mp (h a _ (mem_tableOf.mpr ⟨x, hx, rfl⟩) b hb)
    · intro h a l hin b hb
      obtain ⟨x, hx, rfl⟩ := mem_tableOf.mp hin
      exact (hkeys b).mpr (h a x hx b hb)

end Map

section ErrorFree

variable {g : DependencyGraph} (h : ErrorFree g)
include h

theorem ErrorFree.checked : Checked g := h.1.spec.2 (by rw [h.2]; exact GraphState.noConfusion)

theorem ErrorFree.allKnown : AllKnown g.dependencies := (h.checked.ready h.2).1

/-- The sorted graph of a graph without errors lists the items in dependency
order. -/
theorem ErrorFree.ordered : Ordered (DependsOn g.dependencies) g.inOrder :=
  (h.checked.ready h.2).2

theorem ErrorFree.assertChecked : g.assertChecked true = some () :=
  @assertChecked_of_checked g true h.2

theorem ErrorFree.getSortedGraph : g.getSortedGraph = some g.inOrder := by
  unfold DependencyGraph.getSortedGraph
  rw [h.assertChecked]
  rfl

theorem ErrorFree.getDirectDependencies {item : ItemType} (hitem : item ∈ g.inOrder) :
    ∃ deps, g.getDirectDependencies item = some deps ∧
      ∀ b, b ∈ deps ↔ DependsOn g.dependencies item b := by
  have hmem := (h.checked.mem_inOrder item).mp hitem
  obtain ⟨deps, hdeps⟩ := Option.isSome_iff_exists.mp (TreeMap.mem_iff_isSome_getElem?.mp hmem)
  unfold DependencyGraph.getDirectDependencies DependsOn
  rw [h.assertChecked, TreeMap.getD_eq_getD_getElem?, hdeps]
  exact ⟨deps, rfl, fun b ↦ Iff.rfl⟩

theorem ErrorFree.mem_directDependencies {item : ItemType} {deps : ItemList}
    (hdeps : g.getDirectDependencies item = some deps) (b : ItemType) :
    b ∈ deps ↔ DependsOn g.dependencies item b := by
  unfold DependencyGraph.getDirectDependencies at hdeps
  rw [h.assertChecked] at hdeps
  have hget : g.dependencies[item]? = some deps := hdeps
  unfold DependsOn
  rw [TreeMap.getD_eq_getD_getElem?, hget, Option.getD_some]

theorem ErrorFree.getReverseDependencies {item : ItemType} (hitem : item ∈ g.inOrder) :
    ∃ rdeps, g.getReverseDependencies item = some rdeps ∧
      ∀ b, b ∈ rdeps ↔ DependsOn g.dependencies b item := by
  have hmem := h.1.spec.1.reverse_known item ((h.checked.mem_inOrder item).mp hitem)
  obtain ⟨rdeps, hrdeps⟩ := Option.isSome_iff_exists.mp (TreeMap.mem_iff_isSome_getElem?.mp hmem)
  have hiff := h.checked.reverse_iff item
  rw [TreeMap.getD_eq_getD_getElem?, hrdeps] at hiff
  unfold DependencyGraph.getReverseDependencies
  rw [h.assertChecked, hrdeps]
  exact ⟨rdeps, rfl, hiff⟩

theorem ErrorFree.mem_inOrder_left {a b : ItemType} (hab : DependsOn g.dependencies a b) :
    a ∈ g.inOrder := (h.checked.mem_inOrder a).mpr hab.mem

end ErrorFree

end Abuild.DependencyGraph
