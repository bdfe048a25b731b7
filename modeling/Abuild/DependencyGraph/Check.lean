import Abuild.DependencyGraph.Traversal

/-!
What `check` establishes. It adds a root that depends on every item, sorts from
every item, and takes the sort from the root, without the root, as the sorted
graph. The root has no dependents, so the searches from the other items are
searches of the graph itself (`searched_addRoot`), and the search from the root
finishes every item (`root_searched`). The graph has no errors exactly when no
search logged an edge it did not follow, which is when every dependency names an
item and no item depends on itself (`eventsFrom_addRoot_eq_nil_iff`).
`check_spec` collects what a check computes, on any graph that legal calls lead
to.
-/

set_option autoImplicit false
set_option relaxedAutoImplicit false

namespace Abuild.DependencyGraph

open Std (TreeMap TreeSet)
open DepthFirst Relation Precedence

/-- `a` lists `b` among its dependencies. -/
def DependsOn (dependencies : ItemMap) (a b : ItemType) : Prop := b ∈ dependencies.getD a []

theorem edge_iff_dependsOn {dependencies : ItemMap} {a b : ItemType} :
    Edge (next dependencies) a b ↔ DependsOn dependencies a b := by
  unfold Edge DependsOn next
  rw [TreeMap.getD_eq_getD_getElem?]
  cases dependencies[a]? <;> simp

theorem edge_eq_dependsOn (dependencies : ItemMap) :
    Edge (next dependencies) = DependsOn dependencies := by
  ext a b
  exact edge_iff_dependsOn

theorem DependsOn.mem {dependencies : ItemMap} {a b : ItemType} (h : DependsOn dependencies a b) :
    a ∈ dependencies := (known_next _ a).mp (edge_iff_dependsOn.mpr h).known

/-- Neither an item nor a dependency is the empty string. -/
structure Proper (dependencies : ItemMap) : Prop where
  item_ne : "" ∉ dependencies
  dep_ne : ∀ a b, DependsOn dependencies a b → b ≠ ""

/-- What is asked of a list of sorted dependencies of `item`. -/
structure SortedFrom (dependencies : ItemMap) (item : ItemType) (sorted : ItemList) : Prop where
  nodup : sorted.Nodup
  last : sorted.getLast? = some item
  mem_iff : ∀ b, b ∈ sorted ↔ b ∈ dependencies ∧ ReflTransGen (DependsOn dependencies) item b
  ordered : (∀ b, ReflTransGen (DependsOn dependencies) item b →
      ¬ TransGen (DependsOn dependencies) b b) →
    Ordered (fun b c ↦ DependsOn dependencies b c ∧ c ∈ dependencies) sorted

/-- Every dependency names an item. -/
def AllKnown (dependencies : ItemMap) : Prop :=
  ∀ a b, DependsOn dependencies a b → b ∈ dependencies

/-- No item depends on itself, directly or not. -/
def Acyclic (dependencies : ItemMap) : Prop := ∀ a, ¬ TransGen (DependsOn dependencies) a a

/-! ### The graph with a root -/

section Root

variable {dependencies : ItemMap}

theorem getElem?_addRoot {a : ItemType} (ha : a ≠ "") :
    (addRoot dependencies)[a]? = dependencies[a]? := by
  unfold addRoot
  rw [TreeMap.getElem?_insert, TreeMap.getElem?_insert]
  simp [Ne.symm ha]

theorem mem_addRoot {a : ItemType} : a ∈ addRoot dependencies ↔ a = "" ∨ a ∈ dependencies := by
  unfold addRoot
  rw [TreeMap.mem_insert, TreeMap.mem_insert, compare_eq_iff_eq, eq_comm (a := ""),
    ← or_assoc, or_self]

theorem dependsOn_addRoot_root {b : ItemType} :
    DependsOn (addRoot dependencies) "" b ↔ b ∈ dependencies ∧ b ≠ "" := by
  unfold DependsOn addRoot
  rw [TreeMap.getD_insert_self, List.mem_filter, TreeMap.mem_keys, TreeMap.mem_insert]
  simp only [compare_eq_iff_eq, ne_eq, decide_not, Bool.not_eq_true', decide_eq_false_iff_not]
  constructor
  · rintro ⟨rfl | hb, hne⟩
    · exact absurd rfl hne
    · exact ⟨hb, hne⟩
  · rintro ⟨hb, hne⟩
    exact ⟨Or.inr hb, hne⟩

theorem dependsOn_addRoot {a b : ItemType} (ha : a ≠ "") :
    DependsOn (addRoot dependencies) a b ↔ DependsOn dependencies a b := by
  unfold DependsOn
  rw [TreeMap.getD_eq_getD_getElem?, TreeMap.getD_eq_getD_getElem?, getElem?_addRoot ha]

/-- Nothing depends on the root. -/
theorem DependsOn.ne_root (hproper : Proper dependencies) {a b : ItemType}
    (h : DependsOn (addRoot dependencies) a b) : b ≠ "" := by
  by_cases ha : a = ""
  · subst ha
    exact (dependsOn_addRoot_root.mp h).2
  · exact hproper.dep_ne a b ((dependsOn_addRoot ha).mp h)

theorem transGen_addRoot (hproper : Proper dependencies) {a b : ItemType} (ha : a ≠ "") :
    TransGen (DependsOn (addRoot dependencies)) a b ↔ TransGen (DependsOn dependencies) a b := by
  constructor
  · intro h
    induction h with
    | single hb => exact TransGen.single ((dependsOn_addRoot ha).mp hb)
    | tail hprefix hstep ih =>
      obtain ⟨c, -, hc⟩ := TransGen.tail'_iff.mp hprefix
      exact ih.tail ((dependsOn_addRoot (hc.ne_root hproper)).mp hstep)
  · intro h
    induction h with
    | single hb => exact TransGen.single ((dependsOn_addRoot ha).mpr hb)
    | tail hprefix hstep ih =>
      obtain ⟨c, -, hc⟩ := TransGen.tail'_iff.mp ih
      exact ih.tail ((dependsOn_addRoot (hc.ne_root hproper)).mpr hstep)

theorem reflTransGen_addRoot (hproper : Proper dependencies) {a b : ItemType} (ha : a ≠ "") :
    ReflTransGen (DependsOn (addRoot dependencies)) a b ↔
      ReflTransGen (DependsOn dependencies) a b := by
  rw [reflTransGen_iff_eq_or_transGen, reflTransGen_iff_eq_or_transGen,
    transGen_addRoot hproper ha]

/-- The sort from an item of the graph does not see the root. -/
theorem searched_addRoot (hproper : Proper dependencies) {item : ItemType}
    (hitem : item ∈ dependencies) :
    SortedFrom dependencies item (searchFrom (addRoot dependencies) item).result := by
  have hne : item ≠ "" := fun h ↦ hproper.item_ne (h ▸ hitem)
  obtain ⟨-, hsearched⟩ := search_eq_searchFrom (mem_addRoot.mpr (Or.inr hitem))
  have hreach_ne : ∀ b, ReflTransGen (DependsOn dependencies) item b → b ≠ "" := by
    intro b hb
    rcases ReflTransGen.cases_tail hb with rfl | ⟨c, -, hc⟩
    · exact hne
    · exact hproper.dep_ne c b hc
  refine ⟨hsearched.valid.result_nodup, hsearched.last, fun b ↦ ?_, fun hacyclic ↦ ?_⟩
  · rw [hsearched.mem_result, known_next, edge_eq_dependsOn, reflTransGen_addRoot hproper hne,
      mem_addRoot]
    constructor
    · rintro ⟨rfl | hb, hreach⟩
      · exact absurd rfl (hreach_ne _ hreach)
      · exact ⟨hb, hreach⟩
    · rintro ⟨hb, hreach⟩
      exact ⟨Or.inr hb, hreach⟩
  · have hordered := hsearched.ordered_of_acyclic (by
      rw [edge_eq_dependsOn]
      intro b hb
      rw [reflTransGen_addRoot hproper hne] at hb
      rw [transGen_addRoot hproper (hreach_ne b hb)]
      exact hacyclic b hb)
    refine hordered.mono fun b c hb ⟨hbc, hc⟩ ↦ ⟨edge_iff_dependsOn.mpr ?_, ?_⟩
    · have hbreach := ((hsearched.mem_result b).mp hb).2
      rw [edge_eq_dependsOn, reflTransGen_addRoot hproper hne] at hbreach
      exact (dependsOn_addRoot (hreach_ne b hbreach)).mpr hbc
    · exact (known_next _ c).mpr (mem_addRoot.mpr (Or.inr hc))

/-- The sort from the root finishes every item, and the root last. -/
theorem root_searched (hproper : Proper dependencies) :
    ∃ inOrder, (searchFrom (addRoot dependencies) "").result = inOrder ++ [""] ∧
      inOrder.Nodup ∧ (∀ a, a ∈ inOrder ↔ a ∈ dependencies) ∧
      ((searchFrom (addRoot dependencies) "").events = [] →
        AllKnown dependencies ∧ Ordered (DependsOn dependencies) inOrder) := by
  have hroot : "" ∈ addRoot dependencies := mem_addRoot.mpr (Or.inl rfl)
  obtain ⟨-, hsearched⟩ := search_eq_searchFrom hroot
  obtain ⟨inOrder, hresult⟩ := List.getLast?_eq_some_iff.mp hsearched.last
  have hnodup : (inOrder ++ [""]).Nodup := hresult ▸ hsearched.valid.result_nodup
  have hroot : "" ∉ inOrder := fun h ↦
    (List.nodup_append.mp hnodup).2.2 "" h "" (by simp) rfl
  have hmem : ∀ a, a ∈ inOrder ↔ a ∈ dependencies := by
    intro a
    have hiff := hsearched.mem_result a
    rw [hresult, List.mem_append, List.mem_singleton, known_next, mem_addRoot] at hiff
    constructor
    · intro ha
      rcases (hiff.mp (Or.inl ha)).1 with rfl | hmem
      · exact absurd ha hroot
      · exact hmem
    · intro ha
      have hne : a ≠ "" := fun h ↦ hproper.item_ne (h ▸ ha)
      have hedge : Edge (next (addRoot dependencies)) "" a :=
        edge_iff_dependsOn.mpr (dependsOn_addRoot_root.mpr ⟨ha, hne⟩)
      exact (hiff.mpr ⟨Or.inr ha, ReflTransGen.single hedge⟩).resolve_right hne
  refine ⟨inOrder, hresult, hnodup.of_append_left, hmem, fun hevents ↦ ?_⟩
  -- No edge is in the log, so every edge leads to an item finished before.
  have hbefore : ∀ before a after, inOrder ++ [""] = before ++ a :: after →
      ∀ b, DependsOn (addRoot dependencies) a b → b ∈ before ∧ b ∈ addRoot dependencies := by
    intro before a after hsplit b hb
    obtain ⟨path, hanswered⟩ := hsearched.valid.explored before a after (hresult ▸ hsplit) b
      (edge_iff_dependsOn.mpr hb)
    rw [hevents] at hanswered
    by_cases hknown : Known (next (addRoot dependencies)) b
    · refine ⟨(hanswered.1 hknown).resolve_right (by simp), (known_next _ b).mp hknown⟩
    · exact absurd (hanswered.2 hknown) (by simp)
  constructor
  · intro a b hab
    have hne : a ≠ "" := fun h ↦ hproper.item_ne (h ▸ hab.mem)
    obtain ⟨before, after, hsplit⟩ := List.append_of_mem ((hmem a).mpr hab.mem)
    have hb := (hbefore before a (after ++ [""]) (by simp [hsplit]) b
      ((dependsOn_addRoot hne).mpr hab)).2
    exact (mem_addRoot.mp hb).resolve_left (hproper.dep_ne a b hab)
  · intro before a after hsplit b hab
    have ha : a ∈ dependencies := (hmem a).mp (by simp [hsplit])
    have hne : a ≠ "" := fun h ↦ hproper.item_ne (h ▸ ha)
    exact (hbefore before a (after ++ [""]) (by simp [hsplit]) b
      ((dependsOn_addRoot hne).mpr hab)).1

/-- The searches log nothing exactly when the graph has no errors. -/
theorem eventsFrom_addRoot_eq_nil_iff (hproper : Proper dependencies) :
    eventsFrom (addRoot dependencies) (addRoot dependencies).keys = [] ↔
      AllKnown dependencies ∧ Acyclic dependencies := by
  have hkeys : ∀ a, a ∈ (addRoot dependencies).keys ↔ a ∈ addRoot dependencies :=
    fun a ↦ TreeMap.mem_keys
  unfold eventsFrom
  rw [List.flatMap_eq_nil_iff]
  constructor
  · intro hevents
    obtain ⟨inOrder, -, -, hmem, herrors⟩ := root_searched hproper
    obtain ⟨hknown, hordered⟩ :=
      herrors (hevents "" ((hkeys "").mpr (mem_addRoot.mpr (Or.inl rfl))))
    refine ⟨hknown, fun a ha ↦ ?_⟩
    obtain ⟨b, hab, -⟩ := TransGen.head'_iff.mp ha
    exact hordered.acyclic ((hmem a).mpr hab.mem) ha
  · rintro ⟨hknown, hacyclic⟩ item hitem
    obtain ⟨-, hsearched⟩ := search_eq_searchFrom ((hkeys item).mp hitem)
    rw [List.eq_nil_iff_forall_not_mem]
    intro event hevent
    have hreal := hsearched.valid.events_real event hevent
    cases event with
    | unknown path b =>
      obtain ⟨hunknown, hpath, hchain⟩ := hreal
      rw [edge_eq_dependsOn] at hchain
      obtain ⟨rest, a, rfl⟩ := (List.eq_nil_or_concat path).resolve_left hpath
      have hab : DependsOn (addRoot dependencies) a b := by
        have hlast := (List.isChain_append.mp hchain).2.2
        simpa using hlast
      apply hunknown
      rw [known_next, mem_addRoot]
      by_cases ha : a = ""
      · subst ha
        exact Or.inr (dependsOn_addRoot_root.mp hab).1
      · exact Or.inr (hknown a b ((dependsOn_addRoot ha).mp hab))
    | back path b =>
      have hcycle := hreal.cycle
      rw [edge_eq_dependsOn] at hcycle
      obtain ⟨c, -, hc⟩ := TransGen.tail'_iff.mp hcycle
      exact hacyclic b ((transGen_addRoot hproper (hc.ne_root hproper)).mp hcycle)

end Root

/-! ### The report -/

/-- A string that stands for an error is kept only when the error is. -/
structure Report.Consistent (r : Report) : Prop where
  unknowns : ∀ s, s ∈ r.unknownsSeen → r.unknowns.isEmpty = false
  cycles : ∀ s, s ∈ r.cyclesSeen → r.cycles ≠ []
  unknowns_ne : ∀ (a : ItemType) (l : ItemList), r.unknowns[a]? = some l → l ≠ []

theorem addUnknown_spec {r r' : Report} {path : ItemList} {item : ItemType} (h : r.Consistent)
    (hr : r.addUnknown path item = some r') :
    r'.Consistent ∧ r'.unknowns.isEmpty = false ∧ r'.cycles = r.cycles := by
  obtain ⟨back, -, hr⟩ := Option.bind_eq_some_iff.mp hr
  dsimp only at hr
  split_ifs at hr with hseen
  · cases hr
    exact ⟨h, h.unknowns _ hseen, rfl⟩
  · cases hr
    refine ⟨⟨fun _ _ ↦ TreeMap.isEmpty_insert, h.cycles, fun a l hl ↦ ?_⟩, TreeMap.isEmpty_insert,
      rfl⟩
    rw [TreeMap.getElem?_insert] at hl
    split_ifs at hl
    · obtain rfl := Option.some_inj.mp hl
      simp
    · exact h.unknowns_ne a l hl

theorem addCycle_spec {r r' : Report} {path : ItemList} {item : ItemType} (h : r.Consistent)
    (hr : r.addCycle path item = some r') :
    r'.Consistent ∧ r'.cycles ≠ [] ∧ r'.unknowns = r.unknowns := by
  obtain ⟨front, -, hr⟩ := Option.bind_eq_some_iff.mp hr
  dsimp only at hr
  split_ifs at hr with hseen
  · cases hr
    exact ⟨h, h.cycles _ hseen, rfl⟩
  · cases hr
    exact ⟨⟨h.unknowns, by simp, h.unknowns_ne⟩, by simp, rfl⟩

/-- A report has no errors. -/
def Report.Empty (r : Report) : Prop := r.unknowns.isEmpty = true ∧ r.cycles = []

theorem record_spec {r r' : Report} {event : DepthFirst.Event ItemType} (h : r.Consistent)
    (hr : r.record event = some r') : r'.Consistent ∧ ¬ r'.Empty := by
  cases event with
  | unknown path item =>
    obtain ⟨hconsistent, hunknowns, -⟩ := addUnknown_spec h hr
    refine ⟨hconsistent, fun hempty ↦ ?_⟩
    rw [hempty.1] at hunknowns
    exact Bool.noConfusion hunknowns
  | back path item =>
    obtain ⟨hconsistent, hcycles, -⟩ := addCycle_spec h hr
    exact ⟨hconsistent, fun hempty ↦ hcycles hempty.2⟩

theorem foldlM_record_consistent {r r' : Report} (events : List (DepthFirst.Event ItemType))
    (h : r.Consistent) (hr : events.foldlM Report.record r = some r') : r'.Consistent := by
  induction events generalizing r with
  | nil =>
    obtain rfl : r = r' := by simpa using hr
    exact h
  | cons event events ih =>
    rw [List.foldlM_cons] at hr
    obtain ⟨w, hw, hrest⟩ := Option.bind_eq_some_iff.mp hr
    exact ih (record_spec h hw).1 hrest

/-- A log that is played back leaves a report without errors only if it is
empty. -/
theorem foldlM_record_empty_iff {r r' : Report} (events : List (DepthFirst.Event ItemType))
    (h : r.Consistent) (hr : events.foldlM Report.record r = some r') :
    r'.Empty ↔ r.Empty ∧ events = [] := by
  rcases List.eq_nil_or_concat' events with rfl | ⟨events, event, rfl⟩
  · obtain rfl : r = r' := by simpa using hr
    simp
  · -- the last event leaves an error
    rw [List.foldlM_append] at hr
    obtain ⟨u, hu, hlast⟩ := Option.bind_eq_some_iff.mp hr
    have hrecord : u.record event = some r' := by simpa using hlast
    refine iff_of_false (record_spec (foldlM_record_consistent events h hu) hrecord).2 ?_
    simp

/-! ### The tables -/

theorem getElem?_orderItems (itemOrder : TreeMap ItemType ℕ) {inOrder : ItemList}
    (hnodup : inOrder.Nodup) (a : ItemType) :
    (orderItems itemOrder inOrder)[a]? =
      if a ∈ inOrder then some (inOrder.idxOf a + 1) else itemOrder[a]? := by
  have hfold : ∀ (l : ItemList) (order : TreeMap ItemType ℕ) (pos : ℕ), l.Nodup →
      (l.foldl (fun (x : TreeMap ItemType ℕ × ℕ) item ↦ (x.1.insert item (x.2 + 1), x.2 + 1))
        (order, pos)).1[a]? = if a ∈ l then some (pos + l.idxOf a + 1) else order[a]? := by
    intro l
    induction l with
    | nil => simp
    | cons item l ih =>
      intro order pos hl
      obtain ⟨hitem, hl⟩ := List.nodup_cons.mp hl
      rw [List.foldl_cons, ih _ _ hl, TreeMap.getElem?_insert]
      by_cases ha : a ∈ l
      · have hne : item ≠ a := fun h ↦ hitem (h ▸ ha)
        simp [ha, List.idxOf_cons_ne _ hne]
        omega
      · by_cases haitem : item = a
        · subst haitem
          simp [ha]
        · simp [ha, haitem, Ne.symm haitem]
  have h := hfold inOrder itemOrder 0 hnodup
  rw [Nat.zero_add] at h
  exact h

theorem mem_getD_reverseItem (reverse : ItemMap) (item : ItemType) (deps : ItemList)
    (a b : ItemType) :
    b ∈ (reverseItem reverse item deps).getD a [] ↔
      b ∈ reverse.getD a [] ∨ (b = item ∧ a ∈ deps) := by
  unfold reverseItem
  induction deps generalizing reverse with
  | nil => simp
  | cons dep deps ih =>
    rw [List.foldl_cons, ih, TreeMap.getD_insert]
    by_cases ha : dep = a
    · subst ha
      simp [or_assoc]
      tauto
    · simp [ha, Ne.symm ha]

theorem mem_foldl_reverseItem {table : List (ItemType × ItemList)} {reverse : ItemMap}
    {a : ItemType} (ha : a ∈ reverse) :
    a ∈ table.foldl (fun reverse (x : ItemType × ItemList) ↦ reverseItem reverse x.1 x.2)
      reverse := by
  have hitem : ∀ (deps : ItemList) (item : ItemType) (reverse : ItemMap), a ∈ reverse →
      a ∈ reverseItem reverse item deps := by
    intro deps item
    induction deps with
    | nil => exact fun _ h ↦ h
    | cons dep deps ih =>
      intro reverse h
      exact ih _ (TreeMap.mem_insert.mpr (Or.inr h))
  induction table generalizing reverse with
  | nil => exact ha
  | cons row table ih => exact ih (hitem row.2 row.1 reverse ha)

/-- The table of reverse dependencies gains the reverse of every dependency. -/
theorem mem_getD_foldl_reverseItem (table : List (ItemType × ItemList)) (reverse : ItemMap)
    (a b : ItemType) :
    b ∈ (table.foldl (fun reverse (x : ItemType × ItemList) ↦ reverseItem reverse x.1 x.2)
        reverse).getD a [] ↔
      b ∈ reverse.getD a [] ∨ ∃ deps, (b, deps) ∈ table ∧ a ∈ deps := by
  induction table generalizing reverse with
  | nil => simp
  | cons row table ih =>
    rw [List.foldl_cons, ih, mem_getD_reverseItem]
    constructor
    · rintro ((hb | ⟨rfl, ha⟩) | ⟨deps, hdeps, ha⟩)
      · exact Or.inl hb
      · exact Or.inr ⟨row.2, by simp, ha⟩
      · exact Or.inr ⟨deps, List.mem_cons_of_mem _ hdeps, ha⟩
    · rintro (hb | ⟨deps, hdeps, ha⟩)
      · exact Or.inl (Or.inl hb)
      · rcases List.mem_cons.mp hdeps with rfl | hdeps
        · exact Or.inl (Or.inr ⟨rfl, ha⟩)
        · exact Or.inr ⟨deps, hdeps, ha⟩

/-! ### What a check computes -/

/-- What legal calls keep of a graph, checked or not. -/
structure Wf (g : DependencyGraph) : Prop where
  proper : Proper g.dependencies
  reverse_sound : ∀ a b, b ∈ g.reverseDependencies.getD a [] → DependsOn g.dependencies b a
  reverse_known : ∀ a ∈ g.dependencies, a ∈ g.reverseDependencies
  unknowns_ne : ∀ (a : ItemType) (l : ItemList), g.unknowns[a]? = some l → l ≠ []

/-- What the tables of a checked graph hold. -/
structure Checked (g : DependencyGraph) : Prop where
  sorted : ∀ a ∈ g.dependencies, ∃ l, g.sortedDependencies[a]? = some l ∧
    SortedFrom g.dependencies a l
  reverse_iff : ∀ a b, b ∈ g.reverseDependencies.getD a [] ↔ DependsOn g.dependencies b a
  nodup : g.inOrder.Nodup
  mem_inOrder : ∀ a, a ∈ g.inOrder ↔ a ∈ g.dependencies
  itemOrder : ∀ a ∈ g.dependencies, g.itemOrder[a]? = some (g.inOrder.idxOf a + 1)
  ready : g.graphState = .ready →
    AllKnown g.dependencies ∧ Ordered (DependsOn g.dependencies) g.inOrder
  reported : g.graphState = .error →
    (∃ (a : ItemType) (l : ItemList), g.unknowns[a]? = some l ∧ l ≠ []) ∨ g.cycles ≠ []

theorem dependsOn_congr {d d' : ItemMap} (h : ∀ a : ItemType, d'[a]? = d[a]?) :
    DependsOn d' = DependsOn d := by
  ext a b
  unfold DependsOn
  rw [TreeMap.getD_eq_getD_getElem?, TreeMap.getD_eq_getD_getElem?, h]

theorem mem_congr {d d' : ItemMap} (h : ∀ a : ItemType, d'[a]? = d[a]?) (a : ItemType) :
    a ∈ d' ↔ a ∈ d := by
  rw [TreeMap.mem_iff_isSome_getElem?, TreeMap.mem_iff_isSome_getElem?, h]

theorem SortedFrom.congr {d d' : ItemMap} (h : ∀ a : ItemType, d'[a]? = d[a]?) {item : ItemType}
    {l : ItemList} (hl : SortedFrom d item l) : SortedFrom d' item l where
  nodup := hl.nodup
  last := hl.last
  mem_iff b := by rw [dependsOn_congr h, mem_congr h, hl.mem_iff]
  ordered hacyclic := by
    rw [dependsOn_congr h] at hacyclic ⊢
    refine (hl.ordered hacyclic).mono fun b c _ ⟨hbc, hc⟩ ↦ ⟨hbc, (mem_congr h c).mp hc⟩

/-- Every item's list of sorted dependencies is the search from it, and the
errors are those that the searches log. -/
theorem topologicalSort_spec {g : DependencyGraph} (h : Wf g) :
    ∃ (sorted : ItemMap) (report : Report),
      topologicalSort { g with dependencies := addRoot g.dependencies } =
        some { g with
          dependencies := addRoot g.dependencies
          sortedDependencies := sorted
          unknowns := report.unknowns
          cycles := report.cycles } ∧
      (∀ a, a ∈ addRoot g.dependencies →
        sorted[a]? = some (searchFrom (addRoot g.dependencies) a).result) ∧
      report.Consistent ∧
      (report.Empty ↔ (g.unknowns.isEmpty = true ∧ g.cycles = []) ∧
        eventsFrom (addRoot g.dependencies) (addRoot g.dependencies).keys = []) := by
  obtain ⟨sorted, report, hfold, hsorted, hevents⟩ := foldlM_sortFrom
    (addRoot g.dependencies).keys (fun a ha ↦ TreeMap.mem_keys.mp ha) g.sortedDependencies
    ⟨∅, ∅, g.unknowns, g.cycles⟩
  have hconsistent : Report.Consistent ⟨∅, ∅, g.unknowns, g.cycles⟩ :=
    ⟨fun s hs ↦ absurd hs (by simp), fun s hs ↦ absurd hs (by simp), h.unknowns_ne⟩
  refine ⟨sorted, report, ?_, fun a ha ↦ ?_, foldlM_record_consistent _ hconsistent hevents, ?_⟩
  · unfold topologicalSort
    rw [hfold]
    rfl
  · rw [hsorted, if_pos (TreeMap.mem_keys.mpr ha)]
  · rw [foldlM_record_empty_iff _ hconsistent hevents]
    rfl

/-- The reverse table of a check: the old one with the reverse of every
dependency. -/
theorem mem_reverse_toList {d : ItemMap} {reverse : ItemMap}
    (hsound : ∀ a b, b ∈ reverse.getD a [] → DependsOn d b a) (a b : ItemType) :
    b ∈ (d.toList.foldl (fun reverse (item, deps) ↦ reverseItem reverse item deps) reverse).getD
      a [] ↔ DependsOn d b a := by
  rw [mem_getD_foldl_reverseItem]
  constructor
  · rintro (hb | ⟨deps, hdeps, ha⟩)
    · exact hsound a b hb
    · rw [TreeMap.mem_toList_iff_getElem?_eq_some] at hdeps
      unfold DependsOn
      rw [TreeMap.getD_eq_getD_getElem?, hdeps]
      exact ha
  · intro hb
    unfold DependsOn at hb
    rw [TreeMap.getD_eq_getD_getElem?] at hb
    cases hget : d[b]? with
    | none => simp [hget] at hb
    | some deps =>
      refine Or.inr ⟨deps, ?_, by simpa [hget] using hb⟩
      rw [TreeMap.mem_toList_iff_getElem?_eq_some, hget]

theorem getElem?_erase_addRoot {d : ItemMap} (h : "" ∉ d) (a : ItemType) :
    ((addRoot d).erase "")[a]? = d[a]? := by
  rw [TreeMap.getElem?_erase]
  by_cases ha : a = ""
  · subst ha
    simp [TreeMap.getElem?_eq_none h]
  · simp [Ne.symm ha, getElem?_addRoot ha]

/-- What the searches of a check log. -/
def foundEvents (dependencies : ItemMap) : List (DepthFirst.Event ItemType) :=
  eventsFrom (addRoot dependencies) (addRoot dependencies).keys

/-- The items of a graph as the search from the root finishes them. -/
def sortedItems (dependencies : ItemMap) : ItemList :=
  (searchFrom (addRoot dependencies) "").result.dropLast

/-- A check, by what it stores. -/
theorem check_eq {g : DependencyGraph} (hproper : Proper g.dependencies)
    (hinit : g.graphState = .init) :
    ∃ (sorted : ItemMap) (report : Report) (g' : DependencyGraph),
      g.check = some (decide (g'.graphState = .ready), g') ∧
      (∀ a, sorted[a]? = if a ∈ addRoot g.dependencies then
        some (searchFrom (addRoot g.dependencies) a).result else g.sortedDependencies[a]?) ∧
      (foundEvents g.dependencies).foldlM Report.record ⟨∅, ∅, g.unknowns, g.cycles⟩ =
        some report ∧
      g' = { g with
        graphState := if report.unknowns.isEmpty ∧ report.cycles.isEmpty then .ready else .error
        dependencies := (addRoot g.dependencies).erase ""
        sortedDependencies := sorted.erase ""
        inOrder := sortedItems g.dependencies
        itemOrder := orderItems g.itemOrder (sortedItems g.dependencies)
        reverseDependencies := ((addRoot g.dependencies).erase "").toList.foldl
          (fun reverse (item, deps) ↦ reverseItem reverse item deps) g.reverseDependencies
        unknowns := report.unknowns
        cycles := report.cycles } := by
  obtain ⟨sorted, report, hfold, hsorted, hevents⟩ := foldlM_sortFrom
    (addRoot g.dependencies).keys (fun a ha ↦ TreeMap.mem_keys.mp ha) g.sortedDependencies
    ⟨∅, ∅, g.unknowns, g.cycles⟩
  simp only [TreeMap.mem_keys] at hsorted
  have hroot : "" ∈ addRoot g.dependencies := mem_addRoot.mpr (Or.inl rfl)
  have hlast := (search_eq_searchFrom hroot).2.last
  have hget : sorted.getD "" [] = (searchFrom (addRoot g.dependencies) "").result := by
    rw [TreeMap.getD_eq_getD_getElem?, hsorted, if_pos hroot, Option.getD_some]
  have hsort : topologicalSort { g with dependencies := addRoot g.dependencies } = some { g with
      dependencies := addRoot g.dependencies
      sortedDependencies := sorted
      unknowns := report.unknowns
      cycles := report.cycles } := by
    unfold topologicalSort
    rw [hfold]
    rfl
  refine ⟨sorted, report, _, ?_, hsorted, hevents, rfl⟩
  have hcontains : ¬ g.dependencies.contains "" := hproper.item_ne
  unfold check
  rw [if_neg (not_not.mpr hinit), if_neg hcontains, hsort]
  simp [hget, hlast, sortedItems]

theorem check_spec {g : DependencyGraph} (h : Wf g) (hinit : g.graphState = .init) :
    ∃ result g', g.check = some (result, g') ∧
      (∀ a : ItemType, g'.dependencies[a]? = g.dependencies[a]?) ∧ Wf g' ∧ Checked g' ∧
      g'.graphState = (if result then .ready else .error) ∧
      (result = true ↔ (g.unknowns.isEmpty = true ∧ g.cycles = []) ∧
        AllKnown g.dependencies ∧ Acyclic g.dependencies) := by
  obtain ⟨sorted, report, hsort, hsorted, hconsistent, hempty⟩ := topologicalSort_spec h
  obtain ⟨inOrder, hroot, hnodup, hmem, hready⟩ := root_searched h.proper
  have hevents := eventsFrom_addRoot_eq_nil_iff h.proper
  have hinOrder : sorted.getD "" [] = inOrder ++ [""] := by
    rw [TreeMap.getD_eq_getD_getElem?, hsorted "" (mem_addRoot.mpr (Or.inl rfl)), hroot]
    rfl
  have hdeps : ∀ a : ItemType, ((addRoot g.dependencies).erase "")[a]? = g.dependencies[a]? :=
    getElem?_erase_addRoot h.proper.item_ne
  have hdependsOn := dependsOn_congr hdeps
  have hproper : Proper ((addRoot g.dependencies).erase "") := by
    constructor
    · rw [mem_congr hdeps]
      exact h.proper.item_ne
    · rw [hdependsOn]
      exact h.proper.dep_ne
  have hreverse := mem_reverse_toList (d := (addRoot g.dependencies).erase "")
    (fun a b hb ↦ hdependsOn ▸ h.reverse_sound a b hb)
  have hcontains : ¬ g.dependencies.contains "" := h.proper.item_ne
  have hcheck : ∃ g', g.check = some (decide (g'.graphState = .ready), g') ∧
      g'.dependencies = (addRoot g.dependencies).erase "" ∧
      g'.unknowns = report.unknowns ∧ g'.cycles = report.cycles ∧
      g'.sortedDependencies = sorted.erase "" ∧ g'.inOrder = inOrder ∧
      g'.itemOrder = orderItems g.itemOrder inOrder ∧
      g'.reverseDependencies = ((addRoot g.dependencies).erase "").toList.foldl
        (fun reverse (item, deps) ↦ reverseItem reverse item deps) g.reverseDependencies ∧
      g'.graphState =
        (if report.unknowns.isEmpty ∧ report.cycles.isEmpty then .ready else .error) := by
    unfold check
    rw [if_neg (not_not.mpr hinit), if_neg hcontains, hsort]
    simp [hinOrder]
  obtain ⟨g', hg', hg'deps, hg'unknowns, hg'cycles, hg'sorted, hg'inOrder, hg'order, hg'reverse,
    hg'state⟩ := hcheck
  have hstate : g'.graphState = .ready ↔ report.Empty := by
    rw [hg'state]
    unfold Report.Empty
    split_ifs with hcond <;> simpa [List.isEmpty_iff] using hcond
  refine ⟨_, g', hg', ?_, ?_, ?_, ?_, ?_⟩
  · rw [hg'deps]
    exact hdeps
  · constructor
    · rw [hg'deps]
      exact hproper
    · rw [hg'deps, hg'reverse]
      exact fun a b hb ↦ (hreverse a b).mp hb
    · rw [hg'deps, hg'reverse]
      intro a ha
      exact mem_foldl_reverseItem (h.reverse_known a ((mem_congr hdeps a).mp ha))
    · rw [hg'unknowns]
      exact hconsistent.unknowns_ne
  · constructor
    · intro a ha
      rw [hg'deps, mem_congr hdeps] at ha
      have hne : a ≠ "" := fun h' ↦ h.proper.item_ne (h' ▸ ha)
      refine ⟨(searchFrom (addRoot g.dependencies) a).result, ?_, ?_⟩
      · rw [hg'sorted, TreeMap.getElem?_erase, hsorted a (mem_addRoot.mpr (Or.inr ha))]
        simp [Ne.symm hne]
      · rw [hg'deps]
        exact (searched_addRoot h.proper ha).congr hdeps
    · rw [hg'deps, hg'reverse]
      exact hreverse
    · rw [hg'inOrder]
      exact hnodup
    · intro a
      rw [hg'inOrder, hg'deps, mem_congr hdeps, hmem]
    · intro a ha
      rw [hg'deps, mem_congr hdeps, ← hmem] at ha
      rw [hg'order, hg'inOrder, getElem?_orderItems _ hnodup, if_pos ha]
    · intro hr
      have hnone := (hempty.mp (hstate.mp hr)).2
      have hlog : (searchFrom (addRoot g.dependencies) "").events = [] := by
        unfold eventsFrom at hnone
        rw [List.flatMap_eq_nil_iff] at hnone
        exact hnone "" (TreeMap.mem_keys.mpr (mem_addRoot.mpr (Or.inl rfl)))
      obtain ⟨hknown, hordered⟩ := hready hlog
      rw [hg'deps, hg'inOrder, hdependsOn]
      refine ⟨fun a b hab ↦ ?_, hordered⟩
      rw [hdependsOn] at hab
      rw [mem_congr hdeps]
      exact hknown a b hab
    · intro herror
      rw [hg'unknowns, hg'cycles]
      have hnot : ¬ report.Empty := by
        rw [← hstate, herror]
        exact GraphState.noConfusion
      rcases not_and_or.mp hnot with hunknowns | hcycles
      · rw [Bool.not_eq_true, TreeMap.isEmpty_eq_false_iff_exists_mem] at hunknowns
        obtain ⟨a, ha⟩ := hunknowns
        obtain ⟨l, hl⟩ := Option.isSome_iff_exists.mp (TreeMap.mem_iff_isSome_getElem?.mp ha)
        exact Or.inl ⟨a, l, hl, hconsistent.unknowns_ne a l hl⟩
      · exact Or.inr hcycles
  · rw [hg'state]
    split_ifs <;> simp_all
  · rw [decide_eq_true_iff, hstate, hempty, hevents]

end Abuild.DependencyGraph
