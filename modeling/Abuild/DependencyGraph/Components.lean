import Abuild.DependencyGraph.Build
import Abuild.DependencyGraph.IndependentSets
import Abuild.Library.Components

/-!
The independent sets of a graph without errors are its components. They are computed when they are
first asked for, and then kept: neither an addition nor another check clears them, so that they are
those of the graph of that time. `getIndependentSets_iff` says which additions since then do no
harm.
-/

set_option autoImplicit false
set_option relaxedAutoImplicit false

namespace Abuild.DependencyGraph

open Std (TreeMap)
open Relation Precedence Components

/-- The components of a graph, each of them with dependencies before the items that depend on
them. -/
structure IndependentSets (dependencies : ItemMap) (sets : List ItemList) : Prop where
  nonempty : ∀ set ∈ sets, set ≠ []
  nodup : sets.flatten.Nodup
  mem_iff : ∀ a, a ∈ sets.flatten ↔ a ∈ dependencies
  joined_iff : ∀ a ∈ dependencies, ∀ b ∈ dependencies,
    (∃ set ∈ sets, a ∈ set ∧ b ∈ set) ↔ Joined (DependsOn dependencies) a b
  ordered : ∀ set ∈ sets, Ordered (DependsOn dependencies) set

/-- The set of an item holds all items that are joined to it. -/
theorem IndependentSets.mem_of_joined {dependencies : ItemMap} {sets : List ItemList}
    (h : IndependentSets dependencies sets) {set : ItemList} (hset : set ∈ sets) {a b : ItemType}
    (ha : a ∈ set) (hb : b ∈ dependencies) (hab : Joined (DependsOn dependencies) a b) :
    b ∈ set := by
  have hadep : a ∈ dependencies := (h.mem_iff a).mp (List.mem_flatten.mpr ⟨set, hset, ha⟩)
  obtain ⟨set', hset', ha', hb'⟩ := (h.joined_iff a hadep b hb).mpr hab
  by_contra hnot
  have hsymm : Std.Symm (List.Disjoint : ItemList → ItemList → Prop) := ⟨fun _ _ h ↦ h.symm⟩
  have hdisjoint := (List.nodup_flatten.mp h.nodup).2.forall hset hset' fun heq ↦ hnot (heq ▸ hb')
  exact hdisjoint ha ha'

/-! ### The search -/

/-- A graph without errors, by what the search reads of it. -/
structure Ready (g : DependencyGraph) : Prop where
  ready : g.graphState = .ready
  checked : Checked g
  reverse_known : ∀ a ∈ g.dependencies, a ∈ g.reverseDependencies

section Ready

variable {g : DependencyGraph} (h : Ready g)

include h

theorem Ready.known {a b : ItemType} (hab : SymmGen (DependsOn g.dependencies) a b) :
    b ∈ g.dependencies := by
  rcases hab with hab | hba
  · exact (h.checked.ready h.ready).1 a b hab
  · exact hba.mem

theorem Ready.joined_mem {a b : ItemType} (ha : a ∈ g.dependencies)
    (hab : Joined (DependsOn g.dependencies) a b) : b ∈ g.dependencies :=
  hab.induction ha fun _ _ _ hbc ↦ h.known hbc

theorem Ready.assertChecked : g.assertChecked true = some () := by
  unfold DependencyGraph.assertChecked
  rw [h.ready]
  rfl

/-- The neighbors of an item are those that it depends on and those that depend on it. -/
theorem Ready.adjacentNodes {a : ItemType} (ha : a ∈ g.dependencies) :
    ∃ adjacent, g.adjacentNodes a = some adjacent ∧
      ∀ b, b ∈ adjacent ↔ SymmGen (DependsOn g.dependencies) a b := by
  obtain ⟨deps, hdeps⟩ := Option.isSome_iff_exists.mp (TreeMap.mem_iff_isSome_getElem?.mp ha)
  obtain ⟨rdeps, hrdeps⟩ :=
    Option.isSome_iff_exists.mp (TreeMap.mem_iff_isSome_getElem?.mp (h.reverse_known a ha))
  refine ⟨deps ++ rdeps, ?_, fun b ↦ ?_⟩
  · unfold DependencyGraph.adjacentNodes getDirectDependencies getReverseDependencies
    rw [h.assertChecked, hdeps, hrdeps]
    rfl
  · have hreverse := h.checked.reverse_iff a b
    unfold SymmGen
    rw [← hreverse, List.mem_append]
    unfold DependsOn
    rw [TreeMap.getD_eq_getD_getElem?, TreeMap.getD_eq_getD_getElem?, hdeps, hrdeps]
    rfl

end Ready

/-- How many neighbors the items without a number have. -/
def pending (g : DependencyGraph) (setNumbers : TreeMap ItemType ℕ) : ℕ :=
  (g.inOrder.map fun node ↦
    if setNumbers.contains node then 0 else ((g.adjacentNodes node).getD []).length).sum

/-- The number of an item. -/
def numberOf (setNumbers : TreeMap ItemType ℕ) (item : ItemType) : Option ℕ := setNumbers[item]?

theorem contains_iff_numberOf {setNumbers : TreeMap ItemType ℕ} {item : ItemType} :
    setNumbers.contains item = true ↔ numberOf setNumbers item ≠ none := by
  unfold numberOf
  rw [TreeMap.contains_eq_isSome_getElem?, Option.isSome_iff_ne_none]

theorem numberOf_insert (setNumbers : TreeMap ItemType ℕ) (node : ItemType) (set : ℕ) :
    numberOf (setNumbers.insert node set) node = some set ∧
      ∀ b, b ≠ node → numberOf (setNumbers.insert node set) b = numberOf setNumbers b := by
  unfold numberOf
  refine ⟨TreeMap.getElem?_insert_self, fun b hb ↦ ?_⟩
  rw [TreeMap.getElem?_insert, if_neg fun hcompare ↦ hb (compare_eq_iff_eq.mp hcompare).symm]

theorem pending_insert {g : DependencyGraph} {setNumbers : TreeMap ItemType ℕ} {node : ItemType}
    (set : ℕ) (hnodup : g.inOrder.Nodup) (hmem : node ∈ g.inOrder)
    (hnew : ¬ setNumbers.contains node) :
    pending g (setNumbers.insert node set) + ((g.adjacentNodes node).getD []).length =
      pending g setNumbers := by
  have hrest : ∀ b ∈ g.inOrder.erase node,
      (setNumbers.insert node set).contains b = setNumbers.contains b := by
    intro b hb
    have hne : b ≠ node := fun heq ↦ hnodup.not_mem_erase (heq ▸ hb)
    rw [Bool.eq_iff_iff, contains_iff_numberOf, contains_iff_numberOf,
      (numberOf_insert setNumbers node set).2 b hne]
  unfold pending
  rw [← List.sum_map_erase _ hmem, ← List.sum_map_erase _ hmem, if_pos TreeMap.contains_insert_self,
    if_neg hnew, List.map_congr_left fun b hb ↦ by rw [hrest b hb]]
  omega

section Search

variable {g : DependencyGraph} (h : Ready g) {next : ℕ}

include h

/-- The loop over the nodes of a set finds a whole component. -/
theorem Ready.assignSet {number : ItemType → Option ℕ} {start : ItemType}
    (hnumbers : Numbers (DependsOn g.dependencies) number next) (hstart : number start = none)
    (hmem : start ∈ g.dependencies) (turns : ℕ) (nodes : ItemList)
    (setNumbers : TreeMap ItemType ℕ)
    (hf : Filling (DependsOn g.dependencies) start number (numberOf setNumbers) next nodes)
    (hturns : nodes.length + pending g setNumbers ≤ turns) :
    ∃ setNumbers', g.assignSet next turns nodes setNumbers = some setNumbers' ∧
      Filling (DependsOn g.dependencies) start number (numberOf setNumbers') next [] := by
  induction turns generalizing nodes setNumbers with
  | zero =>
    cases nodes with
    | nil => exact ⟨setNumbers, rfl, hf⟩
    | cons node nodes => exact absurd hturns (by simp)
  | succ turns ih =>
    cases nodes with
    | nil => exact ⟨setNumbers, rfl, hf⟩
    | cons node nodes =>
      rw [List.length_cons] at hturns
      have hnode := h.joined_mem hmem (hf.joined node List.mem_cons_self)
      unfold DependencyGraph.assignSet
      by_cases hcontains : setNumbers.contains node = true
      · rw [if_pos hcontains]
        exact ih nodes setNumbers (hf.skip hnumbers hstart (contains_iff_numberOf.mp hcontains))
          (by omega)
      · obtain ⟨adjacent, hadjacent, hiff⟩ := h.adjacentNodes hnode
        have hpending := pending_insert next h.checked.nodup
          ((h.checked.mem_inOrder node).mpr hnode) hcontains
        rw [hadjacent, Option.getD_some] at hpending
        obtain ⟨hself, hother⟩ := numberOf_insert setNumbers node next
        rw [if_neg hcontains, hadjacent]
        refine ih (nodes ++ adjacent) (setNumbers.insert node next) (hf.fill hiff hself hother) ?_
        rw [List.length_append]
        omega

omit h in
/-- One round of the loop of `assignSets`. -/
def assignFrom (g : DependencyGraph) (numbers : TreeMap ItemType ℕ × ℕ) (node : ItemType) :
    Option (TreeMap ItemType ℕ × ℕ) :=
  if numbers.1.contains node then some numbers
  else do
    let setNumbers ← g.assignSet numbers.2 g.turnLimit [node] numbers.1
    some (setNumbers, numbers.2 + 1)

end Search

/-- Some whole components of a graph have been numbered. -/
structure Assigned (g : DependencyGraph) (numbers : TreeMap ItemType ℕ × ℕ) : Prop where
  components : Numbers (DependsOn g.dependencies) (numberOf numbers.1) numbers.2
  known : ∀ a, numberOf numbers.1 a ≠ none → a ∈ g.dependencies

theorem pending_lt_turnLimit (g : DependencyGraph) (setNumbers : TreeMap ItemType ℕ) :
    1 + pending g setNumbers ≤ g.turnLimit := by
  refine Nat.add_le_add_left (List.sum_le_sum fun node _ ↦ ?_) 1
  split_ifs
  · exact Nat.zero_le _
  · exact Nat.le_refl _

section Assigned

variable {g : DependencyGraph} (h : Ready g) {numbers : TreeMap ItemType ℕ × ℕ}

include h

theorem Assigned.assignFrom (ha : Assigned g numbers) {node : ItemType}
    (hnode : node ∈ g.dependencies) :
    ∃ numbers', assignFrom g numbers node = some numbers' ∧ Assigned g numbers' ∧
      numberOf numbers'.1 node ≠ none ∧
      ∀ a, numberOf numbers.1 a ≠ none → numberOf numbers'.1 a ≠ none := by
  unfold DependencyGraph.assignFrom
  by_cases hcontains : numbers.1.contains node = true
  · rw [if_pos hcontains]
    exact ⟨numbers, rfl, ha, contains_iff_numberOf.mp hcontains, fun _ hne ↦ hne⟩
  · have hnone : numberOf numbers.1 node = none :=
      not_not.mp fun hne ↦ hcontains (contains_iff_numberOf.mpr hne)
    obtain ⟨setNumbers, hassign, hf⟩ := h.assignSet ha.components hnone hnode g.turnLimit [node]
      numbers.1 ha.components.filling (pending_lt_turnLimit g numbers.1)
    have hnext := hf.found.resolve_right List.not_mem_nil
    rw [if_neg hcontains, hassign]
    refine ⟨(setNumbers, numbers.2 + 1), rfl, ⟨hf.numbers ha.components, fun a hne ↦ ?_⟩, ?_,
      fun a hne ↦ ?_⟩
    · rcases hf.new a with hold | ⟨hjoined, -⟩
      · exact ha.known a (hold ▸ hne)
      · exact h.joined_mem hnode hjoined
    · exact ne_of_eq_of_ne hnext (Option.some_ne_none _)
    · rcases hf.new a with hold | ⟨-, hnew⟩
      · exact hold ▸ hne
      · exact ne_of_eq_of_ne hnew (Option.some_ne_none _)

theorem Assigned.foldlM (ha : Assigned g numbers) {nodes : ItemList}
    (hnodes : ∀ a ∈ nodes, a ∈ g.dependencies) :
    ∃ numbers', nodes.foldlM g.assignFrom numbers = some numbers' ∧ Assigned g numbers' ∧
      (∀ a ∈ nodes, numberOf numbers'.1 a ≠ none) ∧
      ∀ a, numberOf numbers.1 a ≠ none → numberOf numbers'.1 a ≠ none := by
  induction nodes generalizing numbers with
  | nil => exact ⟨numbers, rfl, ha, List.forall_mem_nil _, fun _ hne ↦ hne⟩
  | cons node nodes ih =>
    obtain ⟨hnode, hrest⟩ := List.forall_mem_cons.mp hnodes
    obtain ⟨numbers', hassign, ha', hnumber, hkept⟩ := ha.assignFrom h hnode
    obtain ⟨numbers'', hfold, ha'', hall, hkept'⟩ := ih ha' hrest
    refine ⟨numbers'', ?_, ha'', List.forall_mem_cons.mpr ⟨hkept' node hnumber, hall⟩,
      fun a hne ↦ hkept' a (hkept a hne)⟩
    rw [List.foldlM_cons, hassign]
    exact hfold

/-- Every item gets the number of its component. -/
theorem Ready.assignSets : ∃ numbers, g.assignSets = some numbers ∧ Assigned g numbers ∧
    ∀ a ∈ g.dependencies, numberOf numbers.1 a ≠ none := by
  have hempty : Assigned g (∅, 0) := by
    have hnone : numberOf ∅ = fun _ ↦ none := funext fun _ ↦ TreeMap.getElem?_emptyc
    refine ⟨?_, fun a hne ↦ absurd (congrFun hnone a) hne⟩
    rw [hnone]
    exact numbers_none
  obtain ⟨numbers, hfold, ha, hall, -⟩ :=
    hempty.foldlM h fun a ha ↦ (h.checked.mem_inOrder a).mp ha
  exact ⟨numbers, hfold, ha, fun a hmem ↦ hall a ((h.checked.mem_inOrder a).mpr hmem)⟩

end Assigned

/-! ### The sets -/

/-- The items with a number. -/
def itemsOf (setNumbers : TreeMap ItemType ℕ) (set : ℕ) : ItemList :=
  (setNumbers.toList.filter fun p ↦ p.2 = set).map Prod.fst

theorem mem_itemsOf {setNumbers : TreeMap ItemType ℕ} {set : ℕ} {a : ItemType} :
    a ∈ itemsOf setNumbers set ↔ numberOf setNumbers a = some set := by
  unfold itemsOf numberOf
  rw [List.mem_map]
  constructor
  · rintro ⟨⟨item, number⟩, hp, rfl⟩
    obtain ⟨hmem, hnumber⟩ := List.mem_filter.mp hp
    obtain rfl := of_decide_eq_true hnumber
    exact TreeMap.mem_toList_iff_getElem?_eq_some.mp hmem
  · intro hnumber
    refine ⟨(a, set), List.mem_filter.mpr ⟨?_, decide_eq_true rfl⟩, rfl⟩
    exact TreeMap.mem_toList_iff_getElem?_eq_some.mpr hnumber

theorem nodup_itemsOf (setNumbers : TreeMap ItemType ℕ) (set : ℕ) :
    (itemsOf setNumbers set).Nodup := by
  unfold itemsOf
  refine List.Nodup.sublist (List.filter_sublist.map Prod.fst) ?_
  rw [TreeMap.map_fst_toList_eq_keys]
  exact TreeMap.nodup_keys

theorem getElem?_foldl_gather (l : List (ItemType × ℕ)) (sets : TreeMap ℕ ItemList) (set : ℕ) :
    (l.foldl (fun sets (p : ItemType × ℕ) ↦
      sets.insert p.2 (sets.getD p.2 [] ++ [p.1])) sets)[set]? =
      if (l.filter fun p ↦ p.2 = set) = [] then sets[set]?
      else some (sets.getD set [] ++ (l.filter fun p ↦ p.2 = set).map Prod.fst) := by
  induction l generalizing sets with
  | nil => rfl
  | cons p l ih =>
    rw [List.foldl_cons, ih]
    by_cases hp : p.2 = set
    · subst hp
      have hfilter : (p :: l).filter (fun q ↦ q.2 = p.2) = p :: l.filter fun q ↦ q.2 = p.2 :=
        List.filter_cons_of_pos (decide_eq_true rfl)
      rw [hfilter, if_neg (List.cons_ne_nil _ _),
        TreeMap.getElem?_insert_self, TreeMap.getD_insert_self, List.map_cons, List.append_assoc,
        List.singleton_append]
      split_ifs with hnil
      · rw [hnil]
        rfl
      · rfl
    · have hcompare : ¬ compare p.2 set = .eq := fun heq ↦ hp (compare_eq_iff_eq.mp heq)
      rw [List.filter_cons_of_neg (by simpa using hp), TreeMap.getElem?_insert, if_neg hcompare,
        TreeMap.getD_insert, if_neg hcompare]

theorem getElem?_gatherSets (setNumbers : TreeMap ItemType ℕ) (set : ℕ) :
    (gatherSets setNumbers)[set]? =
      if itemsOf setNumbers set = [] then none else some (itemsOf setNumbers set) := by
  unfold gatherSets itemsOf
  rw [getElem?_foldl_gather, TreeMap.getElem?_emptyc, TreeMap.getD_emptyc, List.nil_append]
  exact if_congr List.map_eq_nil_iff.symm rfl rfl

/-- The sets are the groups of items with the same number. -/
theorem mem_toList_gatherSets {setNumbers : TreeMap ItemType ℕ} {set : ℕ} {nodes : ItemList} :
    (set, nodes) ∈ (gatherSets setNumbers).toList ↔ nodes ≠ [] ∧
    nodes = itemsOf setNumbers set := by
  rw [TreeMap.mem_toList_iff_getElem?_eq_some, getElem?_gatherSets]
  split_ifs with hnil
  · rw [hnil]
    exact iff_of_false id fun hboth ↦ hboth.1 hboth.2
  · rw [Option.some_inj]
    exact ⟨fun heq ↦ ⟨heq ▸ hnil, heq.symm⟩, fun hboth ↦ hboth.2.symm⟩

/-! ### The order of a set -/

section Order

variable {g : DependencyGraph} (h : Ready g)

include h

/-- A set in the order of the sorted graph. -/
theorem Ready.pairwise_insertionSort {nodes : ItemList} (hnodes : ∀ a ∈ nodes, a ∈ g.dependencies) :
    (nodes.insertionSort fun i1 i2 ↦ ¬ g.itemLess i2 i1).Pairwise
      fun a b ↦ g.inOrder.idxOf a ≤ g.inOrder.idxOf b := by
  have hless : ∀ a ∈ nodes, ∀ b ∈ nodes,
      ¬ g.itemLess b a ↔ g.inOrder.idxOf a ≤ g.inOrder.idxOf b := by
    intro a ha b hb
    have hiff := compareItems_eq_neg_one h.checked h.assertChecked
      ((h.checked.mem_inOrder b).mpr (hnodes b hb)) ((h.checked.mem_inOrder a).mpr (hnodes a ha))
    unfold itemLess
    rw [decide_eq_true_iff, hiff, not_lt]
  have hmap := List.map_insertionSort (fun i1 i2 ↦ ¬ g.itemLess i2 i1) (· ≤ ·) g.inOrder.idxOf nodes
    hless
  have hsorted := List.pairwise_insertionSort (· ≤ ·) (nodes.map g.inOrder.idxOf)
  rw [← hmap, List.pairwise_map] at hsorted
  exact hsorted

theorem Ready.idxOf_lt {a b : ItemType} (hab : DependsOn g.dependencies a b) :
    g.inOrder.idxOf b < g.inOrder.idxOf a :=
  (h.checked.ready h.ready).2.idxOf_lt ((h.checked.mem_inOrder a).mpr hab.mem) hab

/-- The sets that are computed are the components of the graph. -/
theorem Ready.computeIndependentSets : ∃ sets, g.computeIndependentSets = some sets ∧
    IndependentSets g.dependencies sets ∧
    ∀ set ∈ sets, set.Pairwise fun a b ↦ g.inOrder.idxOf a ≤ g.inOrder.idxOf b := by
  obtain ⟨⟨setNumbers, next⟩, hassign, ha, hall⟩ := h.assignSets
  let sort : ItemList → ItemList := fun nodes ↦ nodes.insertionSort fun i1 i2 ↦ ¬ g.itemLess i2 i1
  have hsort : ∀ nodes, (sort nodes).Perm nodes := fun nodes ↦ List.perm_insertionSort _ nodes
  have hmem : ∀ set, set ∈ (gatherSets setNumbers).toList.map (fun p ↦ sort p.2) ↔
      ∃ n, itemsOf setNumbers n ≠ [] ∧ set = sort (itemsOf setNumbers n) := by
    intro set
    rw [List.mem_map]
    constructor
    · rintro ⟨⟨n, nodes⟩, hp, rfl⟩
      obtain ⟨hne, rfl⟩ := mem_toList_gatherSets.mp hp
      exact ⟨n, hne, rfl⟩
    · rintro ⟨n, hne, rfl⟩
      exact ⟨(n, itemsOf setNumbers n), mem_toList_gatherSets.mpr ⟨hne, rfl⟩, rfl⟩
  have hitem : ∀ {a n}, a ∈ sort (itemsOf setNumbers n) ↔ numberOf setNumbers a = some n :=
    (hsort _).mem_iff.trans mem_itemsOf
  have hknown : ∀ {n}, ∀ a ∈ itemsOf setNumbers n, a ∈ g.dependencies := fun a hn ↦
    ha.known a (ne_of_eq_of_ne (mem_itemsOf.mp hn) (Option.some_ne_none _))
  have hnumber : ∀ a ∈ g.dependencies, ∃ n, numberOf setNumbers a = some n := fun a hdep ↦
    Option.ne_none_iff_exists'.mp (hall a hdep)
  have hin : ∀ {a n}, numberOf setNumbers a = some n →
      sort (itemsOf setNumbers n) ∈ (gatherSets setNumbers).toList.map (fun p ↦ sort p.2) :=
    fun hn ↦ (hmem _).mpr ⟨_, List.ne_nil_of_mem (mem_itemsOf.mpr hn), rfl⟩
  refine ⟨(gatherSets setNumbers).toList.map fun p ↦ sort p.2, ?_, ⟨?_, ?_, ?_, ?_, ?_⟩, ?_⟩
  · unfold DependencyGraph.computeIndependentSets
    rw [hassign]
    rfl
  · intro set hset
    obtain ⟨n, hne, rfl⟩ := (hmem set).mp hset
    exact fun hnil ↦ hne (List.nil_perm.mp (hnil ▸ hsort _))
  · rw [List.nodup_flatten]
    constructor
    · intro set hset
      obtain ⟨n, -, rfl⟩ := (hmem set).mp hset
      exact (hsort _).nodup_iff.mpr (nodup_itemsOf setNumbers n)
    · rw [List.pairwise_map]
      refine TreeMap.distinct_keys_toList.imp_of_mem fun {p q} hp hq hne a hap haq ↦ ?_
      obtain ⟨-, hp⟩ := mem_toList_gatherSets.mp hp
      obtain ⟨-, hq⟩ := mem_toList_gatherSets.mp hq
      have hsame : p.1 = q.1 := Option.some_inj.mp
        ((hitem.mp (hp ▸ hap)).symm.trans (hitem.mp (hq ▸ haq)))
      exact hne (compare_eq_iff_eq.mpr hsame)
  · intro a
    rw [List.mem_flatten]
    constructor
    · rintro ⟨set, hset, haset⟩
      obtain ⟨n, -, rfl⟩ := (hmem set).mp hset
      exact hknown a ((hsort _).mem_iff.mp haset)
    · intro hdep
      obtain ⟨n, hn⟩ := hnumber a hdep
      exact ⟨_, hin hn, hitem.mpr hn⟩
  · intro a hadep b hbdep
    constructor
    · rintro ⟨set, hset, haset, hbset⟩
      obtain ⟨n, -, rfl⟩ := (hmem set).mp hset
      exact (ha.components.joined_iff a n (hitem.mp haset) b).mp (hitem.mp hbset)
    · intro hjoined
      obtain ⟨n, hn⟩ := hnumber a hadep
      exact ⟨_, hin hn, hitem.mpr hn,
        hitem.mpr ((ha.components.joined_iff a n hn b).mpr hjoined)⟩
  · intro set hset
    obtain ⟨n, -, rfl⟩ := (hmem set).mp hset
    refine ordered_of_pairwise (h.pairwise_insertionSort hknown) fun a haset b hab ↦
      ⟨hitem.mpr ?_, h.idxOf_lt hab⟩
    exact (ha.components.joined_iff a n (hitem.mp haset) b).mpr (Joined.of_rel hab)
  · intro set hset
    obtain ⟨n, -, rfl⟩ := (hmem set).mp hset
    exact h.pairwise_insertionSort hknown

/-- The sets that are returned are those that have been kept, if there are any. -/
theorem Ready.getIndependentSets : ∃ sets,
    g.getIndependentSets = some (sets, { g with independentSets := sets }) ∧
    (g.independentSets ≠ [] → sets = g.independentSets) ∧
    (g.independentSets = [] → IndependentSets g.dependencies sets ∧
      ∀ set ∈ sets, set.Pairwise fun a b ↦ g.inOrder.idxOf a ≤ g.inOrder.idxOf b) := by
  obtain ⟨sets, hcompute, hsets, hsorted⟩ := h.computeIndependentSets
  unfold DependencyGraph.getIndependentSets
  rw [if_neg (not_not.mpr h.ready)]
  by_cases hnil : g.independentSets = []
  · refine ⟨sets, ?_, fun hne ↦ absurd hnil hne, fun _ ↦ ⟨hsets, hsorted⟩⟩
    rw [if_neg (by simp [hnil]), hcompute]
    rfl
  · refine ⟨g.independentSets, ?_, fun _ ↦ rfl, fun hnil' ↦ absurd hnil' hnil⟩
    rw [if_pos (by simpa using hnil)]

end Order

/-! ### Sequences of calls -/

inductive HistoryCall
  | add (addition : Addition)
  | check
  | getIndependentSets
deriving DecidableEq, Repr

/-- The graph for which the sets that are kept have been computed, and the additions since then. -/
structure Computed where
  graph : DependencyGraph
  later : List Addition

/-- A graph, and where its sets come from when there are any. -/
structure History where
  graph : DependencyGraph
  computed : Option Computed

namespace History

def call (s : History) : HistoryCall → Option History
  | .add addition => (s.graph.add addition).map fun g ↦
      ⟨g, s.computed.map fun c ↦ { c with later := c.later ++ [addition] }⟩
  | .check => s.graph.check.map fun (_, g) ↦ { s with graph := g }
  | .getIndependentSets => s.graph.getIndependentSets.map fun (sets, g) ↦
      ⟨g, s.computed.or (if sets.isEmpty then none else some ⟨s.graph, []⟩)⟩

/-- A sequence of legal calls. -/
def run (calls : List HistoryCall) : Option History := calls.foldlM call ⟨new, none⟩

end History

/-- A dependency between items of one component, in the order in which they stand already. -/
def Harmless (g : DependencyGraph) : Addition → Prop
  | .addItem _ => False
  | .addDependency item dep =>
    Joined (DependsOn g.dependencies) item dep ∧ g.compareItems dep item = some (-1)

/-- The sets of a graph are those of an earlier one. -/
structure Cached (c : Computed) (g : DependencyGraph) : Prop where
  ready : Ready c.graph
  sets : IndependentSets c.graph.dependencies g.independentSets
  sorted : ∀ set ∈ g.independentSets,
    set.Pairwise fun a b ↦ c.graph.inOrder.idxOf a ≤ c.graph.inOrder.idxOf b
  nonempty : g.independentSets ≠ []
  mem_iff : ∀ a, a ∈ g.dependencies ↔ a ∈ c.graph.dependencies ∨ .addItem a ∈ c.later
  new : ∀ a, .addItem a ∈ c.later → a ∉ c.graph.dependencies
  dependsOn_iff : ∀ a b, DependsOn g.dependencies a b ↔
    DependsOn c.graph.dependencies a b ∨ .addDependency a b ∈ c.later

/-- What all calls keep. -/
structure History.Kept (s : History) : Prop where
  wf : Wf s.graph
  checked : s.graph.graphState ≠ .init → Checked s.graph
  fresh : s.computed = none → s.graph.independentSets = []
  cached : ∀ c, s.computed = some c → Cached c s.graph

theorem History.Kept.ready {s : History} (h : s.Kept) (hready : s.graph.graphState = .ready) :
    Ready s.graph := by
  refine ⟨hready, h.checked ?_, h.wf.reverse_known⟩
  rw [hready]
  exact GraphState.noConfusion

theorem Cached.add {c : Computed} {g g' : DependencyGraph} (h : Cached c g) {addition : Addition}
    (hadd : g.add addition = some g') :
    Cached { c with later := c.later ++ [addition] } g' := by
  cases addition with
  | addItem item =>
    obtain ⟨hnew, -, rfl⟩ := addItem_spec hadd
    refine ⟨h.ready, h.sets, h.sorted, h.nonempty, fun a ↦ ?_, fun a ha ↦ ?_, fun a b ↦ ?_⟩
    · rw [TreeMap.mem_insert, compare_eq_iff_eq, h.mem_iff, List.mem_append, List.mem_singleton,
        Addition.addItem.injEq]
      tauto
    · rcases List.mem_append.mp ha with ha | ha
      · exact h.new a ha
      · obtain rfl := Addition.addItem.inj (List.mem_singleton.mp ha)
        exact fun hmem ↦ hnew ((h.mem_iff a).mpr (Or.inl hmem))
    · rw [dependsOn_insert_nil hnew, h.dependsOn_iff, List.mem_append, List.mem_singleton]
      simp
  | addDependency item dep =>
    obtain ⟨hmem, -, rfl⟩ := addDependency_spec hadd
    refine ⟨h.ready, h.sets, h.sorted, h.nonempty, fun a ↦ ?_, fun a ha ↦ ?_, fun a b ↦ ?_⟩
    · rw [TreeMap.mem_insert, compare_eq_iff_eq, or_iff_right_of_imp fun heq ↦ heq ▸ hmem,
        h.mem_iff, List.mem_append, List.mem_singleton]
      simp
    · refine h.new a ((List.mem_append.mp ha).resolve_right fun hlast ↦ ?_)
      cases List.mem_singleton.mp hlast
    · rw [dependsOn_insert_append, h.dependsOn_iff, List.mem_append, List.mem_singleton,
        Addition.addDependency.injEq]
      tauto

theorem Cached.congr {c : Computed} {g g' : DependencyGraph} (h : Cached c g)
    (hdependencies : ∀ a : ItemType, g'.dependencies[a]? = g.dependencies[a]?)
    (hsets : g'.independentSets = g.independentSets) : Cached c g' := by
  refine ⟨h.ready, hsets ▸ h.sets, hsets ▸ h.sorted, hsets ▸ h.nonempty, fun a ↦ ?_, h.new,
    fun a b ↦ ?_⟩
  · rw [mem_congr hdependencies, h.mem_iff]
  · rw [dependsOn_congr hdependencies, h.dependsOn_iff]

theorem independentSets_check {g g' : DependencyGraph} {result : Bool} (h : Wf g)
    (hinit : g.graphState = .init) (hcheck : g.check = some (result, g')) :
    g'.independentSets = g.independentSets := by
  obtain ⟨_, _, g'', hcheck', -, -, heq⟩ := check_eq h.proper hinit
  obtain ⟨-, rfl⟩ := Prod.mk.inj (Option.some_inj.mp (hcheck'.symm.trans hcheck))
  rw [heq]

theorem History.Kept.call {s s' : History} (h : s.Kept) {call : HistoryCall}
    (hcall : s.call call = some s') : s'.Kept := by
  cases call with
  | add addition =>
    obtain ⟨g, hadd, rfl⟩ := Option.map_eq_some_iff.mp hcall
    obtain ⟨hwf, hinit⟩ := h.wf.add hadd
    refine ⟨hwf, fun hne ↦ absurd hinit hne, fun hnone ↦ ?_, fun c hc ↦ ?_⟩
    · have hsets : g.independentSets = s.graph.independentSets := by
        cases addition with
        | addItem item =>
          obtain ⟨-, -, rfl⟩ := addItem_spec hadd
          rfl
        | addDependency item dep =>
          obtain ⟨-, -, rfl⟩ := addDependency_spec hadd
          rfl
      exact hsets.trans (h.fresh (Option.map_eq_none_iff.mp hnone))
    · obtain ⟨c', hc', rfl⟩ := Option.map_eq_some_iff.mp hc
      exact (h.cached c' hc').add hadd
  | check =>
    obtain ⟨⟨result, g⟩, hcheck, rfl⟩ := Option.map_eq_some_iff.mp hcall
    by_cases hinit : s.graph.graphState = .init
    · have hsets := independentSets_check h.wf hinit hcheck
      obtain ⟨result', g', hcheck', hdependencies, hwf, hchecked, -⟩ := check_spec h.wf hinit
      obtain ⟨-, rfl⟩ := Prod.mk.inj (Option.some_inj.mp (hcheck'.symm.trans hcheck))
      exact ⟨hwf, fun _ ↦ hchecked, fun hnone ↦ hsets.trans (h.fresh hnone),
        fun c hc ↦ (h.cached c hc).congr hdependencies hsets⟩
    · rw [check_of_ne_init hinit] at hcheck
      obtain ⟨-, rfl⟩ := Prod.mk.inj (Option.some_inj.mp hcheck)
      exact h
  | getIndependentSets =>
    have hready : s.graph.graphState = .ready := by
      by_contra hne
      have hnone : s.graph.getIndependentSets = none := if_pos hne
      rw [History.call, hnone] at hcall
      cases hcall
    have hr := h.ready hready
    obtain ⟨sets, hget, hkept, hnew⟩ := hr.getIndependentSets
    rw [History.call, hget] at hcall
    obtain rfl := Option.some_inj.mp hcall
    have hchecked : Checked { s.graph with independentSets := sets } :=
      ⟨hr.checked.sorted, hr.checked.reverse_iff, hr.checked.nodup, hr.checked.mem_inOrder,
        hr.checked.itemOrder, hr.checked.ready, hr.checked.reported⟩
    refine ⟨⟨h.wf.proper, h.wf.reverse_sound, h.wf.reverse_known, h.wf.unknowns_ne⟩,
      fun _ ↦ hchecked, fun hnone ↦ ?_, fun c hc ↦ ?_⟩
    · have hsets := (Option.or_eq_none_iff.mp hnone).2
      by_contra hne
      rw [if_neg (by simpa using hne)] at hsets
      cases hsets
    · rcases Option.or_eq_some_iff.mp hc with hold | ⟨hnone, hcomputed⟩
      · have hcached := h.cached c hold
        exact hcached.congr (fun _ ↦ rfl) (hkept hcached.nonempty)
      · obtain ⟨hsets, hsorted⟩ := hnew (h.fresh hnone)
        split_ifs at hcomputed with hnil
        obtain rfl := Option.some_inj.mp hcomputed
        exact ⟨hr, hsets, hsorted, by simpa using hnil, fun a ↦ by simp, fun a ha ↦ by simp at ha,
          fun a b ↦ by simp⟩

theorem History.kept_new : History.Kept ⟨new, none⟩ where
  wf := wf_new
  checked hne := absurd rfl hne
  fresh _ := rfl
  cached c hc := by cases hc

theorem History.kept_run {calls : List HistoryCall} {s : History} (h : History.run calls = some s) :
    s.Kept := by
  unfold History.run at h
  induction calls using List.reverseRecOn generalizing s with
  | nil =>
    obtain rfl : ⟨new, none⟩ = s := Option.some_inj.mp h
    exact History.kept_new
  | append_singleton calls call ih =>
    rw [List.foldlM_append] at h
    obtain ⟨s₀, hs₀, hcall⟩ := Option.bind_eq_some_iff.mp h
    rw [List.foldlM_cons] at hcall
    obtain ⟨s', hs', hcall⟩ := Option.bind_eq_some_iff.mp hcall
    obtain rfl : s' = s := Option.some_inj.mp hcall
    exact (ih hs₀).call hs'

/-! ### The sets after more additions -/

section Cached

variable {c : Computed} {g : DependencyGraph} (h : Cached c g) (hg : Ready g)

include h

/-- The sets are still those of the graph after harmless additions. -/
theorem Cached.independentSets (hharmless : ∀ addition ∈ c.later, Harmless c.graph addition) :
    IndependentSets g.dependencies g.independentSets := by
  have hmem : ∀ a, a ∈ g.dependencies ↔ a ∈ c.graph.dependencies := fun a ↦
    (h.mem_iff a).trans (or_iff_left fun ha ↦ hharmless _ ha)
  have hjoined : Components.Joined (DependsOn g.dependencies) =
      Components.Joined (DependsOn c.graph.dependencies) := by
    refine joined_congr (fun a b hab ↦ (h.dependsOn_iff a b).mpr (Or.inl hab)) fun a b hab ↦ ?_
    rcases (h.dependsOn_iff a b).mp hab with hold | hnew
    · exact Joined.of_rel hold
    · exact (hharmless _ hnew).1
  refine ⟨h.sets.nonempty, h.sets.nodup, fun a ↦ ?_, fun a ha b hb ↦ ?_, fun set hset ↦ ?_⟩
  · rw [h.sets.mem_iff, hmem]
  · rw [h.sets.joined_iff a ((hmem a).mp ha) b ((hmem b).mp hb), hjoined]
  · refine ordered_of_pairwise (h.sorted set hset) fun a ha b hab ↦ ?_
    rcases (h.dependsOn_iff a b).mp hab with hold | hnew
    · exact ⟨(h.sets.ordered set hset).mem ha hold, h.ready.idxOf_lt hold⟩
    · obtain ⟨hab, hcompare⟩ := hharmless _ hnew
      have hadep := (h.sets.mem_iff a).mp (List.mem_flatten.mpr ⟨set, hset, ha⟩)
      have hbdep := h.ready.joined_mem hadep hab
      refine ⟨h.sets.mem_of_joined hset ha hbdep hab, ?_⟩
      exact (compareItems_eq_neg_one h.ready.checked h.ready.assertChecked
        ((h.ready.checked.mem_inOrder b).mpr hbdep)
        ((h.ready.checked.mem_inOrder a).mpr hadep)).mp hcompare

/-- Only harmless additions leave the sets those of the graph. -/
theorem Cached.harmless (hg : Ready g)
    (hsets : IndependentSets g.dependencies g.independentSets) {addition : Addition}
    (hadd : addition ∈ c.later) : Harmless c.graph addition := by
  have hmem : ∀ a, a ∈ g.dependencies ↔ a ∈ c.graph.dependencies := fun a ↦
    (hsets.mem_iff a).symm.trans (h.sets.mem_iff a)
  cases addition with
  | addItem item => exact h.new item hadd ((hmem item).mp ((h.mem_iff item).mpr (Or.inr hadd)))
  | addDependency a b =>
    have hab : DependsOn g.dependencies a b := (h.dependsOn_iff a b).mpr (Or.inr hadd)
    have ha : a ∈ g.dependencies := hab.mem
    have hb : b ∈ g.dependencies := hg.known (Or.inl hab)
    obtain ⟨set, hset, haset⟩ := List.mem_flatten.mp ((hsets.mem_iff a).mpr ha)
    have hbset := (hsets.ordered set hset).mem haset hab
    have hajoined := (h.sets.joined_iff a ((hmem a).mp ha) b ((hmem b).mp hb)).mp
      ⟨set, hset, haset, hbset⟩
    refine ⟨hajoined, (compareItems_eq_neg_one h.ready.checked h.ready.assertChecked
      ((h.ready.checked.mem_inOrder b).mpr ((hmem b).mp hb))
      ((h.ready.checked.mem_inOrder a).mpr ((hmem a).mp ha))).mpr ?_⟩
    -- The kept sets are sorted by the order of the earlier graph.
    obtain ⟨before, after, hsplit⟩ := List.append_of_mem haset
    have hbefore := hsets.ordered set hset before a after hsplit b hab
    have hsorted := h.sorted set hset
    rw [hsplit] at hsorted
    have hle := (List.pairwise_append.mp hsorted).2.2 b hbefore a List.mem_cons_self
    refine lt_of_le_of_ne hle fun heq ↦ ?_
    obtain rfl : b = a :=
      (List.idxOf_inj ((h.ready.checked.mem_inOrder b).mpr ((hmem b).mp hb))).mp heq
    exact Nat.lt_irrefl _ (hg.idxOf_lt hab)

end Cached

/-- The independent sets that are returned after any sequence of calls are the components of the
graph exactly when, since they were computed, only dependencies have been added between items of
one component, in the order in which they stood already. -/
theorem getIndependentSets_iff (calls : List HistoryCall) (s : History)
    (h : History.run calls = some s)
    (hready : s.graph.graphState = .ready) :
    ∃ sets g, s.graph.getIndependentSets = some (sets, g) ∧
      (IndependentSets s.graph.dependencies sets ↔
        ∀ c, s.computed = some c → ∀ addition ∈ c.later, Harmless c.graph addition) := by
  have hkept := History.kept_run h
  have hr := hkept.ready hready
  obtain ⟨sets, hget, hold, hnew⟩ := hr.getIndependentSets
  refine ⟨sets, _, hget, ?_⟩
  cases hcomputed : s.computed with
  | none =>
    exact iff_of_true (hnew (hkept.fresh hcomputed)).1 fun c hc ↦ by cases hc
  | some c =>
    have hcached := hkept.cached c hcomputed
    rw [hold hcached.nonempty]
    constructor
    · intro hsets c' hc'
      obtain rfl := Option.some_inj.mp hc'
      exact fun addition hadd ↦ hcached.harmless hr hsets hadd
    · exact fun hharmless ↦ hcached.independentSets (hharmless c rfl)

/-- Calls that ask for the sets before an item is added. -/
def callsAround : List HistoryCall :=
  [.add (.addItem "a"), .check, .getIndependentSets, .add (.addItem "b"), .check]

/-- An item that is added after the sets were computed is in none of them. -/
theorem not_independentSets_added :
    ∃ s g, History.run callsAround = some s ∧ s.graph.graphState = .ready ∧
      s.graph.getIndependentSets = some ([["a"]], g) ∧
      ¬ IndependentSets s.graph.dependencies [["a"]] := by
  have hrun : (History.run callsAround).map (fun s ↦ (s.graph.graphState,
      s.graph.dependencies.contains "b", s.graph.getIndependentSets.map Prod.fst)) =
        some (.ready, true, some [["a"]]) := by decide
  obtain ⟨s, hs, hvalues⟩ := Option.map_eq_some_iff.mp hrun
  obtain ⟨hready, hrest⟩ := Prod.mk.inj hvalues
  obtain ⟨hmem, hget⟩ := Prod.mk.inj hrest
  obtain ⟨⟨sets, g⟩, hget, rfl⟩ := Option.map_eq_some_iff.mp hget
  refine ⟨s, g, hs, hready, hget, fun hsets ↦ ?_⟩
  have hb := (hsets.mem_iff "b").mpr (TreeMap.contains_iff_mem.mp hmem)
  exact absurd hb (by decide)

theorem getIndependentSets_dependency :
    ∃ s sets g, History.run [.add (.addItem "b"), .add (.addItem "a"), .add (.addItem "c"),
        .add (.addDependency "a" "b"), .check] = some s ∧
      s.graph.getIndependentSets = some (sets, g) ∧
      (IndependentSets s.graph.dependencies sets ↔
        ∀ c, s.computed = some c → ∀ addition ∈ c.later, Harmless c.graph addition) := by
  have hrun : (History.run [.add (.addItem "b"), .add (.addItem "a"), .add (.addItem "c"),
      .add (.addDependency "a" "b"), .check]).map (fun s ↦ s.graph.graphState) =
        some .ready := by decide
  obtain ⟨s, hs, hready⟩ := Option.map_eq_some_iff.mp hrun
  obtain ⟨sets, g, hget, hiff⟩ := getIndependentSets_iff _ s hs hready
  exact ⟨s, sets, g, hs, hget, hiff⟩

end Abuild.DependencyGraph
