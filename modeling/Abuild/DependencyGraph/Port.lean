import Abuild.DependencyGraph.Groovy
import Abuild.DependencyGraph.Recheck

/-!
The two dependency graphs take the same steps on names of ASCII characters, which both languages
compare alike. `groovy_check_agrees` compares what they answer after the additions and a check.
-/

set_option autoImplicit false
set_option relaxedAutoImplicit false

namespace Abuild

open Std (TreeMap TreeSet)

/-! ### Names of ASCII characters -/

def IsAscii (name : String) : Prop := ∀ c ∈ name.toList, c.toNat < 128

theorem codeUnits_of_lt {c : Char} (h : c.toNat < 128) : codeUnits c = [c.toNat] :=
  if_pos (by omega)

theorem flatMap_codeUnits {l : List Char} (h : ∀ c ∈ l, c.toNat < 128) :
    l.flatMap codeUnits = l.map Char.toNat := by
  induction l with
  | nil => rfl
  | cons c l ih =>
    rw [List.flatMap_cons, codeUnits_of_lt (h c List.mem_cons_self),
      ih fun d hd ↦ h d (List.mem_cons_of_mem c hd)]
    rfl

theorem compareUnits_swap (xs ys : List ℕ) : compareUnits ys xs = -compareUnits xs ys := by
  induction xs generalizing ys with
  | nil => cases ys <;> simp [compareUnits]
  | cons x xs ih =>
    cases ys with
    | nil => simp [compareUnits]
    | cons y ys =>
      by_cases h : x = y
      · simp [compareUnits, h, ih]
      · simp [compareUnits, h, Ne.symm h]

theorem compareUnits_map_neg_iff (l l' : List Char) :
    compareUnits (l.map Char.toNat) (l'.map Char.toNat) < 0 ↔ l < l' := by
  induction l generalizing l' with
  | nil =>
    cases l' with
    | nil => simp [compareUnits]
    | cons c' l' =>
      refine iff_of_true ?_ (List.nil_lt_cons c' l')
      simp only [List.map_nil, List.map_cons, compareUnits, List.length_nil, List.length_cons]
      omega
  | cons c l ih =>
    cases l' with
    | nil =>
      refine iff_of_false ?_ (List.not_lt_nil _)
      simp only [List.map_nil, List.map_cons, compareUnits, List.length_nil, List.length_cons]
      omega
    | cons c' l' =>
      rw [List.map_cons, List.map_cons, List.cons_lt_cons_iff]
      by_cases h : c = c'
      · subst h
        simp [compareUnits, ih]
      · have hne : c.toNat ≠ c'.toNat := fun heq ↦ h (Char.toNat_inj.mp heq)
        have hlt : c < c' ↔ c.toNat < c'.toNat := UInt32.lt_iff_toNat_lt
        simp [compareUnits, hne, h, hlt]

theorem compareTo_neg_iff {a b : String} (ha : IsAscii a) (hb : IsAscii b) :
    compareTo a b < 0 ↔ a < b := by
  unfold compareTo
  rw [flatMap_codeUnits ha, flatMap_codeUnits hb, compareUnits_map_neg_iff]
  rfl

theorem compareTo_nonpos_iff {a b : String} (ha : IsAscii a) (hb : IsAscii b) :
    compareTo a b ≤ 0 ↔ a ≤ b := by
  have hswap : compareTo b a = -compareTo a b := compareUnits_swap _ _
  rw [← not_lt, ← not_lt, ← compareTo_neg_iff hb ha, hswap, neg_lt_zero]

namespace GroovyDependencyGraph

/-! ### Maps with the same entries -/

/-- An ordered map and a hash map have the same entries. -/
def SameEntries {β : Type} (m : TreeMap String β) (m' : LinkedHashMap String β) : Prop :=
  ∀ k : String, m[k]? = m'.get? k

/-- A set and the keys of a hash map are the same. -/
def SameKeys (s : TreeSet String) (m : LinkedHashMap String ℕ) : Prop :=
  ∀ k, s.contains k = m.containsKey k

section Entries

variable {β : Type} {m : TreeMap String β} {m' : LinkedHashMap String β}

theorem SameEntries.contains (h : SameEntries m m') (k : String) :
    m.contains k = m'.containsKey k := by
  rw [LinkedHashMap.containsKey_eq, ← h k, TreeMap.isSome_getElem?_eq_contains]

theorem SameEntries.mem_iff (h : SameEntries m m') {k : String} : k ∈ m ↔ k ∈ m'.keySet := by
  rw [TreeMap.mem_iff_contains, h.contains, LinkedHashMap.containsKey, decide_eq_true_iff]

theorem SameEntries.getD (h : SameEntries m m') (k : String) (v : β) :
    m.getD k v = m'.getD k v := by
  rw [TreeMap.getD_eq_getD_getElem?, h k]
  rfl

theorem SameEntries.put (h : SameEntries m m') (k : String) (v : β) :
    SameEntries (m.insert k v) (m'.put k v) := by
  intro k'
  rw [TreeMap.getElem?_insert, LinkedHashMap.get?_put, h k']
  exact if_congr compare_eq_iff_eq rfl rfl

theorem SameEntries.remove (h : SameEntries m m') (k : String) :
    SameEntries (m.erase k) (m'.remove k) := by
  intro k'
  rw [TreeMap.getElem?_erase, LinkedHashMap.get?_remove, h k']
  exact if_congr compare_eq_iff_eq rfl rfl

theorem sameEntries_empty : SameEntries (∅ : TreeMap String β) .empty :=
  fun _ ↦ TreeMap.getElem?_emptyc

theorem SameEntries.isEmpty (h : SameEntries m m') : m.isEmpty = m'.isEmpty := by
  rw [Bool.eq_iff_iff, LinkedHashMap.isEmpty_iff]
  constructor
  · intro hempty k
    rw [← h k, TreeMap.getElem?_of_isEmpty hempty]
  · intro hnone
    by_contra hne
    rw [Bool.not_eq_true, TreeMap.isEmpty_eq_false_iff_exists_mem] at hne
    obtain ⟨a, ha⟩ := hne
    rw [TreeMap.mem_iff_isSome_getElem?, h a, hnone a] at ha
    cases ha

theorem SameKeys.put {s : TreeSet String} {m : LinkedHashMap String ℕ} (h : SameKeys s m)
    (k : String) : SameKeys (s.insert k) (m.put k 1) := by
  intro k'
  rw [TreeSet.contains_insert, h k', LinkedHashMap.containsKey_eq, LinkedHashMap.containsKey_eq,
    LinkedHashMap.get?_put]
  by_cases heq : k = k'
  · subst heq
    simp
  · rw [if_neg heq, beq_eq_false_iff_ne.mpr fun hcompare ↦ heq (compare_eq_iff_eq.mp hcompare)]
    rfl

theorem SameKeys.remove {s : TreeSet String} {m : LinkedHashMap String ℕ} (h : SameKeys s m)
    (k : String) : SameKeys (s.erase k) (m.remove k) := by
  intro k'
  rw [TreeSet.contains_erase, h k', LinkedHashMap.containsKey_eq, LinkedHashMap.containsKey_eq,
    LinkedHashMap.get?_remove]
  by_cases heq : k = k'
  · subst heq
    simp
  · rw [if_neg heq, bne_iff_ne.mpr fun hcompare ↦ heq (compare_eq_iff_eq.mp hcompare)]
    rfl

theorem sameKeys_empty : SameKeys ∅ .empty := fun _ ↦ TreeSet.contains_emptyc

/-- The sort of distinct names. -/
theorem sortKeys_spec {keys : List String} (hascii : ∀ k ∈ keys, IsAscii k)
    (hnodup : keys.Nodup) :
    (sortKeys keys).Pairwise (· < ·) ∧ ∀ k, k ∈ sortKeys keys ↔ k ∈ keys := by
  have hsort : sortKeys keys = keys.insertionSort (· ≤ ·) := by
    have hmap := List.map_insertionSort (fun a b ↦ compareTo a b ≤ 0) (· ≤ ·) id keys
      fun a ha b hb ↦ compareTo_nonpos_iff (hascii a ha) (hascii b hb)
    rwa [List.map_id, List.map_id] at hmap
  have hle := List.pairwise_insertionSort (· ≤ ·) keys
  have hne : (keys.insertionSort (· ≤ ·)).Nodup :=
    (List.perm_insertionSort (· ≤ ·) keys).nodup_iff.mpr hnodup
  rw [hsort]
  exact ⟨(hle.and hne).imp fun ⟨hab, hne⟩ ↦ lt_of_le_of_ne hab hne,
    fun k ↦ List.mem_insertionSort (· ≤ ·)⟩

theorem pairwise_keys {β : Type} (m : TreeMap String β) : m.keys.Pairwise (· < ·) :=
  TreeMap.ordered_keys.imp fun h ↦ compare_lt_iff_lt.mp h

/-- The keys of an ordered map are the sorted keys of the hash map. -/
theorem SameEntries.keys (h : SameEntries m m') (hascii : ∀ k ∈ m'.keySet, IsAscii k) :
    m.keys = sortKeys m'.keySet := by
  obtain ⟨hsorted, hmem⟩ := sortKeys_spec hascii m'.nodup_keySet
  refine (pairwise_keys m).eq_of_mem_iff hsorted fun {k} ↦ ?_
  rw [TreeMap.mem_keys, h.mem_iff, hmem]

theorem SameEntries.size (h : SameEntries m m') : m.size = m'.keySet.length := by
  rw [← TreeMap.length_keys]
  refine List.Perm.length_eq ?_
  rw [List.perm_ext_iff_of_nodup TreeMap.nodup_keys m'.nodup_keySet]
  intro k
  rw [TreeMap.mem_keys, h.mem_iff]

end Entries

/-! ### The traversal -/

/-- Both traversals have found the same errors. -/
structure SameReport (r : DependencyGraph.Report) (r' : Report) : Prop where
  unknownsSeen : SameKeys r.unknownsSeen r'.unknownsSeen
  cyclesSeen : SameKeys r.cyclesSeen r'.cyclesSeen
  unknowns : SameEntries r.unknowns r'.unknowns
  cycles : r.cycles = r'.cycles

/-- Both traversals have got to the same place. -/
structure SameTraversal (s : DependencyGraph.Traversal) (s' : Traversal) : Prop where
  visited : SameKeys s.visited s'.visited
  visiting : SameKeys s.visiting s'.visiting
  path : s.path = s'.path
  report : SameReport s.report s'.report
  result : s.result = s'.result
  ascii : ∀ item ∈ s.path, IsAscii item

theorem SameReport.addUnknown {r : DependencyGraph.Report} {r' : Report} (h : SameReport r r')
    (path : List String) (item : String) :
    Option.Rel SameReport (r.addUnknown path item) (r'.addUnknown path item) := by
  unfold DependencyGraph.Report.addUnknown Report.addUnknown
  cases path.getLast? with
  | none => exact .none
  | some back =>
    show Option.Rel SameReport (if _ then _ else _) (if _ then _ else _)
    rw [h.unknownsSeen, h.unknowns.getD]
    split_ifs with hseen
    · exact .some h
    · exact .some ⟨h.unknownsSeen.put _, h.cyclesSeen, h.unknowns.put _ _, h.cycles⟩

theorem minItem_eq {front : String} {cycle : List String} (hfront : IsAscii front)
    (hcycle : ∀ item ∈ cycle, IsAscii item) :
    DependencyGraph.minItem front cycle = minItem front cycle := by
  unfold DependencyGraph.minItem minItem
  induction cycle generalizing front with
  | nil => rfl
  | cons item cycle ih =>
    have hitem := hcycle item List.mem_cons_self
    rw [List.foldl_cons, List.foldl_cons,
      if_congr (compareTo_neg_iff hitem hfront) rfl rfl]
    refine ih ?_ fun item' hitem' ↦ hcycle item' (List.mem_cons_of_mem _ hitem')
    split_ifs
    · exact hitem
    · exact hfront

theorem SameReport.addCycle {r : DependencyGraph.Report} {r' : Report} (h : SameReport r r')
    {path : List String} (hpath : ∀ item ∈ path, IsAscii item) (item : String) :
    Option.Rel SameReport (r.addCycle path item) (r'.addCycle path item) := by
  have hcycle : ∀ item' ∈ path.dropWhile (· ≠ item), IsAscii item' :=
    fun item' hmem ↦ hpath item' ((List.dropWhile_suffix _).subset hmem)
  unfold DependencyGraph.Report.addCycle Report.addCycle
  dsimp only
  cases hhead : (path.dropWhile (· ≠ item)).head? with
  | none => exact .none
  | some front =>
    have hfront := hcycle front (List.mem_of_head? hhead)
    show Option.Rel SameReport (if _ then _ else _) (if _ then _ else _)
    rw [h.cyclesSeen, minItem_eq hfront hcycle, h.cycles]
    split_ifs with hseen
    · exact .some h
    · exact .some ⟨h.unknownsSeen, h.cyclesSeen.put _, h.unknowns, rfl⟩

section Traversal

variable {d : ItemMap} {d' : LinkedHashMap String (List String)}

theorem SameTraversal.enter {s : DependencyGraph.Traversal} {s' : Traversal}
    (h : SameTraversal s s') {item : String} (hitem : IsAscii item) :
    SameTraversal (s.enter item) (s'.enter item) where
  visited := h.visited
  visiting := h.visiting.put item
  path := congrArg (· ++ [item]) h.path
  report := h.report
  result := h.result
  ascii := by
    intro item' hmem
    rcases List.mem_append.mp hmem with hmem | hmem
    · exact h.ascii item' hmem
    · rw [List.mem_singleton.mp hmem]
      exact hitem

theorem SameTraversal.leave {s : DependencyGraph.Traversal} {s' : Traversal}
    (h : SameTraversal s s') (item : String) : SameTraversal (s.leave item) (s'.leave item) where
  visited := h.visited.put item
  visiting := h.visiting.remove item
  path := congrArg List.dropLast h.path
  report := h.report
  result := congrArg (· ++ [item]) h.result
  ascii := fun item' hmem ↦ h.ascii item' (List.mem_of_mem_dropLast hmem)

theorem traverseInternal_rel (hd : SameEntries d d')
    (hdeps : ∀ a, ∀ b ∈ d.getD a [], IsAscii b) (depth : ℕ) {item : String} (hitem : IsAscii item)
    {s : DependencyGraph.Traversal} {s' : Traversal} (h : SameTraversal s s') :
    Option.Rel SameTraversal (DependencyGraph.traverseInternal d depth item s)
      (traverseInternal d' depth item s') := by
  induction depth generalizing item s s' with
  | zero => exact .none
  | succ depth ih =>
    unfold DependencyGraph.traverseInternal traverseInternal
    rw [hd.contains, h.visited, h.visiting, hd.getD]
    by_cases hknown : d'.containsKey item = true
    · rw [if_neg (not_not.mpr hknown), if_neg (not_not.mpr hknown)]
      split_ifs with hvisited hvisiting
      · exact .some h
      · rw [h.path]
        refine Fallible.rel_bind (h.report.addCycle (h.path ▸ h.ascii) item) fun r r' hr ↦ ?_
        exact .some ⟨h.visited, h.visiting, rfl, hr, h.result, h.path ▸ h.ascii⟩
      · refine Fallible.rel_bind (R := SameTraversal) ?_ fun t t' ht ↦ .some (ht.leave item)
        refine Fallible.rel_foldlM (h.enter hitem) fun neighbor hmem t t' ht ↦ ih ?_ ht
        exact hdeps item neighbor (hd.getD item [] ▸ hmem)
    · rw [if_pos hknown, if_pos hknown, h.path]
      refine Fallible.rel_bind (h.report.addUnknown s'.path item) fun r r' hr ↦ ?_
      exact .some ⟨h.visited, h.visiting, rfl, hr, h.result, h.path ▸ h.ascii⟩

theorem traverse_rel (hd : SameEntries d d') (hdeps : ∀ a, ∀ b ∈ d.getD a [], IsAscii b)
    {item : String} (hitem : IsAscii item) {r : DependencyGraph.Report} {r' : Report}
    (h : SameReport r r') :
    Option.Rel SameTraversal (DependencyGraph.traverse d item r) (traverse d' item r') := by
  unfold DependencyGraph.traverse traverse
  rw [hd.size]
  exact traverseInternal_rel hd hdeps _ hitem ⟨sameKeys_empty, sameKeys_empty, rfl, h, rfl, by simp⟩

/-- The tables of both sorts are the same. -/
structure SameTables (tables : ItemMap × DependencyGraph.Report)
    (tables' : LinkedHashMap String (List String) × Report) : Prop where
  sorted : SameEntries tables.1 tables'.1
  report : SameReport tables.2 tables'.2

theorem foldlM_sortFrom_rel (hd : SameEntries d d') (hdeps : ∀ a, ∀ b ∈ d.getD a [], IsAscii b)
    {items : List String} (hitems : ∀ item ∈ items, IsAscii item)
    {tables : ItemMap × DependencyGraph.Report}
    {tables' : LinkedHashMap String (List String) × Report} (h : SameTables tables tables') :
    Option.Rel SameTables (items.foldlM (DependencyGraph.sortFrom d) tables)
      (items.foldlM (sortFrom d') tables') := by
  refine Fallible.rel_foldlM h fun item hmem t t' ht ↦ ?_
  refine Fallible.rel_bind (traverse_rel hd hdeps (hitems item hmem) ht.report) fun s s' hs ↦ ?_
  refine .some ⟨?_, hs.report⟩
  rw [hs.result]
  exact ht.sorted.put item _

end Traversal

/-! ### The tables of a check -/

section Tables

variable {d : ItemMap} {d' : LinkedHashMap String (List String)}

theorem SameEntries.addRoot (h : SameEntries d d') (hascii : ∀ k ∈ d'.keySet, IsAscii k) :
    SameEntries (DependencyGraph.addRoot d) (addRoot d') := by
  have hkeys : ((d.insert "" []).keys.filter (· ≠ "")) =
      (sortKeys d'.keySet).filter (· ≠ "") := by
    obtain ⟨hsorted, hmem⟩ := sortKeys_spec hascii d'.nodup_keySet
    refine ((pairwise_keys _).filter _).eq_of_mem_iff (hsorted.filter _) fun {k} ↦ ?_
    rw [List.mem_filter, List.mem_filter, TreeMap.mem_keys, TreeMap.mem_insert, hmem, h.mem_iff]
    by_cases hk : k = ""
    · simp [hk]
    · simp [hk, Ne.symm hk]
  show SameEntries ((d.insert "" []).insert "" _) (d'.put "" _)
  rw [hkeys]
  intro k
  rw [TreeMap.getElem?_insert, TreeMap.getElem?_insert, LinkedHashMap.get?_put, h k]
  by_cases hk : "" = k
  · subst hk
    simp
  · simp [hk]

/-- Positions from one, and from zero. -/
def SameOrder (order : TreeMap String ℕ) (order' : LinkedHashMap String ℕ) : Prop :=
  ∀ k : String, order[k]? = (order'.get? k).map (· + 1)

theorem sameOrder_orderItems {order : TreeMap String ℕ} {order' : LinkedHashMap String ℕ}
    (h : SameOrder order order') (items : List String) :
    SameOrder (DependencyGraph.orderItems order items) (orderItems order' items) := by
  unfold DependencyGraph.orderItems orderItems
  generalize (0 : ℕ) = pos
  induction items generalizing order order' pos with
  | nil => exact h
  | cons item items ih =>
    refine ih (fun k ↦ ?_) (pos + 1)
    rw [TreeMap.getElem?_insert, LinkedHashMap.get?_put, h k]
    by_cases hk : item = k
    · subst hk
      simp
    · simp [hk]

/-! ### Reverse dependencies -/

/-- The multisets of those that depend on each name, with one more. -/
def addReverse (table : String → Option (Multiset String)) (edge : String × String) :
    String → Option (Multiset String) :=
  Function.update table edge.2 (some ((table edge.2).getD 0 + {edge.1}))

instance : RightCommutative addReverse where
  right_comm := by
    rintro table ⟨item, dep⟩ ⟨item', dep'⟩
    unfold addReverse
    by_cases h : dep = dep'
    · subst h
      simp only [Function.update_self, Function.update_idem, Option.getD_some]
      rw [add_right_comm]
    · simp only [Function.update_of_ne h, Function.update_of_ne (Ne.symm h)]
      exact Function.update_comm h _ _ _

/-- The pairs of an item and a dependency in the rows of a table. -/
def edgesOf (rows : List (String × List String)) : List (String × String) :=
  rows.flatMap fun row ↦ row.2.map (row.1, ·)

theorem foldl_reverseItem_rel (rows : List (String × List String)) {m : ItemMap}
    {table : String → Option (Multiset String)}
    (h : ∀ k : String, m[k]?.map Multiset.ofList = table k) (k : String) :
    (rows.foldl (fun reverse (item, deps) ↦ DependencyGraph.reverseItem reverse item deps)
      m)[k]?.map Multiset.ofList = (edgesOf rows).foldl addReverse table k := by
  have hflat : rows.foldl (fun reverse (item, deps) ↦
      DependencyGraph.reverseItem reverse item deps) m = (edgesOf rows).foldl
        (fun reverse edge ↦ reverse.insert edge.2 (reverse.getD edge.2 [] ++ [edge.1])) m := by
    simp only [edgesOf, List.foldl_flatMap, List.foldl_map, DependencyGraph.reverseItem]
  rw [hflat]
  refine List.foldl_rel (r := fun (m : ItemMap) (table : String → Option (Multiset String)) ↦
    ∀ k : String, m[k]?.map Multiset.ofList = table k) h (fun edge _ m table h k ↦ ?_) k
  unfold addReverse
  rw [TreeMap.getElem?_insert, TreeMap.getD_eq_getD_getElem?, ← h edge.2]
  by_cases hk : edge.2 = k
  · subst hk
    cases m[edge.2]? <;> simp [← Multiset.coe_add]
  · simp [hk, Ne.symm hk, h k]

theorem foldl_reverseItem_rel' (rows : List (String × List String))
    {m : LinkedHashMap String (List String)} {table : String → Option (Multiset String)}
    (h : ∀ k : String, (m.get? k).map Multiset.ofList = table k) (k : String) :
    ((rows.foldl (fun reverse (item, deps) ↦ reverseItem reverse item deps) m).get? k).map
      Multiset.ofList = (edgesOf rows).foldl addReverse table k := by
  have hflat : rows.foldl (fun reverse (item, deps) ↦ reverseItem reverse item deps) m =
      (edgesOf rows).foldl
        (fun reverse edge ↦ reverse.put edge.2 (reverse.getD edge.2 [] ++ [edge.1])) m := by
    simp only [edgesOf, List.foldl_flatMap, List.foldl_map, reverseItem]
  rw [hflat]
  refine List.foldl_rel (r := fun (m : LinkedHashMap String (List String))
    (table : String → Option (Multiset String)) ↦
      ∀ k : String, (m.get? k).map Multiset.ofList = table k) h (fun edge _ m table h k ↦ ?_) k
  unfold addReverse LinkedHashMap.getD
  rw [LinkedHashMap.get?_put, ← h edge.2]
  by_cases hk : edge.2 = k
  · subst hk
    cases m.get? edge.2 <;> simp [← Multiset.coe_add]
  · simp [hk, Ne.symm hk, h k]

/-- The rows of the hash map, in its order. -/
def rowsOf (m : LinkedHashMap String (List String)) : List (String × List String) :=
  m.keySet.map fun k ↦ (k, m.getD k [])

theorem perm_rowsOf (h : SameEntries d d') : d.toList.Perm (rowsOf d') := by
  have hnodup : (d.toList.map Prod.fst).Nodup := by
    rw [TreeMap.map_fst_toList_eq_keys]
    exact TreeMap.nodup_keys
  have hnodup' : ((rowsOf d').map Prod.fst).Nodup := by
    unfold rowsOf
    rw [List.map_map]
    exact (List.map_id d'.keySet).symm ▸ d'.nodup_keySet
  rw [List.perm_ext_iff_of_nodup hnodup.of_map hnodup'.of_map]
  rintro ⟨k, v⟩
  rw [TreeMap.mem_toList_iff_getElem?_eq_some, h k]
  unfold rowsOf
  rw [List.mem_map]
  constructor
  · intro hv
    exact ⟨k, LinkedHashMap.mem_keySet_iff.mpr ⟨v, hv⟩, by rw [LinkedHashMap.getD, hv]; rfl⟩
  · rintro ⟨k', hk', heq⟩
    obtain ⟨w, hw⟩ := LinkedHashMap.mem_keySet_iff.mp hk'
    obtain ⟨rfl, rfl⟩ := Prod.mk.inj heq
    rw [LinkedHashMap.getD, hw]
    rfl

/-- The reverse dependencies are the same, each in an order of its own. -/
theorem sameReverse (h : SameEntries d d') {m : ItemMap} {m' : LinkedHashMap String (List String)}
    (hm : ∀ k : String, m[k]?.map Multiset.ofList = (m'.get? k).map Multiset.ofList) (k : String) :
    (d.toList.foldl (fun reverse (item, deps) ↦ DependencyGraph.reverseItem reverse item deps)
      m)[k]?.map Multiset.ofList =
    ((d'.keySet.foldl (fun reverse item ↦ reverseItem reverse item (d'.getD item []))
      m').get? k).map Multiset.ofList := by
  have hrows : d'.keySet.foldl (fun reverse item ↦ reverseItem reverse item (d'.getD item [])) m' =
      (rowsOf d').foldl (fun reverse (item, deps) ↦ reverseItem reverse item deps) m' := by
    unfold rowsOf
    rw [List.foldl_map]
  have hperm : (edgesOf d.toList).Perm (edgesOf (rowsOf d')) :=
    (perm_rowsOf h).flatMap_right _
  rw [hrows, foldl_reverseItem_rel d.toList hm, hperm.foldl_eq,
    foldl_reverseItem_rel' (rowsOf d') fun k ↦ rfl]

end Tables

/-! ### Graphs that are added to and checked -/

/-- Two graphs that have had the same additions, and no check. -/
structure SameInput (g : DependencyGraph) (g' : GroovyDependencyGraph) : Prop where
  init : g.graphState = .init
  init' : g'.graphState = .init
  dependencies : SameEntries g.dependencies g'.dependencies
  sorted : g.sortedDependencies = ∅
  sorted' : g'.sortedDependencies = .empty
  reverse : SameEntries g.reverseDependencies g'.reverseDependencies
  reverse_nil : ∀ (a : String) (l : List String), g.reverseDependencies[a]? = some l → l = []
  itemOrder : g.itemOrder = ∅
  unknowns : g.unknowns = ∅
  cycles : g.cycles = []

theorem sameInput_new : SameInput .new new where
  init := rfl
  init' := rfl
  dependencies := sameEntries_empty
  sorted := rfl
  sorted' := rfl
  reverse := sameEntries_empty
  reverse_nil := fun a l h ↦ by
    rw [show (DependencyGraph.new.reverseDependencies)[a]? = none from TreeMap.getElem?_emptyc] at h
    cases h
  itemOrder := rfl
  unknowns := rfl
  cycles := rfl

theorem SameInput.add {g : DependencyGraph} {g' : GroovyDependencyGraph} (h : SameInput g g')
    (addition : DependencyGraph.Addition) :
    Option.Rel SameInput (g.add addition) (g'.add addition) := by
  cases addition with
  | addItem item =>
    show Option.Rel SameInput (g.addItem item) (g'.addItem item)
    unfold DependencyGraph.addItem addItem
    rw [h.dependencies.contains]
    split_ifs with hold hempty hempty' hempty'
    · exact .none
    · exact .none
    · exact absurd (String.isEmpty_iff.mp hempty) hempty'
    · exact absurd (String.isEmpty_iff.mpr hempty') hempty
    · refine .some { h with
        init := rfl
        init' := rfl
        dependencies := h.dependencies.put item []
        reverse := h.reverse.put item []
        reverse_nil := fun a l hl ↦ ?_ }
      rw [TreeMap.getElem?_insert] at hl
      split_ifs at hl
      · exact (Option.some_inj.mp hl).symm
      · exact h.reverse_nil a l hl
  | addDependency item dep =>
    show Option.Rel SameInput (g.addDependency item dep) (g'.addDependency item dep)
    unfold DependencyGraph.addDependency addDependency
    rw [h.dependencies.contains, h.dependencies.getD]
    split_ifs with hold hempty hempty' hempty'
    · exact .none
    · exact absurd (String.isEmpty_iff.mp hempty) hempty'
    · exact absurd (String.isEmpty_iff.mpr hempty') hempty
    · exact .some { h with
        init := rfl
        init' := rfl
        dependencies := h.dependencies.put item _ }
    · exact .none

theorem sameInput_build (additions : List DependencyGraph.Addition) :
    Option.Rel SameInput (DependencyGraph.build additions) (build additions) := by
  unfold DependencyGraph.build build
  exact Fallible.rel_foldlM sameInput_new fun addition _ g g' h ↦ h.add addition

/-- Two graphs that have been checked. -/
structure SameOutput (g : DependencyGraph) (g' : GroovyDependencyGraph) : Prop where
  graphState : g.graphState = g'.graphState
  dependencies : SameEntries g.dependencies g'.dependencies
  sorted : SameEntries g.sortedDependencies g'.sortedDependencies
  reverse : ∀ a : String, g.reverseDependencies[a]?.map Multiset.ofList =
    (g'.reverseDependencies.get? a).map Multiset.ofList
  inOrder : g.inOrder = g'.sortedGraph
  itemOrder : SameOrder g.itemOrder g'.itemOrder
  unknowns : SameEntries g.unknowns g'.unknowns
  cycles : g.cycles = g'.cycles

/-- No name of the graph has other characters than those of ASCII. -/
structure AsciiGraph (dependencies : ItemMap) : Prop where
  item : ∀ a ∈ dependencies, IsAscii a
  dep : ∀ a, ∀ b ∈ dependencies.getD a [], IsAscii b

theorem isAscii_root : IsAscii "" := fun c hc ↦ by cases hc

theorem AsciiGraph.addRoot {d : ItemMap} (h : AsciiGraph d) :
    AsciiGraph (DependencyGraph.addRoot d) where
  item := by
    intro a ha
    rcases DependencyGraph.mem_addRoot.mp ha with rfl | ha
    · exact isAscii_root
    · exact h.item a ha
  dep := by
    intro a b hb
    by_cases ha : a = ""
    · subst ha
      exact h.item b (DependencyGraph.dependsOn_addRoot_root.mp hb).1
    · exact h.dep a b ((DependencyGraph.dependsOn_addRoot ha).mp hb)

theorem AsciiGraph.keySet {d : ItemMap} {d' : LinkedHashMap String (List String)}
    (h : AsciiGraph d) (hd : SameEntries d d') : ∀ k ∈ d'.keySet, IsAscii k :=
  fun k hk ↦ h.item k (hd.mem_iff.mpr hk)

theorem topologicalSort_rel {g : DependencyGraph} {g' : GroovyDependencyGraph}
    (hd : SameEntries g.dependencies g'.dependencies) (hascii : AsciiGraph g.dependencies)
    (hsorted : SameEntries g.sortedDependencies g'.sortedDependencies)
    (hunknowns : SameEntries g.unknowns g'.unknowns) (hcycles : g.cycles = g'.cycles) :
    Option.Rel (fun s s' ↦ ∃ tables tables', SameTables tables tables' ∧
      s = { g with
        sortedDependencies := tables.1
        unknowns := tables.2.unknowns
        cycles := tables.2.cycles } ∧
      s' = { g' with
        sortedDependencies := tables'.1
        unknowns := tables'.2.unknowns
        cycles := tables'.2.cycles })
      g.topologicalSort g'.topologicalSort := by
  unfold DependencyGraph.topologicalSort topologicalSort
  rw [hd.keys (hascii.keySet hd)]
  refine Fallible.rel_bind (R := SameTables) ?_ fun tables tables' h ↦
    .some ⟨tables, tables', h, rfl, rfl⟩
  refine foldlM_sortFrom_rel hd hascii.dep (fun item hitem ↦ ?_) ⟨hsorted, ?_⟩
  · rw [(sortKeys_spec (hascii.keySet hd) g'.dependencies.nodup_keySet).2] at hitem
    exact hascii.keySet hd item hitem
  · exact ⟨sameKeys_empty, sameKeys_empty, hunknowns, hcycles⟩

/-- What `clear` leaves of a graph that has not been checked. -/
theorem SameInput.reverse_clear {g : DependencyGraph} {g' : GroovyDependencyGraph}
    (h : SameInput g g') (k : String) : g.reverseDependencies[k]?.map Multiset.ofList =
      (g'.clear.reverseDependencies.get? k).map Multiset.ofList := by
  show _ = ((g'.reverseDependencies.mapValues fun _ ↦ []).get? k).map Multiset.ofList
  rw [LinkedHashMap.get?_mapValues, ← h.reverse k]
  cases hk : g.reverseDependencies[k]? with
  | none => rfl
  | some l =>
    rw [h.reverse_nil k l hk]
    rfl

theorem SameInput.check {g : DependencyGraph} {g' : GroovyDependencyGraph} (h : SameInput g g')
    (hascii : AsciiGraph g.dependencies) :
    Option.Rel (fun checked checked' ↦ checked.1 = checked'.1 ∧ SameOutput checked.2 checked'.2)
      g.check g'.check := by
  unfold DependencyGraph.check GroovyDependencyGraph.check
  rw [if_neg (not_not.mpr h.init), if_neg (not_not.mpr h.init')]
  dsimp only
  rw [h.dependencies.contains, show g'.clear.dependencies = g'.dependencies from rfl]
  split_ifs with hroot
  · exact .none
  · have haddRoot := h.dependencies.addRoot (hascii.keySet h.dependencies)
    refine Fallible.rel_bind (topologicalSort_rel haddRoot hascii.addRoot ?_ ?_ h.cycles) ?_
    · rw [h.sorted]
      show SameEntries ∅ (g'.sortedDependencies.mapValues _)
      rw [h.sorted']
      exact sameEntries_empty
    · rw [h.unknowns]
      exact sameEntries_empty
    · rintro s s' ⟨tables, tables', htables, rfl, rfl⟩
      dsimp only
      rw [htables.sorted.getD]
      cases hlast : (tables'.1.getD "" []).getLast? with
      | none => exact .none
      | some back =>
        show Option.Rel _ (if back ≠ "" then none else some _) (if "" ≠ back then none else some _)
        rw [htables.report.unknowns.isEmpty, htables.report.cycles]
        by_cases hback : back = ""
        · rw [if_neg (not_not.mpr hback), if_neg (not_not.mpr hback.symm)]
          have herase := haddRoot.remove ""
          refine .some ⟨rfl, rfl, herase, htables.sorted.remove "", ?_, rfl, ?_, ?_, ?_⟩
          · exact sameReverse herase h.reverse_clear
          · exact sameOrder_orderItems
              (fun k ↦ by rw [h.itemOrder]; exact TreeMap.getElem?_emptyc) _
          · exact htables.report.unknowns
          · rfl
        · rw [if_pos hback, if_pos (Ne.symm hback)]
          exact .none

/-! ### Answers -/

/-- Two checked graphs answer alike, up to the order of reverse dependencies. -/
structure SameAnswers (g : DependencyGraph) (g' : GroovyDependencyGraph) : Prop where
  direct : ∀ item, g.getDirectDependencies item = g'.getDirectDependencies item
  sortedGraph : g.getSortedGraph = some g'.sortedGraph
  sorted : ∀ item, g.getSortedDependencies item = g'.getSortedDependencies item
  compare : ∀ item item', (g.compareItems item item').map Int.sign =
    (g'.compareItems item item').map Int.sign
  reverse : ∀ item, (g.getReverseDependencies item).map Multiset.ofList =
    (g'.getReverseDependencies item).map Multiset.ofList
  errors : ∃ unknowns, g.getErrors = some (unknowns, g'.cycles) ∧
    ∀ item : String, unknowns[item]? = g'.unknowns.get? item

theorem SameOutput.answers {g : DependencyGraph} {g' : GroovyDependencyGraph}
    (h : SameOutput g g') (hchecked : g.graphState ≠ .init) : SameAnswers g g' := by
  have hassert : g.assertChecked true = some () := DependencyGraph.assertChecked_of_ne_init hchecked
  have hassert' : g'.assertChecked true = some () := by
    unfold assertChecked
    rw [← h.graphState, decide_eq_true hchecked]
    rfl
  refine ⟨fun item ↦ ?_, ?_, fun item ↦ ?_, fun item item' ↦ ?_, fun item ↦ ?_, ?_⟩
  · unfold DependencyGraph.getDirectDependencies getDirectDependencies
    rw [hassert, hassert', h.dependencies item]
  · unfold DependencyGraph.getSortedGraph
    rw [hassert, h.inOrder]
    rfl
  · unfold DependencyGraph.getSortedDependencies getSortedDependencies
    rw [hassert, hassert', h.sorted item]
  · unfold DependencyGraph.compareItems compareItems
    rw [hassert, hassert', h.itemOrder item, h.itemOrder item']
    cases g'.itemOrder.get? item with
    | none => rfl
    | some pos =>
      cases g'.itemOrder.get? item' with
      | none => rfl
      | some pos' =>
        show Option.map Int.sign (if pos + 1 < pos' + 1 then _ else if pos + 1 > pos' + 1 then _
          else _) = some (Int.sign ((pos : ℤ) - pos').sign)
        rw [Int.sign_sign]
        rcases lt_trichotomy pos pos' with hlt | rfl | hgt
        · rw [if_pos (by omega), Int.sign_eq_neg_one_of_neg (by omega)]
          rfl
        · rw [if_neg (lt_irrefl _), if_neg (lt_irrefl _), sub_self]
          rfl
        · rw [if_neg (by omega), if_pos (by omega), Int.sign_eq_one_of_pos (by omega)]
          rfl
  · unfold DependencyGraph.getReverseDependencies getReverseDependencies
    rw [hassert, hassert']
    exact h.reverse item
  · refine ⟨g.unknowns, ?_, h.unknowns⟩
    unfold DependencyGraph.getErrors
    rw [hassert, h.cycles]
    rfl

/-- The names in a sequence of additions. -/
def namesOf : DependencyGraph.Addition → List String
  | .addItem item => [item]
  | .addDependency item dep => [item, dep]

theorem asciiGraph_of_build {additions : List DependencyGraph.Addition} {g : DependencyGraph}
    (hascii : ∀ addition ∈ additions, ∀ name ∈ namesOf addition, IsAscii name)
    (h : DependencyGraph.build additions = some g) : AsciiGraph g.dependencies where
  item := by
    intro a ha
    rw [(DependencyGraph.build_spec h).mem_iff, DependencyGraph.mem_added] at ha
    exact hascii _ ha a (List.mem_singleton_self a)
  dep := by
    intro a b hb
    have hrequires := ((DependencyGraph.build_spec h).dependsOn_iff a b).mp hb
    exact hascii _ hrequires b (by simp [namesOf])

/-- Additions of ASCII names that are legal for one graph are legal for the other, and after one
check the two answer alike. -/
theorem groovy_check_agrees {additions : List DependencyGraph.Addition}
    (hascii : ∀ addition ∈ additions, ∀ name ∈ namesOf addition, IsAscii name) :
    ((DependencyGraph.build additions).isSome ↔ (build additions).isSome) ∧
    ∀ g g', DependencyGraph.build additions = some g → build additions = some g' →
      ∃ result checked checked', g.check = some (result, checked) ∧
        g'.check = some (result, checked') ∧ SameAnswers checked checked' := by
  have hbuild := sameInput_build additions
  constructor
  · rw [Fallible.isSome_eq_of_rel hbuild]
  · intro g g' hg hg'
    rw [hg, hg'] at hbuild
    cases hbuild with
    | some hinput =>
      have hproper := (DependencyGraph.build_spec hg).wf.proper
      obtain ⟨checked, hcheck, hrechecked⟩ := DependencyGraph.check_rechecked hproper hinput.init
      obtain ⟨⟨result, checked'⟩, hcheck', hresult, houtput⟩ := Fallible.exists_of_rel
        (hinput.check (asciiGraph_of_build hascii hg)) hcheck
      dsimp only at hresult
      subst hresult
      refine ⟨_, checked, checked', hcheck, hcheck', houtput.answers ?_⟩
      exact (DependencyGraph.graphState_of_check hinput.init hcheck hproper).2.1

/-- The theorem, where a dependency is unknown and two items depend on each other. -/
theorem groovy_check_agrees_errors : ∃ g g' result checked checked',
    DependencyGraph.build [.addItem "b", .addItem "a", .addDependency "b" "a",
      .addDependency "b" "c", .addDependency "a" "b"] = some g ∧
    build [.addItem "b", .addItem "a", .addDependency "b" "a", .addDependency "b" "c",
      .addDependency "a" "b"] = some g' ∧
    g.check = some (result, checked) ∧ g'.check = some (result, checked') ∧
    SameAnswers checked checked' := by
  have hascii : ∀ addition ∈ [DependencyGraph.Addition.addItem "b", .addItem "a",
      .addDependency "b" "a", .addDependency "b" "c", .addDependency "a" "b"],
      ∀ name ∈ namesOf addition, IsAscii name := by
    have hnames : IsAscii "a" ∧ IsAscii "b" ∧ IsAscii "c" := by simp [IsAscii]
    simp [namesOf, hnames]
  obtain ⟨hlegal, hagrees⟩ := groovy_check_agrees hascii
  have hbuild : (DependencyGraph.build [.addItem "b", .addItem "a", .addDependency "b" "a",
    .addDependency "b" "c", .addDependency "a" "b"]).isSome := by decide
  obtain ⟨g, hg⟩ := Option.isSome_iff_exists.mp hbuild
  obtain ⟨g', hg'⟩ := Option.isSome_iff_exists.mp (hlegal.mp hbuild)
  obtain ⟨result, checked, checked', h⟩ := hagrees g g' hg hg'
  exact ⟨g, g', result, checked, checked', hg, hg', h⟩

end GroovyDependencyGraph

end Abuild
