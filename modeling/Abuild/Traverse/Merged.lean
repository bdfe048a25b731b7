import Abuild.DependencyGraph.Components
import Abuild.Traverse.Backing

/-!
Forests that are merged in 1.0-compatibility mode. Of the forests that externals join, the last is
kept, with the trees, the items and the backing areas of all of them, and a backing area that was
one of the others is the one that is kept now (`mergeExternals_quotient`).
-/

set_option autoImplicit false
set_option relaxedAutoImplicit false

namespace Abuild

open BuildForest
open DependencyGraph (DependsOn IndependentSets)
open Fallible (Ends)
open Std (TreeMap TreeSet)

/-! ### Two forests -/

/-- The trees, items and backing areas of a forest are those that the forests at `roots` had. -/
structure MergedFrom (forests : BuildForestMap) (roots : List String) (forest : BuildForest) :
    Prop where
  trees : ∀ name, name ∈ forest.buildTrees ↔
    ∃ p ∈ roots, ∃ read, forests[p]? = some read ∧ name ∈ read.buildTrees
  items : ∀ name, name ∈ forest.buildItems ↔
    ∃ p ∈ roots, ∃ read, forests[p]? = some read ∧ name ∈ read.buildItems
  areas : ∀ q, q ∈ forest.backingAreas ↔
    ∃ p ∈ roots, ∃ read, forests[p]? = some read ∧ q ∈ read.backingAreas

section Two

variable {forests : BuildForestMap} {p : String} {forest : BuildForest}

theorem mergedFrom_single (hforest : forests[p]? = some forest) :
    MergedFrom forests [p] forest := by
  have hiff : ∀ (P : BuildForest → Prop),
      P forest ↔ ∃ q ∈ [p], ∃ read, forests[q]? = some read ∧ P read := by
    refine fun P ↦ ⟨fun h ↦ ⟨p, List.mem_singleton_self p, forest, hforest, h⟩, ?_⟩
    rintro ⟨q, hq, read, hread, h⟩
    obtain rfl := List.mem_singleton.mp hq
    exact Option.some_inj.mp (hread.symm.trans hforest) ▸ h
  exact ⟨fun name ↦ hiff fun read ↦ name ∈ read.buildTrees,
    fun name ↦ hiff fun read ↦ name ∈ read.buildItems,
    fun q ↦ hiff fun read ↦ q ∈ read.backingAreas⟩

/-- An item in a tree of the forest is added, or there is one of its name. -/
theorem addItemToForest_mem (forest : BuildForest) (t : Traversal) (itemName : String)
    {item : BuildItem} (hne : item.treeName ≠ "") (htree : item.treeName ∈ forest.buildTrees) :
    Ends (fun x ↦ (∀ name, name ∈ x.1.buildItems ↔ name = itemName ∨ name ∈ forest.buildItems) ∧
        x.1.buildTrees = forest.buildTrees ∧ x.1.backingAreas = forest.backingAreas)
      (fun _ ↦ False) (forest.addItemToForest true t itemName item) := by
  unfold BuildForest.addItemToForest
  split
  · next other hother =>
    have hmem := mem_of_getElem? hother
    have hiff : ∀ name, name ∈ forest.buildItems ↔ name = itemName ∨ name ∈ forest.buildItems :=
      fun name ↦ ⟨Or.inr, fun hor ↦ hor.elim (fun heq ↦ heq ▸ hmem) id⟩
    split_ifs <;> exact ⟨hiff, rfl, rfl⟩
  · have hknown : (true && !forest.buildTrees.contains item.treeName) = false := by
      rw [TreeMap.contains_iff_mem.mpr htree]
      rfl
    rw [if_neg fun hempty ↦ hne (String.isEmpty_iff.mp hempty), hknown,
      if_neg Bool.false_ne_true]
    refine ⟨fun name ↦ ?_, rfl, rfl⟩
    dsimp only
    rw [TreeMap.mem_insert, compare_eq_iff_eq, eq_comm]

theorem addItems_mem (l : List (String × BuildItem)) (x : BuildForest × Traversal)
    (hl : ∀ e ∈ l, e.2.treeName ≠ "" ∧ e.2.treeName ∈ x.1.buildTrees) :
    Ends (fun x' ↦ (∀ name, name ∈ x'.1.buildItems ↔
          name ∈ l.map Prod.fst ∨ name ∈ x.1.buildItems) ∧
        x'.1.buildTrees = x.1.buildTrees ∧ x'.1.backingAreas = x.1.backingAreas)
      (fun _ ↦ False)
      (l.foldlM (fun s item ↦ s.1.addItemToForest true s.2 item.1 item.2) x) := by
  refine Ends.foldlM (motive := fun before (x' : BuildForest × Traversal) ↦
    (∀ name, name ∈ x'.1.buildItems ↔ name ∈ before.map Prod.fst ∨ name ∈ x.1.buildItems) ∧
      x'.1.buildTrees = x.1.buildTrees ∧ x'.1.backingAreas = x.1.backingAreas) ?_ ?_
  · exact ⟨fun name ↦ (or_iff_right List.not_mem_nil).symm, rfl, rfl⟩
  · rintro before e after hsplit x' ⟨hitems, htrees, hareas⟩
    obtain ⟨hne, htree⟩ := hl e (by rw [hsplit]; exact List.mem_append_right _ List.mem_cons_self)
    refine (addItemToForest_mem x'.1 x'.2 e.1 hne (htrees ▸ htree)).mono
      (fun x'' hx'' ↦ ⟨fun name ↦ ?_, hx''.2.1.trans htrees, hx''.2.2.trans hareas⟩) fun _ h ↦ h
    rw [hx''.1, hitems, List.map_append, List.mem_append, List.map_singleton, List.mem_singleton,
      or_assoc, or_left_comm]

/-- Another forest is merged into one, and no tree is missing. -/
theorem MergedFrom.mergeInto {roots : List String} {removeDir : String} {remove : BuildForest}
    (h : MergedFrom forests roots forest) (hremove : forests[removeDir]? = some remove)
    (htree : ∀ e ∈ remove.buildItems.toList, e.2.treeName ≠ "" ∧ e.2.treeName ∈ remove.buildTrees)
    (t : Traversal) :
    Ends (fun x ↦ MergedFrom forests (roots ++ [removeDir]) x.1) (fun _ ↦ False)
      (BuildForest.mergeInto forest remove t) := by
  have hiff : ∀ (P : BuildForest → Prop),
      (∃ q ∈ roots ++ [removeDir], ∃ read, forests[q]? = some read ∧ P read) ↔
        P remove ∨ ∃ q ∈ roots, ∃ read, forests[q]? = some read ∧ P read := by
    refine fun P ↦ ⟨?_, ?_⟩
    · rintro ⟨q, hq, read, hread, hP⟩
      rcases List.mem_append.mp hq with hq | hq
      · exact Or.inr ⟨q, hq, read, hread, hP⟩
      · obtain rfl := List.mem_singleton.mp hq
        exact Or.inl (Option.some_inj.mp (hread.symm.trans hremove) ▸ hP)
    · rintro (hP | ⟨q, hq, hP⟩)
      · exact ⟨removeDir, List.mem_append_right _ (List.mem_singleton_self _), remove, hremove, hP⟩
      · exact ⟨q, List.mem_append_left _ hq, hP⟩
  -- the trees come first, so that those of the items are there
  have htrees := foldl_addTreeToForest_mem remove.buildTrees.toList (forest, t)
  have hitems := addItems_mem remove.buildItems.toList
    (remove.buildTrees.toList.foldl (fun s tree ↦ s.1.addTreeToForest s.2 tree.1 tree.2)
      (forest, t))
    fun e he ↦ ⟨(htree e he).1,
      (htrees _).1.mpr (Or.inl (mem_map_fst_toList.mpr (htree e he).2))⟩
  unfold BuildForest.mergeInto
  refine hitems.bind ?_
  rintro ⟨merged, t'⟩ ⟨hmem, hsame, hareas⟩
  refine ⟨fun name ↦ ?_, fun name ↦ ?_, fun q ↦ ?_⟩
  · rw [hiff fun read ↦ name ∈ read.buildTrees, ← h.trees]
    dsimp only
    rw [hsame, (htrees name).1, mem_map_fst_toList]
  · rw [hiff fun read ↦ name ∈ read.buildItems, ← h.items]
    dsimp only
    rw [hmem, (htrees name).2, mem_map_fst_toList]
  · rw [hiff fun read ↦ q ∈ read.backingAreas, ← h.areas]
    dsimp only
    rw [hareas, (addTrees_keeps _ _).2, List.mem_append, or_comm]

end Two

/-! ### The sets -/

/-- The forests of a set, in its order. -/
def forestsIn (forests : BuildForestMap) (set : ItemList) : List String :=
  set.filter fun dir ↦ forests.contains dir

/-- The forests of a set are merged into the last of them, if there are others. -/
structure KeepsLast (forests : BuildForestMap) (set : ItemList) (keep : String)
    (others : List String) : Prop where
  last : (forestsIn forests set).getLast? = some keep
  others_eq : others = (forestsIn forests set).dropLast
  others_ne : others ≠ []

/-- What is to be merged for the sets that have been gone through. -/
structure Merges (forests : BuildForestMap) (sets : List ItemList) (m : ForestMerges) : Prop where
  renames : ∀ dir keep, m.forestRenames[dir]? = some keep ↔
    ∃ set ∈ sets, ∃ others, KeepsLast forests set keep others ∧ dir ∈ others
  merges : ∀ (keep : String) (others : List String), m.forestMerges[keep]? = some others ↔
    ∃ set ∈ sets, KeepsLast forests set keep others

section Sets

variable {forests : BuildForestMap} {sets : List ItemList} {set : ItemList} {keep : String}
  {others : List String}

theorem KeepsLast.eq_append (h : KeepsLast forests set keep others) :
    forestsIn forests set = others ++ [keep] := by
  rw [h.others_eq]
  exact (List.dropLast_append_getLast? keep h.last).symm

theorem KeepsLast.mem (h : KeepsLast forests set keep others) {p : String}
    (hp : p ∈ keep :: others) : p ∈ set ∧ p ∈ forests := by
  have hin : p ∈ forestsIn forests set := by
    rw [h.eq_append, List.mem_append, List.mem_singleton]
    exact (List.mem_cons.mp hp).symm
  obtain ⟨hset, hcontains⟩ := List.mem_filter.mp hin
  exact ⟨hset, TreeMap.contains_iff_mem.mp hcontains⟩

theorem KeepsLast.nodup (h : KeepsLast forests set keep others) (hset : set.Nodup) :
    (keep :: others).Nodup := by
  have hnodup : (others ++ [keep]).Nodup := h.eq_append ▸ hset.filter _
  exact (List.perm_append_singleton keep others).nodup_iff.mp hnodup

theorem KeepsLast.unique {keep' : String} {others' : List String}
    (h : KeepsLast forests set keep others) (h' : KeepsLast forests set keep' others') :
    keep = keep' ∧ others = others' :=
  ⟨Option.some_inj.mp (h.last.symm.trans h'.last), h.others_eq.trans h'.others_eq.symm⟩

theorem getElem?_foldl_insert (l : List String) (first dir : String)
    (renames : TreeMap String String) :
    (l.foldl (fun renames other ↦ renames.insert other first) renames)[dir]? =
      if dir ∈ l then some first else renames[dir]? := by
  induction l generalizing renames with
  | nil => rfl
  | cons other l ih =>
    rw [List.foldl_cons, ih, TreeMap.getElem?_insert]
    by_cases hl : dir ∈ l
    · rw [if_pos hl, if_pos (List.mem_cons_of_mem _ hl)]
    · by_cases ho : other = dir
      · rw [if_neg hl, if_pos (compare_eq_iff_eq.mpr ho), if_pos (ho ▸ List.mem_cons_self)]
      · rw [if_neg hl, if_neg fun heq ↦ ho (compare_eq_iff_eq.mp heq),
          if_neg (List.not_mem_cons_of_ne_of_not_mem (Ne.symm ho) hl)]

/-- A set without two forests, or the merge of its forests. -/
theorem addMerge_cases (forests : BuildForestMap) (m : ForestMerges) (set : ItemList) :
    ((∀ keep others, ¬ KeepsLast forests set keep others) ∧ addMerge forests m set = m) ∨
      ∃ keep others, KeepsLast forests set keep others ∧ addMerge forests m set =
        { forestRenames := others.foldl (fun renames other ↦ renames.insert other keep)
            m.forestRenames
          forestMerges := m.forestMerges.insert keep others } := by
  unfold addMerge
  dsimp only
  split
  · next hnone =>
    refine Or.inl ⟨fun keep others h ↦ ?_, rfl⟩
    cases hnone.symm.trans h.last
  · next keep hkeep =>
    split_ifs with hlength
    · refine Or.inl ⟨fun keep others h ↦ h.others_ne ?_, rfl⟩
      rw [h.others_eq]
      refine List.eq_nil_of_length_eq_zero ?_
      rw [List.length_dropLast]
      exact Nat.sub_eq_zero_of_le hlength
    · refine Or.inr ⟨keep, _, ⟨hkeep, rfl, fun hnil ↦ hlength ?_⟩, rfl⟩
      have hzero := congrArg List.length hnil
      rw [List.length_dropLast, List.length_nil] at hzero
      exact Nat.le_of_sub_eq_zero hzero

/-- Two sets with a directory in common are one. -/
theorem eq_of_mem_sets (hnodup : sets.flatten.Nodup) {set' : ItemList} (hset : set ∈ sets)
    (hset' : set' ∈ sets) {p : String} (hp : p ∈ set) (hp' : p ∈ set') : set = set' := by
  by_contra hne
  have hsymm : Std.Symm (List.Disjoint : ItemList → ItemList → Prop) := ⟨fun _ _ h ↦ h.symm⟩
  exact (List.nodup_flatten.mp hnodup).2.forall hset hset' hne hp hp'

theorem Merges.addMerge {before : List ItemList} {m : ForestMerges} (h : Merges forests before m)
    (hnew : ∀ set' ∈ before, ∀ p ∈ set', p ∉ set) :
    Merges forests (before ++ [set]) (BuildForest.addMerge forests m set) := by
  have hsplit : ∀ (P : ItemList → Prop),
      (∃ set' ∈ before ++ [set], P set') ↔ P set ∨ ∃ set' ∈ before, P set' := by
    refine fun P ↦ ⟨?_, ?_⟩
    · rintro ⟨set', hset', hP⟩
      rcases List.mem_append.mp hset' with hset' | hset'
      · exact Or.inr ⟨set', hset', hP⟩
      · exact Or.inl (List.mem_singleton.mp hset' ▸ hP)
    · rintro (hP | ⟨set', hset', hP⟩)
      · exact ⟨set, List.mem_append_right _ (List.mem_singleton_self set), hP⟩
      · exact ⟨set', List.mem_append_left _ hset', hP⟩
  rcases addMerge_cases forests m set with ⟨hnone, heq⟩ | ⟨keep, others, hkeeps, heq⟩
  · rw [heq]
    refine ⟨fun dir keep ↦ ?_, fun keep others ↦ ?_⟩
    · rw [hsplit, h.renames]
      refine (or_iff_right ?_).symm
      rintro ⟨others, hkeeps, -⟩
      exact hnone keep others hkeeps
    · rw [hsplit, h.merges]
      exact (or_iff_right (hnone keep others)).symm
  · rw [heq]
    refine ⟨fun dir keep' ↦ ?_, fun keep' others' ↦ ?_⟩
    · dsimp only
      rw [hsplit, getElem?_foldl_insert]
      split_ifs with hdir
      · constructor
        · intro hsome
          obtain rfl := Option.some_inj.mp hsome
          exact Or.inl ⟨others, hkeeps, hdir⟩
        · rintro (⟨others', hkeeps', -⟩ | ⟨set', hset', others', hkeeps', hdir'⟩)
          · rw [(hkeeps.unique hkeeps').1]
          · have hin := (hkeeps.mem (List.mem_cons_of_mem _ hdir)).1
            have hin' := (hkeeps'.mem (List.mem_cons_of_mem _ hdir')).1
            exact absurd hin (hnew set' hset' dir hin')
      · rw [h.renames]
        refine (or_iff_right ?_).symm
        rintro ⟨others', hkeeps', hdir'⟩
        exact hdir ((hkeeps.unique hkeeps').2 ▸ hdir')
    · dsimp only
      rw [hsplit, TreeMap.getElem?_insert]
      split_ifs with hsame
      · obtain rfl := compare_eq_iff_eq.mp hsame
        constructor
        · intro hsome
          obtain rfl := Option.some_inj.mp hsome
          exact Or.inl hkeeps
        · rintro (hkeeps' | ⟨set', hset', hkeeps'⟩)
          · rw [(hkeeps.unique hkeeps').2]
          · exact absurd (hkeeps.mem List.mem_cons_self).1
              (hnew set' hset' _ (hkeeps'.mem List.mem_cons_self).1)
      · rw [h.merges]
        refine (or_iff_right fun hkeeps' ↦ hsame ?_).symm
        exact compare_eq_iff_eq.mpr (hkeeps.unique hkeeps').1

theorem foldl_addMerge (forests : BuildForestMap) (sets : List ItemList)
    (hnodup : sets.flatten.Nodup) :
    Merges forests sets (sets.foldl (BuildForest.addMerge forests) ⟨∅, ∅⟩) := by
  induction sets using List.reverseRecOn with
  | nil =>
    refine ⟨fun dir keep ↦ iff_of_false (fun h ↦ ?_) ?_, fun keep others ↦ iff_of_false
      (fun h ↦ ?_) ?_⟩
    · cases TreeMap.getElem?_emptyc.symm.trans h
    · rintro ⟨set, hset, -⟩
      exact List.not_mem_nil hset
    · cases TreeMap.getElem?_emptyc.symm.trans h
    · rintro ⟨set, hset, -⟩
      exact List.not_mem_nil hset
  | append_singleton before set ih =>
    rw [List.flatten_append, List.nodup_append'] at hnodup
    obtain ⟨hbefore, -, hdisjoint⟩ := hnodup
    rw [List.foldl_append]
    refine (ih hbefore).addMerge fun set' hset' p hp hin ↦ ?_
    exact hdisjoint (List.mem_flatten.mpr ⟨set', hset', hp⟩) (by simpa using hin)

end Sets

/-! ### The merges -/

/-- Every item is in a tree of its forest, which has a name. -/
def InTrees (forests : BuildForestMap) : Prop :=
  ∀ (p : String) (forest : BuildForest), forests[p]? = some forest →
    ∀ e ∈ forest.buildItems.toList, e.2.treeName ≠ "" ∧ e.2.treeName ∈ forest.buildTrees

/-- How far the forests of one set have been merged, from the state `x` on. -/
structure MergedSet (forests : BuildForestMap) (keep : String) (x : BuildForestMap)
    (before : List String) (x' : BuildForestMap) : Prop where
  kept : ∃ forest, x'[keep]? = some forest ∧ MergedFrom forests (keep :: before) forest
  removed : ∀ p ∈ before, p ∉ x'
  frame : ∀ p, p ≠ keep → p ∉ before → x'[p]? = x[p]?

/-- How far the sets have been merged. -/
structure MergedSets (forests : BuildForestMap) (before : List (String × List String))
    (x : BuildForestMap) : Prop where
  merged : ∀ e ∈ before,
    (∃ forest, x[e.1]? = some forest ∧ MergedFrom forests (e.1 :: e.2) forest) ∧ ∀ p ∈ e.2, p ∉ x
  frame : ∀ p, (∀ e ∈ before, p ∉ e.1 :: e.2) → x[p]? = forests[p]?

section Merging

variable {forests : BuildForestMap} {keep : String} {others : List String}

theorem mergeSet_ends (htrees : InTrees forests) (x : BuildForestMap × Traversal)
    (hnodup : (keep :: others).Nodup) (hmem : ∀ p ∈ keep :: others, p ∈ forests)
    (hsame : ∀ p ∈ keep :: others, x.1[p]? = forests[p]?) :
    Ends (fun x' : BuildForestMap × Traversal ↦ MergedSet forests keep x.1 others x'.1)
      (fun _ ↦ False)
      (others.foldlM (mergeForest keep) x) := by
  obtain ⟨hkeep, hothers⟩ := List.nodup_cons.mp hnodup
  refine Ends.foldlM (motive := fun before (x' : BuildForestMap × Traversal) ↦
    MergedSet forests keep x.1 before x'.1) ?_ ?_
  · obtain ⟨forest, hforest⟩ := exists_of_mem (hmem keep List.mem_cons_self)
    refine ⟨⟨forest, ?_, mergedFrom_single hforest⟩, fun p hp ↦ absurd hp List.not_mem_nil,
      fun _ _ _ ↦ rfl⟩
    rw [hsame keep List.mem_cons_self, hforest]
  · intro before p after hsplit x' hx'
    have hp : p ∈ others := by rw [hsplit]; exact List.mem_append_right _ List.mem_cons_self
    have hne : p ≠ keep := fun heq ↦ hkeep (heq ▸ hp)
    have hnot : p ∉ before := by
      rw [hsplit] at hothers
      exact fun hin ↦ (List.nodup_append'.mp hothers).2.2 hin List.mem_cons_self
    obtain ⟨forest, hforest, hmerged⟩ := hx'.kept
    obtain ⟨remove, hremove⟩ := exists_of_mem (hmem p (List.mem_cons_of_mem _ hp))
    have hthere : x'.1[p]? = some remove := by
      rw [hx'.frame p hne hnot, hsame p (List.mem_cons_of_mem _ hp), hremove]
    have hresult : mergeForest keep x' p = (do
        let merged ← BuildForest.mergeInto forest remove x'.2
        .ok ((x'.1.insert keep merged.1).erase p, merged.2)) := by
      unfold mergeForest
      rw [hforest, hthere]
    rw [hresult]
    refine (hmerged.mergeInto hremove (htrees p remove hremove) x'.2).bind ?_
    rintro ⟨merged, t'⟩ hfrom
    have hget : ∀ q, ((x'.1.insert keep merged).erase p)[q]? =
        if q = p then none else if q = keep then some merged else x'.1[q]? := by
      intro q
      rw [TreeMap.getElem?_erase, TreeMap.getElem?_insert]
      have hcompare : ∀ a, compare a q = .eq ↔ q = a := fun a ↦ compare_eq_iff_eq.trans eq_comm
      exact if_congr (hcompare p) rfl (if_congr (hcompare keep) rfl rfl)
    refine ⟨⟨merged, ?_, hfrom⟩, fun q hq hin ↦ ?_, fun q hq hq' ↦ ?_⟩
    · dsimp only
      rw [hget, if_neg (Ne.symm hne), if_pos rfl]
    · obtain ⟨forest', hforest'⟩ := exists_of_mem hin
      dsimp only at hforest'
      rw [hget] at hforest'
      split_ifs at hforest' with heq hkept
      · rcases List.mem_append.mp hq with hq | hq
        · exact hkeep (hkept ▸ hsplit ▸ List.mem_append_left _ hq)
        · exact heq (List.mem_singleton.mp hq)
      · rcases List.mem_append.mp hq with hq | hq
        · exact hx'.removed q hq (mem_of_getElem? hforest')
        · exact heq (List.mem_singleton.mp hq)
    · dsimp only
      have hne' : q ≠ p := fun heq ↦
        hq' (List.mem_append_right _ (List.mem_singleton.mpr heq))
      rw [hget, if_neg hne', if_neg hq]
      exact hx'.frame q hq fun hin ↦ hq' (List.mem_append_left _ hin)

/-- Merges of forests that are there, of which no two have one in common. -/
theorem mergeSets_ends (htrees : InTrees forests) (l : List (String × List String)) (t : Traversal)
    (hnodup : ∀ e ∈ l, (e.1 :: e.2).Nodup) (hmem : ∀ e ∈ l, ∀ p ∈ e.1 :: e.2, p ∈ forests)
    (hdisjoint : l.Pairwise fun e e' ↦ ∀ p ∈ e.1 :: e.2, p ∉ e'.1 :: e'.2) :
    Ends (fun x : BuildForestMap × Traversal ↦ MergedSets forests l x.1) (fun _ ↦ False)
      (l.foldlM (fun s merge ↦ merge.2.foldlM (mergeForest merge.1) s) (forests, t)) := by
  refine Ends.foldlM (motive := fun before (x : BuildForestMap × Traversal) ↦
    MergedSets forests before x.1) ?_ ?_
  · exact ⟨fun e he ↦ absurd he List.not_mem_nil, fun _ _ ↦ rfl⟩
  · intro before e after hsplit x hx
    have he : e ∈ l := by rw [hsplit]; exact List.mem_append_right _ List.mem_cons_self
    have hapart : ∀ e' ∈ before, ∀ p ∈ e'.1 :: e'.2, p ∉ e.1 :: e.2 := by
      rw [hsplit, List.pairwise_append] at hdisjoint
      exact fun e' he' ↦ hdisjoint.2.2 e' he' e List.mem_cons_self
    refine (mergeSet_ends htrees x (hnodup e he) (hmem e he) fun p hp ↦ ?_).mono
      (fun x' hx' ↦ ⟨fun e' he' ↦ ?_, fun p hp ↦ ?_⟩) fun _ h ↦ h
    · exact hx.frame p fun e' he' hp' ↦ hapart e' he' p hp' hp
    · rcases List.mem_append.mp he' with he' | he'
      · have hframe : ∀ p ∈ e'.1 :: e'.2, x'.1[p]? = x.1[p]? := fun p hp ↦
          hx'.frame p (fun heq ↦ hapart e' he' p hp (heq ▸ List.mem_cons_self))
            fun hin ↦ hapart e' he' p hp (List.mem_cons_of_mem _ hin)
        obtain ⟨⟨forest, hforest, hmerged⟩, hremoved⟩ := hx.merged e' he'
        refine ⟨⟨forest, (hframe e'.1 List.mem_cons_self).trans hforest, hmerged⟩,
          fun p hp hin ↦ ?_⟩
        obtain ⟨forest', hforest'⟩ := exists_of_mem hin
        refine hremoved p hp (mem_of_getElem? (b := forest') ?_)
        rw [← hframe p (List.mem_cons_of_mem _ hp)]
        exact hforest'
      · rw [List.mem_singleton.mp he']
        exact ⟨hx'.kept, hx'.removed⟩
    · have hpe : p ∉ e.1 :: e.2 := hp e (List.mem_append_right _ (List.mem_singleton_self e))
      rw [hx'.frame p (fun heq ↦ hpe (heq ▸ List.mem_cons_self))
        fun hin ↦ hpe (List.mem_cons_of_mem _ hin)]
      exact hx.frame p fun e' he' ↦ hp e' (List.mem_append_left _ he')

end Merging

/-! ### The forests that are left -/

theorem coalesceBackingAreas_spec (renames : TreeMap String String) (areas : List String) :
    (coalesceBackingAreas renames areas).Nodup ∧
      ∀ q, q ∈ coalesceBackingAreas renames areas ↔ ∃ area ∈ areas, q = renames.getD area area := by
  have hfold : ∀ (l kept : List String), kept.Nodup →
      (l.foldl (fun kept ba ↦ if renames.getD ba ba ∈ kept then kept
        else kept ++ [renames.getD ba ba]) kept).Nodup ∧
      ∀ q, q ∈ l.foldl (fun kept ba ↦ if renames.getD ba ba ∈ kept then kept
        else kept ++ [renames.getD ba ba]) kept ↔
          q ∈ kept ∨ ∃ area ∈ l, q = renames.getD area area := by
    intro l
    induction l with
    | nil =>
      refine fun kept hkept ↦ ⟨hkept, fun q ↦ (or_iff_left ?_).symm⟩
      rintro ⟨area, harea, -⟩
      exact List.not_mem_nil harea
    | cons ba l ih =>
      intro kept hkept
      have hcons : ∀ q, (∃ area ∈ ba :: l, q = renames.getD area area) ↔
          q = renames.getD ba ba ∨ ∃ area ∈ l, q = renames.getD area area := fun q ↦
        List.exists_mem_cons_iff _ _ _
      rw [List.foldl_cons]
      split_ifs with hin
      · obtain ⟨hnodup, hmem⟩ := ih kept hkept
        refine ⟨hnodup, fun q ↦ ?_⟩
        rw [hmem, hcons, ← or_assoc]
        exact or_congr_left (or_iff_left_of_imp fun heq ↦ heq ▸ hin).symm
      · have happend : (kept ++ [renames.getD ba ba]).Nodup :=
          List.nodup_append'.mpr ⟨hkept, List.nodup_singleton _,
            fun q hq hq' ↦ hin (List.mem_singleton.mp hq' ▸ hq)⟩
        obtain ⟨hnodup, hmem⟩ := ih _ happend
        refine ⟨hnodup, fun q ↦ ?_⟩
        rw [hmem, hcons, List.mem_append, List.mem_singleton, or_assoc]
  obtain ⟨hnodup, hmem⟩ := hfold areas [] List.nodup_nil
  exact ⟨hnodup, fun q ↦ (hmem q).trans (or_iff_right List.not_mem_nil)⟩

/-- Where a forest goes. -/
def ForestMerges.kept (m : ForestMerges) (p : String) : String := m.forestRenames.getD p p

section Quotient

variable {forests : BuildForestMap} {sets : List ItemList} {set : ItemList} {keep : String}
  {others : List String} {m : ForestMerges}

theorem Merges.kept_of_mem (hm : Merges forests sets m) (hset : set ∈ sets)
    (hkeeps : KeepsLast forests set keep others) {p : String} (hp : p ∈ others) :
    m.kept p = keep := by
  unfold ForestMerges.kept
  rw [TreeMap.getD_eq_getD_getElem?, (hm.renames p keep).mpr ⟨set, hset, others, hkeeps, hp⟩]
  rfl

/-- A forest stays where it is, or it is one of the others of its set. -/
theorem Merges.kept_cases (hm : Merges forests sets m) (p : String) :
    (m.kept p = p ∧ ∀ set ∈ sets, ∀ keep others, KeepsLast forests set keep others → p ∉ others) ∨
      ∃ set ∈ sets, ∃ others, KeepsLast forests set (m.kept p) others ∧ p ∈ others := by
  cases hget : m.forestRenames[p]? with
  | none =>
    refine Or.inl ⟨?_, fun set hset keep others hkeeps hp ↦ ?_⟩
    · unfold ForestMerges.kept
      rw [TreeMap.getD_eq_getD_getElem?, hget]
      rfl
    · cases hget.symm.trans ((hm.renames p keep).mpr ⟨set, hset, others, hkeeps, hp⟩)
  | some keep =>
    obtain ⟨set, hset, others, hkeeps, hp⟩ := (hm.renames p keep).mp hget
    refine Or.inr ⟨set, hset, others, ?_, hp⟩
    rw [hm.kept_of_mem hset hkeeps hp]
    exact hkeeps

theorem Merges.kept_keep (hm : Merges forests sets m) (hnodup : sets.flatten.Nodup)
    (hset : set ∈ sets) (hkeeps : KeepsLast forests set keep others) : m.kept keep = keep := by
  rcases hm.kept_cases keep with ⟨hkept, -⟩ | ⟨set', hset', others', hkeeps', hmem⟩
  · exact hkept
  · obtain rfl := eq_of_mem_sets hnodup hset hset' (hkeeps.mem List.mem_cons_self).1
      (hkeeps'.mem (List.mem_cons_of_mem _ hmem)).1
    exact (hkeeps'.unique hkeeps).1

/-- What goes into a forest that is kept is the forests of its set. -/
theorem Merges.kept_eq_iff (hm : Merges forests sets m) (hnodup : sets.flatten.Nodup)
    (hset : set ∈ sets) (hkeeps : KeepsLast forests set keep others) (p : String) :
    m.kept p = keep ↔ p ∈ keep :: others := by
  constructor
  · intro hkept
    rcases hm.kept_cases p with ⟨hsame, -⟩ | ⟨set', hset', others', hkeeps', hp⟩
    · rw [← hkept, hsame]
      exact List.mem_cons_self
    · rw [hkept] at hkeeps'
      obtain rfl := eq_of_mem_sets hnodup hset hset' (hkeeps.mem List.mem_cons_self).1
        (hkeeps'.mem List.mem_cons_self).1
      exact (hkeeps.unique hkeeps').2 ▸ List.mem_cons_of_mem _ hp
  · intro hp
    rcases List.mem_cons.mp hp with rfl | hp
    · exact hm.kept_keep hnodup hset hkeeps
    · exact hm.kept_of_mem hset hkeeps hp

/-- Two forests of one set are merged. -/
theorem exists_keepsLast {p q : String} (hp : p ∈ set) (hp' : p ∈ forests) (hq : q ∈ set)
    (hq' : q ∈ forests) (hne : p ≠ q) :
    ∃ keep others, KeepsLast forests set keep others ∧ p ∈ keep :: others ∧ q ∈ keep :: others := by
  have hin : ∀ {a : String}, a ∈ set → a ∈ forests → a ∈ forestsIn forests set := fun ha ha' ↦
    List.mem_filter.mpr ⟨ha, TreeMap.contains_iff_mem.mpr ha'⟩
  have hnil : forestsIn forests set ≠ [] := List.ne_nil_of_mem (hin hp hp')
  have hsplit := List.dropLast_append_getLast hnil
  have hmem : ∀ {a : String}, a ∈ set → a ∈ forests →
      a ∈ (forestsIn forests set).getLast hnil :: (forestsIn forests set).dropLast := by
    intro a ha ha'
    have ha'' := hin ha ha'
    rw [← hsplit, List.mem_append, List.mem_singleton] at ha''
    exact List.mem_cons.mpr ha''.symm
  refine ⟨(forestsIn forests set).getLast hnil, (forestsIn forests set).dropLast,
    ⟨List.getLast?_eq_some_getLast hnil, rfl, fun hempty ↦ ?_⟩, hmem hp hp', hmem hq hq'⟩
  have hall : ∀ {a : String}, a ∈ set → a ∈ forests → a = (forestsIn forests set).getLast hnil := by
    intro a ha ha'
    have ha'' := hmem ha ha'
    rw [hempty] at ha''
    exact List.mem_singleton.mp ha''
  exact hne ((hall hp hp').trans (hall hq hq').symm)

theorem Merges.kept_eq_kept_iff (hm : Merges forests sets m) (hnodup : sets.flatten.Nodup)
    {p q : String} (hp : p ∈ forests) (hq : q ∈ forests) :
    m.kept p = m.kept q ↔ p = q ∨ ∃ set ∈ sets, p ∈ set ∧ q ∈ set := by
  constructor
  · intro hsame
    rcases hm.kept_cases p with ⟨hkept, -⟩ | ⟨set, hset, others, hkeeps, hin⟩
    · rcases hm.kept_cases q with ⟨hkept', -⟩ | ⟨set, hset, others, hkeeps, hin⟩
      · exact Or.inl (hkept.symm.trans (hsame.trans hkept'))
      · have hkeep := (hkeeps.mem List.mem_cons_self).1
        rw [← hsame, hkept] at hkeep
        exact Or.inr ⟨set, hset, hkeep, (hkeeps.mem (List.mem_cons_of_mem _ hin)).1⟩
    · have hq' := (hm.kept_eq_iff hnodup hset hkeeps q).mp hsame.symm
      exact Or.inr ⟨set, hset, (hkeeps.mem (List.mem_cons_of_mem _ hin)).1, (hkeeps.mem hq').1⟩
  · rintro (rfl | ⟨set, hset, hp', hq'⟩)
    · rfl
    · by_cases hne : p = q
      · rw [hne]
      · obtain ⟨keep, others, hkeeps, hpin, hqin⟩ := exists_keepsLast hp' hp hq' hq hne
        rw [(hm.kept_eq_iff hnodup hset hkeeps p).mpr hpin,
          (hm.kept_eq_iff hnodup hset hkeeps q).mpr hqin]

/-- A forest that is left after the merges has what the forests had that went into it. -/
theorem Merges.mergedFrom (hm : Merges forests sets m) (hnodup : sets.flatten.Nodup)
    {x : BuildForestMap} (hx : MergedSets forests m.forestMerges.toList x) {p : String}
    {forest : BuildForest} (hget : x[p]? = some forest) :
    ∃ roots, MergedFrom forests roots forest ∧ p ∈ roots ∧ (∀ q ∈ roots, q ∈ forests) ∧
      ∀ q, q ∈ roots ↔ m.kept q = p := by
  by_cases hkeep : ∃ set ∈ sets, ∃ others, KeepsLast forests set p others
  · obtain ⟨set, hset, others, hkeeps⟩ := hkeep
    have hin : (p, others) ∈ m.forestMerges.toList :=
      TreeMap.mem_toList_iff_getElem?_eq_some.mpr ((hm.merges p others).mpr ⟨set, hset, hkeeps⟩)
    obtain ⟨⟨forest', hforest', hmerged⟩, -⟩ := hx.merged _ hin
    obtain rfl := Option.some_inj.mp (hget.symm.trans hforest')
    exact ⟨p :: others, hmerged, List.mem_cons_self, fun q hq ↦ (hkeeps.mem hq).2,
      fun q ↦ (hm.kept_eq_iff hnodup hset hkeeps q).symm⟩
  · have hnot : ∀ e ∈ m.forestMerges.toList, p ∉ e.1 :: e.2 := by
      intro e he hp
      obtain ⟨set, hset, hkeeps⟩ :=
        (hm.merges e.1 e.2).mp (TreeMap.mem_toList_iff_getElem?_eq_some.mp he)
      rcases List.mem_cons.mp hp with rfl | hp
      · exact hkeep ⟨set, hset, e.2, hkeeps⟩
      · exact (hx.merged e he).2 p hp (mem_of_getElem? hget)
    have hread : forests[p]? = some forest := (hx.frame p hnot).symm.trans hget
    refine ⟨[p], mergedFrom_single hread, List.mem_singleton_self p, fun q hq ↦ ?_, fun q ↦ ?_⟩
    · rw [List.mem_singleton.mp hq]
      exact mem_of_getElem? hread
    · rw [List.mem_singleton]
      rcases hm.kept_cases q with ⟨hkept, -⟩ | ⟨set, hset, others, hkeeps, hq⟩
      · rw [hkept]
      · refine iff_of_false (fun heq ↦ ?_) fun heq ↦ hkeep ⟨set, hset, others, heq ▸ hkeeps⟩
        have hin : (m.kept q, others) ∈ m.forestMerges.toList :=
          TreeMap.mem_toList_iff_getElem?_eq_some.mpr
            ((hm.merges _ others).mpr ⟨set, hset, hkeeps⟩)
        exact hnot _ hin (heq ▸ List.mem_cons_of_mem _ hq)

theorem Merges.kept_mem (hm : Merges forests sets m) {x : BuildForestMap}
    (hx : MergedSets forests m.forestMerges.toList x) {p : String} (hp : p ∈ forests) :
    m.kept p ∈ x := by
  have hlast : ∀ set ∈ sets, ∀ keep others, KeepsLast forests set keep others → keep ∈ x := by
    intro set hset keep others hkeeps
    have hin : (keep, others) ∈ m.forestMerges.toList :=
      TreeMap.mem_toList_iff_getElem?_eq_some.mpr ((hm.merges keep others).mpr ⟨set, hset, hkeeps⟩)
    obtain ⟨⟨forest, hforest, -⟩, -⟩ := hx.merged _ hin
    exact mem_of_getElem? hforest
  rcases hm.kept_cases p with ⟨hkept, hothers⟩ | ⟨set, hset, others, hkeeps, -⟩
  · rw [hkept]
    by_cases hkeep : ∃ set ∈ sets, ∃ others, KeepsLast forests set p others
    · obtain ⟨set, hset, others, hkeeps⟩ := hkeep
      exact hlast set hset p others hkeeps
    · obtain ⟨forest, hforest⟩ := exists_of_mem hp
      refine mem_of_getElem? ((hx.frame p fun e he hin ↦ ?_).trans hforest)
      obtain ⟨set, hset, hkeeps⟩ :=
        (hm.merges e.1 e.2).mp (TreeMap.mem_toList_iff_getElem?_eq_some.mp he)
      rcases List.mem_cons.mp hin with rfl | hin
      · exact hkeep ⟨set, hset, e.2, hkeeps⟩
      · exact hothers set hset e.1 e.2 hkeeps hin
  · exact hlast set hset _ others hkeeps

end Quotient

/-- Every forest goes into one that is kept. What is kept has the trees, the items and the backing
areas, by the forests that these are now, of those that went into it. -/
structure MergeQuotient (forests forests' : BuildForestMap) (kept : String → String) : Prop where
  kept_mem : ∀ p ∈ forests, kept p ∈ forests'
  kept_self : ∀ p ∈ forests', p ∈ forests ∧ kept p = p
  trees : ∀ (p : String) (forest : BuildForest), forests'[p]? = some forest →
    ∀ name, name ∈ forest.buildTrees ↔
      ∃ (q : String) (read : BuildForest), forests[q]? = some read ∧ kept q = p ∧
        name ∈ read.buildTrees
  items : ∀ (p : String) (forest : BuildForest), forests'[p]? = some forest →
    ∀ name, name ∈ forest.buildItems ↔
      ∃ (q : String) (read : BuildForest), forests[q]? = some read ∧ kept q = p ∧
        name ∈ read.buildItems
  areas : ∀ (p : String) (forest : BuildForest), forests'[p]? = some forest →
    ∀ area, area ∈ forest.backingAreas ↔
      ∃ (q : String) (read : BuildForest), forests[q]? = some read ∧ kept q = p ∧
        ∃ b ∈ read.backingAreas, area = kept b
  areas_nodup : ∀ (p : String) (forest : BuildForest), forests'[p]? = some forest →
    forest.backingAreas.Nodup

/-- The forests of one set go into one forest. -/
theorem mergeForests_quotient {forests : BuildForestMap} {t : Traversal}
    (hall : GathersAll forests t) {sets : List ItemList} (hnodup : sets.flatten.Nodup) :
    ∃ (forests' : BuildForestMap) (t' : Traversal) (kept : String → String),
      mergeForests forests t sets = .ok (forests', t') ∧ MergeQuotient forests forests' kept ∧
        ∀ p ∈ forests, ∀ q ∈ forests,
          kept p = kept q ↔ p = q ∨ ∃ set ∈ sets, p ∈ set ∧ q ∈ set := by
  have hm := foldl_addMerge forests sets hnodup
  obtain ⟨m, hmeq⟩ : ∃ m, sets.foldl (addMerge forests) ⟨∅, ∅⟩ = m := ⟨_, rfl⟩
  rw [hmeq] at hm
  have hmerge : ∀ e ∈ m.forestMerges.toList, ∃ set ∈ sets, KeepsLast forests set e.1 e.2 :=
    fun e he ↦ (hm.merges e.1 e.2).mp (TreeMap.mem_toList_iff_getElem?_eq_some.mp he)
  have hsetNodup : ∀ set ∈ sets, set.Nodup := (List.nodup_flatten.mp hnodup).1
  have htrees : InTrees forests := by
    intro p forest hforest e he
    have hgathered := hall.forest p forest hforest
    obtain ⟨-, hmem⟩ := hgathered.item e.1 e.2 (TreeMap.mem_toList_iff_getElem?_eq_some.mp he)
    obtain ⟨tree, htree⟩ := exists_of_mem hmem
    exact ⟨(hgathered.tree _ tree htree).name_ne, hmem⟩
  have hfold := mergeSets_ends htrees m.forestMerges.toList t (fun e he ↦ by
      obtain ⟨set, hset, hkeeps⟩ := hmerge e he
      exact hkeeps.nodup (hsetNodup set hset))
    (fun e he p hp ↦ by
      obtain ⟨set, -, hkeeps⟩ := hmerge e he
      exact (hkeeps.mem hp).2)
    (TreeMap.distinct_keys_toList.imp_of_mem fun {e e'} he he' hne p hp hp' ↦ by
      obtain ⟨set, hset, hkeeps⟩ := hmerge e he
      obtain ⟨set', hset', hkeeps'⟩ := hmerge e' he'
      obtain rfl := eq_of_mem_sets hnodup hset hset' (hkeeps.mem hp).1 (hkeeps'.mem hp').1
      exact hne (compare_eq_iff_eq.mpr (hkeeps.unique hkeeps').1))
  have hresult : mergeForests forests t sets = (do
      let x ← m.forestMerges.toList.foldlM
        (fun s merge ↦ merge.2.foldlM (mergeForest merge.1) s) (forests, t)
      .ok (x.1.map fun _ forest ↦ { forest with
        backingAreas := coalesceBackingAreas m.forestRenames forest.backingAreas }, x.2)) := by
    unfold mergeForests
    rw [hmeq]
  rw [hresult]
  cases hrun : m.forestMerges.toList.foldlM
      (fun s merge ↦ merge.2.foldlM (mergeForest merge.1) s) (forests, t) with
  | error halt =>
    rw [hrun] at hfold
    exact hfold.elim
  | ok x =>
    rw [hrun] at hfold
    have hx : MergedSets forests m.forestMerges.toList x.1 := hfold
    have hfinal : ∀ p, p ∈ x.1.map (fun _ forest ↦ { forest with
        backingAreas := coalesceBackingAreas m.forestRenames forest.backingAreas }) ↔ p ∈ x.1 :=
      fun p ↦ TreeMap.mem_map
    have hleft : ∀ (p : String) (forest : BuildForest), (x.1.map fun _ forest ↦ { forest with
          backingAreas := coalesceBackingAreas m.forestRenames forest.backingAreas })[p]? =
            some forest →
        ∃ merged roots, { merged with
            backingAreas := coalesceBackingAreas m.forestRenames merged.backingAreas } = forest ∧
          MergedFrom forests roots merged ∧ ∀ P : BuildForest → Prop,
            (∃ q ∈ roots, ∃ read, forests[q]? = some read ∧ P read) ↔
              ∃ (q : String) (read : BuildForest), forests[q]? = some read ∧ m.kept q = p ∧
                P read := by
      intro p forest hget
      obtain ⟨merged, hmerged, heq⟩ := getElem?_map_some hget
      obtain ⟨roots, hfrom, -, -, hkept⟩ := hm.mergedFrom hnodup hx hmerged
      refine ⟨merged, roots, heq, hfrom, fun P ↦ ⟨?_, ?_⟩⟩
      · rintro ⟨q, hq, read, hread, hP⟩
        exact ⟨q, read, hread, (hkept q).mp hq, hP⟩
      · rintro ⟨q, read, hread, hq, hP⟩
        exact ⟨q, (hkept q).mpr hq, read, hread, hP⟩
    refine ⟨_, _, m.kept, rfl, ⟨fun p hp ↦ (hfinal _).mpr (hm.kept_mem hx hp), fun p hp ↦ ?_,
      fun p forest hget name ↦ ?_, fun p forest hget name ↦ ?_, fun p forest hget area ↦ ?_,
      fun p forest hget ↦ ?_⟩, fun p hp q hq ↦ hm.kept_eq_kept_iff hnodup hp hq⟩
    · obtain ⟨forest, hforest⟩ := exists_of_mem ((hfinal p).mp hp)
      obtain ⟨roots, -, hroot, hroots, hkept⟩ := hm.mergedFrom hnodup hx hforest
      exact ⟨hroots p hroot, (hkept p).mp hroot⟩
    · obtain ⟨merged, roots, rfl, hfrom, hroots⟩ := hleft p forest hget
      rw [← hroots fun read ↦ name ∈ read.buildTrees]
      exact hfrom.trees name
    · obtain ⟨merged, roots, rfl, hfrom, hroots⟩ := hleft p forest hget
      rw [← hroots fun read ↦ name ∈ read.buildItems]
      exact hfrom.items name
    · obtain ⟨merged, roots, rfl, hfrom, hroots⟩ := hleft p forest hget
      rw [← hroots fun read ↦ ∃ b ∈ read.backingAreas, area = m.kept b]
      refine ((coalesceBackingAreas_spec m.forestRenames merged.backingAreas).2 area).trans ⟨?_, ?_⟩
      · rintro ⟨b, hb, harea⟩
        obtain ⟨q, hq, read, hread, hin⟩ := (hfrom.areas b).mp hb
        exact ⟨q, hq, read, hread, b, hin, harea⟩
      · rintro ⟨q, hq, read, hread, b, hin, harea⟩
        exact ⟨b, (hfrom.areas b).mpr ⟨q, hq, read, hread, hin⟩, harea⟩
    · obtain ⟨merged, -, rfl, -, -⟩ := hleft p forest hget
      exact (coalesceBackingAreas_spec m.forestRenames merged.backingAreas).1

/-! ### Externals -/

/-- The sets of a graph that has just been built and checked. -/
theorem exists_independentSets {additions : List DependencyGraph.Addition} {g : DependencyGraph}
    (h : (DependencyGraph.build additions).bind DependencyGraph.check = some (true, g)) :
    ∃ sets g', g.getIndependentSets = some (sets, g') ∧ IndependentSets g.dependencies sets ∧
      DependencyGraph.Ready g := by
  obtain ⟨g₀, hbuild, hcheck⟩ := Option.bind_eq_some_iff.mp h
  have hkept : DependencyGraph.History.Kept ⟨g₀, none⟩ := by
    refine Fallible.foldlM_induction (motive := fun g ↦ DependencyGraph.History.Kept ⟨g, none⟩)
      hbuild DependencyGraph.History.kept_new fun addition _ g₁ g₂ hadd hg₁ ↦ ?_
    have hcall : DependencyGraph.History.call ⟨g₁, none⟩ (.add addition) = some ⟨g₂, none⟩ := by
      unfold DependencyGraph.History.call
      dsimp only
      rw [hadd]
      rfl
    exact hg₁.call hcall
  have hchecked : DependencyGraph.History.Kept ⟨g, none⟩ := by
    have hcall : DependencyGraph.History.call ⟨g₀, none⟩ .check = some ⟨g, none⟩ := by
      unfold DependencyGraph.History.call
      dsimp only
      rw [hcheck]
      rfl
    exact hkept.call hcall
  have hready : g.graphState = .ready := by
    by_cases hinit : g₀.graphState = .init
    · obtain ⟨-, -, g', hcheck', -⟩ := DependencyGraph.check_eq hkept.wf.proper hinit
      obtain ⟨hresult, rfl⟩ := Prod.mk.inj (Option.some_inj.mp (hcheck'.symm.trans hcheck))
      exact of_decide_eq_true hresult
    · unfold DependencyGraph.check at hcheck
      rw [if_pos hinit] at hcheck
      obtain ⟨hresult, rfl⟩ := Prod.mk.inj (Option.some_inj.mp hcheck)
      exact of_decide_eq_true hresult
  have hr := hchecked.ready hready
  obtain ⟨sets, hsets, -, hfresh⟩ := hr.getIndependentSets
  exact ⟨sets, _, hsets, (hfresh (hchecked.fresh rfl)).1, hr⟩

/-- Being in one set is being joined by externals. -/
theorem same_set_iff {g : DependencyGraph} (hr : DependencyGraph.Ready g) {sets : List ItemList}
    (hsets : IndependentSets g.dependencies sets) (p q : String) :
    (p = q ∨ ∃ set ∈ sets, p ∈ set ∧ q ∈ set) ↔
      Components.Joined (DependsOn g.dependencies) p q := by
  have hmem : ∀ {a : String} {set : ItemList}, set ∈ sets → a ∈ set → a ∈ g.dependencies :=
    fun hset ha ↦ (hsets.mem_iff _).mp (List.mem_flatten.mpr ⟨_, hset, ha⟩)
  constructor
  · rintro (rfl | ⟨set, hset, hp, hq⟩)
    · exact Components.Joined.refl p
    · exact (hsets.joined_iff p (hmem hset hp) q (hmem hset hq)).mp ⟨set, hset, hp, hq⟩
  · intro hjoined
    rcases Relation.ReflTransGen.cases_head hjoined with rfl | ⟨a, hstep, -⟩
    · exact Or.inl rfl
    · have hp : p ∈ g.dependencies := hr.known (Or.symm hstep)
      exact Or.inr ((hsets.joined_iff p hp q (hr.joined_mem hp hjoined)).mpr hjoined)

/-- In 1.0-compatibility mode, the forests that have been traversed are merged without failing if
the graph of the externals has no errors, and merging is the quotient by being joined by externals:
two forests go into the same one if and only if externals join them. -/
theorem mergeExternals_quotient (r : Traverser) {topPath : String} (htop : topPath ≠ "")
    {forests : BuildForestMap} {t : Traversal}
    (hread : r.traverseForests r.steps ∅ ∅ .new topPath "root of local forest" = .ok (forests, t))
    {g : DependencyGraph}
    (hcheck : (DependencyGraph.build t.externalGraph).bind DependencyGraph.check = some (true, g)) :
    ∃ (forests' : BuildForestMap) (t' : Traversal) (kept : String → String),
      mergeExternals forests t = .ok (forests', t') ∧ MergeQuotient forests forests' kept ∧
        ∀ p ∈ forests, ∀ q ∈ forests,
          kept p = kept q ↔ Components.Joined (DependsOn g.dependencies) p q := by
  have hall := gathersAll_new.traverseForests htop hread
  obtain ⟨sets, g', hget, hsets, hr⟩ := exists_independentSets hcheck
  obtain ⟨forests', t', kept, hmerge, hquotient, hsame⟩ := mergeForests_quotient hall hsets.nodup
  refine ⟨forests', t', kept, ?_, hquotient, fun p hp q hq ↦
    (hsame p hp q hq).trans (same_set_iff hr hsets p q)⟩
  unfold mergeExternals
  rw [hcheck]
  dsimp only
  rw [hget]
  exact hmerge

/-- The theorem, for two forests that have an external in common. They are merged into one. -/
theorem mergeExternals_quotient_threeForests : ∃ forests t forests' t' kept,
    (threeForests true).traverseForests 3 ∅ ∅ .new "/a" "root of local forest" =
        .ok (forests, t) ∧
      mergeExternals forests t = .ok (forests', t') ∧ MergeQuotient forests forests' kept ∧
        forests.keys = ["/a", "/b", "/c"] ∧ forests'.keys = ["/a", "/c"] := by
  have hvalue : ((threeForests true).traverseForests 3 ∅ ∅ .new "/a"
      "root of local forest").toOption.map (fun x ↦
        (((DependencyGraph.build x.2.externalGraph).bind DependencyGraph.check).map Prod.fst,
          x.1.keys, (mergeExternals x.1 x.2).toOption.map fun y ↦ y.1.keys)) =
      some (some true, ["/a", "/b", "/c"], some ["/a", "/c"]) := rfl
  cases hread : (threeForests true).traverseForests 3 ∅ ∅ .new "/a" "root of local forest" with
  | error halt =>
    rw [hread] at hvalue
    cases hvalue
  | ok x =>
    obtain ⟨forests, t⟩ := x
    rw [hread] at hvalue
    obtain ⟨hgraph, hrest⟩ := Prod.mk.inj (Option.some_inj.mp hvalue)
    obtain ⟨hkeys, hmerged⟩ := Prod.mk.inj hrest
    obtain ⟨⟨result, g⟩, hcheck, rfl⟩ := Option.map_eq_some_iff.mp hgraph
    obtain ⟨forests', t', kept, hmerge, hquotient, -⟩ :=
      mergeExternals_quotient (threeForests true) (by decide : "/a" ≠ "") hread hcheck
    rw [hmerge] at hmerged
    exact ⟨forests, t, forests', t', kept, rfl, hmerge, hquotient, hkeys,
      Option.some_inj.mp hmerged⟩

end Abuild
