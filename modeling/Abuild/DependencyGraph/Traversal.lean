import Abuild.DependencyGraph
import Abuild.Library.DepthFirst

/-!
The traversal of the dependency graph is a depth-first search. `traverseInternal`
keeps its visited and visiting items in sets and records errors as it goes; the
search of the library keeps a path, a list of finished items and a log.
`traverseInternal_refines` runs the two in step, with the report being the log
played back through `Report.record`. Every item then has a search
(`searchFrom`), and `topologicalSort` stores the finished items of each and
plays back the logs one after the other (`topologicalSort_eq`).
-/

set_option autoImplicit false
set_option relaxedAutoImplicit false

namespace Abuild.DependencyGraph

open Std (TreeMap TreeSet)
open DepthFirst Relation

/-- The neighbors of an item of the graph. -/
def next (dependencies : ItemMap) (a : ItemType) : Option ItemList := dependencies[a]?

theorem known_next (dependencies : ItemMap) (a : ItemType) :
    Known (next dependencies) a ↔ a ∈ dependencies :=
  TreeMap.mem_iff_isSome_getElem?.symm

/-- How an edge that the search does not follow is reported. -/
def Report.record (r : Report) : DepthFirst.Event ItemType → Option Report
  | .unknown path item => r.addUnknown path item
  | .back path item => r.addCycle path item

/-- A traversal that began with `report` and the search that it stands for. -/
structure Refines (report : Report) (s : Traversal) (t : Search ItemType) : Prop where
  path_eq : s.path = t.path
  result_eq : s.result = t.result
  visited_iff : ∀ a, a ∈ s.visited ↔ a ∈ t.result
  visiting_iff : ∀ a, a ∈ s.visiting ↔ a ∈ t.path
  report_eq : t.events.foldlM Report.record report = some s.report

theorem addUnknown_isSome (r : Report) {path : ItemList} (item : ItemType) (h : path ≠ []) :
    ∃ r', r.addUnknown path item = some r' := by
  obtain ⟨rest, back, rfl⟩ := (List.eq_nil_or_concat path).resolve_left h
  simp only [Report.addUnknown, List.concat_eq_append, List.getLast?_append,
    List.getLast?_singleton,
    Option.some_or, Option.bind_eq_bind, Option.bind_some]
  split
  · exact ⟨r, rfl⟩
  · exact ⟨_, rfl⟩

theorem dropWhile_ne_eq_cons {path : ItemList} {item : ItemType} (h : item ∈ path) :
    ∃ rest, path.dropWhile (· ≠ item) = item :: rest := by
  induction path with
  | nil => simp at h
  | cons a path ih =>
    by_cases ha : a = item
    · exact ⟨path, by simp [ha]⟩
    · obtain ⟨rest, hrest⟩ := ih ((List.mem_cons.mp h).resolve_left (Ne.symm ha))
      exact ⟨rest, by simpa [List.dropWhile_cons, ha] using hrest⟩

theorem addCycle_isSome (r : Report) {path : ItemList} {item : ItemType} (h : item ∈ path) :
    ∃ r', r.addCycle path item = some r' := by
  obtain ⟨rest, hrest⟩ := dropWhile_ne_eq_cons h
  simp only [Report.addCycle, hrest, List.head?_cons, Option.bind_eq_bind, Option.bind_some]
  split
  · exact ⟨r, rfl⟩
  · exact ⟨_, rfl⟩

theorem Refines.enter {report : Report} {s : Traversal} {t : Search ItemType}
    (h : Refines report s t) (item : ItemType) :
    Refines report (s.enter item) (t.enter item) where
  path_eq := by simp [Traversal.enter, Search.enter, h.path_eq]
  result_eq := h.result_eq
  visited_iff := h.visited_iff
  visiting_iff a := by
    simp [Traversal.enter, Search.enter, TreeSet.mem_insert, h.visiting_iff, or_comm,
      eq_comm (a := a)]
  report_eq := h.report_eq

theorem Refines.leave {report : Report} {s : Traversal} {t : Search ItemType}
    (h : Refines report s t) {rest : ItemList} {item : ItemType} (hpath : t.path = rest ++ [item])
    (hitem : item ∉ rest) : Refines report (s.leave item) (t.leave item) where
  path_eq := by simp [Traversal.leave, Search.leave, h.path_eq]
  result_eq := by simp [Traversal.leave, Search.leave, h.result_eq]
  visited_iff a := by
    simp [Traversal.leave, Search.leave, TreeSet.mem_insert, h.visited_iff, or_comm,
      eq_comm (a := a)]
  visiting_iff a := by
    simp only [Traversal.leave, TreeSet.mem_erase, h.visiting_iff, Search.leave, hpath,
      List.dropLast_concat, List.mem_append, List.mem_singleton, ne_eq, compare_eq_iff_eq]
    constructor
    · rintro ⟨hne, ha | rfl⟩
      · exact ha
      · exact absurd rfl hne
    · intro ha
      exact ⟨by rintro rfl; exact hitem ha, Or.inl ha⟩
  report_eq := h.report_eq

theorem Refines.log {report r : Report} {s : Traversal} {t : Search ItemType}
    (h : Refines report s t) {e : DepthFirst.Event ItemType} (hr : s.report.record e = some r) :
    Refines report { s with report := r } (t.log e) where
  path_eq := h.path_eq
  result_eq := h.result_eq
  visited_iff := h.visited_iff
  visiting_iff := h.visiting_iff
  report_eq := by simp [Search.log, List.foldlM_append, h.report_eq, hr]

/-- The traversal follows the search. The root of a traversal is an item of the
graph, so that an unknown item always has an item before it on the path. -/
theorem traverseInternal_refines {dependencies : ItemMap} {report : Report} (depth : ℕ)
    (item : ItemType) (s : Traversal) (t t' : Search ItemType) (h : Refines report s t)
    (hvisit : visit (next dependencies) depth item t = some t')
    (hroot : item ∈ dependencies ∨ t.path ≠ []) :
    ∃ s', traverseInternal dependencies depth item s = some s' ∧ Refines report s' t' := by
  induction depth generalizing item s t t' with
  | zero => simp [visit] at hvisit
  | succ depth ih =>
    have hfold : ∀ (neighbors : ItemList) (s : Traversal) (u u' : Search ItemType),
        Refines report s u → u.path ≠ [] →
        neighbors.foldlM (fun s n ↦ visit (next dependencies) depth n s) u = some u' →
        ∃ s', neighbors.foldlM (fun s n ↦ traverseInternal dependencies depth n s) s = some s' ∧
          Refines report s' u' := by
      intro neighbors
      induction neighbors with
      | nil =>
        intro s u u' hsu _ hu
        obtain rfl : u = u' := by simpa using hu
        exact ⟨s, rfl, hsu⟩
      | cons n neighbors ihn =>
        intro s u u' hsu hpath hu
        rw [List.foldlM_cons] at hu
        obtain ⟨v, hv, hrest⟩ := Option.bind_eq_some_iff.mp hu
        obtain ⟨s₁, hs₁, hrefines⟩ := ih n s u v hsu hv (Or.inr hpath)
        obtain ⟨s', hs', hrefines'⟩ := ihn s₁ v u' hrefines
          (visit_path depth n u v hv ▸ hpath) hrest
        exact ⟨s', by simp [List.foldlM_cons, hs₁, hs'], hrefines'⟩
    rw [visit] at hvisit
    split at hvisit
    · next hnone =>
      have hunknown : item ∉ dependencies := by simpa [next] using hnone
      cases hvisit
      obtain ⟨r, hr⟩ := addUnknown_isSome s.report item (hroot.resolve_left hunknown)
      refine ⟨{ s with report := r }, ?_, h.log (e := .unknown t.path item) hr⟩
      simp [traverseInternal, hunknown, h.path_eq, hr]
    · next neighbors hsome =>
      have hget : dependencies[item]? = some neighbors := hsome
      have hmem : item ∈ dependencies := TreeMap.mem_iff_isSome_getElem?.mpr (by simp [hget])
      split_ifs at hvisit with hresult hpath
      · cases hvisit
        have hvisited : item ∈ s.visited := (h.visited_iff item).mpr hresult
        exact ⟨s, by simp [traverseInternal, hmem, hvisited], h⟩
      · cases hvisit
        have hvisited : item ∉ s.visited := fun hv ↦ hresult ((h.visited_iff item).mp hv)
        have hvisiting : item ∈ s.visiting := (h.visiting_iff item).mpr hpath
        obtain ⟨r, hr⟩ := addCycle_isSome s.report hpath
        refine ⟨{ s with report := r }, ?_, h.log (e := .back t.path item) hr⟩
        simp [traverseInternal, hmem, hvisited, hvisiting, h.path_eq, hr]
      · obtain ⟨u, hu, hleave⟩ := Option.bind_eq_some_iff.mp hvisit
        cases hleave
        obtain ⟨s', hs', hrefines⟩ := hfold neighbors (s.enter item) (t.enter item) u
          (h.enter item) (by simp [Search.enter]) hu
        have hvisited : item ∉ s.visited := fun hv ↦ hresult ((h.visited_iff item).mp hv)
        have hvisiting : item ∉ s.visiting := fun hv ↦ hpath ((h.visiting_iff item).mp hv)
        have hupath : u.path = t.path ++ [item] :=
          foldlM_visit_path (visit_path depth) neighbors hu
        have hgetD : dependencies.getD item [] = neighbors := by
          rw [TreeMap.getD_eq_getD_getElem?, hget, Option.getD_some]
        refine ⟨s'.leave item, ?_, hrefines.leave hupath hpath⟩
        simp [traverseInternal, hmem, hvisited, hvisiting, hgetD, hs']

/-! ### The sort of a graph -/

/-- The search from an item of the graph. -/
def searchFrom (dependencies : ItemMap) (item : ItemType) : Search ItemType :=
  (search (next dependencies) (dependencies.size + 1) item).getD Search.start

theorem search_eq_searchFrom {dependencies : ItemMap} {item : ItemType}
    (hitem : item ∈ dependencies) :
    search (next dependencies) (dependencies.size + 1) item =
      some (searchFrom dependencies item) ∧
    Searched (next dependencies) item (searchFrom dependencies item) := by
  have hnodes : ∀ a, Known (next dependencies) a → a ∈ dependencies.keys := by
    intro a ha
    exact TreeMap.mem_keys.mpr ((known_next dependencies a).mp ha)
  obtain ⟨t, ht, hsearched⟩ := search_spec hnodes
    (Nat.le_of_eq (by rw [TreeMap.length_keys])) ((known_next dependencies item).mpr hitem)
  rw [searchFrom, ht, Option.getD_some]
  exact ⟨rfl, hsearched⟩

theorem traverse_eq {dependencies : ItemMap} {item : ItemType} (hitem : item ∈ dependencies)
    (report : Report) :
    ∃ s, traverse dependencies item report = some s ∧
      s.result = (searchFrom dependencies item).result ∧
      (searchFrom dependencies item).events.foldlM Report.record report = some s.report := by
  have hstart : Refines report ⟨∅, ∅, [], report, []⟩ Search.start :=
    ⟨rfl, rfl, by simp [Search.start], by simp [Search.start], rfl⟩
  obtain ⟨s, hs, hrefines⟩ := traverseInternal_refines _ item _ _ _ hstart
    (search_eq_searchFrom hitem).1 (Or.inl hitem)
  exact ⟨s, hs, hrefines.result_eq, hrefines.report_eq⟩

/-- The log of the searches from some items, one after the other. -/
def eventsFrom (dependencies : ItemMap) (items : ItemList) : List (DepthFirst.Event ItemType) :=
  items.flatMap fun item ↦ (searchFrom dependencies item).events

/-- The loop of `topologicalSort` stores what each search finished. -/
theorem foldlM_sortFrom {dependencies : ItemMap} (items : ItemList)
    (hitems : ∀ a ∈ items, a ∈ dependencies) (sorted : ItemMap) (report : Report) :
    ∃ sorted' report', items.foldlM (sortFrom dependencies) (sorted, report) =
        some (sorted', report') ∧
      (∀ a, sorted'[a]? =
        if a ∈ items then some (searchFrom dependencies a).result else sorted[a]?) ∧
      (eventsFrom dependencies items).foldlM Report.record report = some report' := by
  induction items generalizing sorted report with
  | nil => exact ⟨sorted, report, rfl, by simp, rfl⟩
  | cons item items ih =>
    obtain ⟨s, hs, hresult, hreport⟩ := traverse_eq (hitems item (by simp)) report
    obtain ⟨sorted', report', hfold, hsorted, hevents⟩ :=
      ih (fun a ha ↦ hitems a (List.mem_cons_of_mem _ ha)) (sorted.insert item s.result) s.report
    refine ⟨sorted', report', by simp [List.foldlM_cons, sortFrom, hs, hfold], ?_, ?_⟩
    · intro a
      rw [hsorted, TreeMap.getElem?_insert, hresult]
      by_cases ha : a ∈ items
      · simp [ha]
      · by_cases haitem : a = item
        · simp [haitem]
        · simp [ha, haitem, Ne.symm haitem]
    · unfold eventsFrom at hevents ⊢
      rw [List.flatMap_cons, List.foldlM_append, hreport]
      exact hevents

end Abuild.DependencyGraph
