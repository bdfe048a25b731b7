import Abuild.Library.Inheritance
import Abuild.DependencyGraph.Build
import Abuild.BuildForest

/-!
The backing relation among forests. The graph of the backing areas is checked again
for every forest that is validated, after the covered backing areas of some forests
have been dropped. Dropping them does not change which forests are reached
(`Pruned.transGen_iff`), so what is covered can be told from the forests as they
were read (`uncovered`).
-/

set_option autoImplicit false
set_option relaxedAutoImplicit false

namespace Abuild.BuildForest

open Relation Precedence
open DependencyGraph (CheckedMap SortedFrom)
open Std (TreeMap TreeSet)

/-- A forest lists another one among its backing areas. -/
def Backs (forests : BuildForestMap) (p q : String) : Prop :=
  ∃ forest, forests[p]? = some forest ∧ q ∈ forest.backingAreas

/-- The backing relation is closed and has no cycle. -/
structure BackingOk (forests : BuildForestMap) : Prop where
  path_ne : "" ∉ forests
  known : ∀ p q, Backs forests p q → q ∈ forests
  acyclic : ∀ p, ¬ TransGen (Backs forests) p p

theorem exists_of_mem {β : Type} {m : TreeMap String β} {name : String} (h : name ∈ m) :
    ∃ b, m[name]? = some b :=
  Option.isSome_iff_exists.mp (TreeMap.mem_iff_isSome_getElem?.mp h)

theorem mem_of_getElem? {β : Type} {m : TreeMap String β} {name : String} {b : β}
    (h : m[name]? = some b) : name ∈ m :=
  TreeMap.mem_iff_isSome_getElem?.mpr (by rw [h]; rfl)

/-- The backing graph of forests whose backing relation is right has no errors. -/
theorem computeBackingGraph_spec {forests : BuildForestMap} (h : BackingOk forests) :
    ∃ g, computeBackingGraph forests = some g ∧ CheckedMap forests backingAreas true g ∧
      DependencyGraph.DependsOn g.dependencies = Backs forests := by
  have hne : ∀ p, p ∈ forests → p ≠ "" := fun p hp heq ↦ h.path_ne (heq ▸ hp)
  obtain ⟨result, g, hbuild, hg⟩ :=
    DependencyGraph.check_tableOf (m := forests) (by
      intro p forest hforest
      exact ⟨hne p (mem_of_getElem? hforest),
        fun hempty ↦ hne _ (h.known p _ ⟨forest, hforest, hempty⟩) rfl⟩)
  have hdepends : DependencyGraph.DependsOn g.dependencies = Backs forests := by
    ext p q
    exact hg.dependsOn_iff p q
  have hresult : result = true := by
    rw [hg.result_iff]
    refine ⟨fun p forest hforest q hq ↦ h.known p q ⟨forest, hforest, hq⟩, ?_⟩
    unfold DependencyGraph.Acyclic
    rw [hdepends]
    exact h.acyclic
  subst hresult
  refine ⟨g, ?_, hg, hdepends⟩
  obtain ⟨g₀, hg₀, hcheck⟩ := Option.bind_eq_some_iff.mp hbuild
  unfold computeBackingGraph
  refine Option.bind_eq_some_iff.mpr ⟨g₀, hg₀, ?_⟩
  simp [hcheck]

/-- The forests in an order in which each comes after those it backs to. -/
structure ValidationOrder (forests : BuildForestMap) (order : List String) : Prop where
  ordered : Ordered (Backs forests) order
  nodup : order.Nodup
  mem_iff : ∀ p, p ∈ order ↔ p ∈ forests

theorem getSortedGraph_spec {forests : BuildForestMap} (h : BackingOk forests) :
    ∃ g order, computeBackingGraph forests = some g ∧ g.getSortedGraph = some order ∧
      ValidationOrder forests order := by
  obtain ⟨g, hg, htable, hdepends⟩ := computeBackingGraph_spec h
  refine ⟨g, g.inOrder, hg, htable.getSortedGraph, ?_, htable.checked.nodup, fun p ↦ ?_⟩
  · rw [← hdepends]
    exact (htable.errorFree rfl).ordered
  · rw [htable.checked.mem_inOrder, htable.mem_iff]

theorem ValidationOrder.length_eq {forests : BuildForestMap} {order : List String}
    (h : ValidationOrder forests order) : order.length = forests.size := by
  rw [← TreeMap.length_keys]
  refine (List.perm_of_nodup_nodup_toFinset_eq h.nodup TreeMap.nodup_keys ?_).length_eq
  ext p
  rw [List.mem_toFinset, List.mem_toFinset, h.mem_iff, TreeMap.mem_keys]

/-! ### Covered backing areas -/

open Classical in
/-- The backing areas of a forest that are not reached from another one of them. -/
noncomputable def uncovered (forests : BuildForestMap) (p : String) : List String :=
  ((forests[p]?.map backingAreas).getD []).filter fun area ↦
    ∀ other, Backs forests p other → ¬ TransGen (Backs forests) other area

theorem mem_uncovered {forests : BuildForestMap} {p q : String} :
    q ∈ uncovered forests p ↔ Backs forests p q ∧
      ∀ other, Backs forests p other → ¬ TransGen (Backs forests) other q := by
  classical
  unfold uncovered
  rw [List.mem_filter, decide_eq_true_iff]
  refine and_congr_left fun _ ↦ ?_
  unfold Backs
  cases forests[p]? <;> simp

/-- Every backing area is reached from an uncovered one, or is one. -/
theorem exists_uncovered {forests : BuildForestMap} {order : List String}
    (h : ValidationOrder forests order) {p q : String} (hpq : Backs forests p q) :
    ∃ top ∈ uncovered forests p, ReflTransGen (Backs forests) top q := by
  have hmem : ∀ r, Backs forests p r → r ∈ order := fun r hr ↦ by
    obtain ⟨forest, hforest, -⟩ := hpq
    exact h.ordered.mem ((h.mem_iff p).mpr (mem_of_getElem? hforest)) hr
  obtain ⟨top, -, ⟨htop, hreach⟩, hmax⟩ := h.ordered.exists_maximal
    (p := fun r ↦ Backs forests p r ∧ ReflTransGen (Backs forests) r q)
    ⟨q, hmem q hpq, hpq, ReflTransGen.refl⟩
  refine ⟨top, mem_uncovered.mpr ⟨htop, fun other hother hcovers ↦ ?_⟩, hreach⟩
  exact hmax other (hmem other hother) ⟨hother, hcovers.to_reflTransGen.trans hreach⟩ hcovers

/-- Some forests have lost their covered backing areas, the others are as they
were. -/
structure Pruned (forests : BuildForestMap) (done : List String) (now : BuildForestMap) :
    Prop where
  todo : ∀ p, p ∉ done → now[p]? = forests[p]?
  done : ∀ p ∈ done, ∃ forest, now[p]? = some forest ∧ forest.backingAreas = uncovered forests p

theorem Pruned.backs_iff {forests now : BuildForestMap} {done : List String}
    (h : Pruned forests done now) {p q : String} :
    Backs now p q ↔ if p ∈ done then q ∈ uncovered forests p else Backs forests p q := by
  unfold Backs
  split_ifs with hp
  · obtain ⟨forest, hforest, hareas⟩ := h.done p hp
    rw [hforest, ← hareas]
    simp
  · rw [h.todo p hp]

theorem Pruned.backs {forests now : BuildForestMap} {done : List String}
    (h : Pruned forests done now) {p q : String} (hpq : Backs now p q) : Backs forests p q := by
  rw [h.backs_iff] at hpq
  split_ifs at hpq
  · exact (mem_uncovered.mp hpq).1
  · exact hpq

/-- Pruned forests reach what they reached before. -/
theorem Pruned.transGen_iff {forests now : BuildForestMap} {done order : List String}
    (h : Pruned forests done now) (horder : ValidationOrder forests order) {p q : String} :
    TransGen (Backs now) p q ↔ TransGen (Backs forests) p q := by
  constructor
  · exact TransGen.mono (fun _ _ ↦ h.backs) p q
  intro hpq
  have hreach : ∀ p ∈ order, TransGen (Backs forests) p q → TransGen (Backs now) p q := by
    refine horder.ordered.induction fun p _ ih hpq ↦ ?_
    obtain ⟨b, hpb, hbq⟩ := TransGen.head'_iff.mp hpq
    obtain ⟨top, htop, htopb⟩ : ∃ top, Backs now p top ∧ ReflTransGen (Backs forests) top b := by
      by_cases hp : p ∈ done
      · obtain ⟨top, htop, htopb⟩ := exists_uncovered horder hpb
        exact ⟨top, h.backs_iff.mpr (by rw [if_pos hp]; exact htop), htopb⟩
      · exact ⟨b, h.backs_iff.mpr (by rw [if_neg hp]; exact hpb), ReflTransGen.refl⟩
    rcases reflTransGen_iff_eq_or_transGen.mp (htopb.trans hbq) with rfl | htopq
    · exact TransGen.single htop
    · exact TransGen.head htop (ih top (h.backs htop) htopq)
  obtain ⟨b, ⟨forest, hforest, -⟩, -⟩ := TransGen.head'_iff.mp hpq
  exact hreach p ((horder.mem_iff p).mpr (mem_of_getElem? hforest)) hpq

theorem Pruned.backingOk {forests now : BuildForestMap} {done order : List String}
    (h : Pruned forests done now) (horder : ValidationOrder forests order)
    (hok : BackingOk forests) (hmem : ∀ p, p ∈ now ↔ p ∈ forests) : BackingOk now := by
  refine ⟨?_, fun p q hpq ↦ ?_, fun p ↦ ?_⟩
  · rw [hmem]
    exact hok.path_ne
  · rw [hmem]
    exact hok.known p q (h.backs hpq)
  · rw [h.transGen_iff horder]
    exact hok.acyclic p

end Abuild.BuildForest
