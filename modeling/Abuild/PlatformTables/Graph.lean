import Abuild.DependencyGraph.Recheck
import Abuild.Library.Fallible
import Abuild.PlatformTables

/-!
The graph of platforms and platform types, which is added to and checked in turn, beside one that is
only added to. As long as no check finds an error, the two hold the same dependencies, and the
answers that `PlatformTables.check` asks for depend on nothing else.
-/

set_option autoImplicit false
set_option relaxedAutoImplicit false

namespace Abuild.DependencyGraph

open Std (TreeMap)

/-- A graph of which every check so far has found no error. -/
structure Unspoiled (g : DependencyGraph) : Prop where
  wf : Wf g
  unknowns : g.unknowns.isEmpty = true
  cycles : g.cycles = []
  state : g.graphState = .init ∨ g.graphState = .ready
  known : g.graphState = .ready → AllKnown g.dependencies ∧ Acyclic g.dependencies
  sorted : g.graphState = .ready → ∀ a ∈ g.dependencies,
    g.sortedDependencies[a]? = some (searchFrom (addRoot g.dependencies) a).result

theorem unspoiled_new : Unspoiled new where
  wf := wf_new
  unknowns := rfl
  cycles := rfl
  state := Or.inl rfl
  known h := by cases h
  sorted h := by cases h

theorem Unspoiled.add {g g' : DependencyGraph} (h : Unspoiled g) {addition : Addition}
    (hadd : g.add addition = some g') : Unspoiled g' := by
  obtain ⟨hwf, hinit⟩ := h.wf.add hadd
  have hready : g'.graphState ≠ .ready := by
    rw [hinit]
    exact GraphState.noConfusion
  have herrors : g'.unknowns = g.unknowns ∧ g'.cycles = g.cycles := by
    cases addition with
    | addItem item =>
      obtain ⟨-, -, rfl⟩ := addItem_spec hadd
      exact ⟨rfl, rfl⟩
    | addDependency item dep =>
      obtain ⟨-, -, rfl⟩ := addDependency_spec hadd
      exact ⟨rfl, rfl⟩
  exact ⟨hwf, herrors.1 ▸ h.unknowns, herrors.2.trans h.cycles, Or.inl hinit,
    fun heq ↦ absurd heq hready, fun heq ↦ absurd heq hready⟩

/-- A check finds no error exactly when there are no unknown items and no cycles, whatever checks
there have been. -/
theorem Unspoiled.check {g : DependencyGraph} (h : Unspoiled g) :
    ∃ result g', g.check = some (result, g') ∧
      (result = true ↔ AllKnown g.dependencies ∧ Acyclic g.dependencies) ∧
      (result = true → Unspoiled g' ∧ g'.graphState = .ready ∧
        g'.dependencies.Equiv g.dependencies) := by
  rcases h.state with hinit | hready
  · obtain ⟨result, g', hcheck, hdependencies, hwf, hchecked, hstate, hresult⟩ :=
      check_spec h.wf hinit
    obtain ⟨hrechecked, -, -⟩ := graphState_of_check hinit hcheck h.wf.proper
    refine ⟨result, g', hcheck, ?_, ?_⟩
    · rw [hresult]
      exact and_iff_right ⟨h.unknowns, h.cycles⟩
    · rintro rfl
      have hready : g'.graphState = .ready := hstate
      have hempty : g'.unknowns.isEmpty = true ∧ g'.cycles.isEmpty = true := by
        by_contra hne
        have herror := hrechecked.graphState
        rw [hready, if_neg hne] at herror
        cases herror
      have hequiv := hrechecked.dependencies
      obtain ⟨-, hknown⟩ := hresult.mp rfl
      refine ⟨⟨hwf, hempty.1, List.isEmpty_iff.mp hempty.2, Or.inr hready, fun _ ↦ ?_,
        fun _ a ha ↦ ?_⟩, hready, hequiv⟩
      · unfold AllKnown Acyclic
        rw [DependsOn.congr hequiv]
        exact ⟨fun a b hab ↦ hequiv.mem_iff.mpr (hknown.1 a b hab), hknown.2⟩
      · rw [hrechecked.sorted, if_pos (hequiv.mem_iff.mp ha),
          searchFrom_congr (addRoot_congr hequiv)]
  · refine ⟨true, g, ?_, iff_of_true rfl (h.known hready),
      fun _ ↦ ⟨h, hready, TreeMap.Equiv.rfl⟩⟩
    rw [check_of_ne_init (by rw [hready]; exact GraphState.noConfusion), hready]
    rfl

/-- The sorted dependencies of an item, as the search finds them. -/
def sortedOf (dependencies : ItemMap) (item : ItemType) : ItemList :=
  (searchFrom (addRoot dependencies) item).result

theorem sortedOf_congr {d d' : ItemMap} (h : d.Equiv d') : sortedOf d = sortedOf d' := by
  unfold sortedOf
  rw [searchFrom_congr (addRoot_congr h)]

theorem getDirectDependencies_of_ready {g : DependencyGraph} (hready : g.graphState = .ready)
    (item : ItemType) : g.getDirectDependencies item = g.dependencies[item]? := by
  unfold getDirectDependencies assertChecked
  rw [hready]
  rfl

theorem Unspoiled.getSortedDependencies {g : DependencyGraph} (h : Unspoiled g)
    (hready : g.graphState = .ready) {item : ItemType} (hitem : item ∈ g.dependencies) :
    g.getSortedDependencies item = some (sortedOf g.dependencies item) ∧
      SortedFrom g.dependencies item (sortedOf g.dependencies item) := by
  refine ⟨?_, searched_addRoot h.wf.proper hitem⟩
  unfold DependencyGraph.getSortedDependencies assertChecked
  rw [hready]
  exact h.sorted hready item hitem

/-- Two graphs with the same dependencies. -/
structure SameGraph (g g₀ : DependencyGraph) : Prop where
  unspoiled : Unspoiled g
  unspoiled₀ : Unspoiled g₀
  dependencies : g.dependencies.Equiv g₀.dependencies

section SameGraph

variable {g g₀ g' g₀' : DependencyGraph} (h : SameGraph g g₀)

include h

theorem SameGraph.isSome_add (addition : Addition) :
    (g.add addition).isSome = (g₀.add addition).isSome := by
  cases addition with
  | addItem item =>
    show (g.addItem item).isSome = (g₀.addItem item).isSome
    unfold addItem
    rw [h.dependencies.contains_eq]
    split_ifs <;> rfl
  | addDependency item dep =>
    show (g.addDependency item dep).isSome = (g₀.addDependency item dep).isSome
    unfold addDependency
    rw [h.dependencies.contains_eq]
    split_ifs <;> rfl

theorem SameGraph.add (addition : Addition) :
    Option.Rel SameGraph (g.add addition) (g₀.add addition) := by
  have hsome := h.isSome_add addition
  cases hadd : g.add addition with
  | none =>
    rw [hadd] at hsome
    rw [Option.isSome_eq_false_iff.mp hsome.symm |> Option.isNone_iff_eq_none.mp]
    exact .none
  | some g' =>
    rw [hadd] at hsome
    obtain ⟨g₀', hadd₀⟩ := Option.isSome_iff_exists.mp hsome.symm
    rw [hadd₀]
    refine .some ⟨h.unspoiled.add hadd, h.unspoiled₀.add hadd₀, ?_⟩
    cases addition with
    | addItem item =>
      obtain ⟨-, -, rfl⟩ := addItem_spec hadd
      obtain ⟨-, -, rfl⟩ := addItem_spec hadd₀
      exact h.dependencies.insert item []
    | addDependency item dep =>
      obtain ⟨-, -, rfl⟩ := addDependency_spec hadd
      obtain ⟨-, -, rfl⟩ := addDependency_spec hadd₀
      show (g.dependencies.insert item _).Equiv (g₀.dependencies.insert item _)
      rw [h.dependencies.getD_eq]
      exact h.dependencies.insert item _

/-- A check that finds no error in one of the graphs finds none in the other. -/
theorem SameGraph.check (hcheck : g.check = some (true, g')) :
    ∃ g₀', g₀.check = some (true, g₀') ∧ SameGraph g' g₀' ∧ g'.graphState = .ready ∧
      g₀'.graphState = .ready ∧ g'.dependencies.Equiv g.dependencies := by
  obtain ⟨result, g'', hcheck', hresult, hg⟩ := h.unspoiled.check
  obtain ⟨rfl, rfl⟩ := Prod.mk.inj (Option.some_inj.mp (hcheck'.symm.trans hcheck))
  obtain ⟨result₀, g₀', hcheck₀, hresult₀, hg₀⟩ := h.unspoiled₀.check
  have hsame : result₀ = true := by
    obtain ⟨hknown, hacyclic⟩ := hresult.mp rfl
    refine hresult₀.mpr ⟨fun a b hab ↦ ?_, fun a ↦ ?_⟩
    · rw [← DependsOn.congr h.dependencies] at hab
      exact h.dependencies.mem_iff.mp (hknown a b hab)
    · rw [← DependsOn.congr h.dependencies]
      exact hacyclic a
  subst hsame
  obtain ⟨hunspoiled, hready, hequiv⟩ := hg rfl
  obtain ⟨hunspoiled₀, hready₀, hequiv₀⟩ := hg₀ rfl
  exact ⟨g₀', hcheck₀, ⟨hunspoiled, hunspoiled₀, hequiv.trans (h.dependencies.trans hequiv₀.symm)⟩,
    hready, hready₀, hequiv⟩

end SameGraph

end Abuild.DependencyGraph
