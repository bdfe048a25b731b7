import Abuild.Library.Precedence
import Mathlib.Tactic.Tauto

/-!
Entries with dependencies, some of them optional, that areas inherit from each other.
Every area makes a pass over its entries: it drops the optional dependencies that do
not stand for anything in the area, and expands those that are left. An entry that is
inherited has been through the pass of the area that it comes from. The pass trips
where it drops a dependency from an entry that is expanded already, and this happens
exactly where an optional dependency that is present in the area an entry is from is
not present in an area that inherits the entry (`Declarations.Steps.trips_iff`).
-/

set_option autoImplicit false
set_option relaxedAutoImplicit false

namespace OptionalDependency

variable {ι ν ε : Type*}

/-- What a pass reads and writes of an entry. -/
structure Entry (ν : Type*) where
  deps : List ν
  expanded : List ν

/-- A pass over the entry of a name, where some dependencies are optional and some
are present. -/
structure Pass (isOptional isPresent : ν → Bool) (n : ν) (old new : Entry ν) : Prop where
  deps_eq : new.deps = old.deps.filter fun d ↦ !isOptional d || isPresent d
  mem_expanded : ∀ d ∈ new.deps, isPresent d → d ≠ n → d ∈ new.expanded

/-- A pass drops a dependency of an entry that is expanded. -/
def Trips (isOptional isPresent : ν → Bool) (old : Entry ν) : Prop :=
  old.expanded ≠ [] ∧ ∃ d ∈ old.deps, isOptional d ∧ ¬ isPresent d

section Drop

variable {σ κ : Type*} [DecidableEq ν] {entry : σ → Entry ν} {kept : σ → κ} {fails : σ → Prop}
  {isOptional isPresent : ν → Bool} {blamed : Prop} {k : κ} {f : σ → ν → σ}

/-- Steps that drop one dependency each where it is optional and not present, and may
fail at that because the entry is expanded. -/
structure DropStep (entry : σ → Entry ν) (kept : σ → κ) (fails : σ → Prop)
    (isOptional isPresent : ν → Bool) (blamed : Prop) (k : κ) (f : σ → ν → σ) : Prop where
  entry_eq : ∀ s d, kept s = k → entry (f s d) =
    if isOptional d && !isPresent d then ⟨(entry s).deps.filter (· ≠ d), (entry s).expanded⟩
    else entry s
  kept_eq : ∀ s d, kept s = k → kept (f s d) = k
  fails_iff : ∀ s d, kept s = k → (fails (f s d) ↔
    fails s ∨ (blamed ∧ (entry s).expanded ≠ [] ∧ isOptional d ∧ ¬ isPresent d))

theorem DropStep.foldl (h : DropStep entry kept fails isOptional isPresent blamed k f)
    (ds : List ν) {s : σ} (hs : kept s = k) :
    entry (ds.foldl f s) = ⟨(entry s).deps.filter fun d ↦ d ∉ ds || (!isOptional d || isPresent d),
      (entry s).expanded⟩ ∧ kept (ds.foldl f s) = k ∧
      (fails (ds.foldl f s) ↔
        fails s ∨ (blamed ∧ (entry s).expanded ≠ [] ∧ ∃ d ∈ ds, isOptional d ∧ ¬ isPresent d)) := by
  induction ds generalizing s with
  | nil => simp [hs]
  | cons d ds ih =>
    obtain ⟨hentry, hkept, hfails⟩ := ih (h.kept_eq s d hs)
    have hexpanded : (entry (f s d)).expanded = (entry s).expanded := by
      rw [h.entry_eq s d hs]
      split_ifs <;> rfl
    rw [List.foldl_cons]
    refine ⟨?_, hkept, ?_⟩
    · rw [hentry, hexpanded, h.entry_eq s d hs]
      congr 1
      split_ifs with hcond
      · rw [List.filter_filter]
        refine List.filter_congr fun c hc ↦ ?_
        by_cases hcd : c = d
        · subst hcd
          simp_all
        · simp [hcd]
      · refine List.filter_congr fun c hc ↦ ?_
        by_cases hcd : c = d
        · subst hcd
          have hkeep : (!isOptional c || isPresent c) = true := by
            cases hoptional : isOptional c <;> simp_all
          simp [hkeep]
        · simp [hcd]
    · rw [hfails, h.fails_iff s d hs, hexpanded]
      simp only [List.mem_cons, exists_eq_or_imp]
      tauto

/-- All dependencies of an entry that are optional and not present are dropped. -/
theorem DropStep.foldl_deps (h : DropStep entry kept fails isOptional isPresent blamed k f)
    {s : σ} (hs : kept s = k) :
    entry ((entry s).deps.foldl f s) =
        ⟨(entry s).deps.filter fun d ↦ !isOptional d || isPresent d, (entry s).expanded⟩ ∧
      kept ((entry s).deps.foldl f s) = k ∧
      (fails ((entry s).deps.foldl f s) ↔
        fails s ∨ (blamed ∧ Trips isOptional isPresent (entry s))) := by
  obtain ⟨hentry, hkept, hfails⟩ := h.foldl (entry s).deps hs
  refine ⟨?_, hkept, hfails⟩
  rw [hentry]
  congr 1
  refine List.filter_congr fun d hd ↦ ?_
  simp [hd]

end Drop

/-- What names stand for in the areas, and what the areas they come from declare about
them. -/
structure Declarations (ι ν ε : Type*) where
  visible : ι → ν → Option ε
  home : ε → ι
  declared : ι → ν → List ν
  isOptional : ε → ν → Bool

namespace Declarations

variable (D : Declarations ι ν ε)

def isPresent (p : ι) (n : ν) : Bool := (D.visible p n).isSome

/-- The optional dependencies of the names of an area that are present where the name
comes from are present in the area. -/
def Keeps (p : ι) : Prop :=
  ∀ n e, D.visible p n = some e → ∀ d ∈ D.declared (D.home e) n, D.isOptional e d →
    D.isPresent (D.home e) d → D.isPresent p d

/-- The entries of an area have the dependencies that are left where they come from,
and those that are present in the area are expanded. -/
structure Intact (p : ι) (entries : ν → Option (Entry ν)) : Prop where
  keeps : D.Keeps p
  deps_eq : ∀ n e entry, D.visible p n = some e → entries n = some entry → entry.deps =
    (D.declared (D.home e) n).filter fun d ↦ !D.isOptional e d || D.isPresent (D.home e) d
  mem_expanded : ∀ n e entry, D.visible p n = some e → entries n = some entry →
    ∀ d ∈ entry.deps, D.isPresent p d → d ≠ n → d ∈ entry.expanded

/-- Where an area has the entry of a name from before its pass: it is declared there,
or it is the entry of an intact area that sees the same under the name. -/
def From (p : ι) (n : ν) (e : ε) (old : Entry ν) : Prop :=
  (D.home e = p ∧ old = ⟨D.declared p n, []⟩) ∨
    ∃ q entries, D.Intact q entries ∧ D.visible q n = some e ∧ entries n = some old

variable {D}

theorem From.deps_eq {p : ι} {n : ν} {e : ε} {old : Entry ν} (h : D.From p n e old) {d : ν} :
    D.isOptional e d → D.isPresent (D.home e) d → (d ∈ old.deps ↔ d ∈ D.declared (D.home e) n) := by
  intro hoptional hpresent
  rcases h with ⟨rfl, rfl⟩ | ⟨q, entries, hq, hvisible, hold⟩
  · exact Iff.rfl
  · rw [hq.deps_eq n e old hvisible hold, List.mem_filter]
    simp [hpresent]

/-- A pass trips over an entry where an optional dependency is lost on the way. -/
theorem From.trips_iff {p : ι} {n : ν} {e : ε} {old : Entry ν} (h : D.From p n e old)
    (hvisible : D.visible p n = some e) :
    Trips (D.isOptional e) (D.isPresent p) old ↔ ∃ d ∈ D.declared (D.home e) n,
      D.isOptional e d ∧ D.isPresent (D.home e) d ∧ ¬ D.isPresent p d := by
  constructor
  · rintro ⟨hexpanded, d, hd, hoptional, hpresent⟩
    rcases h with ⟨rfl, rfl⟩ | ⟨q, entries, hq, hvisible', hold⟩
    · exact absurd rfl hexpanded
    · rw [hq.deps_eq n e old hvisible' hold, List.mem_filter] at hd
      exact ⟨d, hd.1, hoptional, by simpa [hoptional] using hd.2, hpresent⟩
  · rintro ⟨d, hd, hoptional, hhome, hpresent⟩
    have hmem := (h.deps_eq hoptional hhome).mpr hd
    rcases h with ⟨rfl, rfl⟩ | ⟨q, entries, hq, hvisible', hold⟩
    · exact absurd hhome hpresent
    · have hne : d ≠ n := by
        rintro rfl
        exact hpresent (by unfold isPresent; rw [hvisible]; rfl)
      have hin := hq.mem_expanded n e old hvisible' hold d hmem
        (hq.keeps n e hvisible' d hd hoptional hhome) hne
      exact ⟨List.ne_nil_of_mem hin, d, hmem, hoptional, hpresent⟩

/-- The passes over all entries of an area. -/
structure Steps (D : Declarations ι ν ε) (p : ι) (old new : ν → Option (Entry ν)) : Prop where
  old_of_visible : ∀ n e, D.visible p n = some e → ∃ entry, old n = some entry ∧ D.From p n e entry
  pass : ∀ n e, D.visible p n = some e → ∀ entry entry', old n = some entry → new n = some entry' →
    Pass (D.isOptional e) (D.isPresent p) n entry entry'

/-- A pass of the area trips exactly where it does not keep an optional dependency. -/
theorem Steps.trips_iff {p : ι} {old new : ν → Option (Entry ν)} (h : D.Steps p old new) :
    (∃ n e entry, D.visible p n = some e ∧ old n = some entry ∧
      Trips (D.isOptional e) (D.isPresent p) entry) ↔ ¬ D.Keeps p := by
  unfold Keeps
  push Not
  constructor
  · rintro ⟨n, e, entry, hvisible, hold, htrips⟩
    obtain ⟨entry', hold', hfrom⟩ := h.old_of_visible n e hvisible
    obtain rfl : entry = entry' := by simpa [hold] using hold'
    obtain ⟨d, hd, hlost⟩ := (hfrom.trips_iff hvisible).mp htrips
    exact ⟨n, e, hvisible, d, hd, by simpa using hlost⟩
  · rintro ⟨n, e, hvisible, d, hd, hlost⟩
    obtain ⟨entry, hold, hfrom⟩ := h.old_of_visible n e hvisible
    exact ⟨n, e, entry, hvisible, hold,
      (hfrom.trips_iff hvisible).mpr ⟨d, hd, by simpa using hlost⟩⟩

/-- The entries of an area that keeps the optional dependencies are intact after its
passes. -/
theorem Steps.intact {p : ι} {old new : ν → Option (Entry ν)} (h : D.Steps p old new)
    (hkeeps : D.Keeps p) : D.Intact p new := by
  refine ⟨hkeeps, fun n e entry' hvisible hnew ↦ ?_, fun n e entry' hvisible hnew ↦ ?_⟩
  · obtain ⟨entry, hold, hfrom⟩ := h.old_of_visible n e hvisible
    rw [(h.pass n e hvisible entry entry' hold hnew).deps_eq]
    rcases hfrom with ⟨rfl, rfl⟩ | ⟨q, entries, hq, hvisible', hold'⟩
    · rfl
    · rw [hq.deps_eq n e entry hvisible' hold', List.filter_filter]
      refine List.filter_congr fun d hd ↦ ?_
      have := hkeeps n e hvisible d hd
      cases hoptional : D.isOptional e d <;> cases hhome : D.isPresent (D.home e) d <;>
        simp_all
  · obtain ⟨entry, hold, hfrom⟩ := h.old_of_visible n e hvisible
    exact (h.pass n e hvisible entry entry' hold hnew).mem_expanded

/-- Where every area makes its passes after the areas it takes entries from, no pass
trips exactly when all areas keep the optional dependencies, and then all entries are
intact. -/
theorem run_keeps {needs : ι → ι → Prop} {order : List ι} (horder : Precedence.Ordered needs order)
    (trips isIntact : ι → Prop)
    (step : ∀ p ∈ order, (∀ q, needs p q → isIntact q) →
      (trips p ↔ ¬ D.Keeps p) ∧ (D.Keeps p → isIntact p)) :
    ((∀ p ∈ order, ¬ trips p) ↔ ∀ p ∈ order, D.Keeps p) ∧
      ((∀ p ∈ order, D.Keeps p) → ∀ p ∈ order, isIntact p) := by
  have hintact : (∀ p ∈ order, D.Keeps p) → ∀ p ∈ order, isIntact p := fun hkeeps ↦
    horder.induction fun p hp ih ↦ (step p hp ih).2 (hkeeps p hp)
  refine ⟨⟨fun htrips ↦ ?_, fun hkeeps p hp ↦ ?_⟩, hintact⟩
  · suffices hboth : ∀ p ∈ order, D.Keeps p ∧ isIntact p from fun p hp ↦ (hboth p hp).1
    refine horder.induction fun p hp ih ↦ ?_
    obtain ⟨htripsIff, hstep⟩ := step p hp fun q hq ↦ (ih q hq).2
    have hkeeps := not_not.mp (mt htripsIff.mpr (htrips p hp))
    exact ⟨hkeeps, hstep hkeeps⟩
  · rw [(step p hp fun q hq ↦ hintact hkeeps q (horder.mem hp hq)).1]
    exact not_not.mpr (hkeeps p hp)

end Declarations

end OptionalDependency
