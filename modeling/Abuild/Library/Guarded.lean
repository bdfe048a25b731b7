import Abuild.Library.Fallible

/-!
Runs of a system whose steps are named and may not be possible. A guard says of a step
whether it may be taken. An invariant that the guarded steps keep holds along every run
that meets the guard; and where a step that does not meet the guard always leads to a state
without a property that the invariant gives, the runs along which the property holds are
exactly those that meet the guard (`holds_iff_meets`).
-/

set_option autoImplicit false
set_option relaxedAutoImplicit false

namespace Guarded

open Fallible

variable {σ α : Type} {step : σ → α → Option σ} {guard : σ → α → Prop} {inv P : σ → Prop}
  {s s' : σ} {l : List α}

/-- Every step of a run meets the guard. -/
def Meets (step : σ → α → Option σ) (guard : σ → α → Prop) : σ → List α → Prop
  | _, [] => True
  | s, a :: l => guard s a ∧ ∀ s', step s a = some s' → Meets step guard s' l

/-- Every state of a run has a property. -/
def Holds (step : σ → α → Option σ) (P : σ → Prop) : σ → List α → Prop
  | s, [] => P s
  | s, a :: l => P s ∧ ∀ s', step s a = some s' → Holds step P s' l

instance decidableMeets [∀ s a, Decidable (guard s a)] :
    ∀ s l, Decidable (Meets step guard s l)
  | _, [] => isTrue trivial
  | s, a :: l =>
    match h : step s a with
    | none => decidable_of_iff (guard s a) (by simp [Meets, h])
    | some s' =>
      have := decidableMeets s' l
      decidable_of_iff (guard s a ∧ Meets step guard s' l) (by simp [Meets, h])

/-- A run that meets the guard meets it at each of its steps. -/
theorem guard_of_meets {l₁ l₂ : List α} {a : α} (h : Meets step guard s (l₁ ++ a :: l₂))
    (hrun : l₁.foldlM step s = some s') : guard s' a := by
  induction l₁ generalizing s with
  | nil =>
    obtain rfl : s = s' := by simpa using hrun
    exact h.1
  | cons b l₁ ih =>
    rw [foldlM_cons] at hrun
    obtain ⟨s₁, hs₁, hrest⟩ := Option.bind_eq_some_iff.mp hrun
    exact ih (h.2 s₁ hs₁) hrest

/-- What the guarded steps keep holds after a run that meets the guard. -/
theorem invariant_of_meets
    (hstep : ∀ s a s', inv s → guard s a → step s a = some s' → inv s')
    (hmeets : Meets step guard s l) (hrun : l.foldlM step s = some s') (hinv : inv s) :
    inv s' := by
  induction l generalizing s with
  | nil =>
    obtain rfl : s = s' := by simpa using hrun
    exact hinv
  | cons a l ih =>
    rw [foldlM_cons] at hrun
    obtain ⟨s₁, hs₁, hrest⟩ := Option.bind_eq_some_iff.mp hrun
    exact ih (hmeets.2 s₁ hs₁) hrest (hstep s a s₁ hinv hmeets.1 hs₁)

theorem holds_of_meets (hP : ∀ s, inv s → P s)
    (hstep : ∀ s a s', inv s → guard s a → step s a = some s' → inv s')
    (hmeets : Meets step guard s l) (hinv : inv s) : Holds step P s l := by
  induction l generalizing s with
  | nil => exact hP s hinv
  | cons a l ih =>
    exact ⟨hP s hinv, fun s' hs' ↦ ih (hmeets.2 s' hs') (hstep s a s' hinv hmeets.1 hs')⟩

/-- A run that does not meet the guard takes a first step against it. -/
theorem exists_of_not_meets (hmeets : ¬ Meets step guard s l) (hrun : l.foldlM step s = some s') :
    ∃ l₁ a l₂ s₁ s₂, l = l₁ ++ a :: l₂ ∧ l₁.foldlM step s = some s₁ ∧ ¬ guard s₁ a ∧
      step s₁ a = some s₂ := by
  induction l generalizing s with
  | nil => exact absurd trivial hmeets
  | cons a l ih =>
    rw [foldlM_cons] at hrun
    obtain ⟨s₁, hs₁, hrest⟩ := Option.bind_eq_some_iff.mp hrun
    by_cases hguard : guard s a
    · have hlater : ¬ Meets step guard s₁ l := fun h ↦ hmeets
        ⟨hguard, fun s' hs' ↦ Option.some_inj.mp (hs₁.symm.trans hs') ▸ h⟩
      obtain ⟨l₁, b, l₂, s₂, s₃, rfl, hl₁, hb, hs₃⟩ := ih hlater hrest
      refine ⟨a :: l₁, b, l₂, s₂, s₃, rfl, ?_, hb, hs₃⟩
      rw [foldlM_cons, hs₁]
      exact hl₁
    · exact ⟨[], a, l, s, s₁, rfl, rfl, hguard, hs₁⟩

/-- The property holds along exactly the runs that meet the guard. -/
theorem holds_iff_meets (hP : ∀ s, inv s → P s)
    (hstep : ∀ s a s', inv s → guard s a → step s a = some s' → inv s')
    (hbad : ∀ s a s', inv s → ¬ guard s a → step s a = some s' → ¬ P s')
    (hinv : inv s) (hrun : l.foldlM step s = some s') :
    Holds step P s l ↔ Meets step guard s l := by
  induction l generalizing s with
  | nil => exact iff_of_true (hP s hinv) trivial
  | cons a l ih =>
    rw [foldlM_cons] at hrun
    obtain ⟨s₁, hs₁, hrest⟩ := Option.bind_eq_some_iff.mp hrun
    have honly : ∀ s', step s a = some s' → s' = s₁ := fun s' hs' ↦
      Option.some_inj.mp (hs'.symm.trans hs₁)
    by_cases hguard : guard s a
    · have hiff := ih (hstep s a s₁ hinv hguard hs₁) hrest
      constructor
      · intro h
        exact ⟨hguard, fun s' hs' ↦ honly s' hs' ▸ hiff.mp (h.2 s₁ hs₁)⟩
      · intro h
        exact ⟨hP s hinv, fun s' hs' ↦ honly s' hs' ▸ hiff.mpr (h.2 s₁ hs₁)⟩
    · refine iff_of_false (fun h ↦ ?_) fun h ↦ hguard h.1
      have hnext : P s₁ := by
        cases l with
        | nil => exact h.2 s₁ hs₁
        | cons b l => exact (h.2 s₁ hs₁).1
      exact hbad s a s₁ hinv hguard hs₁ hnext

end Guarded
