import Mathlib

/-!
Sets that are saturated by rounds. A rule says what a set brings in; the closure of a set
under a rule is the least set that has it and brings in nothing more. A loop that makes
rounds until one of them changes nothing computes the closure, whatever the rounds add
first (`members_untilStable`), and it ends where every round that changes something
leaves less to be added (`isSome_untilStable`).
-/

set_option autoImplicit false
set_option relaxedAutoImplicit false

namespace Saturation

/-! ### Closures -/

section Closure

variable {α : Type*}

/-- The least set above a set that brings in nothing more. -/
def closure (rule : Set α →o Set α) : ClosureOperator (Set α) :=
  ClosureOperator.ofCompletePred (fun s ↦ rule s ≤ s) fun _ hsets ↦
    le_sInf fun t ht ↦ (rule.monotone (sInf_le ht)).trans (hsets t ht)

variable {rule rule' : Set α →o Set α} {s t : Set α}

theorem subset_closure : s ⊆ closure rule s := (closure rule).le_closure s

theorem rule_closure_subset : rule (closure rule s) ⊆ closure rule s :=
  (closure rule).isClosed_closure s

theorem closure_subset (h : s ⊆ t) (hrule : rule t ⊆ t) : closure rule s ⊆ t :=
  ClosureOperator.closure_min h hrule

theorem closure_mono_rule (h : rule ≤ rule') : closure rule s ⊆ closure rule' s :=
  closure_subset subset_closure ((h _).trans rule_closure_subset)

/-- A closed set between a set and its closure is the closure. -/
theorem eq_closure (hsub : s ⊆ t) (hsup : t ⊆ closure rule s) (hrule : rule t ⊆ t) :
    t = closure rule s :=
  Set.Subset.antisymm hsup (closure_subset hsub hrule)

/-- What a rule brings in for parts of a closure that are in a set is in the set. -/
theorem closure_induction (h : s ⊆ t) (hrule : ∀ u ⊆ closure rule s, u ⊆ t → rule u ⊆ t) :
    closure rule s ⊆ t := by
  have hboth : closure rule s ⊆ closure rule s ∩ t := by
    refine closure_subset (Set.subset_inter subset_closure h) (Set.subset_inter ?_ ?_)
    · exact (rule.monotone Set.inter_subset_left).trans rule_closure_subset
    · exact hrule _ Set.inter_subset_left Set.inter_subset_right
  exact hboth.trans Set.inter_subset_right

theorem closure_closure_subset (h : t ⊆ closure rule s) : closure rule t ⊆ closure rule s :=
  closure_subset h rule_closure_subset

end Closure

/-! ### Rounds -/

section Rounds

variable {σ α : Type*} (round : σ → Option (σ × Bool))

/-- Rounds are made until one of them changes nothing. -/
def untilStable : ℕ → σ → Option σ
  | 0, _ => none
  | fuel + 1, s => do
    let (s, changed) ← round s
    if changed then untilStable fuel s else some s

variable {round}

/-- What every round keeps holds in the end, and the last round changes nothing. -/
theorem untilStable_induction {motive : σ → Prop} {fuel : ℕ} {s s' : σ}
    (h : untilStable round fuel s = some s') (start : motive s)
    (step : ∀ s s' changed, round s = some (s', changed) → motive s → motive s') :
    motive s' ∧ ∃ last, motive last ∧ round last = some (s', false) := by
  induction fuel generalizing s with
  | zero => cases h
  | succ fuel ih =>
    obtain ⟨⟨s₁, changed⟩, hround, hrest⟩ := Option.bind_eq_some_iff.mp h
    have hs₁ := step s s₁ changed hround start
    cases changed with
    | true => exact ih hrest hs₁
    | false =>
      obtain rfl := Option.some_inj.mp hrest
      exact ⟨hs₁, s, start, hround⟩

/-- The rounds end where each of them that changes something leaves less to do. -/
theorem isSome_untilStable {inv : σ → Prop} {todo : σ → ℕ}
    (hround : ∀ s, inv s → ∃ s' changed, round s = some (s', changed) ∧ inv s' ∧
      (changed = true → todo s' < todo s))
    {fuel : ℕ} {s : σ} (hs : inv s) (hfuel : todo s < fuel) :
    ∃ s', untilStable round fuel s = some s' := by
  induction fuel generalizing s with
  | zero => exact absurd hfuel (Nat.not_lt_zero _)
  | succ fuel ih =>
    obtain ⟨s₁, changed, hs₁, hinv, hless⟩ := hround s hs
    unfold untilStable
    rw [hs₁, Option.bind_eq_bind, Option.bind_some]
    cases changed with
    | true =>
      have hlast := hless rfl
      exact ih hinv (by omega)
    | false => exact ⟨s₁, rfl⟩

/-- Rounds that add what a rule brings in, and change nothing only where nothing is left
to be brought in, compute the closure. -/
theorem members_untilStable {inv : σ → Prop} {members : σ → Set α} {rule : Set α →o Set α}
    (hround : ∀ s s' changed, round s = some (s', changed) → inv s →
      inv s' ∧ members s ⊆ members s' ∧ members s' ⊆ closure rule (members s) ∧
        (changed = false → rule (members s') ⊆ members s'))
    {fuel : ℕ} {s s' : σ} (h : untilStable round fuel s = some s') (hs : inv s) :
    inv s' ∧ members s' = closure rule (members s) := by
  obtain ⟨⟨hinv, hsub, hsup⟩, last, ⟨hlast, -, -⟩, hstable⟩ := untilStable_induction
    (motive := fun t ↦ inv t ∧ members s ⊆ members t ∧ members t ⊆ closure rule (members s)) h
    ⟨hs, Set.Subset.rfl, subset_closure⟩ fun t t' changed ht hmotive ↦ by
      obtain ⟨hinv', hgrow, hsound, -⟩ := hround t t' changed ht hmotive.1
      exact ⟨hinv', hmotive.2.1.trans hgrow,
        hsound.trans (closure_closure_subset hmotive.2.2)⟩
  exact ⟨hinv, eq_closure hsub hsup ((hround last s' false hstable hlast).2.2.2 rfl)⟩

end Rounds

end Saturation
