import Abuild.Library.Fallible
import Abuild.Library.Precedence
import Mathlib.Logic.Function.Basic

/-!
One pass over elements in an order in which each comes after those it needs. Each step gives its
element the value that a rule finds from the values of what it needs. After the pass all values
satisfy the rule together, and no others do, so that the pass ends in the same way in every such
order.
-/

set_option autoImplicit false
set_option relaxedAutoImplicit false

namespace OnePass

open Precedence Fallible

variable {α β : Type} {needs : α → α → Prop} {rule : α → (α → β) → β} {l l' : List α}
  {first last last' : α → β}

/-- The rule looks only at what an element needs. -/
def IsLocal (needs : α → α → Prop) (rule : α → (α → β) → β) : Prop :=
  ∀ a f g, (∀ b, needs a b → f b = g b) → rule a f = rule a g

/-- The last values of the listed elements follow the rule, and the others keep their first ones. -/
structure Solves (rule : α → (α → β) → β) (l : List α) (first last : α → β) : Prop where
  rule : ∀ a ∈ l, last a = rule a last
  other : ∀ a, a ∉ l → last a = first a

theorem Solves.congr (h : Solves rule l first last) (hmem : ∀ a, a ∈ l ↔ a ∈ l') :
    Solves rule l' first last :=
  ⟨fun a ha ↦ h.rule a ((hmem a).mpr ha), fun a ha ↦ h.other a fun ha' ↦ ha ((hmem a).mp ha')⟩

/-- Values that follow the rule are unique. -/
theorem Solves.unique (hlocal : IsLocal needs rule) (hl : Ordered needs l)
    (h : Solves rule l first last) (h' : Solves rule l first last') : last = last' := by
  have hlisted : ∀ a ∈ l, last a = last' a := hl.induction fun a ha ih ↦ by
    rw [h.rule a ha, h'.rule a ha]
    exact hlocal a last last' ih
  funext a
  by_cases ha : a ∈ l
  · exact hlisted a ha
  · rw [h.other a ha, h'.other a ha]

section Run

variable {σ : Type} {step : σ → α → Option σ} {inv : σ → Prop} {s : σ}

/-- One more element, whose value has not changed until now. -/
theorem Solves.snoc [DecidableEq α] {a : α} (hlocal : IsLocal needs rule)
    (hl : Ordered needs (l ++ [a])) (hnew : a ∉ l) (h : Solves rule l first last) :
    Solves rule (l ++ [a]) first (Function.update last a (rule a last)) := by
  have hkeep : ∀ b ∈ l, Function.update last a (rule a last) b = last b := fun b hb ↦
    Function.update_of_ne (ne_of_mem_of_not_mem hb hnew) _ _
  have hlist : Ordered needs l := hl.of_append
  constructor
  · intro b hb
    rcases List.mem_append.mp hb with hb | hb
    · rw [hkeep b hb, h.rule b hb]
      exact hlocal b _ _ fun c hc ↦ (hkeep c (hlist.mem hb hc)).symm
    · obtain rfl := List.mem_singleton.mp hb
      rw [Function.update_self]
      exact hlocal b _ _ fun c hc ↦ (hkeep c (hl l b [] rfl c hc)).symm
  · intro b hb
    have hne : b ≠ a := fun heq ↦ hb (List.mem_append_right _ (List.mem_singleton.mpr heq))
    rw [Function.update_of_ne hne]
    exact h.other b fun hb' ↦ hb (List.mem_append_left _ hb')

/-- A pass whose steps follow the rule gets to its end, and solves it. -/
theorem exists_solves [DecidableEq α] (value : σ → α → β) (hlocal : IsLocal needs rule)
    (hl : Ordered needs l)
    (hnodup : l.Nodup) (start : inv s)
    (hstep : ∀ a ∈ l, ∀ t, inv t → value t a = value s a → ∃ t', step t a = some t' ∧ inv t' ∧
      value t' = Function.update (value t) a (rule a (value t))) :
    ∃ s', l.foldlM step s = some s' ∧ inv s' ∧ Solves rule l (value s) (value s') := by
  induction l using List.reverseRecOn with
  | nil => exact ⟨s, rfl, start, ⟨fun a ha ↦ absurd ha List.not_mem_nil, fun a _ ↦ rfl⟩⟩
  | append_singleton l a ih =>
    obtain ⟨hnodup', -, hnew⟩ := List.nodup_append.mp hnodup
    have hnew : a ∉ l := fun ha ↦ hnew a ha a List.mem_cons_self rfl
    obtain ⟨t, hrun, hinv, hsolves⟩ := ih hl.of_append hnodup' fun b hb ↦
      hstep b (List.mem_append_left _ hb)
    obtain ⟨t', ht', hinv', hvalue⟩ := hstep a (List.mem_append_right _ List.mem_cons_self) t hinv
      (hsolves.other a hnew)
    refine ⟨t', ?_, hinv', ?_⟩
    · rw [List.foldlM_append, hrun]
      show [a].foldlM step t = some t'
      rw [foldlM_cons, ht']
      rfl
    · rw [hvalue]
      exact hsolves.snoc hlocal hl hnew

end Run

end OnePass
