import Mathlib.Logic.Relation
import Mathlib.Data.Set.Basic

/-!
The components of a relation: two elements are in the same one when they are joined by a chain of
steps in either direction. `Numbers` says that some whole components have been numbered, each with
a number of its own. `Filling` is what a search from an element without a number keeps: the elements
that still have to be looked at are all that is missing of a new component.
-/

set_option autoImplicit false
set_option relaxedAutoImplicit false

namespace Components

open Relation

variable {α : Type*} {r : α → α → Prop}

/-! ### Chains -/

/-- A chain of steps in either direction. -/
def Joined (r : α → α → Prop) : α → α → Prop := ReflTransGen (SymmGen r)

theorem Joined.refl (a : α) : Joined r a a := ReflTransGen.refl

theorem Joined.trans {a b c : α} (hab : Joined r a b) (hbc : Joined r b c) : Joined r a c :=
  ReflTransGen.trans hab hbc

theorem Joined.symm {a b : α} (h : Joined r a b) : Joined r b a := by
  unfold Joined at h ⊢
  rw [EqvGen.reflTransGen_symmGen] at h ⊢
  exact h.symm

theorem Joined.step {a b c : α} (hab : Joined r a b) (hbc : SymmGen r b c) : Joined r a c :=
  ReflTransGen.tail hab hbc

theorem Joined.of_rel {a b : α} (h : r a b) : Joined r a b := ReflTransGen.single (Or.inl h)

/-- What holds of all elements that a step leads to holds of a whole component. -/
theorem Joined.induction {p : α → Prop} {a b : α} (h : Joined r a b) (ha : p a)
    (hstep : ∀ b c, p b → SymmGen r b c → p c) : p b := by
  induction h with
  | refl => exact ha
  | tail _ hbc ih => exact hstep _ _ ih hbc

/-- More steps between elements that are joined anyway. -/
theorem joined_congr {s : α → α → Prop} (hrs : ∀ a b, r a b → s a b)
    (hsr : ∀ a b, s a b → Joined r a b) : Joined s = Joined r := by
  ext a b
  constructor
  · intro h
    refine h.induction (Joined.refl a) fun b c hab hbc ↦ hab.trans ?_
    rcases hbc with hbc | hcb
    · exact hsr b c hbc
    · exact (hsr c b hcb).symm
  · exact fun h ↦ h.induction (Joined.refl a) fun b c hab hbc ↦
      hab.step (hbc.imp (hrs b c) (hrs c b))

/-! ### Numbers -/

/-- The numbers of some whole components. -/
structure Numbers (r : α → α → Prop) (number : α → Option ℕ) (next : ℕ) : Prop where
  lt : ∀ a n, number a = some n → n < next
  joined_iff : ∀ a n, number a = some n → ∀ b, number b = some n ↔ Joined r a b

theorem numbers_none : Numbers r (fun _ ↦ none) 0 where
  lt a n h := by cases h
  joined_iff a n h := by cases h

variable {number number' number'' : α → Option ℕ} {next : ℕ} {start : α}

/-- An element without a number is not joined to one that has a number. -/
theorem Numbers.eq_none (h : Numbers r number next) (hstart : number start = none) {a : α}
    (ha : Joined r start a) : number a = none := by
  cases hnumber : number a with
  | none => rfl
  | some n =>
    have hsame := (h.joined_iff a n hnumber start).mpr ha.symm
    rw [hstart] at hsame
    cases hsame

/-- The component of an element without a number gets the next one. -/
theorem Numbers.extend (h : Numbers r number next)
    (hnew : ∀ a, Joined r start a → number' a = some next)
    (hold : ∀ a, ¬ Joined r start a → number' a = number a) : Numbers r number' (next + 1) := by
  constructor
  · intro a n ha
    by_cases hjoined : Joined r start a
    · rw [hnew a hjoined] at ha
      obtain rfl := Option.some_inj.mp ha
      exact Nat.lt_succ_self _
    · rw [hold a hjoined] at ha
      exact Nat.lt_succ_of_lt (h.lt a n ha)
  · intro a n ha b
    by_cases hjoined : Joined r start a
    · rw [hnew a hjoined] at ha
      obtain rfl := Option.some_inj.mp ha
      by_cases hb : Joined r start b
      · exact iff_of_true (hnew b hb) (hjoined.symm.trans hb)
      · refine iff_of_false (fun hnumber ↦ ?_) fun hab ↦ hb (hjoined.trans hab)
        rw [hold b hb] at hnumber
        exact Nat.lt_irrefl _ (h.lt b _ hnumber)
    · rw [hold a hjoined] at ha
      by_cases hb : Joined r start b
      · refine iff_of_false (fun hnumber ↦ ?_) fun hab ↦ hjoined (hb.trans hab.symm)
        rw [hnew b hb] at hnumber
        obtain rfl := Option.some_inj.mp hnumber
        exact Nat.lt_irrefl _ (h.lt a _ ha)
      · rw [hold b hb]
        exact h.joined_iff a n ha b

/-! ### The search for a component -/

/-- Some elements of the component of `start` have the next number, and the steps from these lead
to such elements or to those that still have to be looked at. -/
structure Filling (r : α → α → Prop) (start : α) (number number' : α → Option ℕ) (next : ℕ)
    (nodes : List α) : Prop where
  new : ∀ a, number' a = number a ∨ Joined r start a ∧ number' a = some next
  joined : ∀ a ∈ nodes, Joined r start a
  closed : ∀ a, number' a = some next → ∀ b, SymmGen r a b → number' b = some next ∨ b ∈ nodes
  found : number' start = some next ∨ start ∈ nodes

theorem Numbers.filling (h : Numbers r number next) :
    Filling r start number number next [start] where
  new _ := Or.inl rfl
  joined := List.forall_mem_singleton.mpr (Joined.refl start)
  closed a ha := absurd (h.lt a _ ha) (Nat.lt_irrefl _)
  found := Or.inr (List.mem_singleton.mpr rfl)

section Filling

variable {a : α} {nodes adjacent : List α} (h : Numbers r number next)
  (hstart : number start = none)

include h hstart

theorem Filling.eq_next (hf : Filling r start number number' next nodes)
    (ha : Joined r start a) (hsome : number' a ≠ none) : number' a = some next := by
  rcases hf.new a with hsame | ⟨-, hnext⟩
  · rw [hsame, h.eq_none hstart ha] at hsome
    exact absurd rfl hsome
  · exact hnext

/-- An element that has a number need not be looked at. -/
theorem Filling.skip (hf : Filling r start number number' next (a :: nodes))
    (hsome : number' a ≠ none) : Filling r start number number' next nodes := by
  have hnext := hf.eq_next h hstart (hf.joined a List.mem_cons_self) hsome
  refine ⟨hf.new, fun b hb ↦ hf.joined b (List.mem_cons_of_mem _ hb), fun b hb c hbc ↦ ?_, ?_⟩
  · rcases hf.closed b hb c hbc with hc | hc
    · exact Or.inl hc
    · rcases List.mem_cons.mp hc with rfl | hc
      · exact Or.inl hnext
      · exact Or.inr hc
  · rcases hf.found with hnumber | hmem
    · exact Or.inl hnumber
    · rcases List.mem_cons.mp hmem with rfl | hmem
      · exact Or.inl hnext
      · exact Or.inr hmem

omit h hstart in
/-- An element without a number gets the next one, and the steps from it still have to be looked
at. -/
theorem Filling.fill (hf : Filling r start number number' next (a :: nodes))
    (hadjacent : ∀ b, b ∈ adjacent ↔ SymmGen r a b) (ha : number'' a = some next)
    (hother : ∀ b, b ≠ a → number'' b = number' b) :
    Filling r start number number'' next (nodes ++ adjacent) := by
  have hjoined := hf.joined a List.mem_cons_self
  have hkept : ∀ b, number' b = some next ∨ b ∈ a :: nodes →
      number'' b = some next ∨ b ∈ nodes ++ adjacent := by
    intro b hb
    by_cases hba : b = a
    · exact Or.inl (hba ▸ ha)
    · rw [hother b hba, List.mem_append]
      exact hb.imp_right fun hmem ↦ Or.inl ((List.mem_cons.mp hmem).resolve_left hba)
  refine ⟨fun b ↦ ?_, fun b hb ↦ ?_, fun b hb c hbc ↦ ?_, hkept start hf.found⟩
  · by_cases hba : b = a
    · exact Or.inr ⟨hba ▸ hjoined, hba ▸ ha⟩
    · rw [hother b hba]
      exact hf.new b
  · rcases List.mem_append.mp hb with hb | hb
    · exact hf.joined b (List.mem_cons_of_mem _ hb)
    · exact hjoined.step ((hadjacent b).mp hb)
  · by_cases hba : b = a
    · exact Or.inr (List.mem_append_right _ ((hadjacent c).mpr (hba ▸ hbc)))
    · rw [hother b hba] at hb
      exact hkept c (hf.closed b hb c hbc)

omit hstart in
/-- When nothing has to be looked at any more, the component is complete. -/
theorem Filling.numbers (hf : Filling r start number number' next []) :
    Numbers r number' (next + 1) := by
  have hnext := hf.found.resolve_right List.not_mem_nil
  have hnew : ∀ a, Joined r start a → number' a = some next := fun a ha ↦
    ha.induction hnext fun b c hb hbc ↦ (hf.closed b hb c hbc).resolve_right List.not_mem_nil
  exact h.extend hnew fun a ha ↦ (hf.new a).resolve_right fun hboth ↦ ha hboth.1

end Filling

end Components
