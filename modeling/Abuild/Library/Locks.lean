import Mathlib.Data.Fintype.Basic
import Mathlib.Data.Set.Basic
import Mathlib.Logic.Function.Basic
import Mathlib.Tactic.Common

/-!
Threads that lock and unlock mutexes. A mutex is held by at most one thread; one that is recursive
may be locked again by the thread that holds it. Threads whose code says beforehand what may be
locked while something is held (`Follows`) keep to it as they advance, and where the mutexes that
are waited for by threads that are waited for have ranks that grow, no threads wait for each other
(`not_deadlocked`).
-/

set_option autoImplicit false
set_option relaxedAutoImplicit false

namespace Locks

variable {ι μ : Type}

inductive Instr (μ : Type)
  | lock (m : μ)
  | unlock (m : μ)
deriving DecidableEq, Repr

/-- The mutexes that a thread holds, the last one first, and what it has still to do. -/
structure Thread (μ : Type) where
  held : List μ
  rest : List (Instr μ)

def idle : Thread μ := ⟨[], []⟩

/-- Code with a lock for its scope. -/
def locked (m : μ) (body : List (Instr μ)) : List (Instr μ) := .lock m :: (body ++ [.unlock m])

/-! ### Steps -/

variable (recursive : μ → Bool) (threads : ι → Thread μ)

def Available (t : ι) (m : μ) : Prop :=
  (∀ u, u ≠ t → m ∉ (threads u).held) ∧ (recursive m = true ∨ m ∉ (threads t).held)

instance [Fintype ι] [DecidableEq ι] [DecidableEq μ] (t : ι) (m : μ) :
    Decidable (Available recursive threads t m) :=
  inferInstanceAs (Decidable (_ ∧ _))

/-- One instruction of a thread, unless it waits. -/
def advance [Fintype ι] [DecidableEq ι] [DecidableEq μ] (t : ι) : Option (ι → Thread μ) :=
  match (threads t).rest with
  | [] => none
  | .lock m :: rest =>
    if Available recursive threads t m then
      some (Function.update threads t ⟨m :: (threads t).held, rest⟩)
    else none
  | .unlock m :: rest =>
    some (Function.update threads t ⟨(threads t).held.erase m, rest⟩)

/-- The thread is at a lock of the mutex. -/
def IsAt (t : ι) (m : μ) : Prop := ∃ rest, (threads t).rest = .lock m :: rest

/-- Some threads wait each for a mutex that another one of them holds. -/
def Deadlocked : Prop :=
  ∃ S : Set ι, S.Nonempty ∧ ∀ t ∈ S, ∃ m, IsAt threads t m ∧ ∃ u ∈ S, u ≠ t ∧ m ∈ (threads u).held

/-- No mutex is held by two threads. -/
def Exclusive : Prop := ∀ t u m, m ∈ (threads t).held → m ∈ (threads u).held → t = u

/-! ### Code that keeps to a rule -/

/-- What may be locked by a thread that holds some mutexes is a rule. Locks are given back in the
order that scopes end, and all of them are. -/
def Follows (allowed : List μ → μ → Prop) : List μ → List (Instr μ) → Prop
  | held, [] => held = []
  | held, .lock m :: rest => allowed held m ∧ Follows allowed (m :: held) rest
  | held, .unlock m :: rest => held.head? = some m ∧ Follows allowed held.tail rest

/-- Code that keeps to the rule wherever the mutexes that are held are in `P`. -/
def Framed (allowed : List μ → μ → Prop) (P : List μ → Prop) (code : List (Instr μ)) : Prop :=
  ∀ held rest, P held → Follows allowed held rest → Follows allowed held (code ++ rest)

variable {recursive threads} {allowed : List μ → μ → Prop} {P Q : List μ → Prop}
  {code code' : List (Instr μ)}

theorem framed_nil : Framed allowed P [] := fun _ _ _ h ↦ h

theorem Framed.append (h : Framed allowed P code) (h' : Framed allowed P code') :
    Framed allowed P (code ++ code') := by
  intro held rest hheld hrest
  rw [List.append_assoc]
  exact h held _ hheld (h' held rest hheld hrest)

theorem framed_flatMap {β : Type} {l : List β} {f : β → List (Instr μ)}
    (h : ∀ b ∈ l, Framed allowed P (f b)) : Framed allowed P (l.flatMap f) := by
  induction l with
  | nil => exact framed_nil
  | cons b l ih =>
    rw [List.flatMap_cons]
    exact (h b List.mem_cons_self).append (ih fun c hc ↦ h c (List.mem_cons_of_mem b hc))

theorem Framed.locked {m : μ} (h : Framed allowed Q code) (hm : ∀ held, P held → allowed held m)
    (hQ : ∀ held, P held → Q (m :: held)) : Framed allowed P (locked m code) := by
  intro held rest hheld hrest
  show Follows allowed held (.lock m :: (code ++ [.unlock m] ++ rest))
  rw [List.append_assoc]
  exact ⟨hm held hheld, h _ _ (hQ held hheld) ⟨rfl, hrest⟩⟩

theorem Framed.mono (h : Framed allowed Q code) (hPQ : ∀ held, P held → Q held) :
    Framed allowed P code :=
  fun held rest hheld ↦ h held rest (hPQ held hheld)

theorem Framed.follows (h : Framed allowed P code) (hnil : P []) : Follows allowed [] code := by
  have hcode := h [] [] hnil rfl
  rwa [List.append_nil] at hcode

/-! ### Invariants -/

/-- A thread that keeps to its rule may lock what it is at. -/
theorem Follows.mayLock {t : ι} {m : μ}
    (hfollows : Follows allowed (threads t).held (threads t).rest)
    (hat : IsAt threads t m) : allowed (threads t).held m := by
  obtain ⟨rest, hrest⟩ := hat
  rw [hrest] at hfollows
  exact hfollows.1

section Advance

variable [Fintype ι] [DecidableEq ι] [DecidableEq μ] {threads' : ι → Thread μ} {t : ι}

/-- The other threads do not change. -/
theorem advance_of_ne (h : advance recursive threads t = some threads') {u : ι} (hu : u ≠ t) :
    threads' u = threads u := by
  unfold advance at h
  cases hrest : (threads t).rest with
  | nil =>
    rw [hrest] at h
    cases h
  | cons instr rest =>
    rw [hrest] at h
    cases instr with
    | lock m =>
      obtain ⟨-, heq⟩ := Option.ite_none_right_eq_some.mp h
      rw [← Option.some_inj.mp heq, Function.update_of_ne hu]
    | unlock m => rw [← Option.some_inj.mp h, Function.update_of_ne hu]

/-- A thread that keeps to its rule goes on to do so, and was busy. -/
theorem Follows.advance (hfollows : Follows allowed (threads t).held (threads t).rest)
    (h : advance recursive threads t = some threads') :
    Follows allowed (threads' t).held (threads' t).rest ∧ (threads t).rest ≠ [] := by
  unfold Locks.advance at h
  cases hrest : (threads t).rest with
  | nil =>
    rw [hrest] at h
    cases h
  | cons instr rest =>
    rw [hrest] at h hfollows
    refine ⟨?_, List.cons_ne_nil _ _⟩
    cases instr with
    | lock m =>
      obtain ⟨-, heq⟩ := Option.ite_none_right_eq_some.mp h
      rw [← Option.some_inj.mp heq, Function.update_self]
      exact hfollows.2
    | unlock m =>
      obtain ⟨hhead, htail⟩ := hfollows
      obtain ⟨held, hheld⟩ := List.head?_eq_some_iff.mp hhead
      rw [← Option.some_inj.mp h, Function.update_self]
      rw [hheld] at htail ⊢
      rwa [List.erase_cons_head]

/-- What a thread holds it held before, or it was at its lock and no other thread held it. -/
theorem held_of_advance (h : advance recursive threads t = some threads') {m : μ}
    (hm : m ∈ (threads' t).held) :
    m ∈ (threads t).held ∨ (IsAt threads t m ∧ ∀ u, u ≠ t → m ∉ (threads u).held) := by
  unfold Locks.advance at h
  cases hrest : (threads t).rest with
  | nil =>
    rw [hrest] at h
    cases h
  | cons instr rest =>
    rw [hrest] at h
    cases instr with
    | lock m' =>
      obtain ⟨havailable, heq⟩ := Option.ite_none_right_eq_some.mp h
      rw [← Option.some_inj.mp heq, Function.update_self] at hm
      rcases List.mem_cons.mp hm with rfl | hm
      · exact Or.inr ⟨⟨rest, hrest⟩, havailable.1⟩
      · exact Or.inl hm
    | unlock m' =>
      rw [← Option.some_inj.mp h, Function.update_self] at hm
      exact Or.inl (List.mem_of_mem_erase hm)

theorem Exclusive.advance (hexclusive : Exclusive threads)
    (h : advance recursive threads t = some threads') : Exclusive threads' := by
  have hothers := fun u (hu : u ≠ t) ↦ advance_of_ne h hu
  intro u v m hu hv
  by_cases hut : u = t <;> by_cases hvt : v = t
  · rw [hut, hvt]
  · subst hut
    rw [hothers v hvt] at hv
    rcases held_of_advance h hu with hbefore | ⟨-, hfree⟩
    · exact hexclusive u v m hbefore hv
    · exact absurd hv (hfree v hvt)
  · subst hvt
    rw [hothers u hut] at hu
    rcases held_of_advance h hv with hbefore | ⟨-, hfree⟩
    · exact hexclusive u v m hu hbefore
    · exact absurd hu (hfree u hut)
  · rw [hothers u hut] at hu
    rw [hothers v hvt] at hv
    exact hexclusive u v m hu hv

end Advance

/-- Threads do not wait for each other if the ranks of the mutexes grow along them. -/
theorem not_deadlocked (rank : μ → ℕ) (bound : ℕ) (hbound : ∀ m, rank m ≤ bound)
    (hrank : ∀ t u v m m', u ≠ t → v ≠ u → IsAt threads t m → m ∈ (threads u).held →
      IsAt threads u m' → m' ∈ (threads v).held → rank m < rank m') : ¬ Deadlocked threads := by
  rintro ⟨S, ⟨t, ht⟩, hS⟩
  have hgrows : ∀ k, ∃ t ∈ S, ∃ m, IsAt threads t m ∧ k ≤ rank m ∧
      ∃ u ∈ S, u ≠ t ∧ m ∈ (threads u).held := by
    intro k
    induction k with
    | zero =>
      obtain ⟨m, hat, hheld⟩ := hS t ht
      exact ⟨t, ht, m, hat, Nat.zero_le _, hheld⟩
    | succ k ih =>
      obtain ⟨t, -, m, hat, hk, u, hu, hut, hheld⟩ := ih
      obtain ⟨m', hat', v, hv, hvu, hheld'⟩ := hS u hu
      have hless := hrank t u v m m' hut hvu hat hheld hat' hheld'
      exact ⟨u, hu, m', hat', by omega, v, hv, hvu, hheld'⟩
  obtain ⟨-, -, m, -, hk, -⟩ := hgrows (bound + 1)
  have := hbound m
  omega

end Locks
