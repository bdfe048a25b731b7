import Mathlib.Logic.Relation
import Mathlib.Data.List.Induction
import Mathlib.Data.List.Basic
import Mathlib.Data.Set.Finite.List
import Mathlib.Data.Fintype.Card

/-!
Lists in which every element stands after everything it relates to. A relation
`needs a b` reads "`a` comes after `b`", and `Ordered needs l` says at once that
`l` is closed under the relation and that it lists what an element needs before
the element itself. A list with this property orders its elements
topologically, so the relation has no cycle through them; two such lists merge,
the second contributing what the first does not hold.
-/

set_option autoImplicit false
set_option relaxedAutoImplicit false

namespace Precedence

open Relation

variable {α : Type*} {needs : α → α → Prop}

/-- Every element of the list stands after all elements it needs. -/
def Ordered (needs : α → α → Prop) (l : List α) : Prop :=
  ∀ before a after, l = before ++ a :: after → ∀ b, needs a b → b ∈ before

/-- Where an element of a list with one more element at its end can stand. -/
theorem append_singleton_eq_split {l before after : List α} {a x : α}
    (h : l ++ [a] = before ++ x :: after) :
    (before = l ∧ x = a ∧ after = []) ∨
      ∃ rest, after = rest ++ [a] ∧ l = before ++ x :: rest := by
  rcases List.eq_nil_or_concat after with rfl | ⟨rest, last, rfl⟩
  · obtain ⟨rfl, hx⟩ := List.append_inj' h rfl
    exact Or.inl ⟨rfl, by simpa using hx.symm, rfl⟩
  · have hsplit : l ++ [a] = (before ++ x :: rest) ++ [last] := by simpa using h
    obtain ⟨rfl, hlast⟩ := List.append_inj' hsplit rfl
    exact Or.inr ⟨rest, by simpa using hlast.symm, rfl⟩

theorem ordered_nil : Ordered needs [] := by
  intro before a after h
  simp at h

/-- A last element may be added when the list holds all it needs. -/
theorem Ordered.snoc {l : List α} {a : α} (hl : Ordered needs l) (ha : ∀ b, needs a b → b ∈ l) :
    Ordered needs (l ++ [a]) := by
  intro before x after h b hb
  rcases append_singleton_eq_split h with ⟨rfl, rfl, -⟩ | ⟨rest, -, hrest⟩
  · exact ha b hb
  · exact hl before x rest hrest b hb

theorem Ordered.of_append {l m : List α} (h : Ordered needs (l ++ m)) : Ordered needs l := by
  intro before a after hl b hb
  exact h before a (after ++ m) (by simp [hl]) b hb

theorem Ordered.mono {other : α → α → Prop} {l : List α} (h : Ordered needs l)
    (hsub : ∀ a b, a ∈ l → other a b → needs a b) : Ordered other l := by
  intro before a after hl b hb
  exact h before a after hl b (hsub a b (by simp [hl]) hb)

/-- A list that is sorted by a position that every element has after what it needs. -/
theorem ordered_of_pairwise {position : α → ℕ} {l : List α}
    (hsorted : l.Pairwise fun a b ↦ position a ≤ position b)
    (hneeds : ∀ a ∈ l, ∀ b, needs a b → b ∈ l ∧ position b < position a) : Ordered needs l := by
  intro before a after hl b hab
  obtain ⟨hb, hlt⟩ := hneeds a (hl ▸ List.mem_append_right _ List.mem_cons_self) b hab
  rw [hl] at hb hsorted
  rcases List.mem_append.mp hb with hb | hb
  · exact hb
  · have hafter := (List.pairwise_append.mp hsorted).2.1
    rcases List.mem_cons.mp hb with rfl | hb
    · exact absurd hlt (Nat.lt_irrefl _)
    · exact absurd hlt (Nat.not_lt_of_le ((List.pairwise_cons.mp hafter).1 b hb))

/-- The elements of an ordered list are closed under the relation. -/
theorem Ordered.mem {l : List α} (h : Ordered needs l) {a b : α} (ha : a ∈ l) (hab : needs a b) :
    b ∈ l := by
  obtain ⟨before, after, rfl⟩ := List.append_of_mem ha
  exact List.mem_append_left _ (h before a after rfl b hab)

/-- An element needs none of those that stand after it. -/
theorem Ordered.pairwise {l : List α} (h : Ordered needs l) (hnodup : l.Nodup) :
    l.Pairwise fun a b ↦ ¬ needs a b := by
  induction l using List.reverseRecOn with
  | nil => exact List.Pairwise.nil
  | append_singleton l x ih =>
    have hl : Ordered needs l := Ordered.of_append h
    have hdisjoint := List.disjoint_of_nodup_append hnodup
    refine List.pairwise_append.mpr ⟨ih hl hnodup.of_append_left, List.pairwise_singleton _ _, ?_⟩
    intro a ha b hb hab
    exact hdisjoint (hl.mem ha hab) hb

/-- Everything an element needs, directly or not, stands before it. -/
theorem Ordered.transGen {l : List α} (h : Ordered needs l) : Ordered (TransGen needs) l := by
  intro before a after hl b hab
  have hprefix : Ordered needs before := Ordered.of_append (hl ▸ h)
  induction hab with
  | single hb => exact h before a after hl _ hb
  | tail _ hstep ih => exact hprefix.mem ih hstep

theorem Ordered.idxOf_lt [DecidableEq α] {l : List α} (h : Ordered needs l) {a b : α}
    (ha : a ∈ l) (hab : needs a b) : l.idxOf b < l.idxOf a := by
  obtain ⟨before, after, rfl, hfirst⟩ := List.eq_append_cons_of_mem ha
  have hb : b ∈ before := h before a after rfl b hab
  rw [List.idxOf_append_of_mem hb, List.idxOf_append_of_notMem hfirst]
  have hlt : before.idxOf b < before.length := List.idxOf_lt_length_of_mem hb
  omega

/-- An ordered list holds no element of a cycle. -/
theorem Ordered.acyclic {l : List α} (h : Ordered needs l) {a : α} (ha : a ∈ l) :
    ¬ TransGen needs a a := by
  classical
  intro hcycle
  exact Nat.lt_irrefl _ (h.transGen.idxOf_lt ha hcycle)

/-- Induction along an ordered list: what an element needs comes first. -/
theorem Ordered.induction {l : List α} (h : Ordered needs l) {motive : α → Prop}
    (step : ∀ a ∈ l, (∀ b, needs a b → motive b) → motive a) : ∀ a ∈ l, motive a := by
  classical
  intro a ha
  induction hn : l.idxOf a using Nat.strongRecOn generalizing a with
  | _ n ih =>
    refine step a ha fun b hab ↦ ?_
    exact ih _ (hn ▸ h.idxOf_lt ha hab) b (h.mem ha hab) rfl

/-- Induction along a relation without cycles whose elements are listed. -/
theorem acyclic_induction {l : List α} (hclosed : ∀ a ∈ l, ∀ b, needs a b → b ∈ l)
    (hacyclic : ∀ a ∈ l, ¬ TransGen needs a a) {motive : α → Prop}
    (step : ∀ a ∈ l, (∀ b, needs a b → motive b) → motive a) : ∀ a ∈ l, motive a := by
  let below : {a // a ∈ l} → {a // a ∈ l} → Prop := fun b a ↦ TransGen needs a.1 b.1
  have hfinite : Finite {a // a ∈ l} := List.finite_toSet l
  have htrans : IsTrans {a // a ∈ l} below := ⟨fun _ _ _ h h' ↦ h'.trans h⟩
  have hirrefl : Std.Irrefl below := ⟨fun a ↦ hacyclic a.1 a.2⟩
  have hwf : WellFounded below := Finite.wellFounded_of_trans_of_irrefl below
  intro a ha
  exact hwf.induction (C := fun a ↦ motive a.1) ⟨a, ha⟩ fun a ih ↦
    step a.1 a.2 fun b hab ↦ ih ⟨b, hclosed a.1 a.2 b hab⟩ (TransGen.single hab)

/-- Some element with a property needs none that has it. -/
theorem Ordered.exists_minimal {l : List α} (h : Ordered needs l) {p : α → Prop}
    (hp : ∃ a ∈ l, p a) : ∃ a ∈ l, p a ∧ ∀ b, needs a b → ¬ p b := by
  by_contra hnone
  push Not at hnone
  obtain ⟨a, ha, hpa⟩ := hp
  have hnot : ∀ a ∈ l, ¬ p a := h.induction fun a ha ih hpa ↦ by
    obtain ⟨b, hab, hpb⟩ := hnone a ha hpa
    exact ih b hab hpb
  exact hnot a ha hpa

/-- Some element with a property is needed by none that has it. -/
theorem Ordered.exists_maximal {l : List α} (h : Ordered needs l) {p : α → Prop}
    (hp : ∃ a ∈ l, p a) : ∃ a ∈ l, p a ∧ ∀ b ∈ l, p b → ¬ TransGen needs b a := by
  classical
  obtain ⟨a, ha, hpa⟩ := hp
  induction hn : l.length - l.idxOf a using Nat.strongRecOn generalizing a with
  | _ n ih =>
    by_cases hmax : ∀ b ∈ l, p b → ¬ TransGen needs b a
    · exact ⟨a, ha, hpa, hmax⟩
    · push Not at hmax
      obtain ⟨b, hb, hpb, hba⟩ := hmax
      have hlt := h.transGen.idxOf_lt hb hba
      have hlength := List.idxOf_lt_length_of_mem hb
      exact ih _ (by omega) b hb hpb rfl

/-- A property that holds of an element exactly when an element it needs has it,
or has another property at its source, holds where that source is needed. -/
theorem Ordered.spreads_iff {l : List α} (h : Ordered needs l) {source p : α → Prop}
    (hp : ∀ a ∈ l, p a ↔ ∃ b, needs a b ∧ (source b ∨ p b)) :
    ∀ a ∈ l, p a ↔ ∃ b, TransGen needs a b ∧ source b := by
  intro a ha
  constructor
  · revert ha a
    refine h.induction fun a ha ih hpa ↦ ?_
    obtain ⟨b, hab, hb⟩ := (hp a ha).mp hpa
    rcases hb with hb | hb
    · exact ⟨b, TransGen.single hab, hb⟩
    · obtain ⟨c, hbc, hc⟩ := ih b hab hb
      exact ⟨c, TransGen.head hab hbc, hc⟩
  · rintro ⟨b, hab, hb⟩
    induction hab using TransGen.head_induction_on with
    | single hab => exact (hp _ ha).mpr ⟨b, hab, Or.inl hb⟩
    | head hac _ ih => exact (hp _ ha).mpr ⟨_, hac, Or.inr (ih (h.mem ha hac))⟩

/-- A property that an element has only if all it needs have another, which
implies the first, reaches everything needed. -/
theorem Ordered.closed_transGen {l : List α} (h : Ordered needs l) {p q : α → Prop}
    (hpq : ∀ a ∈ l, p a → ∀ b, needs a b → q b) (hqp : ∀ a ∈ l, q a → p a) {a b : α}
    (ha : a ∈ l) (hpa : p a) (hab : TransGen needs a b) : q b := by
  have hmem : ∀ c, TransGen needs a c → c ∈ l := fun c hc ↦ h.transGen.mem ha hc
  induction hab with
  | single hab => exact hpq a ha hpa _ hab
  | tail hac hcb ih => exact hpq _ (hmem _ hac) (hqp _ (hmem _ hac) ih) _ hcb

/-- A relation that agrees with another one on all that it reaches, reaches what the
other one does. -/
theorem reflTransGen_iff_of_agree {other : α → α → Prop} {a : α}
    (h : ∀ b, ReflTransGen needs a b → ∀ c, needs b c ↔ other b c) (b : α) :
    ReflTransGen needs a b ↔ ReflTransGen other a b := by
  constructor
  · intro hreach
    induction hreach with
    | refl => exact ReflTransGen.refl
    | tail hab hbc ih => exact ih.tail ((h _ hab _).mp hbc)
  · intro hreach
    induction hreach with
    | refl => exact ReflTransGen.refl
    | tail hab hbc ih => exact ih.tail ((h _ ih _).mpr hbc)

/-- Two ordered lists merge: the second adds, in its own order, what the first
does not hold. -/
theorem Ordered.merge [BEq α] [LawfulBEq α] {l m : List α} (hl : Ordered needs l)
    (hm : Ordered needs m) : Ordered needs (l ++ m.filter (fun x ↦ x ∉ l)) := by
  induction m using List.reverseRecOn with
  | nil => simpa using hl
  | append_singleton m a ih =>
    have ihm := ih hm.of_append
    rw [List.filter_append]
    by_cases ha : a ∈ l
    · simpa [ha] using ihm
    · have hlast : [a].filter (fun x ↦ x ∉ l) = [a] := by simp [ha]
      rw [hlast, ← List.append_assoc]
      refine ihm.snoc fun b hab ↦ ?_
      have hb : b ∈ m := hm m a [] rfl b hab
      by_cases hbl : b ∈ l
      · exact List.mem_append_left _ hbl
      · exact List.mem_append_right _ (by simp [hb, hbl])

end Precedence
