import Mathlib.Logic.Relation
import Mathlib.Data.List.Nodup

/-!
The chain of elements that a relation with at most one successor leads to from an element. It is the
only list of these elements in which every one leads to those that follow.
-/

set_option autoImplicit false
set_option relaxedAutoImplicit false

namespace Chain

open Relation

variable {α : Type*} {r : α → α → Prop}

/-- The successors of an element, one after the other, to the last one. -/
inductive IsChain (r : α → α → Prop) : α → List α → Prop
  | last {a : α} (h : ∀ b, ¬ r a b) : IsChain r a []
  | next {a b : α} {l : List α} (hab : r a b) (rest : IsChain r b l) : IsChain r a (b :: l)

/-- The chain of an element holds the elements that it leads to. -/
theorem IsChain.transGen {a b : α} {l : List α} (h : IsChain r a l) (hb : b ∈ l) :
    TransGen r a b := by
  induction h with
  | last h => cases hb
  | next hab rest ih =>
    rcases List.mem_cons.mp hb with rfl | hb
    · exact TransGen.single hab
    · exact TransGen.head hab (ih hb)

theorem IsChain.eq_nil_iff {a : α} {l : List α} (h : IsChain r a l) :
    l = [] ↔ ∀ b, ¬ r a b := by
  cases h with
  | last h => exact iff_of_true rfl h
  | next hab rest => exact iff_of_false (List.cons_ne_nil _ _) fun hnone ↦ hnone _ hab

theorem IsChain.nodup {a : α} {l : List α} (h : IsChain r a l) (hacyclic : ∀ b, ¬ TransGen r b b) :
    l.Nodup := by
  induction h with
  | last h => exact List.nodup_nil
  | next hab rest ih =>
    exact List.nodup_cons.mpr ⟨fun hmem ↦ hacyclic _ (rest.transGen hmem), ih⟩

/-- A list of the elements that an element leads to, in which every one leads to those that follow,
is its chain. -/
theorem isChain_of_pairwise (hacyclic : ∀ b, ¬ TransGen r b b) {a : α} {l : List α}
    (hmem : ∀ b, b ∈ l ↔ TransGen r a b) (hpairwise : l.Pairwise (TransGen r)) : IsChain r a l := by
  induction l generalizing a with
  | nil => exact .last fun b hab ↦ List.not_mem_nil ((hmem b).mpr (TransGen.single hab))
  | cons c l ih =>
    obtain ⟨hhead, htail⟩ := List.pairwise_cons.mp hpairwise
    obtain ⟨b, hab, hbc⟩ := TransGen.head'_iff.mp ((hmem c).mp List.mem_cons_self)
    have hb : b = c := by
      rcases List.mem_cons.mp ((hmem b).mpr (TransGen.single hab)) with heq | hmem
      · exact heq
      · exact absurd (TransGen.trans_right hbc (hhead b hmem)) (hacyclic b)
    subst hb
    refine .next hab (ih (fun d ↦ ⟨hhead d, fun hbd ↦ ?_⟩) htail)
    rcases List.mem_cons.mp ((hmem d).mpr (TransGen.head hab hbd)) with rfl | hmem
    · exact absurd hbd (hacyclic d)
    · exact hmem

/-- Of two elements that an element leads to, one leads to the other. -/
theorem transGen_of_ne (hunique : Relator.RightUnique r) {a b c : α} (hab : ReflTransGen r a b)
    (hac : ReflTransGen r a c) (hne : b ≠ c) : TransGen r b c ∨ TransGen r c b := by
  rcases ReflTransGen.total_of_right_unique hunique hab hac with hbc | hcb
  · exact Or.inl ((reflTransGen_iff_eq_or_transGen.mp hbc).resolve_left hne.symm)
  · exact Or.inr ((reflTransGen_iff_eq_or_transGen.mp hcb).resolve_left hne)

end Chain
