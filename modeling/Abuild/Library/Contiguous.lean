import Mathlib.Data.List.Basic

/-!
Elements that stand together in a list. A list that grows at its end keeps those of one kind
together as long as they come in one piece.
-/

set_option autoImplicit false
set_option relaxedAutoImplicit false

namespace Contiguous

variable {α : Type*} {a : α} {l m : List α}

/-- All places of an element are one piece of the list. -/
def Together (a : α) (l : List α) : Prop :=
  ∃ (front back : List α) (n : ℕ), l = front ++ (List.replicate n a ++ back) ∧
    a ∉ front ∧ a ∉ back

theorem together_of_notMem (h : a ∉ l) : Together a l :=
  ⟨l, [], 0, by simp, h, List.not_mem_nil⟩

/-- The piece comes last. -/
theorem together_append_replicate (h : a ∉ l) (n : ℕ) : Together a (l ++ List.replicate n a) :=
  ⟨l, [], n, by simp, h, List.not_mem_nil⟩

theorem Together.append (h : Together a l) (hm : a ∉ m) : Together a (l ++ m) := by
  obtain ⟨front, back, n, rfl, hfront, hback⟩ := h
  refine ⟨front, back ++ m, n, by simp only [List.append_assoc], hfront, fun hmem ↦ ?_⟩
  exact (List.mem_append.mp hmem).elim hback hm

theorem Together.of_append (h : Together a (l ++ m)) : Together a l := by
  obtain ⟨front, back, n, heq, hfront, hback⟩ := h
  rcases List.append_eq_append_iff.mp heq with ⟨rest, rfl, -⟩ | ⟨middle, rfl, hmiddle⟩
  · exact together_of_notMem fun hmem ↦ hfront (List.mem_append_left _ hmem)
  rcases List.append_eq_append_iff.mp hmiddle with ⟨rest, rfl, rfl⟩ | ⟨rest, hrest, -⟩
  · exact ⟨front, rest, n, rfl, hfront, fun hmem ↦ hback (List.mem_append_left _ hmem)⟩
  · have hall : middle = List.replicate middle.length a :=
      (List.append_eq_replicate_iff.mp hrest.symm).2.1
    rw [hall]
    exact together_append_replicate hfront middle.length

end Contiguous
