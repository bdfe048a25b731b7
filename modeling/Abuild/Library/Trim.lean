import Mathlib.Data.List.DropRight

/-!
Trimming a list at both ends of the elements with a property. What is trimmed off at the end does
not matter, and the last element that is left is the last one without the property.
-/

set_option autoImplicit false
set_option relaxedAutoImplicit false

namespace Trim

variable {α : Type*} (p : α → Bool)

def trim (l : List α) : List α := (l.dropWhile p).rdropWhile p

variable {p}

theorem trim_append_left {l : List α} (h : ∀ a ∈ l, p a) (l' : List α) :
    trim p (l ++ l') = trim p l' := by
  unfold trim
  rw [List.dropWhile_append_of_pos h]

theorem takeWhile_append_of_not_all {l : List α} (h : ¬ ∀ a ∈ l, p a) (l' : List α) :
    (l ++ l').takeWhile p = l.takeWhile p := by
  rw [List.takeWhile_append, if_neg]
  exact fun hlength ↦ h (List.takeWhile_eq_self_iff.mp
    ((List.takeWhile_prefix p).eq_of_length hlength))

/-- What follows is not taken when it starts with an element without the property. -/
theorem takeWhile_append_of_head (l : List α) {l' : List α} (h : ∀ a ∈ l'.head?, p a = false) :
    (l ++ l').takeWhile p = l.takeWhile p ∧ (l ++ l').dropWhile p = l.dropWhile p ++ l' := by
  induction l with
  | nil =>
    cases l' with
    | nil => exact ⟨rfl, rfl⟩
    | cons a l' =>
      have ha : ¬ p a = true := Bool.not_eq_true _ ▸ h a rfl
      exact ⟨List.takeWhile_cons_of_neg ha, List.dropWhile_cons_of_neg ha⟩
  | cons a l ih =>
    rw [List.cons_append]
    by_cases ha : p a = true
    · rw [List.takeWhile_cons_of_pos ha, List.takeWhile_cons_of_pos ha,
        List.dropWhile_cons_of_pos ha, List.dropWhile_cons_of_pos ha]
      exact ⟨congrArg _ ih.1, ih.2⟩
    · rw [List.takeWhile_cons_of_neg ha, List.takeWhile_cons_of_neg ha,
        List.dropWhile_cons_of_neg ha, List.dropWhile_cons_of_neg ha]
      exact ⟨rfl, rfl⟩

theorem rdropWhile_append_of_all (l : List α) {l' : List α} (h : ∀ a ∈ l', p a) :
    (l ++ l').rdropWhile p = l.rdropWhile p := by
  unfold List.rdropWhile
  rw [List.reverse_append, List.dropWhile_append_of_pos fun a ha ↦ h a (List.mem_reverse.mp ha)]

theorem dropWhile_append_of_not_all {l : List α} (h : ¬ ∀ a ∈ l, p a) (l' : List α) :
    (l ++ l').dropWhile p = l.dropWhile p ++ l' := by
  rw [List.dropWhile_append, if_neg]
  exact fun hempty ↦ h (List.dropWhile_eq_nil_iff.mp (List.isEmpty_iff.mp hempty))

/-- The elements with the property come first, and then one without it. -/
theorem span_append {front back : List α} (hfront : ∀ a ∈ front, p a)
    (hback : ∀ a ∈ back.head?, p a = false) :
    (front ++ back).takeWhile p = front ∧ (front ++ back).dropWhile p = back := by
  rw [List.takeWhile_append_of_pos hfront, List.dropWhile_append_of_pos hfront]
  cases back with
  | nil => exact ⟨List.append_nil front, rfl⟩
  | cons a back =>
    have ha : ¬ p a = true := Bool.not_eq_true _ ▸ hback a rfl
    rw [List.takeWhile_cons_of_neg ha, List.dropWhile_cons_of_neg ha]
    exact ⟨List.append_nil front, rfl⟩

/-- The last element that is left. -/
theorem getLast?_trim (l : List α) : (trim p l).getLast? = l.reverse.find? (fun a ↦ !p a) := by
  have hdropped : (l.takeWhile p).reverse.find? (fun a ↦ !p a) = none := by
    rw [List.find?_eq_none]
    intro a ha
    rw [Bool.not_eq_true', Bool.not_eq_false]
    exact List.mem_takeWhile_imp (List.mem_reverse.mp ha)
  have hreverse : l.reverse = (l.dropWhile p).reverse ++ (l.takeWhile p).reverse := by
    rw [← List.reverse_append, List.takeWhile_append_dropWhile]
  unfold trim List.rdropWhile
  rw [List.getLast?_reverse, hreverse, List.find?_append, hdropped, Option.or_none]
  rw [List.find?_eq_head?_dropWhile_not]
  simp only [Bool.not_not]

theorem trim_eq_nil_iff {l : List α} : trim p l = [] ↔ ∀ a ∈ l, p a := by
  rw [← List.getLast?_eq_none_iff, getLast?_trim, List.find?_eq_none]
  simp

theorem trim_append_of_all (l : List α) {l' : List α} (h : ∀ a ∈ l', p a) :
    trim p (l ++ l') = trim p l := by
  by_cases hall : ∀ a ∈ l, p a
  · rw [trim_eq_nil_iff.mpr hall, trim_eq_nil_iff.mpr (List.forall_mem_append.mpr ⟨hall, h⟩)]
  · unfold trim
    rw [dropWhile_append_of_not_all hall, rdropWhile_append_of_all _ h]

/-- What comes before an element without the property does not matter to the last one. -/
theorem getLast?_trim_append_cons (front : List α) {a : α} (ha : p a = false) (back : List α) :
    (trim p (front ++ a :: back)).getLast? = (trim p back).getLast?.or (some a) := by
  rw [getLast?_trim, getLast?_trim, List.reverse_append, List.reverse_cons, List.append_assoc,
    List.find?_append]
  congr 1
  exact List.find?_cons_of_pos (by simpa using ha)

/-- The first element that is left. -/
theorem head?_trim (l : List α) : (trim p l).head? = (l.dropWhile p).head? := by
  unfold trim
  cases hl : l.dropWhile p with
  | nil => rfl
  | cons a rest =>
    have ha : p a = false := by
      have hne : l.dropWhile p ≠ [] := by
        rw [hl]
        exact List.cons_ne_nil _ _
      have hhead := List.head_dropWhile_not p hne
      simpa only [hl, List.head_cons] using hhead
    have hleft : (a :: rest).rdropWhile p ≠ [] := by
      intro hnil
      rw [List.rdropWhile_eq_nil_iff.mp hnil a List.mem_cons_self] at ha
      cases ha
    obtain ⟨b, left, hcons⟩ := List.exists_cons_of_ne_nil hleft
    obtain ⟨back, hback⟩ := List.rdropWhile_prefix p (a :: rest)
    rw [hcons] at hback ⊢
    rw [(List.cons_eq_cons.mp hback).1]
    rfl

/-- What is left stands between elements with the property. -/
theorem exists_trim_eq (p : α → Bool) (l : List α) : ∃ front back, l = front ++ (trim p l ++ back) ∧
    (∀ a ∈ front, p a) ∧ ∀ a ∈ back, p a := by
  refine ⟨l.takeWhile p, (l.dropWhile p).rtakeWhile p, ?_, ?_, ?_⟩
  · unfold trim
    rw [List.rdropWhile_append_rtakeWhile, List.takeWhile_append_dropWhile]
  · exact fun a ha ↦ List.mem_takeWhile_imp ha
  · exact fun a ha ↦ List.mem_rtakeWhile_imp ha

theorem trim_sublist (p : α → Bool) (l : List α) : List.Sublist (trim p l) l :=
  (List.rdropWhile_prefix p _).sublist.trans (List.dropWhile_sublist p)

/-- There are fewer elements with the property when something is trimmed off. -/
theorem countP_trim_lt {q : α → Bool} (hq : ∀ a, p a → q a) {l : List α} (h : trim p l ≠ l) :
    (trim p l).countP q < l.countP q := by
  obtain ⟨front, back, hl, hfront, hback⟩ := exists_trim_eq p l
  have hcount := congrArg (List.countP q) hl
  rw [List.countP_append, List.countP_append,
    List.countP_eq_length.mpr fun a ha ↦ hq a (hfront a ha),
    List.countP_eq_length.mpr fun a ha ↦ hq a (hback a ha)] at hcount
  by_contra hle
  have hfrontNil : front = [] := List.length_eq_zero_iff.mp (by omega)
  have hbackNil : back = [] := List.length_eq_zero_iff.mp (by omega)
  rw [hfrontNil, hbackNil, List.append_nil, List.nil_append] at hl
  exact h hl.symm

end Trim
