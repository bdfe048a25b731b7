import Mathlib.Data.Char
import Mathlib.Data.List.Lex
import Mathlib.Tactic.IntervalCases

/-!
Numbers in decimal, with zeros before them up to some width. Texts of one width are in the order of
their numbers.
-/

set_option autoImplicit false
set_option relaxedAutoImplicit false

namespace Decimal

/-- The text of a number, with zeros before it while there is room. -/
def pad (width n : ℕ) : List Char :=
  List.replicate (width - (Nat.toDigits 10 n).length) '0' ++ Nat.toDigits 10 n

theorem isDigit_of_mem_pad {width n : ℕ} {c : Char} (h : c ∈ pad width n) : c.isDigit = true := by
  rcases List.mem_append.mp h with h | h
  · rw [List.eq_of_mem_replicate h]
    rfl
  · exact Nat.isDigit_of_mem_toDigits (by decide) (by decide) h

theorem pad_ne_nil (width n : ℕ) : pad width n ≠ [] :=
  List.append_ne_nil_of_right_ne_nil _ Nat.toDigits_ne_nil

theorem length_pad {width n : ℕ} (hn : n < 10 ^ (width + 1)) :
    (pad (width + 1) n).length = width + 1 := by
  have hfits := (Nat.length_toDigits_le_iff (by decide) (Nat.succ_pos width)).mpr hn
  unfold pad
  rw [List.length_append, List.length_replicate]
  omega

/-- The last digit stands after the text of the other ones. -/
theorem pad_succ (width n : ℕ) :
    pad (width + 2) n = pad (width + 1) (n / 10) ++ [Nat.digitChar (n % 10)] := by
  unfold pad
  rw [Nat.toDigits_eq_if (n := n) (by decide)]
  split_ifs with hn
  · rw [Nat.div_eq_of_lt hn, Nat.mod_eq_of_lt hn, Nat.toDigits_zero]
    exact congrArg (· ++ [Nat.digitChar n]) List.replicate_succ'
  · rw [List.length_append, List.length_singleton, List.append_assoc]
    exact congrArg (List.replicate · '0' ++ _) (Nat.add_sub_add_right (width + 1) 1 _)

theorem digitChar_lt {a b : ℕ} (hlt : a < b) (hb : b < 10) : Nat.digitChar a < Nat.digitChar b := by
  interval_cases b <;> interval_cases a <;> decide

/-- Which of two lists of one length comes first does not change with what follows. -/
theorem append_lt_append {l m : List Char} (hlength : l.length = m.length) (hlt : l < m)
    (l' m' : List Char) : l ++ l' < m ++ m' := by
  induction l generalizing m with
  | nil =>
    rw [List.length_eq_zero_iff.mp hlength.symm] at hlt
    exact absurd hlt (lt_irrefl _)
  | cons a l ih =>
    cases m with
    | nil => exact absurd hlength (Nat.succ_ne_zero _)
    | cons b m =>
      rw [List.cons_append, List.cons_append]
      rcases List.cons_lt_cons_iff.mp hlt with hab | ⟨rfl, hrest⟩
      · exact List.cons_lt_cons_iff.mpr (Or.inl hab)
      · exact List.cons_lt_cons_iff.mpr (Or.inr ⟨rfl, ih (Nat.succ.inj hlength) hrest⟩)

/-- Two numbers differ before their last digits, or in their last digits only. -/
theorem pad_lt {width a b : ℕ} (hlt : a < b) (hb : b < 10 ^ (width + 1)) :
    pad (width + 1) a < pad (width + 1) b := by
  induction width generalizing a b with
  | zero =>
    have hb : b < 10 := by simpa using hb
    have hone : ∀ n < 10, pad 1 n = [Nat.digitChar n] := by
      intro n hn
      unfold pad
      rw [Nat.toDigits_of_lt_base hn]
      rfl
    rw [hone a (hlt.trans hb), hone b hb]
    exact List.cons_lt_cons_iff.mpr (Or.inl (digitChar_lt hlt hb))
  | succ width ih =>
    have hb10 : b / 10 < 10 ^ (width + 1) := by
      rw [pow_succ] at hb
      omega
    rw [pad_succ, pad_succ]
    rcases Nat.lt_or_ge (a / 10) (b / 10) with hfront | hfront
    · refine append_lt_append ?_ (ih hfront hb10) _ _
      rw [length_pad (hfront.trans hb10), length_pad hb10]
    · have hsame : a / 10 = b / 10 := by omega
      rw [hsame]
      apply List.append_left_lt
      exact List.cons_lt_cons_iff.mpr (Or.inl (digitChar_lt (by omega) (by omega)))

end Decimal
