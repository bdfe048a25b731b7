import Mathlib.Data.List.Infix

/-!
The deepest common ancestor of places in a tree, where a place is the list of the names that lead to
it from the root and an ancestor is a beginning of it.
-/

set_option autoImplicit false
set_option relaxedAutoImplicit false

namespace Ancestor

variable {Name : Type*}

/-- An ancestor of all places, each place being one of itself, below which there is no other. -/
structure IsDeepestCommon (ancestor : List Name) (places : List (List Name)) : Prop where
  common : ∀ place ∈ places, ancestor <+: place
  deepest : ∀ l, (∀ place ∈ places, l <+: place) → l <+: ancestor

variable {a a' l place : List Name} {places : List (List Name)}

theorem IsDeepestCommon.unique (h : IsDeepestCommon a places) (h' : IsDeepestCommon a' places) :
    a = a' := by
  have hle := h'.deepest a h.common
  exact hle.eq_of_length_le (h.deepest a' h'.common).length_le

theorem isDeepestCommon_singleton : IsDeepestCommon place [place] where
  common := List.forall_mem_singleton.mpr (List.prefix_refl _)
  deepest _ h := h place List.mem_cons_self

/-- The root is the deepest common ancestor when the places start with different names. -/
theorem IsDeepestCommon.eq_nil_iff (h : IsDeepestCommon a places) :
    a = [] ↔ ∀ name, ¬ ∀ place ∈ places, [name] <+: place := by
  constructor
  · rintro rfl name hall
    exact absurd (List.prefix_nil.mp (h.deepest [name] hall)) (List.cons_ne_nil _ _)
  · intro hnone
    by_contra hne
    obtain ⟨name, rest, rfl⟩ := List.exists_cons_of_ne_nil hne
    exact hnone name fun place hplace ↦
      (List.prefix_append [name] rest).trans (h.common place hplace)

variable [DecidableEq Name]

def commonPrefix : List Name → List Name → List Name
  | n :: ns, m :: ms => if n = m then n :: commonPrefix ns ms else []
  | _, _ => []

theorem prefix_commonPrefix_iff (ns ms : List Name) :
    l <+: commonPrefix ns ms ↔ l <+: ns ∧ l <+: ms := by
  fun_induction commonPrefix ns ms generalizing l with
  | case1 n ns ms ih =>
    cases l with
    | nil => exact iff_of_true List.nil_prefix ⟨List.nil_prefix, List.nil_prefix⟩
    | cons k l =>
      rw [List.cons_prefix_cons, List.cons_prefix_cons, List.cons_prefix_cons, ih]
      exact and_and_left
  | case2 n ns m ms hne =>
    rw [List.prefix_nil]
    constructor
    · rintro rfl
      exact ⟨List.nil_prefix, List.nil_prefix⟩
    · rintro ⟨hns, hms⟩
      by_contra hnil
      obtain ⟨k, l, rfl⟩ := List.exists_cons_of_ne_nil hnil
      exact hne ((List.cons_prefix_cons.mp hns).1.symm.trans (List.cons_prefix_cons.mp hms).1)
  | case3 ns ms hne =>
    rw [List.prefix_nil]
    constructor
    · rintro rfl
      exact ⟨List.nil_prefix, List.nil_prefix⟩
    · rintro ⟨hns, hms⟩
      cases ns with
      | nil => exact List.prefix_nil.mp hns
      | cons n ns =>
        cases ms with
        | nil => exact List.prefix_nil.mp hms
        | cons m ms => exact absurd rfl (hne n ns m ms rfl)

/-- With one more place the ancestor is the common beginning of the one so far and the place. -/
theorem IsDeepestCommon.concat (h : IsDeepestCommon a places) :
    IsDeepestCommon (commonPrefix a place) (places ++ [place]) := by
  have hboth := (prefix_commonPrefix_iff a place).mp (List.prefix_refl _)
  refine ⟨fun place' hplace' ↦ ?_, fun l hl ↦ ?_⟩
  · rcases List.mem_append.mp hplace' with hold | hnew
    · exact hboth.1.trans (h.common place' hold)
    · rw [List.mem_singleton.mp hnew]
      exact hboth.2
  · refine (prefix_commonPrefix_iff a place).mpr ⟨h.deepest l fun place' hplace' ↦ ?_, ?_⟩
    · exact hl place' (List.mem_append_left _ hplace')
    · exact hl place (List.mem_append_right _ List.mem_cons_self)

theorem commonPrefix_eq_left (h : a <+: place) : commonPrefix a place = a := by
  have hboth := (prefix_commonPrefix_iff a place).mp (List.prefix_refl _)
  refine hboth.1.eq_of_length_le (List.IsPrefix.length_le ?_)
  exact (prefix_commonPrefix_iff a place).mpr ⟨List.prefix_refl _, h⟩

/-- The last name does not matter when it is not one of the place. -/
theorem commonPrefix_concat {n : Name} (h : ¬ a ++ [n] <+: place) :
    commonPrefix (a ++ [n]) place = commonPrefix a place := by
  have hle : ∀ l, l <+: commonPrefix (a ++ [n]) place ↔ l <+: commonPrefix a place := by
    intro l
    rw [prefix_commonPrefix_iff, prefix_commonPrefix_iff]
    refine and_congr_left fun hplace ↦ ?_
    rw [List.prefix_concat_iff]
    refine or_iff_right fun heq ↦ h ?_
    rw [← heq]
    exact hplace
  have hto := (hle _).mp (List.prefix_refl _)
  exact hto.eq_of_length_le ((hle _).mpr (List.prefix_refl _)).length_le

end Ancestor
