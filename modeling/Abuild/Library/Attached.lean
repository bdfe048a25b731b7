import Abuild.Library.Precedence

/-!
Words that belong to the nearest word of a kind before them, as the flags in a list of names belong
to the names.
-/

set_option autoImplicit false
set_option relaxedAutoImplicit false

namespace Attached

open Precedence (append_singleton_eq_split)

variable {α : Type*} (isOwner : α → Bool)

/-- The last word of the kind. -/
def owner (words : List α) : Option α := (words.filter isOwner).getLast?

/-- Somewhere in a list the word belongs to the owner. -/
def Belongs (words : List α) (word a : α) : Prop :=
  ∃ before after, words = before ++ word :: after ∧ owner isOwner before = some a

variable {isOwner} {words : List α} {word a b : α}

@[simp] theorem owner_nil : owner isOwner [] = none := rfl

theorem owner_concat : owner isOwner (words ++ [a]) =
    if isOwner a = true then some a else owner isOwner words := by
  unfold owner
  rw [List.filter_append]
  split_ifs with h
  · rw [List.filter_cons_of_pos h, List.filter_nil, List.getLast?_concat]
  · rw [List.filter_cons_of_neg h, List.filter_nil, List.append_nil]

/-- Between an owner and the end there are only other words. -/
theorem owner_eq_some_iff : owner isOwner words = some a ↔
    ∃ before after, words = before ++ a :: after ∧ isOwner a = true ∧
      ∀ b ∈ after, isOwner b = false := by
  induction words using List.reverseRecOn with
  | nil => simp
  | append_singleton words b ih =>
    rw [owner_concat]
    split_ifs with hb
    · constructor
      · intro h
        obtain rfl := Option.some_inj.mp h
        exact ⟨words, [], rfl, hb, fun _ hin ↦ absurd hin List.not_mem_nil⟩
      · rintro ⟨before, after, heq, -, hnone⟩
        rcases append_singleton_eq_split heq with ⟨-, rfl, -⟩ | ⟨after, rfl, -⟩
        · rfl
        · rw [hnone b (List.mem_append_right _ List.mem_cons_self)] at hb
          cases hb
    · rw [ih]
      constructor
      · rintro ⟨before, after, rfl, ha, hnone⟩
        refine ⟨before, after ++ [b], by simp, ha, List.forall_mem_append.mpr ⟨hnone, ?_⟩⟩
        exact List.forall_mem_singleton.mpr (Bool.eq_false_iff.mpr hb)
      · rintro ⟨before, after, heq, ha, hnone⟩
        rcases append_singleton_eq_split heq with ⟨-, rfl, -⟩ | ⟨after, rfl, hwords⟩
        · exact absurd ha hb
        · exact ⟨before, after, hwords, ha, (List.forall_mem_append.mp hnone).1⟩

theorem belongs_nil : ¬ Belongs isOwner [] word a := by
  rintro ⟨before, after, h, -⟩
  simp at h

/-- A word that is added belongs to the owner of those before it. -/
theorem belongs_concat : Belongs isOwner (words ++ [b]) word a ↔
    Belongs isOwner words word a ∨ b = word ∧ owner isOwner words = some a := by
  constructor
  · rintro ⟨before, after, heq, howner⟩
    rcases append_singleton_eq_split heq with ⟨rfl, rfl, rfl⟩ | ⟨after, rfl, rfl⟩
    · exact Or.inr ⟨rfl, howner⟩
    · exact Or.inl ⟨before, after, rfl, howner⟩
  · rintro (⟨before, after, rfl, howner⟩ | ⟨rfl, howner⟩)
    · exact ⟨before, after ++ [b], by simp, howner⟩
    · exact ⟨words, [], rfl, howner⟩

theorem isOwner_of_owner (h : owner isOwner words = some a) : isOwner a = true := by
  obtain ⟨-, -, -, ha, -⟩ := owner_eq_some_iff.mp h
  exact ha

theorem mem_of_owner (h : owner isOwner words = some a) : a ∈ words := by
  obtain ⟨before, after, rfl, -⟩ := owner_eq_some_iff.mp h
  exact List.mem_append_right _ List.mem_cons_self

end Attached
