import Mathlib.Data.List.Basic
import Mathlib.Data.List.Induction
import Mathlib.Data.List.Nodup

/-!
The elements of a list that are the first with their key, in the order of the list: what a
program keeps that looks a key up among those it has seen.
-/

set_option autoImplicit false
set_option relaxedAutoImplicit false

namespace FirstBy

variable {α β : Type*} [DecidableEq β] {f : α → β}

/-- The elements that come before no other one with their key. -/
def firstBy (f : α → β) (l : List α) : List α :=
  l.foldl (fun kept a ↦ if f a ∈ kept.map f then kept else kept ++ [a]) []

theorem firstBy_append_singleton (l : List α) (a : α) :
    firstBy f (l ++ [a]) =
      if f a ∈ (firstBy f l).map f then firstBy f l else firstBy f l ++ [a] :=
  List.foldl_concat _ _ _ _

theorem mem_of_mem_firstBy {l : List α} {a : α} (h : a ∈ firstBy f l) : a ∈ l := by
  induction l using List.reverseRecOn with
  | nil => exact h
  | append_singleton l b ih =>
    rw [firstBy_append_singleton] at h
    rw [List.mem_append]
    by_cases hb : f b ∈ (firstBy f l).map f
    · rw [if_pos hb] at h
      exact Or.inl (ih h)
    · rw [if_neg hb] at h
      exact (List.mem_append.mp h).imp_left ih

/-- Every key has its first element. -/
theorem mem_map_firstBy {l : List α} {b : β} : b ∈ (firstBy f l).map f ↔ b ∈ l.map f := by
  constructor
  · intro h
    obtain ⟨a, ha, rfl⟩ := List.mem_map.mp h
    exact List.mem_map_of_mem (mem_of_mem_firstBy ha)
  · induction l using List.reverseRecOn with
    | nil => exact id
    | append_singleton l a ih =>
      intro h
      rw [List.map_append, List.mem_append] at h
      rw [firstBy_append_singleton]
      by_cases ha : f a ∈ (firstBy f l).map f
      · rw [if_pos ha]
        rcases h with h | h
        · exact ih h
        · obtain rfl := List.mem_singleton.mp h
          exact ha
      · rw [if_neg ha, List.map_append, List.mem_append]
        exact h.imp_left ih

theorem nodup_map_firstBy (f : α → β) (l : List α) : ((firstBy f l).map f).Nodup := by
  induction l using List.reverseRecOn with
  | nil => exact List.nodup_nil
  | append_singleton l a ih =>
    rw [firstBy_append_singleton]
    by_cases ha : f a ∈ (firstBy f l).map f
    · rw [if_pos ha]
      exact ih
    · rw [if_neg ha, List.map_append]
      refine ih.append (List.nodup_singleton _) ?_
      rw [List.map_singleton, List.disjoint_singleton]
      exact ha

theorem nodup_firstBy (f : α → β) (l : List α) : (firstBy f l).Nodup :=
  List.Nodup.of_map f (nodup_map_firstBy f l)

/-- Where the key tells the elements apart, one of each is kept. -/
theorem mem_firstBy_of_injOn {l : List α} (hinj : ∀ a ∈ l, ∀ b ∈ l, f a = f b → a = b) {a : α} :
    a ∈ firstBy f l ↔ a ∈ l := by
  refine ⟨mem_of_mem_firstBy, fun ha ↦ ?_⟩
  obtain ⟨b, hb, heq⟩ := List.mem_map.mp (mem_map_firstBy.mpr (List.mem_map_of_mem (f := f) ha))
  exact hinj b (mem_of_mem_firstBy hb) a ha heq ▸ hb

end FirstBy
