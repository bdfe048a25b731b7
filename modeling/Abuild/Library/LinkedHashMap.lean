import Mathlib.Data.List.Nodup

/-!
A hash map that lists its keys in the order in which they were added, as a list of entries with
distinct keys. To put a value to a key that is there keeps its place.
-/

set_option autoImplicit false
set_option relaxedAutoImplicit false

structure LinkedHashMap (α β : Type*) where
  entries : List (α × β)
  nodup : (entries.map Prod.fst).Nodup

namespace LinkedHashMap

variable {α β : Type*}

def empty : LinkedHashMap α β := ⟨[], List.nodup_nil⟩

def keySet (m : LinkedHashMap α β) : List α := m.entries.map Prod.fst

def isEmpty (m : LinkedHashMap α β) : Bool := m.entries.isEmpty

/-- All values at once. -/
def mapValues (m : LinkedHashMap α β) (f : β → β) : LinkedHashMap α β where
  entries := m.entries.map fun entry ↦ (entry.1, f entry.2)
  nodup := by
    rw [List.map_map]
    exact m.nodup

theorem nodup_keySet (m : LinkedHashMap α β) : m.keySet.Nodup := m.nodup

variable [DecidableEq α]

def get? (m : LinkedHashMap α β) (k : α) : Option β :=
  (m.entries.find? (·.1 = k)).map Prod.snd

def getD (m : LinkedHashMap α β) (k : α) (v : β) : β := (m.get? k).getD v

def containsKey (m : LinkedHashMap α β) (k : α) : Bool := decide (k ∈ m.keySet)

/-- The entries with the value of a key that is there replaced. -/
def replaced (m : LinkedHashMap α β) (k : α) (v : β) : List (α × β) :=
  m.entries.map fun entry ↦ if entry.1 = k then (k, v) else entry

theorem map_fst_replaced (m : LinkedHashMap α β) (k : α) (v : β) :
    (m.replaced k v).map Prod.fst = m.keySet := by
  unfold replaced keySet
  rw [List.map_map]
  refine List.map_congr_left fun entry _ ↦ ?_
  by_cases h : entry.1 = k
  · simp [h]
  · simp [h]

def put (m : LinkedHashMap α β) (k : α) (v : β) : LinkedHashMap α β where
  entries := if k ∈ m.keySet then m.replaced k v else m.entries ++ [(k, v)]
  nodup := by
    by_cases h : k ∈ m.keySet
    · rw [if_pos h, map_fst_replaced]
      exact m.nodup
    · rw [if_neg h, List.map_append, List.map_singleton]
      refine m.nodup.append (List.nodup_singleton k) ?_
      rw [List.disjoint_singleton]
      exact h

def remove (m : LinkedHashMap α β) (k : α) : LinkedHashMap α β where
  entries := m.entries.filter (·.1 ≠ k)
  nodup := m.nodup.sublist (List.filter_sublist.map _)

/-! ### Lookups -/

theorem get?_eq_some_iff {m : LinkedHashMap α β} {k : α} {v : β} :
    m.get? k = some v ↔ (k, v) ∈ m.entries := by
  unfold get?
  rw [Option.map_eq_some_iff]
  constructor
  · rintro ⟨⟨k', v'⟩, hfind, rfl⟩
    obtain rfl : k' = k := by simpa using List.find?_some hfind
    exact List.mem_of_find?_eq_some hfind
  · intro hmem
    have hsome : (m.entries.find? (·.1 = k)).isSome := by
      rw [List.find?_isSome]
      exact ⟨(k, v), hmem, decide_eq_true rfl⟩
    obtain ⟨⟨k', v'⟩, hfind⟩ := Option.isSome_iff_exists.mp hsome
    obtain rfl : k' = k := by simpa using List.find?_some hfind
    have heq := List.inj_on_of_nodup_map m.nodup (List.mem_of_find?_eq_some hfind) hmem rfl
    exact ⟨(k', v'), hfind, congrArg Prod.snd heq⟩

theorem mem_keySet_iff {m : LinkedHashMap α β} {k : α} :
    k ∈ m.keySet ↔ ∃ v, m.get? k = some v := by
  unfold keySet
  rw [List.mem_map]
  constructor
  · rintro ⟨⟨k, v⟩, hmem, rfl⟩
    exact ⟨v, get?_eq_some_iff.mpr hmem⟩
  · rintro ⟨v, hv⟩
    exact ⟨(k, v), get?_eq_some_iff.mp hv, rfl⟩

theorem containsKey_eq (m : LinkedHashMap α β) (k : α) :
    m.containsKey k = (m.get? k).isSome := by
  unfold containsKey
  rw [Bool.eq_iff_iff, decide_eq_true_iff, mem_keySet_iff, Option.isSome_iff_exists]

theorem get?_eq_none_iff {m : LinkedHashMap α β} {k : α} : m.get? k = none ↔ k ∉ m.keySet := by
  rw [mem_keySet_iff, Option.eq_none_iff_forall_ne_some, not_exists]

theorem get?_put (m : LinkedHashMap α β) (k k' : α) (v : β) :
    (m.put k v).get? k' = if k = k' then some v else m.get? k' := by
  refine Option.ext fun w ↦ ?_
  rw [get?_eq_some_iff]
  unfold put
  dsimp only
  by_cases hk : k ∈ m.keySet
  · rw [if_pos hk]
    unfold replaced
    rw [List.mem_map]
    by_cases heq : k = k'
    · subst heq
      rw [if_pos rfl]
      constructor
      · rintro ⟨entry, -, hentry⟩
        by_cases hfst : entry.1 = k
        · rw [if_pos hfst] at hentry
          exact congrArg (some ∘ Prod.snd) hentry
        · rw [if_neg hfst] at hentry
          exact absurd (congrArg Prod.fst hentry) hfst
      · intro hw
        obtain ⟨u, hu⟩ := mem_keySet_iff.mp hk
        refine ⟨(k, u), get?_eq_some_iff.mp hu, ?_⟩
        rw [if_pos rfl, Option.some_inj.mp hw]
    · rw [if_neg heq, get?_eq_some_iff]
      constructor
      · rintro ⟨entry, hmem, hentry⟩
        by_cases hfst : entry.1 = k
        · rw [if_pos hfst] at hentry
          exact absurd (congrArg Prod.fst hentry) heq
        · rw [if_neg hfst] at hentry
          exact hentry ▸ hmem
      · intro hmem
        exact ⟨(k', w), hmem, if_neg (Ne.symm heq)⟩
  · rw [if_neg hk, List.mem_append, List.mem_singleton, ← get?_eq_some_iff]
    by_cases heq : k = k'
    · subst heq
      rw [if_pos rfl, get?_eq_none_iff.mpr hk]
      simp [eq_comm]
    · rw [if_neg heq]
      refine or_iff_left fun hpair ↦ heq (congrArg Prod.fst hpair).symm

theorem get?_remove (m : LinkedHashMap α β) (k k' : α) :
    (m.remove k).get? k' = if k = k' then none else m.get? k' := by
  refine Option.ext fun w ↦ ?_
  rw [get?_eq_some_iff]
  unfold remove
  rw [List.mem_filter, decide_eq_true_iff]
  by_cases heq : k = k'
  · subst heq
    rw [if_pos rfl]
    exact iff_of_false (fun h ↦ h.2 rfl) fun h ↦ by cases h
  · rw [if_neg heq, get?_eq_some_iff]
    exact and_iff_left (Ne.symm heq)

theorem get?_mapValues (m : LinkedHashMap α β) (f : β → β) (k : α) :
    (m.mapValues f).get? k = (m.get? k).map f := by
  unfold get? mapValues
  rw [List.find?_map, Option.map_map, Option.map_map]
  rfl

theorem isEmpty_iff {m : LinkedHashMap α β} : m.isEmpty = true ↔ ∀ k, m.get? k = none := by
  unfold isEmpty
  rw [List.isEmpty_iff]
  constructor
  · intro h k
    rw [get?, h]
    rfl
  · intro h
    refine List.eq_nil_iff_forall_not_mem.mpr fun ⟨k, v⟩ hmem ↦ ?_
    have hsome := get?_eq_some_iff.mpr hmem
    rw [h k] at hsome
    cases hsome

end LinkedHashMap
