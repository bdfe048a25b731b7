import Abuild.Basic

/-!
The parts of a string between separators, and the string that they are joined to again.
-/

set_option autoImplicit false
set_option relaxedAutoImplicit false

namespace Abuild.Util

theorem splitChars_ne_nil (sep : Char) (cs : List Char) : splitChars sep cs ≠ [] := by
  cases cs with
  | nil => exact List.cons_ne_nil _ _
  | cons c cs =>
    unfold splitChars
    split
    · exact List.cons_ne_nil _ _
    · split_ifs <;> exact List.cons_ne_nil _ _

theorem splitChars_cons (sep c : Char) (cs : List Char) : splitChars sep (c :: cs) =
    if c = sep then [] :: splitChars sep cs else (splitChars sep cs).modifyHead (c :: ·) := by
  obtain ⟨part, parts, hparts⟩ := List.exists_cons_of_ne_nil (splitChars_ne_nil sep cs)
  rw [splitChars, hparts]
  rfl

theorem splitChars_eq (sep : Char) (cs : List Char) : splitChars sep cs = cs.splitOn sep := by
  induction cs with
  | nil => simp [splitChars]
  | cons c cs ih =>
    rw [splitChars_cons, ih, List.splitOn_cons_eq_if_modifyHead]
    simp only [beq_iff_eq]

theorem split_ne_nil (sep : Char) (input : String) : split sep input ≠ [] := by
  unfold split
  rw [ne_eq, List.map_eq_nil_iff]
  exact splitChars_ne_nil sep _

theorem not_mem_of_mem_splitChars {sep : Char} {cs part : List Char}
    (h : part ∈ splitChars sep cs) : sep ∉ part := by
  induction cs generalizing part with
  | nil =>
    obtain rfl := List.mem_singleton.mp h
    exact List.not_mem_nil
  | cons c cs ih =>
    rw [splitChars_cons] at h
    split_ifs at h with hc
    · rcases List.mem_cons.mp h with rfl | h
      · exact List.not_mem_nil
      · exact ih h
    · obtain ⟨first, parts, hparts⟩ := List.exists_cons_of_ne_nil (splitChars_ne_nil sep cs)
      rw [hparts] at h ih
      rcases List.mem_cons.mp h with rfl | h
      · exact List.not_mem_cons_of_ne_of_not_mem (Ne.symm hc) (ih List.mem_cons_self)
      · exact ih (List.mem_cons_of_mem _ h)

theorem not_mem_of_mem_split {sep : Char} {input part : String} (h : part ∈ split sep input) :
    sep ∉ part.toList := by
  obtain ⟨cs, hcs, rfl⟩ := List.mem_map.mp h
  rw [String.toList_ofList]
  exact not_mem_of_mem_splitChars hcs

theorem splitChars_append (sep : Char) (as bs : List Char) :
    splitChars sep (as ++ sep :: bs) = splitChars sep as ++ splitChars sep bs := by
  induction as with
  | nil =>
    rw [List.nil_append, splitChars_cons, if_pos rfl]
    rfl
  | cons a as ih =>
    rw [List.cons_append, splitChars_cons, splitChars_cons, ih]
    split_ifs
    · rfl
    · obtain ⟨part, parts, hparts⟩ := List.exists_cons_of_ne_nil (splitChars_ne_nil sep as)
      rw [hparts]
      rfl

theorem mem_of_mem_splitChars {sep c : Char} {cs part : List Char} (h : part ∈ splitChars sep cs)
    (hc : c ∈ part) : c ∈ cs := by
  induction cs generalizing part with
  | nil =>
    rw [List.mem_singleton.mp h] at hc
    exact hc
  | cons d cs ih =>
    rw [splitChars_cons] at h
    split_ifs at h
    · rcases List.mem_cons.mp h with rfl | h
      · exact absurd hc List.not_mem_nil
      · exact List.mem_cons_of_mem _ (ih h hc)
    · obtain ⟨first, parts, hparts⟩ := List.exists_cons_of_ne_nil (splitChars_ne_nil sep cs)
      rw [hparts] at h ih
      rcases List.mem_cons.mp h with rfl | h
      · exact List.mem_cons.mpr ((List.mem_cons.mp hc).imp_right (ih List.mem_cons_self))
      · exact List.mem_cons_of_mem _ (ih (List.mem_cons_of_mem _ h) hc)

theorem mem_of_mem_split {sep c : Char} {input part : String} (h : part ∈ split sep input)
    (hc : c ∈ part.toList) : c ∈ input.toList := by
  obtain ⟨cs, hcs, rfl⟩ := List.mem_map.mp h
  rw [String.toList_ofList] at hc
  exact mem_of_mem_splitChars hcs hc

section Joined

variable {sep : Char} {joint : String}

/-- Parts that are joined are found again, unless there are none. -/
theorem split_join (hjoint : joint.toList = [sep]) {parts : List String}
    (h : ∀ part ∈ parts, sep ∉ part.toList) (hne : parts ≠ []) :
    split sep (joint.intercalate parts) = parts := by
  have hsplit : ([sep].intercalate (parts.map String.toList)).splitOn sep =
      parts.map String.toList := by
    refine List.splitOn_intercalate _ ?_ (mt List.map_eq_nil_iff.mp hne)
    exact List.forall_mem_map.mpr h
  unfold split
  rw [String.toList_intercalate, hjoint, splitChars_eq]
  exact (congrArg _ hsplit).trans (by simp)

theorem join_split (hjoint : joint.toList = [sep]) (input : String) :
    joint.intercalate (split sep input) = input := by
  have hmap : (split sep input).map String.toList = input.toList.splitOn sep := by
    unfold split
    rw [splitChars_eq, List.map_map]
    exact List.map_id'' (fun _ ↦ String.toList_ofList) _
  rw [← String.toList_inj, String.toList_intercalate, hmap, hjoint]
  exact List.intercalate_splitOn sep

/-- Lists of nonempty parts are joined to different strings. -/
theorem join_inj (hjoint : joint.toList = [sep]) {parts others : List String}
    (h : ∀ part ∈ parts, part ≠ "" ∧ sep ∉ part.toList)
    (h' : ∀ part ∈ others, part ≠ "" ∧ sep ∉ part.toList)
    (heq : joint.intercalate parts = joint.intercalate others) : parts = others := by
  have hsplit : ∀ {names : List String}, (∀ name ∈ names, name ≠ "" ∧ sep ∉ name.toList) →
      split sep (joint.intercalate names) = if names = [] then [""] else names := by
    intro names hnames
    split_ifs with hnil
    · subst hnil
      rfl
    · exact split_join hjoint (fun name hname ↦ (hnames name hname).2) hnil
  have hempty : ∀ {names : List String}, (∀ name ∈ names, name ≠ "" ∧ sep ∉ name.toList) →
      names ≠ [""] := by
    rintro names hnames rfl
    exact (hnames "" List.mem_cons_self).1 rfl
  have hboth := hsplit h
  rw [heq, hsplit h'] at hboth
  by_cases hparts : parts = []
  · by_cases hothers : others = []
    · rw [hparts, hothers]
    · rw [if_neg hothers, if_pos hparts] at hboth
      exact absurd hboth (hempty h')
  · by_cases hothers : others = []
    · rw [if_pos hothers, if_neg hparts] at hboth
      exact absurd hboth.symm (hempty h)
    · rw [if_neg hothers, if_neg hparts] at hboth
      exact hboth.symm

theorem split_append_join (hjoint : joint.toList = [sep]) (front back : String) :
    split sep (front ++ (joint ++ back)) = split sep front ++ split sep back := by
  unfold split
  rw [String.toList_append, String.toList_append, hjoint, ← List.map_append, ← splitChars_append]
  rfl

/-- Parts that are followed by a separator are the beginning of a string exactly when they are its
first parts, and not all of them. -/
theorem join_prefix_iff (hjoint : joint.toList = [sep]) {parts : List String}
    (h : ∀ part ∈ parts, sep ∉ part.toList) (hne : parts ≠ []) (input : String) :
    (joint.intercalate parts ++ joint).toList <+: input.toList ↔
      ∃ rest, rest ≠ [] ∧ split sep input = parts ++ rest := by
  constructor
  · rintro ⟨back, hback⟩
    have hinput : input = joint.intercalate parts ++ (joint ++ String.ofList back) := by
      rw [← String.toList_inj, ← hback]
      simp
    refine ⟨split sep (String.ofList back), split_ne_nil sep _, ?_⟩
    rw [hinput, split_append_join hjoint, split_join hjoint h hne]
  · rintro ⟨rest, hrest, hsplit⟩
    refine ⟨(joint.intercalate rest).toList, ?_⟩
    rw [← String.toList_append, String.toList_inj, String.append_assoc,
      ← join_split hjoint input, hsplit, String.intercalate_append_of_ne_nil hne hrest,
      String.append_assoc]

theorem mem_join (hjoint : joint.toList = [sep]) {parts : List String} {c : Char}
    (hc : c ∈ (joint.intercalate parts).toList) : c = sep ∨ ∃ part ∈ parts, c ∈ part.toList := by
  induction parts with
  | nil => exact absurd hc List.not_mem_nil
  | cons part parts ih =>
    by_cases hnil : parts = []
    · rw [hnil, String.intercalate_singleton] at hc
      exact Or.inr ⟨part, List.mem_cons_self, hc⟩
    · rw [String.intercalate_cons_of_ne_nil hnil, String.toList_append, String.toList_append] at hc
      rcases List.mem_append.mp hc with hc | hc
      · rcases List.mem_append.mp hc with hc | hc
        · exact Or.inr ⟨part, List.mem_cons_self, hc⟩
        · rw [hjoint] at hc
          exact Or.inl (List.mem_singleton.mp hc)
      · exact (ih hc).imp_right fun ⟨part', hpart', hc⟩ ↦ ⟨part', List.mem_cons_of_mem _ hpart', hc⟩

end Joined

/-! ### Paths -/

theorem split_append (front back : String) :
    split '/' (front ++ ("/" ++ back)) = split '/' front ++ split '/' back :=
  split_append_join rfl front back

theorem split_intercalate {parts : List String} (h : ∀ part ∈ parts, '/' ∉ part.toList)
    (hne : parts ≠ []) : split '/' ("/".intercalate parts) = parts :=
  split_join rfl h hne

theorem intercalate_split (path : String) : "/".intercalate (split '/' path) = path :=
  join_split rfl path

end Abuild.Util
