import Abuild.KeyVal

/-!
What the regular expressions of `KeyVal.cc` match. A line with a key consists of the parts that
`matchKvLine` finds, and whether it goes on depends only on what comes after the colon. Spaces at
the end of a line, among them the line terminator, do not matter.
-/

set_option autoImplicit false
set_option relaxedAutoImplicit false

namespace Abuild.KeyVal

open Reading

theorem not_isSpace_of_isKeyChar {c : Char} (h : isKeyChar c = true) : isSpace c = false := by
  unfold isKeyChar at h
  simpa using (Bool.and_eq_true_iff.mp h).1

theorem isKeyChar_eq_false_of_isSpace {c : Char} (h : isSpace c = true) : isKeyChar c = false := by
  unfold isKeyChar
  rw [h]
  rfl

/-- The parts of a line with a key. -/
structure IsKvLine (line : List Char) (m : KvLine) : Prop where
  line_eq : line = m.leading ++ (m.key ++ m.trailing)
  leading : ∀ c ∈ m.leading, isSpace c = true
  key : ∀ c ∈ m.key, isKeyChar c = true
  key_ne : m.key ≠ []
  trailing : ∃ gap text, m.trailing = gap ++ ':' :: text ∧ (∀ c ∈ gap, isSpace c = true) ∧
    m.value = (matchContent text).1

theorem matchKvLine_of_isKvLine {line : List Char} {m : KvLine} (h : IsKvLine line m) :
    matchKvLine line = some m := by
  obtain ⟨gap, text, htrailing, hgap, hvalue⟩ := h.trailing
  obtain ⟨first, key, hkey⟩ := List.exists_cons_of_ne_nil h.key_ne
  have hfirst : ∀ c ∈ (m.key ++ m.trailing).head?, isSpace c = false := by
    rw [hkey]
    intro c hc
    obtain rfl := Option.some.inj hc
    exact not_isSpace_of_isKeyChar (h.key first (hkey ▸ List.mem_cons_self))
  have hnext : ∀ c ∈ m.trailing.head?, isKeyChar c = false := by
    rw [htrailing]
    intro c hc
    cases gap with
    | nil =>
      obtain rfl := Option.some.inj hc
      rfl
    | cons g gap =>
      obtain rfl := Option.some.inj hc
      exact isKeyChar_eq_false_of_isSpace (hgap g List.mem_cons_self)
  have hcolon : ∀ c ∈ (':' :: text).head?, isSpace c = false := by
    intro c hc
    obtain rfl := Option.some.inj hc
    rfl
  have hne : ¬ m.key.isEmpty := fun hempty ↦ h.key_ne (List.isEmpty_iff.mp hempty)
  unfold matchKvLine
  dsimp only
  rw [h.line_eq, (Trim.span_append h.leading hfirst).1, (Trim.span_append h.leading hfirst).2,
    (Trim.span_append h.key hnext).1, (Trim.span_append h.key hnext).2, htrailing,
    (Trim.span_append hgap hcolon).2]
  refine (if_neg hne).trans ?_
  rw [← hvalue, ← htrailing]

theorem isKvLine_of_matchKvLine {line : List Char} {m : KvLine} (h : matchKvLine line = some m) :
    IsKvLine line m := by
  unfold matchKvLine at h
  dsimp only at h
  split at h
  · rename_i text hcolon
    obtain ⟨hne, heq⟩ := Option.ite_none_left_eq_some.mp h
    cases heq
    refine ⟨?_, fun c hc ↦ List.mem_takeWhile_imp hc, fun c hc ↦ List.mem_takeWhile_imp hc,
      fun hnil ↦ hne (List.isEmpty_iff.mpr hnil), ?_⟩
    · dsimp only
      rw [List.takeWhile_append_dropWhile, List.takeWhile_append_dropWhile]
    · refine ⟨((line.dropWhile isSpace).dropWhile isKeyChar).takeWhile isSpace, text, ?_,
        fun c hc ↦ List.mem_takeWhile_imp hc, rfl⟩
      rw [← hcolon, List.takeWhile_append_dropWhile]
  · cases h

theorem IsKvLine.not_blank {line : List Char} {m : KvLine} (h : IsKvLine line m) :
    ¬ ∀ c ∈ line, isSpace c = true := by
  intro hblank
  obtain ⟨first, key, hkey⟩ := List.exists_cons_of_ne_nil h.key_ne
  have hmem : first ∈ m.key := hkey ▸ List.mem_cons_self
  have hspace := not_isSpace_of_isKeyChar (h.key first hmem)
  rw [hblank first (h.line_eq ▸ List.mem_append_right _ (List.mem_append_left _ hmem))] at hspace
  cases hspace

/-- Spaces at the end of a line do not matter. -/
theorem commentLine_append (line : List Char) {space : List Char}
    (h : ∀ c ∈ space, isSpace c = true) : commentLine (line ++ space) = commentLine line := by
  unfold commentLine
  by_cases hall : ∀ c ∈ line, isSpace c
  · rw [List.dropWhile_eq_nil_iff.mpr hall,
      List.dropWhile_eq_nil_iff.mpr (List.forall_mem_append.mpr ⟨hall, h⟩)]
  · have hne : line.dropWhile isSpace ≠ [] := mt List.dropWhile_eq_nil_iff.mp hall
    rw [Trim.dropWhile_append_of_not_all hall, List.head?_append_of_ne_nil _ hne]

theorem matchContent_append (line : List Char) {space : List Char}
    (h : ∀ c ∈ space, isSpace c = true) : matchContent (line ++ space) = matchContent line := by
  unfold matchContent
  rw [Trim.trim_append_of_all line h]

theorem lineContent_append (line : List Char) {space : List Char}
    (h : ∀ c ∈ space, isSpace c = true) : lineContent (line ++ space) = lineContent line := by
  unfold lineContent
  rw [matchContent_append line h]

theorem matchKvLine_append (line : List Char) {space : List Char}
    (h : ∀ c ∈ space, isSpace c = true) : matchKvLine (line ++ space) =
      (matchKvLine line).map fun m ↦ { m with trailing := m.trailing ++ space } := by
  by_cases hall : ∀ c ∈ line, isSpace c
  · have hnone : ∀ text, (∀ c ∈ text, isSpace c = true) → matchKvLine text = none := by
      intro text htext
      unfold matchKvLine
      rw [List.dropWhile_eq_nil_iff.mpr htext]
      rfl
    rw [hnone _ hall, hnone _ (List.forall_mem_append.mpr ⟨hall, h⟩)]
    rfl
  · have hkey := Trim.takeWhile_append_of_head (line.dropWhile isSpace) fun c hc ↦
      isKeyChar_eq_false_of_isSpace (h c (List.mem_of_mem_head? hc))
    unfold matchKvLine
    dsimp only
    rw [Trim.takeWhile_append_of_not_all hall, Trim.dropWhile_append_of_not_all hall, hkey.1,
      hkey.2]
    generalize (line.dropWhile isSpace).dropWhile isKeyChar = trailing
    by_cases htrailing : ∀ c ∈ trailing, isSpace c
    · rw [List.dropWhile_eq_nil_iff.mpr htrailing,
        List.dropWhile_eq_nil_iff.mpr (List.forall_mem_append.mpr ⟨htrailing, h⟩)]
      rfl
    · rw [Trim.dropWhile_append_of_not_all htrailing]
      cases htext : trailing.dropWhile isSpace with
      | nil => exact absurd (List.dropWhile_eq_nil_iff.mp htext) htrailing
      | cons c text =>
        by_cases hc : c = ':'
        · subst hc
          show (if _ then none else some (KvLine.mk _ _ _ (matchContent (text ++ space)).1)) =
            Option.map _ (if _ then none else some _)
          rw [matchContent_append text h]
          split_ifs <;> rfl
        · simp [hc]

/-- Spaces at the beginning of a line do not matter. -/
theorem commentLine_prepend {space : List Char} (h : ∀ c ∈ space, isSpace c = true)
    (line : List Char) : commentLine (space ++ line) = commentLine line := by
  unfold commentLine
  rw [List.dropWhile_append_of_pos h]

theorem lineContent_prepend {space : List Char} (h : ∀ c ∈ space, isSpace c = true)
    (line : List Char) : lineContent (space ++ line) = lineContent line := by
  unfold lineContent matchContent
  rw [Trim.trim_append_left h]

theorem matchKvLine_prepend {space : List Char} (h : ∀ c ∈ space, isSpace c = true)
    (line : List Char) : matchKvLine (space ++ line) =
      (matchKvLine line).map fun m ↦ { m with leading := space ++ m.leading } := by
  unfold matchKvLine
  dsimp only
  rw [List.dropWhile_append_of_pos h, List.takeWhile_append_of_pos h]
  split
  · split_ifs <;> rfl
  · rfl

/-- Whether there is a backslash at the end. -/
theorem matchContent_snd (text : List Char) :
    (matchContent text).2 = decide ((Trim.trim isSpace text).getLast? = some '\\') := by
  unfold matchContent
  dsimp only
  split_ifs with h
  · exact (decide_eq_true h).symm
  · exact (decide_eq_false h).symm

/-- A line has no content when it is blank. -/
theorem lineContent_eq_nil_iff (line : List Char) :
    (lineContent line).1 = [] ↔ ∀ c ∈ line, isSpace c = true := by
  rw [← Trim.trim_eq_nil_iff]
  unfold lineContent matchContent
  by_cases h : (Trim.trim isSpace line).getLast? = some '\\'
  · dsimp only
    rw [if_pos h]
    refine iff_of_false (List.append_ne_nil_of_right_ne_nil _ (List.cons_ne_nil _ _)) fun hnil ↦ ?_
    rw [hnil] at h
    cases h
  · dsimp only
    rw [if_neg h]
    exact Iff.rfl

theorem lineContent_blank {line : List Char} (h : ∀ c ∈ line, isSpace c = true) :
    (lineContent line).2 = false := by
  show (matchContent line).2 = false
  rw [matchContent_snd, Trim.trim_eq_nil_iff.mpr h]
  rfl

/-- Whether a line goes on depends on what comes after a colon. -/
theorem lineContent_colon (front text : List Char) :
    (lineContent (front ++ ':' :: text)).2 = (matchContent text).2 := by
  show (matchContent (front ++ ':' :: text)).2 = (matchContent text).2
  rw [matchContent_snd, matchContent_snd, Trim.getLast?_trim_append_cons front rfl]
  cases (Trim.trim isSpace text).getLast? with
  | none => rfl
  | some c => rfl

end Abuild.KeyVal
