import Mathlib.Data.List.Basic

/-!
The lines of a text over any alphabet. Each line ends with a separator, which it includes, except
that the last one need not. A text is the concatenation of its lines, and the lines of a
concatenation are those of the parts when the first part is ended.
-/

set_option autoImplicit false
set_option relaxedAutoImplicit false

namespace Lines

variable {α : Type*} {sep : α}

/-- The text is empty or its last line ends with a separator. -/
def Ended (sep : α) (text : List α) : Prop := text = [] ∨ text.getLast? = some sep

theorem ended_nil : Ended sep [] := Or.inl rfl

theorem ended_concat (text : List α) : Ended sep (text ++ [sep]) := Or.inr List.getLast?_concat

theorem Ended.append {text text' : List α} (h : Ended sep text) (h' : Ended sep text') :
    Ended sep (text ++ text') := by
  rcases h' with rfl | h'
  · rwa [List.append_nil]
  · refine Or.inr ?_
    rw [List.getLast?_append, h']
    rfl

theorem Ended.of_append {text text' : List α} (h : Ended sep (text ++ text')) :
    Ended sep text' := by
  by_cases hnil : text' = []
  · exact Or.inl hnil
  · rcases h with h | h
    · exact Or.inl (List.append_eq_nil_iff.mp h).2
    · rw [List.getLast?_append_of_ne_nil _ hnil] at h
      exact Or.inr h

theorem Ended.prepend {text' : List α} (h : Ended sep text') (hne : text' ≠ []) (text : List α) :
    Ended sep (text ++ text') := by
  refine Or.inr ?_
  rw [List.getLast?_append_of_ne_nil _ hne]
  exact h.resolve_left hne

variable [DecidableEq α]

def lines (sep : α) : List α → List (List α)
  | [] => []
  | a :: text =>
    if a = sep then [a] :: lines sep text
    else
      match lines sep text with
      | [] => [[a]]
      | line :: rest => (a :: line) :: rest

theorem lines_sep (text : List α) : lines sep (sep :: text) = [sep] :: lines sep text :=
  if_pos rfl

variable (sep) in
theorem flatten_lines (text : List α) : (lines sep text).flatten = text := by
  induction text with
  | nil => rfl
  | cons a text ih =>
    unfold lines
    split_ifs
    · rw [List.flatten_cons, ih]
      rfl
    · split
      · rename_i hnil
        rw [hnil] at ih
        rw [← ih]
        rfl
      · rename_i line rest hcons
        rw [hcons] at ih
        rw [← ih]
        rfl

theorem lines_eq_nil_iff {text : List α} : lines sep text = [] ↔ text = [] := by
  refine ⟨fun h ↦ ?_, fun h ↦ by rw [h]; rfl⟩
  rw [← flatten_lines sep text, h]
  rfl

/-- Characters before a text go on its first line. -/
theorem lines_append_of_notMem {body text line : List α} {rest : List (List α)}
    (hbody : sep ∉ body) (h : lines sep text = line :: rest) :
    lines sep (body ++ text) = (body ++ line) :: rest := by
  induction body with
  | nil => exact h
  | cons a body ih =>
    have ha : a ≠ sep := fun heq ↦ hbody (heq ▸ List.mem_cons_self)
    have hrest := ih fun hmem ↦ hbody (List.mem_cons_of_mem a hmem)
    rw [List.cons_append, lines, if_neg ha, hrest]
    rfl

/-- One line, which includes its separator. -/
theorem lines_line {body : List α} (hbody : sep ∉ body) (text : List α) :
    lines sep (body ++ sep :: text) = (body ++ [sep]) :: lines sep text :=
  lines_append_of_notMem hbody (lines_sep text)

theorem lines_of_notMem {body : List α} (hbody : sep ∉ body) (hne : body ≠ []) :
    lines sep body = [body] := by
  obtain ⟨front, last, rfl⟩ : ∃ front last, body = front ++ [last] :=
    ⟨_, _, (List.dropLast_concat_getLast hne).symm⟩
  have hlast : last ≠ sep := fun heq ↦ hbody (by rw [heq]; simp)
  have hfront : sep ∉ front := fun hmem ↦ hbody (List.mem_append_left _ hmem)
  exact lines_append_of_notMem hfront (by rw [lines, if_neg hlast]; rfl)

variable (sep) in
/-- A text is empty, a last line without a separator, or a line and the text after it. -/
theorem text_cases (text : List α) : text = [] ∨ (text ≠ [] ∧ sep ∉ text) ∨
    ∃ body rest, sep ∉ body ∧ text = body ++ sep :: rest := by
  by_cases hmem : sep ∈ text
  · obtain ⟨body, rest, htext, hbody⟩ := List.eq_append_cons_of_mem hmem
    exact Or.inr (Or.inr ⟨body, rest, hbody, htext⟩)
  · by_cases hnil : text = []
    · exact Or.inl hnil
    · exact Or.inr (Or.inl ⟨hnil, hmem⟩)

theorem lines_append {text : List α} (h : Ended sep text) (text' : List α) :
    lines sep (text ++ text') = lines sep text ++ lines sep text' := by
  induction text with
  | nil => rfl
  | cons a text ih =>
    have hcons : Ended sep ([a] ++ text) := h
    have hrest := ih hcons.of_append
    by_cases ha : a = sep
    · subst ha
      rw [List.cons_append, lines_sep, lines_sep, hrest]
      rfl
    · have hne : text ≠ [] := by
        rintro rfl
        rcases h with h | h
        · cases h
        · exact ha (Option.some.inj h)
      obtain ⟨line, rest, hlines⟩ := List.exists_cons_of_ne_nil (mt lines_eq_nil_iff.mp hne)
      rw [hlines] at hrest
      rw [List.cons_append, lines, if_neg ha, hrest, lines, if_neg ha, hlines]
      rfl

/-- The first line of a text, and the text of the others. -/
theorem lines_cons {text line : List α} {rest : List (List α)}
    (h : lines sep text = line :: rest) :
    lines sep line = [line] ∧ lines sep rest.flatten = rest ∧ (rest = [] ∨ Ended sep line) := by
  rcases text_cases sep text with rfl | ⟨hne, hbody⟩ | ⟨body, text, hbody, rfl⟩
  · cases h
  · rw [lines_of_notMem hbody hne] at h
    cases h
    exact ⟨lines_of_notMem hbody hne, rfl, Or.inl rfl⟩
  · rw [lines_line hbody] at h
    cases h
    refine ⟨lines_line hbody [], ?_, Or.inr (ended_concat body)⟩
    rw [flatten_lines]

/-- What comes after a text that is not ended goes on its last line. -/
theorem lines_append_last {text body : List α} (h : ¬ Ended sep text) (hbody : sep ∉ body) :
    ∃ front last, lines sep text = front ++ [last] ∧
      lines sep (text ++ (body ++ [sep])) = front ++ [last ++ (body ++ [sep])] := by
  induction hlength : text.length using Nat.strongRecOn generalizing text with
  | _ n ih =>
    rcases text_cases sep text with rfl | ⟨hne, htext⟩ | ⟨line, rest, hline, rfl⟩
    · exact absurd ended_nil h
    · refine ⟨[], text, lines_of_notMem htext hne, ?_⟩
      have hboth : sep ∉ text ++ body := fun hmem ↦ (List.mem_append.mp hmem).elim htext hbody
      rw [← List.append_assoc, lines_line hboth]
      rfl
    · have hrest : ¬ Ended sep rest := fun hended ↦ h (by
        rw [List.append_cons]
        exact (ended_concat line).append hended)
      obtain ⟨front, last, hlines, hlast⟩ := ih rest.length (by
        rw [← hlength, List.length_append, List.length_cons]
        omega) hrest rfl
      refine ⟨(line ++ [sep]) :: front, last, ?_, ?_⟩
      · rw [lines_line hline, hlines]
        rfl
      · rw [List.append_assoc, List.cons_append, lines_line hline, hlast]
        rfl

/-- The separator is at the end of a line. -/
theorem notMem_of_lines_eq {front back : List α} (h : lines sep (front ++ back) = [front ++ back])
    (hback : back ≠ []) : sep ∉ front := by
  intro hmem
  obtain ⟨body, rest, rfl, hbody⟩ := List.eq_append_cons_of_mem hmem
  rw [List.append_assoc, List.cons_append, lines_line hbody] at h
  have hnil : rest ++ back = [] := lines_eq_nil_iff.mp (List.cons_eq_cons.mp h).2
  exact hback (List.append_eq_nil_iff.mp hnil).2

/-- The beginning of the first line of a text can be exchanged. -/
theorem lines_exchange {front front' back : List α} {rest : List (List α)}
    (h : lines sep (front ++ (back ++ rest.flatten)) = (front ++ back) :: rest)
    (hback : back ≠ []) (hfront' : sep ∉ front') :
    lines sep (front' ++ (back ++ rest.flatten)) = (front' ++ back) :: rest := by
  have hfront : sep ∉ front := notMem_of_lines_eq (lines_cons h).1 hback
  have hne : lines sep (back ++ rest.flatten) ≠ [] := fun hnil ↦
    hback (List.append_eq_nil_iff.mp (lines_eq_nil_iff.mp hnil)).1
  obtain ⟨line, more, hlines⟩ := List.exists_cons_of_ne_nil hne
  rw [lines_append_of_notMem hfront hlines] at h
  obtain ⟨hline, rfl⟩ := List.cons_eq_cons.mp h
  obtain rfl := List.append_cancel_left hline
  exact lines_append_of_notMem hfront' hlines

/-- The lines in a beginning of the lines of a text are those of their own text, and so are the
others. -/
theorem lines_of_append {text : List α} {front rest : List (List α)}
    (h : lines sep text = front ++ rest) :
    lines sep front.flatten = front ∧ lines sep rest.flatten = rest ∧
      (rest = [] ∨ Ended sep front.flatten) := by
  induction front generalizing text with
  | nil =>
    refine ⟨rfl, ?_, Or.inr ended_nil⟩
    have hrest : lines sep text = rest := h
    rw [← hrest, flatten_lines]
  | cons line front ih =>
    obtain ⟨hline, hmore, hended⟩ := lines_cons h
    obtain ⟨hfront, hrest, hended'⟩ := ih hmore
    refine ⟨?_, hrest, ?_⟩
    · rw [List.flatten_cons]
      rcases hended with hnil | hended
      · obtain ⟨rfl, -⟩ := List.append_eq_nil_iff.mp hnil
        rw [List.flatten_nil, List.append_nil]
        exact hline
      · rw [lines_append hended, hline, hfront]
        rfl
    · rcases hended' with rfl | hended'
      · exact Or.inl rfl
      · rcases hended with hnil | hended
        · exact Or.inl (List.append_eq_nil_iff.mp hnil).2
        · exact Or.inr (hended.append hended')

/-- A line of a text that is ended consists of elements of the text, and a separator. -/
theorem exists_of_mem_lines {text line : List α} (h : line ∈ lines sep (text ++ [sep])) :
    ∃ body, line = body ++ [sep] ∧ sep ∉ body ∧ List.Sublist body text := by
  induction text generalizing line with
  | nil =>
    rw [List.nil_append, lines_sep, lines, List.mem_singleton] at h
    exact ⟨[], h, List.not_mem_nil, List.Sublist.slnil⟩
  | cons a text ih =>
    by_cases ha : a = sep
    · rw [ha, List.cons_append, lines_sep] at h
      rcases List.mem_cons.mp h with rfl | h
      · exact ⟨[], rfl, List.not_mem_nil, List.nil_sublist _⟩
      · obtain ⟨body, hline, hbody, hsublist⟩ := ih h
        exact ⟨body, hline, hbody, hsublist.cons a⟩
    · have hne : lines sep (text ++ [sep]) ≠ [] :=
        mt lines_eq_nil_iff.mp (List.append_ne_nil_of_right_ne_nil _ (List.cons_ne_nil _ _))
      obtain ⟨first, rest, hlines⟩ := List.exists_cons_of_ne_nil hne
      rw [List.cons_append, lines, if_neg ha, hlines] at h
      rw [hlines] at ih
      rcases List.mem_cons.mp h with rfl | h
      · obtain ⟨body, rfl, hbody, hsublist⟩ := ih List.mem_cons_self
        exact ⟨a :: body, rfl, List.not_mem_cons_of_ne_of_not_mem (Ne.symm ha) hbody,
          hsublist.cons_cons a⟩
      · obtain ⟨body, hline, hbody, hsublist⟩ := ih (List.mem_cons_of_mem _ h)
        exact ⟨body, hline, hbody, hsublist.cons a⟩

end Lines
