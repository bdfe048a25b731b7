import Abuild.Library.Lines

/-!
The lines of a stream that comes in chunks. A buffer has the lines that are complete and what has
come of the next one; a chunk that is empty ends that line, with a marker that says so. Once a
stream has been ended, the lines are those of its text, however it was cut (`feed_chunks`).
-/

set_option autoImplicit false
set_option relaxedAutoImplicit false

namespace LineBuffer

open Lines

variable {α : Type*} [DecidableEq α]

structure Buffer (α : Type*) where
  completed : List (List α)
  line : List α

def empty : Buffer α := ⟨[], []⟩

variable (sep : α) (marker : List α)

def add (b : Buffer α) (a : α) : Buffer α :=
  if a = sep then ⟨b.completed ++ [b.line ++ [a]], []⟩ else ⟨b.completed, b.line ++ [a]⟩

def finish (b : Buffer α) : Buffer α :=
  if b.line = [] then b else ⟨b.completed ++ [b.line ++ (marker ++ [sep])], []⟩

def feed (b : Buffer α) (chunk : List α) : Buffer α :=
  if chunk = [] then finish sep marker b else chunk.foldl (add sep) b

/-- The text with an end to its last line. -/
def endText (text : List α) : List α :=
  if text = [] ∨ text.getLast? = some sep then text else text ++ (marker ++ [sep])

variable {sep marker} {b : Buffer α} {text : List α}

/-- What a buffer has of a text: the lines are complete, and the last one is not. -/
structure Has (sep : α) (text : List α) (b : Buffer α) : Prop where
  text_eq : b.completed.flatten ++ b.line = text
  line : sep ∉ b.line
  completed : ∀ l ∈ b.completed, ∃ body, sep ∉ body ∧ l = body ++ [sep]

omit [DecidableEq α] in
theorem has_empty : Has sep [] empty :=
  ⟨rfl, List.not_mem_nil, fun _ hl ↦ absurd hl List.not_mem_nil⟩

theorem Has.add (h : Has sep text b) (a : α) : Has sep (text ++ [a]) (add sep b a) := by
  unfold LineBuffer.add
  have hcompleted : ∀ l ∈ b.completed ++ [b.line ++ [sep]],
      ∃ body, sep ∉ body ∧ l = body ++ [sep] := by
    intro l hl
    rcases List.mem_append.mp hl with hl | hl
    · exact h.completed l hl
    · exact ⟨b.line, h.line, List.mem_singleton.mp hl⟩
  by_cases ha : a = sep
  · subst ha
    rw [if_pos rfl]
    refine ⟨?_, List.not_mem_nil, hcompleted⟩
    rw [List.flatten_append, List.flatten_singleton, List.append_nil, ← List.append_assoc,
      h.text_eq]
  · rw [if_neg ha]
    refine ⟨?_, fun hmem ↦ ?_, h.completed⟩
    · rw [← List.append_assoc, h.text_eq]
    · rcases List.mem_append.mp hmem with hmem | hmem
      · exact h.line hmem
      · exact ha (List.mem_singleton.mp hmem).symm

theorem Has.foldl (h : Has sep text b) (chunk : List α) :
    Has sep (text ++ chunk) (chunk.foldl (LineBuffer.add sep) b) := by
  induction chunk generalizing text b with
  | nil => rwa [List.append_nil]
  | cons a chunk ih =>
    rw [List.append_cons]
    exact ih (h.add a)

/-- Lines that each end with a separator are those of their text. -/
theorem lines_flatten {l : List (List α)}
    (h : ∀ line ∈ l, ∃ body, sep ∉ body ∧ line = body ++ [sep])
    (rest : List α) : lines sep (l.flatten ++ rest) = l ++ lines sep rest := by
  induction l with
  | nil => rfl
  | cons line l ih =>
    obtain ⟨body, hbody, rfl⟩ := h line List.mem_cons_self
    have hrest := ih fun line hline ↦ h line (List.mem_cons_of_mem _ hline)
    rw [List.flatten_cons, List.append_assoc, List.append_assoc, List.singleton_append,
      lines_line hbody, hrest, List.cons_append]

omit [DecidableEq α] in
/-- The text is ended exactly if the next line is empty. -/
theorem Has.ended_iff (h : Has sep text b) :
    text = [] ∨ text.getLast? = some sep ↔ b.line = [] := by
  rw [← h.text_eq]
  by_cases hline : b.line = []
  · rw [hline, List.append_nil]
    refine iff_of_true ?_ rfl
    by_cases hcompleted : b.completed = []
    · rw [hcompleted]
      exact Or.inl rfl
    · obtain ⟨before, l, hl⟩ : ∃ before l, b.completed = before ++ [l] :=
        ⟨_, _, (List.dropLast_concat_getLast hcompleted).symm⟩
      obtain ⟨body, -, rfl⟩ := h.completed l (by rw [hl]; simp)
      rw [hl, List.flatten_append, List.flatten_singleton, ← List.append_assoc]
      exact Or.inr List.getLast?_concat
  · refine iff_of_false ?_ hline
    rintro (hnil | hlast)
    · exact hline (List.append_eq_nil_iff.mp hnil).2
    · rw [List.getLast?_append_of_ne_nil _ hline] at hlast
      exact h.line (List.mem_of_getLast? hlast)

/-- The lines of a buffer that is ended are those of the text. -/
theorem Has.finish (h : Has sep text b) (hmarker : sep ∉ marker) :
    (finish sep marker b).completed = lines sep (endText sep marker text) ∧
      (finish sep marker b).line = [] := by
  unfold LineBuffer.finish endText
  by_cases hline : b.line = []
  · rw [if_pos hline, if_pos (h.ended_iff.mpr hline)]
    refine ⟨?_, hline⟩
    rw [← h.text_eq, hline, lines_flatten h.completed]
    exact (List.append_nil _).symm
  · rw [if_neg hline, if_neg (mt h.ended_iff.mp hline)]
    refine ⟨?_, rfl⟩
    have hlast : sep ∉ b.line ++ marker := fun hmem ↦
      (List.mem_append.mp hmem).elim h.line hmarker
    have hrest := lines_line hlast []
    rw [List.append_assoc] at hrest
    rw [← h.text_eq, List.append_assoc, lines_flatten h.completed, hrest]
    rfl

/-- Every line of a text with an end ends with a separator. -/
theorem getLast?_of_mem_lines (text : List α) :
    ∀ line ∈ lines sep (endText sep marker text), line.getLast? = some sep := by
  intro line hline
  unfold endText at hline
  by_cases hended : text = [] ∨ text.getLast? = some sep
  · rw [if_pos hended] at hline
    rcases hended with rfl | hlast
    · exact absurd hline List.not_mem_nil
    · obtain ⟨front, rfl⟩ := List.getLast?_eq_some_iff.mp hlast
      obtain ⟨body, rfl, -⟩ := exists_of_mem_lines hline
      exact List.getLast?_concat
  · rw [if_neg hended, ← List.append_assoc] at hline
    obtain ⟨body, rfl, -⟩ := exists_of_mem_lines hline
    exact List.getLast?_concat

/-- To end a buffer again does nothing. -/
theorem foldl_feed_replicate (hline : b.line = []) (n : ℕ) :
    (List.replicate n []).foldl (feed sep marker) b = b := by
  induction n with
  | zero => rfl
  | succ n ih =>
    have hfeed : feed sep marker b [] = b := by
      unfold feed LineBuffer.finish
      rw [if_pos rfl, if_pos hline]
    rw [List.replicate_succ, List.foldl_cons, hfeed, ih]

/-- However a text is cut, the lines are the same once it has been ended. -/
theorem feed_chunks {chunks : List (List α)} (hchunks : ∀ chunk ∈ chunks, chunk ≠ [])
    (hmarker : sep ∉ marker) (n : ℕ) :
    ((chunks ++ List.replicate (n + 1) []).foldl (feed sep marker) empty).completed =
      lines sep (endText sep marker chunks.flatten) := by
  have hhas : ∀ (text : List α) (b : Buffer α), Has sep text b →
      Has sep (text ++ chunks.flatten) (chunks.foldl (feed sep marker) b) := by
    induction chunks with
    | nil =>
      intro text b h
      rwa [List.flatten_nil, List.append_nil]
    | cons chunk chunks ih =>
      intro text b h
      have hfeed : feed sep marker b chunk = chunk.foldl (LineBuffer.add sep) b :=
        if_neg (hchunks chunk List.mem_cons_self)
      rw [List.flatten_cons, ← List.append_assoc, List.foldl_cons, hfeed]
      exact ih (fun c hc ↦ hchunks c (List.mem_cons_of_mem _ hc)) _ _ (h.foldl chunk)
  have hfed := hhas [] empty has_empty
  rw [List.nil_append] at hfed
  obtain ⟨hcompleted, hline⟩ := hfed.finish hmarker
  have hend : feed sep marker (chunks.foldl (feed sep marker) empty) [] =
      LineBuffer.finish sep marker (chunks.foldl (feed sep marker) empty) := if_pos rfl
  rw [List.foldl_append, List.replicate_succ, List.foldl_cons, hend, foldl_feed_replicate hline]
  exact hcompleted

/-- What was completed before stays in front. -/
theorem foldl_add (completed : List (List α)) (line chunk : List α) :
    chunk.foldl (add sep) ⟨completed, line⟩ =
      ⟨completed ++ (chunk.foldl (add sep) ⟨[], line⟩).completed,
        (chunk.foldl (add sep) ⟨[], line⟩).line⟩ := by
  induction chunk generalizing completed line with
  | nil => rw [List.foldl_nil, List.foldl_nil, List.append_nil]
  | cons a chunk ih =>
    have hadd : ∀ c : List (List α), add sep ⟨c, line⟩ a =
        if a = sep then ⟨c ++ [line ++ [a]], []⟩ else ⟨c, line ++ [a]⟩ := fun _ ↦ rfl
    rw [List.foldl_cons, List.foldl_cons, hadd, hadd]
    by_cases ha : a = sep
    · rw [if_pos ha, if_pos ha, ih, ih ([] ++ [line ++ [a]]), List.append_assoc, List.nil_append]
    · rw [if_neg ha, if_neg ha, ih]

/-- The lines that a chunk completes are ended, and the next one is not. -/
theorem feed_ended {line : List α} (hline : sep ∉ line) (hmarker : sep ∉ marker) (chunk : List α) :
    (∀ l ∈ (feed sep marker ⟨[], line⟩ chunk).completed, ∃ body, sep ∉ body ∧ l = body ++ [sep]) ∧
      sep ∉ (feed sep marker ⟨[], line⟩ chunk).line := by
  have hhas : Has sep line ⟨[], line⟩ := ⟨rfl, hline, fun _ hl ↦ absurd hl List.not_mem_nil⟩
  unfold feed LineBuffer.finish
  split_ifs with hchunk hnil
  · exact ⟨hhas.completed, hline⟩
  · refine ⟨fun l hl ↦ ⟨line ++ marker, fun hmem ↦ ?_, ?_⟩, List.not_mem_nil⟩
    · exact (List.mem_append.mp hmem).elim hline hmarker
    · rw [List.mem_singleton.mp hl, List.append_assoc]
  · exact ⟨(hhas.foldl chunk).completed, (hhas.foldl chunk).line⟩

end LineBuffer
