import Abuild.KeyVal.RoundTrip

/-!
What reading a file keeps of its text, whatever it contains. All text of the lines goes into the
pieces, so that writing them without a change writes the file (`writeFile_readFile`). The line
terminators do not matter to anything else that is read: they are spaces at the ends of the lines
(`readFile_toCrlf`).
-/

set_option autoImplicit false
set_option relaxedAutoImplicit false

namespace Abuild.KeyVal

open Std (TreeMap TreeSet)
open Reading

/-! ### The text of a file -/

def origText (od : OrigData) : List Char := od.before ++ od.key.toList ++ od.after

/-- All text that has been read is in the pieces, and nothing is after the text before the key as
long as there is no value. -/
structure Lossless (text : List Char) (s : Reading) : Prop where
  text : s.origData.flatMap origText ++ origText s.current = text
  fresh : s.value = .none → s.current.key = "" ∧ s.current.after = []

section Text

variable {spec : KeySpec} {s : Reading} {text line : List Char} (h : Lossless text s)

include h

theorem Lossless.addText : Lossless (text ++ line) (s.addText line) := by
  unfold Reading.addText
  split
  · rename_i hvalue
    obtain ⟨hkey, hafter⟩ := h.fresh hvalue
    refine ⟨?_, fun _ ↦ ⟨hkey, hafter⟩⟩
    rw [← h.text]
    simp [origText, hkey, hafter]
  · rename_i hvalue
    refine ⟨?_, fun hnone ↦ absurd hnone hvalue⟩
    rw [← h.text]
    simp [origText]

theorem Lossless.addValue (content : List Char) : Lossless text (s.addValue content) := by
  unfold Reading.addValue
  split
  · exact ⟨h.text, h.fresh⟩
  · exact h

theorem Lossless.endLine (continuation : Bool) : Lossless text (s.endLine continuation) := by
  unfold Reading.endLine
  split_ifs
  · exact h
  · refine ⟨?_, fun _ ↦ ⟨rfl, rfl⟩⟩
    rw [← h.text]
    simp [origText, OrigData.empty]

/-- The parts of a line with a key are its text. -/
theorem Lossless.splitText (hvalue : s.value = .none) {m : KvLine} (hm : matchKvLine line = some m)
    {s' : Reading} (horig : s'.origData = s.origData) (hcurrent : s'.current = s.current)
    (hne : s'.value ≠ .none) : Lossless (text ++ line) (s'.splitText m) := by
  obtain ⟨hkey, hafter⟩ := h.fresh hvalue
  refine ⟨?_, fun hnone ↦ absurd hnone hne⟩
  rw [← h.text, (isKvLine_of_matchKvLine hm).line_eq]
  simp [origText, Reading.splitText, horig, hcurrent, hkey, hafter]

theorem Lossless.addKvLine (hvalue : s.value = .none) {location : FileLocation}
    {continuation : Bool} {m : KvLine} (hm : matchKvLine line = some m) :
    Lossless (text ++ line) (s.addKvLine spec location continuation m) := by
  have hcheck : ∀ key, (s.checkDuplicate location key).origData = s.origData ∧
      (s.checkDuplicate location key).current = s.current := by
    intro key
    unfold checkDuplicate
    split_ifs <;> exact ⟨rfl, rfl⟩
  unfold Reading.addKvLine setKey
  dsimp only
  split_ifs
  · exact h.splitText hvalue hm (hcheck _).1 (hcheck _).2 (by simp)
  · exact h.splitText hvalue hm (hcheck _).1 (hcheck _).2 (by simp)

theorem Lossless.readLine (line : List Char) : Lossless (text ++ line) (readLine spec s line) := by
  have hnext : Lossless text (nextLine s) := ⟨h.text, h.fresh⟩
  by_cases hvalue : s.value = .none
  · cases hcomment : commentLine line with
    | true =>
      rw [readLine_comment hvalue hcomment]
      exact hnext.addText.endLine false
    | false =>
      by_cases hblank : ∀ c ∈ line, isSpace c = true
      · rw [readLine_blank hvalue hcomment hblank]
        exact hnext.addText.endLine false
      · rw [readLine_content hvalue hcomment hblank]
        cases hm : matchKvLine line with
        | some m => exact (hnext.addKvLine hvalue hm).endLine _
        | none =>
          have herror : Lossless text ((nextLine s).error (.new spec.filename (s.lineno + 1) 0)
            "syntax error") := ⟨h.text, h.fresh⟩
          exact herror.addText.endLine _
  · cases hcomment : commentLine line with
    | true =>
      rw [readLine_within_comment hvalue hcomment]
      exact hnext.addText.addValue []
    | false =>
      rw [readLine_within hvalue hcomment]
      exact (hnext.addText.addValue _).endLine _

theorem Lossless.readLines (spec : KeySpec) (lines : List (List Char)) :
    Lossless (text ++ lines.flatten) (lines.foldl (Reading.readLine spec) s) := by
  induction lines generalizing text s with
  | nil =>
    rw [List.flatten_nil, List.append_nil]
    exact h
  | cons line lines ih =>
    rw [List.flatten_cons, ← List.append_assoc]
    exact ih (h.readLine line)

/-- The end of the file leaves the pieces as they are. -/
theorem Lossless.finish (spec : KeySpec) : Lossless text (s.finish spec) := by
  unfold Reading.finish checkMissing
  dsimp only
  split_ifs <;> exact ⟨h.text, h.fresh⟩

end Text

def Edits.none : Edits := ⟨∅, ∅, ∅, []⟩

theorem writeOrigData_none : writeOrigData .none = origText := by
  funext od
  unfold writeOrigData Edits.none
  simp [origText]

/-- Writing what has been read of a file without a change writes the file. -/
theorem writeFile_readFile (spec : KeySpec) (content : List Char) :
    writeFile (readFile spec content) .none = content := by
  have hstart : Lossless [] start := ⟨rfl, fun _ ↦ ⟨rfl, rfl⟩⟩
  have hread := ((hstart.readLines spec (Lines.lines '\n' content)).finish spec).text
  rw [List.nil_append, Lines.flatten_lines] at hread
  unfold writeFile readFile
  dsimp only
  rw [writeOrigData_none, List.flatMap_append, List.flatMap_singleton]
  exact hread

/-! ### Line terminators -/

/-- The text with another line terminator. -/
def toCrlf (text : List Char) : List Char :=
  text.flatMap fun c ↦ if c = '\n' then ['\r', '\n'] else [c]

theorem toCrlf_of_notMem {text : List Char} (h : '\n' ∉ text) : toCrlf text = text := by
  induction text with
  | nil => rfl
  | cons c text ih =>
    obtain ⟨hc, htext⟩ := List.ne_and_not_mem_of_not_mem_cons h
    unfold toCrlf at ih ⊢
    rw [List.flatMap_cons, if_neg (Ne.symm hc), ih htext]
    rfl

/-- Each line has another terminator. -/
theorem forall₂_lines_toCrlf (text : List Char) :
    List.Forall₂ SameLine (Lines.lines '\n' text) (Lines.lines '\n' (toCrlf text)) := by
  induction hlength : text.length using Nat.strongRecOn generalizing text with
  | _ n ih =>
    rcases Lines.text_cases '\n' text with rfl | ⟨-, hnone⟩ | ⟨body, rest, hbody, rfl⟩
    · exact .nil
    · rw [toCrlf_of_notMem hnone]
      exact forall₂_sameLine_refl _
    · have hcrlf : toCrlf (body ++ '\n' :: rest) = (body ++ ['\r']) ++ '\n' :: toCrlf rest := by
        have hfront := toCrlf_of_notMem hbody
        unfold toCrlf at hfront ⊢
        rw [List.flatMap_append, hfront, List.flatMap_cons, if_pos rfl, List.append_assoc]
        rfl
      have hbody' : '\n' ∉ body ++ ['\r'] := List.not_mem_append hbody (by decide)
      rw [hcrlf, Lines.lines_line hbody, Lines.lines_line hbody']
      refine .cons ⟨body, [], ['\n'], [], ['\r', '\n'], rfl, ?_, ?_, ?_, ?_, ?_⟩ (ih _ ?_ rest rfl)
      · simp
      · exact List.forall_mem_nil _
      · simp [isSpace]
      · exact List.forall_mem_nil _
      · simp [isSpace]
      · rw [← hlength, List.length_append, List.length_cons]
        omega

/-- What has been read, apart from its text. -/
structure SameReading (s s' : Reading) : Prop where
  lineno : s.lineno = s'.lineno
  explicitKeys : s.explicitKeys = s'.explicitKeys
  data : s.data = s'.data
  value : s.value = s'.value
  errors : s.errors = s'.errors

theorem SameLine.symm {line line' : List Char} (h : SameLine line line') : SameLine line' line := by
  obtain ⟨body, front, back, front', back', hline, hline', hfront, hback, hfront', hback'⟩ := h
  exact ⟨body, front', back', front, back, hline', hline, hfront', hback', hfront, hback⟩

section SameReading

variable {spec : KeySpec} {s s' : Reading} (h : SameReading s s')

include h

theorem SameReading.nextLine : SameReading (nextLine s) (nextLine s') :=
  ⟨congrArg (· + 1) h.lineno, h.explicitKeys, h.data, h.value, h.errors⟩

theorem SameReading.error (location : FileLocation) (message : String) :
    SameReading (s.error location message) (s'.error location message) :=
  ⟨h.lineno, h.explicitKeys, h.data, h.value, congrArg (· ++ [(location, message)]) h.errors⟩

theorem SameReading.addText (text text' : List Char) :
    SameReading (s.addText text) (s'.addText text') := by
  have hsame : ∀ (s : Reading) (text : List Char), SameReading s (s.addText text) := by
    intro s text
    unfold Reading.addText
    split <;> exact ⟨rfl, rfl, rfl, rfl, rfl⟩
  have hs := hsame s text
  have hs' := hsame s' text'
  exact ⟨hs.lineno.symm.trans (h.lineno.trans hs'.lineno),
    hs.explicitKeys.symm.trans (h.explicitKeys.trans hs'.explicitKeys),
    hs.data.symm.trans (h.data.trans hs'.data), hs.value.symm.trans (h.value.trans hs'.value),
    hs.errors.symm.trans (h.errors.trans hs'.errors)⟩

theorem SameReading.addValue (content : List Char) :
    SameReading (s.addValue content) (s'.addValue content) := by
  unfold Reading.addValue
  rw [← h.value, ← h.data]
  split
  · exact ⟨h.lineno, h.explicitKeys, rfl, rfl, h.errors⟩
  · exact h

theorem SameReading.endLine (continuation : Bool) :
    SameReading (s.endLine continuation) (s'.endLine continuation) := by
  unfold Reading.endLine
  split_ifs
  · exact h
  · exact ⟨h.lineno, h.explicitKeys, h.data, rfl, h.errors⟩

theorem SameReading.addKvLine (location : FileLocation) (continuation : Bool) {m m' : KvLine}
    (hkey : m'.key = m.key) (hvalue : m'.value = m.value) :
    SameReading (s.addKvLine spec location continuation m)
      (s'.addKvLine spec location continuation m') := by
  have hfirst : m'.firstValue continuation = m.firstValue continuation := by
    unfold KvLine.firstValue
    rw [hvalue]
  have hcheck : ∀ key, SameReading (s.checkDuplicate location key)
      (s'.checkDuplicate location key) := by
    intro key
    unfold checkDuplicate
    rw [← h.data]
    split_ifs
    · exact h.error location _
    · exact h
  have hset : ∀ key value, SameReading
      ((s.checkDuplicate location key).setKey spec location key value)
      ((s'.checkDuplicate location key).setKey spec location key value) := by
    intro key value
    have hkeyed := hcheck key
    unfold setKey
    split_ifs
    · rw [← hkeyed.data, ← hkeyed.explicitKeys]
      exact ⟨hkeyed.lineno, rfl, rfl, rfl, hkeyed.errors⟩
    · have herror := hkeyed.error location ("invalid key " ++ key ++ " (ignored)")
      exact ⟨herror.lineno, herror.explicitKeys, herror.data, rfl, herror.errors⟩
  unfold Reading.addKvLine
  dsimp only
  rw [hkey, hfirst]
  have hall := hset (String.ofList m.key) (m.firstValue continuation)
  exact ⟨hall.lineno, hall.explicitKeys, hall.data, hall.value, hall.errors⟩

theorem SameReading.readLine {line line' : List Char} (hline : SameLine line line') :
    SameReading (readLine spec s line) (readLine spec s' line') := by
  have hnext := h.nextLine
  have hcomment' := hline.commentLine_eq
  by_cases hvalue : s.value = .none
  · have hvalue' := h.value.symm.trans hvalue
    cases hcomment : commentLine line with
    | true =>
      rw [hcomment] at hcomment'
      rw [readLine_comment hvalue hcomment, readLine_comment hvalue' hcomment'.symm]
      exact (hnext.addText _ _).endLine false
    | false =>
      rw [hcomment] at hcomment'
      by_cases hblank : ∀ c ∈ line, isSpace c = true
      · rw [readLine_blank hvalue hcomment hblank,
          readLine_blank hvalue' hcomment'.symm (hline.blank hblank)]
        exact (hnext.addText _ _).endLine false
      · rw [readLine_content hvalue hcomment hblank,
          readLine_content hvalue' hcomment'.symm (mt hline.symm.blank hblank),
          ← hline.lineContent_eq, ← h.lineno]
        cases hm : matchKvLine line with
        | some m =>
          obtain ⟨m', hm', hkey, hmvalue⟩ := hline.matchKvLine_some hm
          rw [hm']
          exact (hnext.addKvLine _ _ hkey hmvalue).endLine _
        | none =>
          have hnone : matchKvLine line' = none := by
            refine Option.eq_none_iff_forall_ne_some.mpr fun m' hm' ↦ ?_
            obtain ⟨m, hsome, -⟩ := hline.symm.matchKvLine_some hm'
            cases hm.symm.trans hsome
          rw [hnone]
          exact ((hnext.error _ _).addText _ _).endLine _
  · have hvalue' : s'.value ≠ .none := h.value ▸ hvalue
    cases hcomment : commentLine line with
    | true =>
      rw [hcomment] at hcomment'
      rw [readLine_within_comment hvalue hcomment, readLine_within_comment hvalue' hcomment'.symm]
      exact (hnext.addText _ _).addValue []
    | false =>
      rw [hcomment] at hcomment'
      rw [readLine_within hvalue hcomment, readLine_within hvalue' hcomment'.symm,
        ← hline.lineContent_eq]
      exact ((hnext.addText _ _).addValue _).endLine _

theorem SameReading.readLines (spec : KeySpec) {lines lines' : List (List Char)}
    (hlines : List.Forall₂ SameLine lines lines') :
    SameReading (lines.foldl (Reading.readLine spec) s)
      (lines'.foldl (Reading.readLine spec) s') := by
  induction hlines generalizing s s' with
  | nil => exact h
  | cons hline hrest ih => exact ih (h.readLine hline)

theorem SameReading.finish (spec : KeySpec) : SameReading (s.finish spec) (s'.finish spec) := by
  have hend : SameReading
      (if s.value = .none then s
        else s.error (.new spec.filename 0 0) "file ended with continuation line")
      (if s'.value = .none then s'
        else s'.error (.new spec.filename 0 0) "file ended with continuation line") := by
    rw [← h.value]
    split_ifs
    · exact h
    · exact h.error _ _
  have hmissing : ∀ {s s' : Reading}, SameReading s s' →
      SameReading (s.checkMissing spec) (s'.checkMissing spec) := by
    intro s s' h
    unfold checkMissing missingKeys
    rw [← h.data]
    dsimp only
    split_ifs
    · exact h
    · exact h.error _ _
  have hall := hmissing hend
  refine ⟨hall.lineno, hall.explicitKeys, ?_, hall.value, hall.errors⟩
  unfold Reading.finish addDefaults
  dsimp only
  rw [hall.data]

end SameReading

/-- With the other line terminator a file has the same values, the same keys are defaulted, and the
errors are the same. -/
theorem readFile_toCrlf (spec : KeySpec) (content : List Char) :
    (readFile spec (toCrlf content)).data = (readFile spec content).data ∧
      (readFile spec (toCrlf content)).explicitKeys = (readFile spec content).explicitKeys ∧
      (readFile spec (toCrlf content)).errors = (readFile spec content).errors := by
  have hstart : SameReading start start := ⟨rfl, rfl, rfl, rfl, rfl⟩
  have hread := (hstart.readLines spec (forall₂_lines_toCrlf content)).finish spec
  exact ⟨hread.data.symm, hread.explicitKeys.symm, hread.errors.symm⟩

end Abuild.KeyVal
