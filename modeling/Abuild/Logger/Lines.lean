import Abuild.Library.LineBuffer
import Abuild.Logger
import Mathlib.Data.List.Induction
import Mathlib.Logic.Function.Basic

/-!
The lines that a job makes of what is written to it. Each of its two streams is a line buffer of
its own (`Tracks`): what comes on the other one, the header of the job, and whether the messages
are kept or written make no difference to its lines. `completedLines_spec` says which lines these
are.
-/

set_option autoImplicit false
set_option relaxedAutoImplicit false

namespace Abuild.Logger

open LineBuffer

/-! ### Calls -/

/-- What a program and the logger do with a job. -/
inductive JobCall
  | handleOutput (isError : Bool) (data : Bytes)
  | flush
deriving DecidableEq, Repr

def JobData.call (j : JobData) : JobCall → JobData × List Message
  | .handleOutput isError data => j.handleOutput isError data
  | .flush => j.flush

/-- The job after some calls, and what has been written. -/
def JobData.run (j : JobData) (calls : List JobCall) : JobData × List Message :=
  calls.foldl
    (fun (j, written) c ↦
      let (j, more) := j.call c
      (j, written ++ more))
    (j, [])

/-- The data of a stream. A flush is an empty call for both. -/
def chunksOf (isError : Bool) (calls : List JobCall) : List Bytes :=
  calls.flatMap fun
    | .handleOutput error data => if error = isError then [data] else []
    | .flush => [[]]

/-- The messages that have been sent: those that are written and those that are kept. -/
def sent (r : JobData × List Message) : List Message := r.2 ++ r.1.buffer

/-- What comes before the first line. -/
def headerMessages (header : Bytes) (lines : List (Bool × Bytes)) : List Message :=
  if header = [] ∨ lines = [] then [] else [(.info, header ++ [newline])]

def lineMessages (lines : List (Bool × Bytes)) : List Message :=
  lines.map fun (isError, line) ↦ (messageType isError, line)

/-- The lines of one stream. -/
def ownLines (isError : Bool) (lines : List (Bool × Bytes)) : List Bytes :=
  lines.filterMap fun (error, line) ↦ if error = isError then some line else none

/-- `[no newline]`, without its newline. -/
def marker : Bytes := ascii "[no newline]"

/-! ### Two line buffers -/

/-- The job of `r` has sent the header and `lines`, and its streams are the buffers `b`. -/
structure Tracks (header : Bytes) (lines : List (Bool × Bytes)) (b : Bool → Buffer UInt8)
    (r : JobData × List Message) : Prop where
  sent_eq : sent r = headerMessages header lines ++ lineMessages lines
  jobHeader : r.1.jobHeader = if lines = [] then header else []
  direct : r.1.bufferOutput = false → r.1.buffer = []
  completed : ∀ isError, ownLines isError lines = (b isError).completed
  line : ∀ isError, r.1.line isError = (b isError).line
  notMem : ∀ isError, newline ∉ (b isError).line

variable {header : Bytes} {lines : List (Bool × Bytes)} {b : Bool → Buffer UInt8} {j : JobData}
  {written : List Message}

theorem line_setLine (j : JobData) (isError other : Bool) (text : Bytes) :
    (j.setLine isError text).line other = if other = isError then text else j.line other := by
  cases isError <;> cases other <;> rfl

theorem tracks_new (job : ℕ) (bufferOutput : Bool) (jobPrefix header : Bytes) :
    Tracks header [] (fun _ ↦ empty)
      (((JobData.new job bufferOutput jobPrefix).setJobHeader header), []) := by
  refine ⟨?_, rfl, fun _ ↦ rfl, fun _ ↦ rfl, fun isError ↦ ?_, fun _ ↦ List.not_mem_nil⟩
  · unfold headerMessages
    rw [if_pos (Or.inr rfl)]
    rfl
  · cases isError <;> rfl

/-- The messages go behind those that have been sent, and the lines stay as they are. -/
structure Delivers (written : List Message) (j : JobData) (r : JobData × List Message)
    (messages : List Message) : Prop where
  sent_eq : sent (r.1, written ++ r.2) = sent (j, written) ++ messages
  direct : r.1.bufferOutput = false → r.1.buffer = []
  line : ∀ isError, r.1.line isError = j.line isError

theorem deliver_delivers (written : List Message)
    (hdirect : j.bufferOutput = false → j.buffer = []) (isError : Bool)
    (text : Bytes) :
    Delivers written j (j.deliver isError text) [(messageType isError, text)] ∧
      (j.deliver isError text).1.jobHeader = j.jobHeader := by
  unfold JobData.deliver
  by_cases hbuffer : j.bufferOutput = true
  · rw [if_pos hbuffer]
    refine ⟨⟨?_, fun hfalse ↦ absurd hfalse (Bool.not_eq_false _ ▸ hbuffer), fun _ ↦ rfl⟩, rfl⟩
    unfold sent
    rw [List.append_nil, List.append_assoc]
  · have hnil := hdirect (eq_false_of_ne_true hbuffer)
    rw [if_neg hbuffer]
    refine ⟨⟨?_, fun _ ↦ hnil, fun _ ↦ rfl⟩, rfl⟩
    unfold sent
    rw [hnil, List.append_nil, List.append_nil]

theorem Delivers.deliver {r : JobData × List Message} {messages : List Message}
    (h : Delivers written j r messages) (isError : Bool) (text : Bytes) :
    Delivers written j ((r.1.deliver isError text).1, r.2 ++ (r.1.deliver isError text).2)
      (messages ++ [(messageType isError, text)]) := by
  obtain ⟨hlast, -⟩ := deliver_delivers (written ++ r.2) h.direct isError text
  refine ⟨?_, hlast.direct, fun other ↦ (hlast.line other).trans (h.line other)⟩
  rw [← List.append_assoc, hlast.sent_eq, h.sent_eq, List.append_assoc]

theorem lineMessages_append (lines : List (Bool × Bytes)) (isError : Bool) (text : Bytes) :
    lineMessages (lines ++ [(isError, text)]) =
      lineMessages lines ++ [(messageType isError, text)] := List.map_append

theorem ownLines_append (isError other : Bool) (lines : List (Bool × Bytes)) (text : Bytes) :
    ownLines other (lines ++ [(isError, text)]) =
      if other = isError then ownLines other lines ++ [text] else ownLines other lines := by
  unfold ownLines
  rw [List.filterMap_append]
  by_cases hother : isError = other
  · subst hother
    simp
  · simp [hother, Ne.symm hother]

/-- The header comes before the first line. -/
theorem handleMessage_delivers (written : List Message)
    (hjobHeader : j.jobHeader = if lines = [] then header else [])
    (hdirect : j.bufferOutput = false → j.buffer = []) (isError : Bool) (text : Bytes) :
    ∃ messages, Delivers written j (j.handleMessage isError text) messages ∧
      headerMessages header lines ++ lineMessages lines ++ messages =
        headerMessages header (lines ++ [(isError, text)]) ++
          lineMessages (lines ++ [(isError, text)]) ∧
      (j.handleMessage isError text).1.jobHeader = [] := by
  have hlines' : lines ++ [(isError, text)] ≠ [] :=
    List.append_ne_nil_of_right_ne_nil _ (List.cons_ne_nil _ _)
  unfold JobData.handleMessage
  rw [lineMessages_append]
  by_cases hempty : j.jobHeader = []
  · have hsame : headerMessages header (lines ++ [(isError, text)]) =
        headerMessages header lines := by
      unfold headerMessages
      by_cases hlines : lines = []
      · rw [if_pos hlines] at hjobHeader
        rw [← hjobHeader, if_pos (Or.inl hempty), if_pos (Or.inl hempty)]
      · exact if_congr (or_congr_right (iff_of_false hlines' hlines)) rfl rfl
    obtain ⟨hdelivers, hheader⟩ := deliver_delivers written hdirect isError text
    rw [if_pos (List.isEmpty_iff.mpr hempty)]
    exact ⟨_, hdelivers, by rw [hsame, List.append_assoc], hheader.trans hempty⟩
  · have hlines : lines = [] := by
      by_contra hlines
      rw [if_neg hlines] at hjobHeader
      exact hempty hjobHeader
    have hheader : j.jobHeader = header := by
      rw [hjobHeader, if_pos hlines]
    subst hlines
    have hfirst : headerMessages header [(isError, text)] = [(.info, header ++ [newline])] :=
      if_neg (not_or.mpr ⟨hheader ▸ hempty, List.cons_ne_nil _ _⟩)
    have hnone : headerMessages header [] = [] := if_pos (Or.inr rfl)
    obtain ⟨hheaderSent, hcleared⟩ :=
      deliver_delivers (j := j.setJobHeader []) written hdirect false
        (j.jobHeader ++ [newline])
    have hboth := hheaderSent.deliver isError text
    obtain ⟨-, hlast⟩ := deliver_delivers written hheaderSent.direct isError text
    rw [if_neg (mt List.isEmpty_iff.mp hempty)]
    refine ⟨_, ⟨hboth.sent_eq, hboth.direct, hboth.line⟩, ?_, hlast.trans hcleared⟩
    rw [List.nil_append, hfirst, hnone, hheader]
    rfl

/-! ### One call -/

@[simp] theorem setLine_jobHeader (j : JobData) (isError : Bool) (text : Bytes) :
    (j.setLine isError text).jobHeader = j.jobHeader := by
  cases isError <;> rfl

@[simp] theorem setLine_bufferOutput (j : JobData) (isError : Bool) (text : Bytes) :
    (j.setLine isError text).bufferOutput = j.bufferOutput := by
  cases isError <;> rfl

@[simp] theorem setLine_buffer (j : JobData) (isError : Bool) (text : Bytes) :
    (j.setLine isError text).buffer = j.buffer := by
  cases isError <;> rfl

/-- A line is sent, and the next one is empty. -/
theorem Tracks.completeLine (h : Tracks header lines b (j, written)) (isError : Bool)
    (text : Bytes) :
    Tracks header (lines ++ [(isError, text)])
      (Function.update b isError ⟨(b isError).completed ++ [text], []⟩)
      (((j.setLine isError text).completeLine isError).1,
        written ++ ((j.setLine isError text).completeLine isError).2) := by
  obtain ⟨messages, hdelivers, hmessages, hcleared⟩ :=
    handleMessage_delivers (j := j.setLine isError text) written
      ((setLine_jobHeader j isError text).trans h.jobHeader) (by simpa using h.direct) isError text
  have hsent := hdelivers.sent_eq
  have hdirect := hdelivers.direct
  have hline := hdelivers.line
  unfold JobData.completeLine
  rw [line_setLine, if_pos rfl]
  have hbefore : sent (j.setLine isError text, written) = sent (j, written) := by
    unfold sent
    rw [setLine_buffer]
  refine ⟨?_, ?_, ?_, fun other ↦ ?_, fun other ↦ ?_, fun other ↦ ?_⟩
  · rw [← hmessages, ← h.sent_eq, ← hbefore, ← hsent]
    unfold sent
    rw [setLine_buffer]
  · rw [setLine_jobHeader, hcleared, if_neg]
    exact List.append_ne_nil_of_right_ne_nil _ (List.cons_ne_nil _ _)
  · simpa using hdirect
  · rw [ownLines_append, Function.update_apply]
    split_ifs with hother
    · rw [hother, h.completed]
    · exact h.completed other
  · dsimp only
    rw [line_setLine, Function.update_apply]
    split_ifs with hother
    · rfl
    · rw [hline, line_setLine, if_neg hother]
      exact h.line other
  · rw [Function.update_apply]
    split_ifs
    · exact List.not_mem_nil
    · exact h.notMem other

theorem Tracks.addByte (h : Tracks header lines b (j, written)) (isError : Bool) (c : UInt8) :
    ∃ lines', Tracks header lines'
      (Function.update b isError (add newline (b isError) c))
      ((j.addByte isError c).1, written ++ (j.addByte isError c).2) := by
  have hline : j.line isError = (b isError).line := h.line isError
  unfold JobData.addByte LineBuffer.add
  by_cases hc : c = newline
  · rw [if_pos hc, if_pos hc, hline]
    exact ⟨_, h.completeLine isError ((b isError).line ++ [c])⟩
  · rw [if_neg hc, if_neg hc, hline]
    refine ⟨lines, ?_, ?_, ?_, fun other ↦ ?_, fun other ↦ ?_, fun other ↦ ?_⟩
    · rw [← h.sent_eq, List.append_nil]
      unfold sent
      rw [setLine_buffer]
    · rw [setLine_jobHeader]
      exact h.jobHeader
    · simpa using h.direct
    · rw [Function.update_apply]
      split_ifs with hother
      · rw [hother]
        exact h.completed isError
      · exact h.completed other
    · rw [line_setLine, Function.update_apply]
      split_ifs
      · rfl
      · exact h.line other
    · rw [Function.update_apply]
      split_ifs
      · intro hmem
        rcases List.mem_append.mp hmem with hmem | hmem
        · exact h.notMem isError hmem
        · exact hc (List.mem_singleton.mp hmem).symm
      · exact h.notMem other

theorem marker_notMem : newline ∉ marker := by decide

/-- Data is added to its stream, and a call without data ends the line. -/
theorem Tracks.handleOutput (h : Tracks header lines b (j, written)) (isError : Bool)
    (data : Bytes) :
    ∃ lines', Tracks header lines'
      (Function.update b isError (feed newline marker (b isError) data))
      ((j.handleOutput isError data).1, written ++ (j.handleOutput isError data).2) := by
  have hline : j.line isError = (b isError).line := h.line isError
  unfold JobData.handleOutput feed
  by_cases hdata : data = []
  · rw [if_pos hdata, if_pos hdata]
    unfold finish
    by_cases hnil : (b isError).line = []
    · rw [if_pos hnil, hline, hnil, Function.update_eq_self]
      exact ⟨lines, by simpa using h⟩
    · have hopen : (b isError).line ≠ [] ∧ (b isError).line.getLast? ≠ some newline :=
        ⟨hnil, fun hlast ↦ h.notMem isError (List.mem_of_getLast? hlast)⟩
      have hne : (b isError).line ++ noNewline ≠ [] := List.append_ne_nil_of_left_ne_nil hnil _
      rw [if_neg hnil, hline]
      dsimp only
      rw [if_pos hopen, if_pos hne]
      exact ⟨_, h.completeLine isError ((b isError).line ++ noNewline)⟩
  · rw [if_neg hdata, if_neg hdata]
    clear hline hdata
    suffices hfold : ∀ (data : Bytes) (lines : List (Bool × Bytes)) (b : Bool → Buffer UInt8)
        (j : JobData) (written before : List Message),
        Tracks header lines b (j, written ++ before) →
          ∃ lines', Tracks header lines'
            (Function.update b isError (data.foldl (add newline) (b isError)))
            ((data.foldl (fun (j, written) c ↦
              let (j, more) := j.addByte isError c
              (j, written ++ more)) (j, before)).1,
              written ++ (data.foldl (fun (j, written) c ↦
                let (j, more) := j.addByte isError c
                (j, written ++ more)) (j, before)).2) from
      hfold data lines b j written [] (by rwa [List.append_nil])
    intro data
    induction data with
    | nil =>
      intro lines b j written before h
      refine ⟨lines, ?_⟩
      rwa [List.foldl_nil, Function.update_eq_self]
    | cons c data ih =>
      intro lines b j written before h
      obtain ⟨lines₁, h₁⟩ := h.addByte isError c
      rw [List.append_assoc] at h₁
      obtain ⟨lines₂, h₂⟩ := ih _ _ _ _ _ h₁
      rw [Function.update_self, Function.update_idem] at h₂
      exact ⟨lines₂, h₂⟩

theorem Tracks.flush (h : Tracks header lines b (j, written)) :
    ∃ lines', Tracks header lines' (fun isError ↦ finish newline marker (b isError))
      ((j.flush).1, written ++ (j.flush).2) := by
  obtain ⟨lines₁, h₁⟩ := h.handleOutput false []
  obtain ⟨lines₂, h₂⟩ := h₁.handleOutput true []
  have hboth : Function.update (Function.update b false (feed newline marker (b false) [])) true
      (feed newline marker (Function.update b false (feed newline marker (b false) []) true) []) =
        fun isError ↦ finish newline marker (b isError) := by
    funext isError
    cases isError <;> rfl
  rw [hboth] at h₂
  refine ⟨lines₂, ?_, h₂.jobHeader, fun _ ↦ rfl, h₂.completed, fun isError ↦ ?_, h₂.notMem⟩
  · rw [← h₂.sent_eq]
    unfold JobData.flush sent
    simp only [List.append_assoc, List.append_nil]
  · rw [← h₂.line isError]
    rfl

/-! ### All calls -/

theorem run_append (j : JobData) (calls : List JobCall) (c : JobCall) :
    j.run (calls ++ [c]) =
      (((j.run calls).1.call c).1, (j.run calls).2 ++ ((j.run calls).1.call c).2) := by
  unfold JobData.run
  rw [List.foldl_append]
  rfl

theorem chunksOf_append (isError : Bool) (calls : List JobCall) (c : JobCall) :
    chunksOf isError (calls ++ [c]) = chunksOf isError calls ++ chunksOf isError [c] :=
  List.flatMap_append

theorem run_tracks (job : ℕ) (bufferOutput : Bool) (jobPrefix header : Bytes)
    (calls : List JobCall) :
    ∃ lines, Tracks header lines
      (fun isError ↦ (chunksOf isError calls).foldl (feed newline marker) empty)
      (((JobData.new job bufferOutput jobPrefix).setJobHeader header).run calls) := by
  induction calls using List.reverseRecOn with
  | nil => exact ⟨[], tracks_new job bufferOutput jobPrefix header⟩
  | append_singleton calls c ih =>
    obtain ⟨lines, h⟩ := ih
    rw [run_append]
    simp only [chunksOf_append, List.foldl_append]
    cases c with
    | handleOutput isError data =>
      have hstreams : (fun other ↦ (chunksOf other [.handleOutput isError data]).foldl
          (feed newline marker) ((chunksOf other calls).foldl (feed newline marker) empty)) =
          Function.update (fun other ↦ (chunksOf other calls).foldl (feed newline marker) empty)
            isError (feed newline marker
              ((chunksOf isError calls).foldl (feed newline marker) empty) data) := by
        funext other
        rw [Function.update_apply]
        by_cases hother : other = isError
        · rw [if_pos hother, hother]
          simp [chunksOf]
        · rw [if_neg hother]
          simp [chunksOf, Ne.symm hother]
      rw [hstreams]
      exact h.handleOutput isError data
    | flush => exact h.flush

/-- What a job has sent after any calls is its header and lines of its two streams. If a stream
has been ended, its lines are those of its data, with the marker where the data does not end with
a newline; they do not depend on the chunks, on the other stream, and on whether the job is
buffered. -/
theorem completedLines_spec (job : ℕ) (bufferOutput : Bool) (jobPrefix header : Bytes)
    (calls : List JobCall) :
    ∃ lines : List (Bool × Bytes),
      sent (((JobData.new job bufferOutput jobPrefix).setJobHeader header).run calls) =
        headerMessages header lines ++ lineMessages lines ∧
      ∀ (isError : Bool) (chunks : List Bytes) (n : ℕ),
        chunksOf isError calls = chunks ++ List.replicate (n + 1) [] →
        (∀ chunk ∈ chunks, chunk ≠ []) →
          ownLines isError lines = Lines.lines newline (endText newline marker chunks.flatten) ∧
          (∀ line ∈ ownLines isError lines, line.getLast? = some newline) ∧
          (ownLines isError lines).flatten =
            if chunks.flatten = [] ∨ chunks.flatten.getLast? = some newline then chunks.flatten
            else chunks.flatten ++ noNewline := by
  obtain ⟨lines, h⟩ := run_tracks job bufferOutput jobPrefix header calls
  refine ⟨lines, h.sent_eq, fun isError chunks n hcalls hchunks ↦ ?_⟩
  have hlines : ownLines isError lines =
      Lines.lines newline (endText newline marker chunks.flatten) := by
    rw [h.completed isError, hcalls, feed_chunks hchunks marker_notMem]
  refine ⟨hlines, ?_, ?_⟩
  · rw [hlines]
    exact getLast?_of_mem_lines chunks.flatten
  · rw [hlines, Lines.flatten_lines]
    rfl

/-- The theorem, for a line that comes in two chunks with an error line between them, and a last
line that is not ended. -/
theorem completedLines_spec_split :
    ∃ lines : List (Bool × Bytes),
      sent (((JobData.new 1 true (ascii "1 ")).setJobHeader (ascii "h")).run
        [.handleOutput false (ascii "a"), .handleOutput true (ascii "e\n"),
          .handleOutput false (ascii "b\nc"), .flush]) =
        headerMessages (ascii "h") lines ++ lineMessages lines ∧
      (ownLines false lines).flatten = ascii "ab\nc[no newline]\n" := by
  obtain ⟨lines, hsent, hlines⟩ := completedLines_spec 1 true (ascii "1 ") (ascii "h")
    [.handleOutput false (ascii "a"), .handleOutput true (ascii "e\n"),
      .handleOutput false (ascii "b\nc"), .flush]
  obtain ⟨-, -, htext⟩ := hlines false [ascii "a", ascii "b\nc"] 0 (by decide) (by decide)
  exact ⟨lines, hsent, htext.trans (by decide)⟩

end Abuild.Logger
