import Abuild.Logger.Lines
import Abuild.Logger.Locks

/-!
What a job has to say. Of a job only its header and the lines that are begun on its two streams
matter for the messages that its calls complete; whether these are kept or written does not
(`Tells`). A flush completes the lines that are begun, output first.
-/

set_option autoImplicit false
set_option relaxedAutoImplicit false

namespace Abuild.Logger

open LineBuffer

/-- The messages that have been completed through a job, and what the next ones depend on. -/
structure Talk where
  header : Bytes
  line : Bool → Bytes
  said : List Message

namespace Talk

def new : Talk := ⟨[], fun _ ↦ [], []⟩

/-- Some lines are completed, with the header before the first one. -/
def say (t : Talk) (lines : List (Bool × Bytes)) : Talk where
  header := if lines = [] then t.header else []
  line := t.line
  said := t.said ++ (headerMessages t.header lines ++ lineMessages lines)

/-- The lines that a buffer has completed are those of a stream, which goes on with the rest. -/
def take (t : Talk) (isError : Bool) (b : Buffer UInt8) : Talk :=
  { t.say (b.completed.map (isError, ·)) with line := Function.update t.line isError b.line }

def handleOutput (t : Talk) (isError : Bool) (data : Bytes) : Talk :=
  t.take isError (feed newline marker ⟨[], t.line isError⟩ data)

/-- What a call does that uses the job. -/
def call (t : Talk) : Call → Talk
  | .setJobHeader _ header => { t with header }
  | .handleOutput _ isError data => t.handleOutput isError data
  | .log isError message _ => t.say [(isError, message ++ [newline])]
  | .closeJob _ => (t.handleOutput false []).handleOutput true []
  | .requestJobHandle _ _ => t
  | .getOutputHandler _ => t

theorem headerMessages_append (header : Bytes) (lines lines' : List (Bool × Bytes)) :
    headerMessages header lines ++ lineMessages lines ++
        (headerMessages (if lines = [] then header else []) lines' ++ lineMessages lines') =
      headerMessages header (lines ++ lines') ++ lineMessages (lines ++ lines') := by
  by_cases hlines : lines = []
  · simp [hlines, headerMessages, lineMessages]
  · have hsame : headerMessages header (lines ++ lines') = headerMessages header lines :=
      if_congr (or_congr_right (by simp [hlines])) rfl rfl
    have hnone : headerMessages [] lines' = [] := if_pos (Or.inl rfl)
    rw [if_neg hlines, hsame, hnone, List.nil_append, List.append_assoc]
    exact congrArg _ List.map_append.symm

end Talk

/-- The job has begun the lines that it has to. -/
structure Refines (t : Talk) (j : JobData) : Prop where
  jobHeader : j.jobHeader = t.header
  line : ∀ isError, j.line isError = t.line isError
  notMem : ∀ isError, newline ∉ t.line isError

/-- A step of a job tells what it says: it keeps it, or writes it at once. -/
structure Tells (j : JobData) (lines : List (Bool × Bytes)) (r : JobData × List Message) :
    Prop where
  bufferOutput : r.1.bufferOutput = j.bufferOutput
  jobPrefix : r.1.jobPrefix = j.jobPrefix
  jobHeader : r.1.jobHeader = if lines = [] then j.jobHeader else []
  kept : j.bufferOutput = true →
    r.1.buffer = j.buffer ++ (headerMessages j.jobHeader lines ++ lineMessages lines) ∧ r.2 = []
  written : j.bufferOutput = false →
    r.1.buffer = j.buffer ∧ r.2 = headerMessages j.jobHeader lines ++ lineMessages lines

variable {t : Talk} {j : JobData} {lines lines' : List (Bool × Bytes)}
  {r r' : JobData × List Message}

theorem tells_nil (j : JobData) : Tells j [] (j, []) := by
  have hnone : headerMessages j.jobHeader [] ++ lineMessages [] = [] := by
    simp [headerMessages, lineMessages]
  refine ⟨rfl, rfl, rfl, fun _ ↦ ⟨?_, rfl⟩, fun _ ↦ ⟨rfl, hnone.symm⟩⟩
  rw [hnone, List.append_nil]

theorem Tells.append (h : Tells j lines r) (h' : Tells r.1 lines' r') :
    Tells j (lines ++ lines') (r'.1, r.2 ++ r'.2) := by
  have hmessages := Talk.headerMessages_append j.jobHeader lines lines'
  rw [← h.jobHeader] at hmessages
  refine ⟨h'.bufferOutput.trans h.bufferOutput, h'.jobPrefix.trans h.jobPrefix, ?_,
    fun hbuffer ↦ ?_, fun hbuffer ↦ ?_⟩
  · rw [h'.jobHeader, h.jobHeader]
    by_cases hlines : lines = []
    · simp [hlines]
    · simp [hlines]
  · obtain ⟨hkept, hnone⟩ := h.kept hbuffer
    obtain ⟨hkept', hnone'⟩ := h'.kept (h.bufferOutput.trans hbuffer)
    rw [hkept', hkept, hnone, hnone', List.append_assoc, hmessages]
    exact ⟨rfl, rfl⟩
  · obtain ⟨hkept, hwritten⟩ := h.written hbuffer
    obtain ⟨hkept', hwritten'⟩ := h'.written (h.bufferOutput.trans hbuffer)
    rw [hwritten, hwritten', hmessages]
    exact ⟨hkept'.trans hkept, rfl⟩

/-! ### Steps of a job -/

theorem Tells.of_setLine {isError : Bool} {text : Bytes}
    (h : Tells (j.setLine isError text) lines r) : Tells j lines r := by
  refine ⟨?_, ?_, ?_, ?_, ?_⟩
  · simpa using h.bufferOutput
  · rw [h.jobPrefix]
    cases isError <;> rfl
  · simpa using h.jobHeader
  · simpa using h.kept
  · simpa using h.written

theorem Tells.setLine (h : Tells j lines r) (isError : Bool) (text : Bytes) :
    Tells j lines (r.1.setLine isError text, r.2) := by
  refine ⟨?_, ?_, ?_, ?_, ?_⟩
  · simpa using h.bufferOutput
  · rw [← h.jobPrefix]
    cases isError <;> rfl
  · simpa using h.jobHeader
  · simpa using h.kept
  · simpa using h.written

theorem handleMessage_tells (j : JobData) (isError : Bool) (text : Bytes) :
    Tells j [(isError, text)] (j.handleMessage isError text) ∧
      ∀ other, (j.handleMessage isError text).1.line other = j.line other := by
  have hlines : lineMessages [(isError, text)] = [(messageType isError, text)] := rfl
  unfold JobData.handleMessage
  by_cases hheader : j.jobHeader = []
  · have hnone : headerMessages j.jobHeader [(isError, text)] = [] := if_pos (Or.inl hheader)
    rw [if_pos (List.isEmpty_iff.mpr hheader)]
    unfold JobData.deliver
    by_cases hbuffer : j.bufferOutput = true
    · simp only [if_pos hbuffer]
      refine ⟨⟨rfl, rfl, by simpa using hheader, fun _ ↦ ⟨?_, rfl⟩, fun hfalse ↦ ?_⟩, fun _ ↦ rfl⟩
      · rw [hnone, hlines]
        rfl
      · exact absurd hbuffer (Bool.not_eq_true _ ▸ hfalse)
    · simp only [if_neg hbuffer]
      refine ⟨⟨rfl, rfl, by simpa using hheader, fun htrue ↦ absurd htrue hbuffer,
        fun _ ↦ ⟨rfl, ?_⟩⟩, fun _ ↦ trivial⟩
      rw [hnone, hlines]
  · have hfirst : headerMessages j.jobHeader [(isError, text)] =
        [(.info, j.jobHeader ++ [newline])] := if_neg (by simp [hheader])
    rw [if_neg (mt List.isEmpty_iff.mp hheader)]
    unfold JobData.deliver JobData.setJobHeader
    by_cases hbuffer : j.bufferOutput = true
    · simp only [if_pos hbuffer]
      refine ⟨⟨rfl, rfl, rfl, fun _ ↦ ⟨?_, rfl⟩, fun hfalse ↦ ?_⟩, fun _ ↦ rfl⟩
      · rw [hfirst, hlines, List.append_assoc]
        rfl
      · exact absurd hbuffer (Bool.not_eq_true _ ▸ hfalse)
    · simp only [if_neg hbuffer]
      refine ⟨⟨rfl, rfl, rfl, fun htrue ↦ absurd htrue hbuffer, fun _ ↦ ⟨rfl, ?_⟩⟩, fun _ ↦ rfl⟩
      rw [hfirst, hlines]
      rfl

/-- A buffer takes what a job does on one stream. -/
structure Fed (j : JobData) (isError : Bool) (b : Buffer UInt8) (r : JobData × List Message) :
    Prop where
  tells : Tells j (b.completed.map (isError, ·)) r
  line : ∀ other, r.1.line other = Function.update j.line isError b.line other

theorem completeLine_fed (j : JobData) (isError : Bool) (text : Bytes) :
    Fed j isError ⟨[text], []⟩ ((j.setLine isError text).completeLine isError) := by
  have hline : (j.setLine isError text).line isError = text := by
    rw [line_setLine, if_pos rfl]
  obtain ⟨htells, hsame⟩ := handleMessage_tells (j.setLine isError text) isError text
  unfold JobData.completeLine
  rw [hline]
  refine ⟨htells.of_setLine.setLine isError [], fun other ↦ ?_⟩
  rw [line_setLine, Function.update_apply]
  split_ifs with hother
  · rfl
  · rw [hsame, line_setLine, if_neg hother]

theorem addByte_fed (j : JobData) (isError : Bool) (c : UInt8) :
    Fed j isError (add newline ⟨[], j.line isError⟩ c) (j.addByte isError c) := by
  unfold JobData.addByte LineBuffer.add
  by_cases hc : c = newline
  · rw [if_pos hc, if_pos hc]
    exact completeLine_fed j isError _
  · rw [if_neg hc, if_neg hc]
    refine ⟨(tells_nil j).setLine isError _, fun other ↦ ?_⟩
    rw [line_setLine, Function.update_apply]

theorem handleOutput_fed (j : JobData) (isError : Bool) (data : Bytes)
    (hnotMem : newline ∉ j.line isError) :
    Fed j isError (feed newline marker ⟨[], j.line isError⟩ data)
    (j.handleOutput isError data) := by
  unfold JobData.handleOutput feed
  by_cases hdata : data = []
  · rw [if_pos hdata, if_pos hdata]
    unfold finish
    by_cases hnil : j.line isError = []
    · have hsame : Fed j isError ⟨[], j.line isError⟩ (j, []) :=
        ⟨tells_nil j, fun other ↦ by rw [Function.update_eq_self]⟩
      rw [if_pos hnil]
      simpa [hnil] using hsame
    · have hopen : j.line isError ≠ [] ∧ (j.line isError).getLast? ≠ some newline :=
        ⟨hnil, fun hlast ↦ hnotMem (List.mem_of_getLast? hlast)⟩
      have hne : j.line isError ++ noNewline ≠ [] := List.append_ne_nil_of_left_ne_nil hnil _
      rw [if_neg hnil]
      dsimp only
      rw [if_pos hopen, if_pos hne]
      exact completeLine_fed j isError _
  · rw [if_neg hdata, if_neg hdata]
    clear hdata hnotMem
    -- the messages of the bytes before go in front
    suffices hfold : ∀ (data : Bytes) (j j' : JobData) (b : Buffer UInt8) (written : List Message),
        Fed j isError b (j', written) →
          Fed j isError (data.foldl (add newline) b) (data.foldl (fun r c ↦
            ((r.1.addByte isError c).1, r.2 ++ (r.1.addByte isError c).2)) (j', written)) by
      refine hfold data j j ⟨[], j.line isError⟩ [] ⟨tells_nil j, fun other ↦ ?_⟩
      rw [Function.update_eq_self]
    intro data
    induction data with
    | nil => exact fun _ _ _ _ h ↦ h
    | cons c data ih =>
      intro j j' b written h
      have hbyte := addByte_fed j' isError c
      have hline : j'.line isError = b.line := by
        rw [h.line, Function.update_self]
      rw [hline] at hbyte
      have hadd : [c].foldl (add newline) ⟨b.completed, b.line⟩ =
          ⟨b.completed ++ ([c].foldl (add newline) ⟨[], b.line⟩).completed,
            ([c].foldl (add newline) ⟨[], b.line⟩).line⟩ := foldl_add b.completed b.line [c]
      have hboth : Fed j isError (add newline b c)
          ((j'.addByte isError c).1, written ++ (j'.addByte isError c).2) := by
        show Fed j isError ([c].foldl (add newline) ⟨b.completed, b.line⟩) _
        rw [hadd]
        refine ⟨?_, fun other ↦ ?_⟩
        · rw [List.map_append]
          exact h.tells.append hbyte.tells
        · refine (hbyte.line other).trans ?_
          rw [Function.update_apply, Function.update_apply]
          split_ifs with hother
          · rfl
          · rw [h.line, Function.update_of_ne hother]
      exact ih j _ _ _ hboth

/-! ### Calls -/

/-- A call that a stream makes refines what the talk takes. -/
theorem Refines.handleOutput (h : Refines t j) (isError : Bool) (data : Bytes) :
    Refines (t.handleOutput isError data) (j.handleOutput isError data).1 ∧
      Tells j ((feed newline marker ⟨[], t.line isError⟩ data).completed.map (isError, ·))
        (j.handleOutput isError data) := by
  have hline := h.line isError
  obtain ⟨htells, hlines⟩ := handleOutput_fed j isError data (hline ▸ h.notMem isError)
  rw [hline] at htells hlines
  refine ⟨⟨?_, fun other ↦ ?_, fun other ↦ ?_⟩, htells⟩
  · rw [htells.jobHeader, h.jobHeader]
    rfl
  · rw [hlines, funext h.line]
    rfl
  · show newline ∉ Function.update t.line isError _ other
    rw [Function.update_apply]
    split_ifs
    · exact (feed_ended (h.notMem isError) marker_notMem data).2
    · exact h.notMem other

end Abuild.Logger
