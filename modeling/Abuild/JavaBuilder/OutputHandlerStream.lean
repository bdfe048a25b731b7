import Abuild.JavaBuilder

/-!
The two streams that the Java side redirects its output to (`OutputHandlerStream.java`), as the
print streams over them are used by the threads of its jobs. A write is atomic and flushes the
stream at its end, but for a single byte that is not a newline. The number of a message is that of
the job whose thread flushes, so that bytes that wait must be those of its own job, and they are
lost when that thread is interrupted (`delivers_iff`). All output is ASCII.
-/

set_option autoImplicit false
set_option relaxedAutoImplicit false

namespace Abuild.OutputHandlerStream

abbrev AsciiByte := Fin 128

/-- A message on the queue of the responder. -/
structure DataMessage where
  number : Fin intLimit
  isError : Bool
  data : List AsciiByte
deriving DecidableEq, Repr

inductive Write
  | byte (b : AsciiByte)
  | bytes (data : List AsciiByte)
deriving DecidableEq, Repr

def Write.data : Write → List AsciiByte
  | .byte b => [b]
  | .bytes data => data

def Write.flushes : Write → Bool
  | .byte b => b = 10
  | .bytes _ => true

/-- A byte with the job of the thread that has written it, which the streams do not know. -/
structure Written where
  number : Fin intLimit
  byte : AsciiByte
deriving DecidableEq, Repr

/-- The thread groups of the pool with their jobs, the stream for each kind of output, the one for
errors at `true`, and the messages that have been put on the queue. -/
structure Streams (γ : Type) where
  job : γ → Option (Fin intLimit)
  buffers : Bool → List Written
  sent : List DataMessage
  /-- All that has been written. -/
  written : Bool → List Written

/-- A thread may be interrupted when it puts a message on the queue. -/
inductive Action (γ : Type)
  | setJob (group : γ) (job : Option (Fin intLimit))
  | write (group : Option γ) (isError : Bool) (write : Write) (interrupted : Bool)
  | flush (group : Option γ) (isError : Bool) (interrupted : Bool)

section

variable {γ : Type}

def Streams.start (γ : Type) : Streams γ where
  job _ := none
  buffers _ := []
  sent := []
  written _ := []

/-- The number that `sendOutput` finds for a thread, whose group may be none of the pool. -/
def Streams.number (s : Streams γ) (group : Option γ) : Fin intLimit :=
  (group.bind s.job).getD ⟨0, by decide⟩

/-- `none` stands for an `InterruptedException`. -/
def sendOutput (s : Streams γ) (group : Option γ) (isError interrupted : Bool)
    (data : List AsciiByte) : Option (Streams γ) :=
  if data.length > 0 then
    if interrupted then none
    else some { s with sent := s.sent ++ [⟨s.number group, isError, data⟩] }
  else some s

def flush (s : Streams γ) (group : Option γ) (isError interrupted : Bool) : Streams γ :=
  let record := (s.buffers isError).map Written.byte
  let s := { s with buffers := Function.update s.buffers isError [] }
  -- The print stream keeps the `IOException` to itself that is made of the exception.
  (sendOutput s group isError interrupted record).getD s

def write (s : Streams γ) (group : Option γ) (isError : Bool) (w : Write) (interrupted : Bool) :
    Streams γ :=
  let new := w.data.map (Written.mk (s.number group))
  let s := { s with
    buffers := Function.update s.buffers isError (s.buffers isError ++ new)
    written := Function.update s.written isError (s.written isError ++ new) }
  if w.flushes then flush s group isError interrupted else s

def Streams.step [DecidableEq γ] (s : Streams γ) : Action γ → Streams γ
  | .setJob group job => { s with job := Function.update s.job group job }
  | .write group isError w interrupted => write s group isError w interrupted
  | .flush group isError interrupted => flush s group isError interrupted

def run [DecidableEq γ] (actions : List (Action γ)) : Streams γ :=
  actions.foldl Streams.step (.start γ)

/-! ### Delivery -/

/-- The bytes of a job. -/
def bytesOf (number : Fin intLimit) (l : List Written) : List AsciiByte :=
  (l.filter fun w ↦ w.number = number).map Written.byte

/-- The bytes in the messages of a job from one of the streams. -/
def Streams.delivered (s : Streams γ) (number : Fin intLimit) (isError : Bool) : List AsciiByte :=
  (s.sent.filter fun m ↦ m.number = number && m.isError = isError).flatMap DataMessage.data

/-- What every job has written has been delivered, in order, but for the bytes that wait. -/
def Streams.Delivers (s : Streams γ) : Prop :=
  ∀ number isError, s.delivered number isError ++ bytesOf number (s.buffers isError) =
    bytesOf number (s.written isError)

/-- A flush of a stream: the job of its thread, and the bytes that wait in the stream then. -/
structure Flush where
  isError : Bool
  number : Fin intLimit
  waiting : List Written
  interrupted : Bool

def Streams.flushed (s : Streams γ) : Action γ → Option Flush
  | .setJob _ _ => none
  | .write group isError w interrupted =>
    if w.flushes then
      some ⟨isError, s.number group,
        s.buffers isError ++ w.data.map (Written.mk (s.number group)), interrupted⟩
    else none
  | .flush group isError interrupted =>
    some ⟨isError, s.number group, s.buffers isError, interrupted⟩

/-- All bytes that wait are those of the job of the thread, which is not interrupted when it sends
some. -/
structure Flush.OwnBytes (f : Flush) : Prop where
  number : ∀ w ∈ f.waiting, w.number = f.number
  interrupted : f.interrupted = true → f.waiting = []

def Streams.OwnBytes (s : Streams γ) (action : Action γ) : Prop :=
  ∀ f, s.flushed action = some f → f.OwnBytes

variable {s : Streams γ} {group : Option γ} {isError isError' interrupted : Bool}
  {number : Fin intLimit}

theorem bytesOf_append (l l' : List Written) :
    bytesOf number (l ++ l') = bytesOf number l ++ bytesOf number l' := by
  unfold bytesOf
  rw [List.filter_append, List.map_append]

theorem bytesOf_nil : bytesOf number [] = [] := rfl

theorem bytesOf_eq_map_iff {l : List Written} :
    bytesOf number l = l.map Written.byte ↔ ∀ w ∈ l, w.number = number := by
  constructor
  · intro heq w hw
    have hlength := congrArg List.length heq
    unfold bytesOf at hlength
    rw [List.length_map, List.length_map, List.length_filter_eq_length_iff] at hlength
    exact of_decide_eq_true (hlength w hw)
  · intro hall
    unfold bytesOf
    rw [List.filter_eq_self.mpr fun w hw ↦ decide_eq_true (hall w hw)]

theorem bytesOf_eq_nil {l : List Written} {number' : Fin intLimit}
    (hall : ∀ w ∈ l, w.number = number') (hne : ¬ number' = number) : bytesOf number l = [] := by
  unfold bytesOf
  rw [List.filter_eq_nil_iff.mpr fun w hw ↦ ?_]
  · rfl
  · rw [hall w hw]
    simpa using hne

/-! ### A flush -/

/-- A flush without an interruption sends what waits. -/
theorem delivered_flush : (flush s group isError' false).delivered number isError =
    s.delivered number isError ++ if s.number group = number ∧ isError' = isError then
      (s.buffers isError').map Written.byte else [] := by
  have hdelivered : ∀ (s : Streams γ) (data : List AsciiByte),
      ((sendOutput s group isError' false data).getD s).delivered number isError =
        s.delivered number isError ++ if s.number group = number ∧ isError' = isError then data
          else [] := by
    intro s data
    unfold sendOutput
    by_cases hlength : data.length > 0
    · rw [if_pos hlength, if_neg Bool.false_ne_true, Option.getD_some]
      unfold Streams.delivered
      rw [List.filter_append, List.flatMap_append]
      by_cases hboth : s.number group = number ∧ isError' = isError
      · rw [if_pos hboth, List.filter_cons_of_pos (by simpa using hboth)]
        simp
      · rw [if_neg hboth, List.filter_cons_of_neg (by simpa using hboth)]
        simp
    · have hnil : data = [] := List.length_eq_zero_iff.mp (Nat.eq_zero_of_not_pos hlength)
      rw [if_neg hlength, Option.getD_some, hnil, ite_self, List.append_nil]
  exact hdelivered _ _

theorem flush_of_nil (hnil : s.buffers isError = []) (group : Option γ) (interrupted : Bool) :
    flush s group isError interrupted = flush s group isError false := by
  unfold flush sendOutput
  rw [hnil]
  rfl

/-- An interrupted thread sends nothing. -/
theorem sent_flush_interrupted : (flush s group isError true).sent = s.sent := by
  have hsent : ∀ (s : Streams γ) (data : List AsciiByte),
      ((sendOutput s group isError true data).getD s).sent = s.sent := by
    intro s data
    unfold sendOutput
    by_cases hlength : data.length > 0
    · rw [if_pos hlength, if_pos rfl, Option.getD_none]
    · rw [if_neg hlength, Option.getD_some]
  exact hsent _ _

theorem sendOutput_buffers (s : Streams γ) (data : List AsciiByte) :
    ((sendOutput s group isError interrupted data).getD s).buffers = s.buffers ∧
      ((sendOutput s group isError interrupted data).getD s).written = s.written := by
  unfold sendOutput
  split_ifs <;> exact ⟨rfl, rfl⟩

theorem buffers_flush : (flush s group isError' interrupted).buffers =
    Function.update s.buffers isError' [] :=
  (sendOutput_buffers _ _).1

theorem written_flush : (flush s group isError' interrupted).written = s.written :=
  (sendOutput_buffers _ _).2

/-- A flush delivers what waits, to the job of its thread. -/
theorem delivers_flush_false_iff (h : s.Delivers) : (flush s group isError' false).Delivers ↔
    ∀ w ∈ s.buffers isError', w.number = s.number group := by
  unfold Streams.Delivers
  simp only [delivered_flush, buffers_flush, written_flush]
  constructor
  · intro hall
    have hown := hall (s.number group) isError'
    rw [if_pos ⟨rfl, rfl⟩, Function.update_self, ← h (s.number group) isError', List.append_assoc,
      List.append_cancel_left_eq] at hown
    refine bytesOf_eq_map_iff.mp ?_
    rw [← hown, bytesOf_nil, List.append_nil]
  · intro hall number isError
    by_cases hstream : isError' = isError
    · subst hstream
      rw [Function.update_self]
      by_cases hnumber : s.number group = number
      · subst hnumber
        rw [if_pos ⟨rfl, rfl⟩, ← h, bytesOf_eq_map_iff.mpr hall, bytesOf_nil, List.append_nil]
      · rw [if_neg fun hboth ↦ hnumber hboth.1, ← h, bytesOf_eq_nil hall hnumber, bytesOf_nil,
          List.append_nil]
    · rw [if_neg fun hboth ↦ hstream hboth.2, Function.update_of_ne (Ne.symm hstream),
        List.append_nil, h]

/-- What waits for an interrupted thread is lost. -/
theorem waiting_eq_nil_of_interrupted (h : s.Delivers)
    (hflush : (flush s group isError' true).Delivers) : s.buffers isError' = [] := by
  refine List.eq_nil_iff_forall_not_mem.mpr fun w hw ↦ ?_
  have hlost := hflush w.number isError'
  have hdelivered : (flush s group isError' true).delivered w.number isError' =
      s.delivered w.number isError' := by
    unfold Streams.delivered
    rw [sent_flush_interrupted]
  rw [hdelivered, buffers_flush, written_flush, Function.update_self, ← h, bytesOf_nil,
    List.append_cancel_left_eq] at hlost
  have hmem : w.byte ∈ bytesOf w.number (s.buffers isError') :=
    List.mem_map_of_mem (List.mem_filter.mpr ⟨hw, decide_eq_true rfl⟩)
  rw [← hlost] at hmem
  cases hmem

theorem delivers_flush_iff (h : s.Delivers) : (flush s group isError' interrupted).Delivers ↔
    (⟨isError', s.number group, s.buffers isError', interrupted⟩ : Flush).OwnBytes := by
  constructor
  · intro hflush
    cases interrupted with
    | false => exact ⟨(delivers_flush_false_iff h).mp hflush, fun hfalse ↦ by cases hfalse⟩
    | true =>
      have hnil := waiting_eq_nil_of_interrupted h hflush
      refine ⟨fun w hw ↦ ?_, fun _ ↦ hnil⟩
      rw [hnil] at hw
      cases hw
  · rintro ⟨hnumber, hinterrupted⟩
    have hflush : (flush s group isError' false).Delivers :=
      (delivers_flush_false_iff h).mpr hnumber
    cases interrupted with
    | false => exact hflush
    | true =>
      rw [flush_of_nil (hinterrupted rfl)]
      exact hflush

/-! ### Writes -/

/-- The streams after bytes have been written and before they are flushed. -/
def append (s : Streams γ) (isError : Bool) (new : List Written) : Streams γ :=
  { s with
    buffers := Function.update s.buffers isError (s.buffers isError ++ new)
    written := Function.update s.written isError (s.written isError ++ new) }

theorem Streams.Delivers.append (h : s.Delivers) (new : List Written) :
    (append s isError' new).Delivers := by
  intro number isError
  show s.delivered number isError ++
    bytesOf number (Function.update s.buffers isError' _ isError) =
      bytesOf number (Function.update s.written isError' _ isError)
  by_cases hstream : isError = isError'
  · subst hstream
    rw [Function.update_self, Function.update_self, bytesOf_append, bytesOf_append,
      ← List.append_assoc, h]
  · rw [Function.update_of_ne hstream, Function.update_of_ne hstream, h]

theorem ownBytes_iff_of_flushed [DecidableEq γ] {action : Action γ} {f : Flush}
    (hflushed : s.flushed action = some f) : s.OwnBytes action ↔ f.OwnBytes := by
  unfold Streams.OwnBytes
  rw [hflushed]
  exact ⟨fun hall ↦ hall f rfl, fun hown f' heq ↦ Option.some.inj heq ▸ hown⟩

theorem step_delivers_iff [DecidableEq γ] (h : s.Delivers) (action : Action γ) :
    (s.step action).Delivers ↔ s.OwnBytes action := by
  cases action with
  | setJob group job => exact iff_of_true h fun _ hnone ↦ by cases hnone
  | flush group isError interrupted =>
    rw [ownBytes_iff_of_flushed rfl]
    exact delivers_flush_iff h
  | write group isError w interrupted =>
    have happend : (append s isError (w.data.map (Written.mk (s.number group)))).Delivers :=
      h.append _
    show (write s group isError w interrupted).Delivers ↔ _
    unfold write
    cases hflushes : w.flushes with
    | false =>
      refine iff_of_true happend fun f hf ↦ ?_
      unfold Streams.flushed at hf
      dsimp only at hf
      rw [hflushes] at hf
      cases hf
    | true =>
      have hflushed : s.flushed (.write group isError w interrupted) = some ⟨isError,
          s.number group, s.buffers isError ++ w.data.map (Written.mk (s.number group)),
          interrupted⟩ := if_pos hflushes
      have hbuffer : (append s isError (w.data.map (Written.mk (s.number group)))).buffers isError =
          s.buffers isError ++ w.data.map (Written.mk (s.number group)) :=
        Function.update_self _ _ _
      rw [ownBytes_iff_of_flushed hflushed, ← hbuffer]
      exact delivers_flush_iff happend

/-- After a flush nothing waits. -/
theorem buffers_of_flushed [DecidableEq γ] {action : Action γ} {f : Flush}
    (h : s.flushed action = some f) : (s.step action).buffers f.isError = [] := by
  have hflush : ∀ (s : Streams γ) (group : Option γ) (isError interrupted : Bool),
      (flush s group isError interrupted).buffers isError = [] := by
    intro s group isError interrupted
    rw [buffers_flush, Function.update_self]
  cases action with
  | setJob group job => cases h
  | flush group isError interrupted =>
    obtain rfl := Option.some_inj.mp h
    exact hflush s group isError interrupted
  | write group isError w interrupted =>
    unfold Streams.flushed at h
    dsimp only at h
    split_ifs at h with hflushes
    obtain rfl := Option.some_inj.mp h
    show (write s group isError w interrupted).buffers isError = []
    unfold write
    rw [if_pos hflushes]
    exact hflush _ group isError interrupted

/-! ### All actions -/

variable [DecidableEq γ]

theorem run_concat (actions : List (Action γ)) (action : Action γ) :
    run (actions ++ [action]) = (run actions).step action := by
  unfold run
  rw [List.foldl_append]
  rfl

/-- The bytes of every job are delivered with its number, once and in order, and at the latest by
the next flush, exactly when no thread of another job flushes a stream while they wait, and none
that is interrupted. -/
theorem delivers_iff (actions : List (Action γ)) :
    ((∀ before, before <+: actions → (run before).Delivers) ∧
      ∀ before action, before ++ [action] <+: actions → ∀ f,
        (run before).flushed action = some f → ∀ number,
          (run (before ++ [action])).delivered number f.isError =
            bytesOf number ((run (before ++ [action])).written f.isError)) ↔
      ∀ before action, before ++ [action] <+: actions → (run before).OwnBytes action := by
  constructor
  · rintro ⟨hall, -⟩ before action hbefore
    refine (step_delivers_iff (hall before ((List.prefix_append _ _).trans hbefore)) action).mp ?_
    rw [← run_concat]
    exact hall _ hbefore
  · intro hown
    have hall : ∀ before, before <+: actions → (run before).Delivers := by
      intro before hbefore
      induction before using List.reverseRecOn with
      | nil => exact fun _ _ ↦ rfl
      | append_singleton before action ih =>
        rw [run_concat]
        exact (step_delivers_iff (ih ((List.prefix_append _ _).trans hbefore)) action).mpr
          (hown before action hbefore)
    refine ⟨hall, fun before action hbefore f hflushed number ↦ ?_⟩
    rw [← hall _ hbefore number f.isError, run_concat, buffers_of_flushed hflushed]
    exact (List.append_nil _).symm

end

/-- A thread of job 1 writes a byte, and one of job 2 writes a line before it is flushed. -/
def twoJobs : List (Action Bool) :=
  [.setJob false (some ⟨1, by decide⟩), .setJob true (some ⟨2, by decide⟩),
    .write (some false) false (.byte 97) false, .write (some true) false (.bytes [98, 10]) false]

theorem not_delivers_twoJobs :
    ¬ ∀ (actions : List (Action Bool)), (run actions).Delivers := by
  intro hall
  have hone := hall twoJobs ⟨1, by decide⟩ false
  exact absurd hone (by decide)

end Abuild.OutputHandlerStream
