import Abuild.JavaBuilder.Connection
import Abuild.Library.Guarded

/-!
The threads of the Java side: those of the pool, which run `InputHandler.run`, and the ones
that their jobs start, which stay in the thread group of the job. All of them write to the two
output streams, whose `flush` looks the job of the thread group up and puts a message on the
queue of the responder. The order of the queue is that of the connection. When every job waits
for the output of its threads, the messages are those that the builder takes; else some message
may come after the response (`accepted_of_prompt`).
-/

set_option autoImplicit false
set_option relaxedAutoImplicit false

namespace Abuild

/-- Where a thread of the pool is in `InputHandler.run`. -/
inductive HandlerPhase
  | idle
  /-- Before `setJob(number)`. -/
  | handed (number : Fin intLimit)
  /-- In `runCommand`, or in the catch clause after it. -/
  | running (number : Fin intLimit)
  /-- Before `sendResponse`. -/
  | finished (number : Fin intLimit) (status : Bool)
  /-- Before `setJob(null)`. -/
  | responded (number : Fin intLimit)
deriving DecidableEq, Repr

/-- A thread of the pool, which has a thread group of its own, or another one. -/
inductive JavaThread (γ ι : Type)
  | handler (group : γ)
  | other (thread : ι)
deriving DecidableEq, Repr

/-- What a stream has accumulated. -/
abbrev Record := { data : Bytes // data.length < intLimit }

/-- Where the thread is that has the monitor of a stream, in `flush`. -/
inductive FlushPhase
  /-- Before `getJob`. -/
  | flushing (data : Record)
  /-- Before the message is on the queue. -/
  | putting (number : Fin intLimit) (data : Record)

structure JavaThreads (γ ι : Type) where
  /-- The last request that has been read. -/
  lastRequest : ℕ
  handlers : γ → HandlerPhase
  /-- The field of `AbuildThreadGroup`. -/
  job : γ → Option (Fin intLimit)
  /-- The thread group of a thread that has been started, if it is an `AbuildThreadGroup`. -/
  groups : ι → Option (Option γ)
  /-- The thread that flushes a stream; the one for errors is at `true`. -/
  streams : Bool → Option (JavaThread γ ι × FlushPhase)
  responseQueue : Option Message
  /-- What has been put on the queue. -/
  sent : List Message

inductive JavaAction (γ ι : Type)
  | handleInput (group : γ)
  | setJob (group : γ)
  | startThread (parent : Option (JavaThread γ ι)) (thread : ι)
  | flush (thread : JavaThread γ ι) (isError : Bool) (data : Record)
  | getJob (isError : Bool)
  | putOutput (isError : Bool)
  | interrupt (isError : Bool)
  | finish (group : γ) (status : Bool)
  | sendResponse (group : γ)
  | clearJob (group : γ)
  | take

namespace HandlerPhase

/-- The number of the request that a thread has. -/
def number : HandlerPhase → Option (Fin intLimit)
  | idle => none
  | handed n | running n | finished n _ | responded n => some n

/-- The job of the thread group. -/
def job : HandlerPhase → Option (Fin intLimit)
  | idle | handed _ => none
  | running n | finished n _ | responded n => some n

/-- The number of the request that is to be responded to. -/
def pending : HandlerPhase → Option (Fin intLimit)
  | idle | responded _ => none
  | handed n | running n | finished n _ => some n

theorem number_of_job {phase : HandlerPhase} {n : Fin intLimit} (h : phase.job = some n) :
    phase.number = some n := by
  cases phase <;> first | exact h | cases h

theorem number_of_pending {phase : HandlerPhase} {n : Fin intLimit} (h : phase.pending = some n) :
    phase.number = some n := by
  cases phase <;> first | exact h | cases h

theorem responded_of_job {phase : HandlerPhase} {n : Fin intLimit} (h : phase.job = some n)
    (hpending : phase.pending ≠ some n) : phase = .responded n := by
  cases phase with
  | responded k => exact congrArg responded (Option.some_inj.mp h)
  | idle | handed k => cases h
  | running k | finished k status => exact absurd h hpending

end HandlerPhase

namespace JavaThreads

variable {γ ι : Type}

/-- The Java side before the first request. -/
def new (γ ι : Type) : JavaThreads γ ι where
  lastRequest := 0
  handlers := fun _ ↦ .idle
  job := fun _ ↦ none
  groups := fun _ ↦ none
  streams := fun _ ↦ none
  responseQueue := none
  sent := []

/-- Whether a thread executes code of a job, or of none. -/
def executes (s : JavaThreads γ ι) : JavaThread γ ι → Bool
  | .handler g =>
    match s.handlers g with
    | .running _ => true
    | _ => false
  | .other i => (s.groups i).isSome

def groupOf (s : JavaThreads γ ι) : JavaThread γ ι → Option γ
  | .handler g => some g
  | .other i => (s.groups i).join

/-- The number that `sendOutput` tags data with. -/
def numberOf (s : JavaThreads γ ι) (t : JavaThread γ ι) : Fin intLimit :=
  (((s.groupOf t).bind s.job).getD ⟨0, zero_lt_intLimit⟩)

section Steps

variable [DecidableEq γ] [DecidableEq ι]

/-- Whether a thread is in `flush`. -/
def flushes (s : JavaThreads γ ι) (t : JavaThread γ ι) : Bool :=
  (s.streams false).any (·.1 = t) || (s.streams true).any (·.1 = t)

def setHandler (s : JavaThreads γ ι) (g : γ) (phase : HandlerPhase) : JavaThreads γ ι :=
  { s with handlers := Function.update s.handlers g phase }

def setStream (s : JavaThreads γ ι) (isError : Bool)
    (stream : Option (JavaThread γ ι × FlushPhase)) : JavaThreads γ ι :=
  { s with streams := Function.update s.streams isError stream }

/-- `put` on the queue, which holds one message. -/
def put (s : JavaThreads γ ι) (m : Message) : Option (JavaThreads γ ι) :=
  match s.responseQueue with
  | none => some { s with responseQueue := some m, sent := s.sent ++ [m] }
  | some _ => none

/-- `sendOutput` up to the message, if there is one. -/
def outputOf (s : JavaThreads γ ι) (t : JavaThread γ ι) (data : Record) :
    Option (JavaThread γ ι × FlushPhase) :=
  if data.val.length > 0 then some (t, .putting (s.numberOf t) data) else none

/-- The thread group of a new thread: that of the one that starts it. -/
def groupFrom (s : JavaThreads γ ι) : Option (JavaThread γ ι) → Option γ
  | none => none
  | some t => s.groupOf t

def step (s : JavaThreads γ ι) : JavaAction γ ι → Option (JavaThreads γ ι)
  | .handleInput g =>
    if h : s.handlers g = .idle ∧ s.lastRequest + 1 < intLimit then
      some ({ s with lastRequest := s.lastRequest + 1 }.setHandler g
        (.handed ⟨s.lastRequest + 1, h.2⟩))
    else none
  | .setJob g =>
    match s.handlers g with
    | .handed n =>
      some ({ s with job := Function.update s.job g (some n) }.setHandler g (.running n))
    | _ => none
  | .startThread parent i =>
    if parent.all s.executes ∧ s.groups i = none then
      some { s with groups := Function.update s.groups i (some (s.groupFrom parent)) }
    else none
  | .flush t isError data =>
    if s.executes t ∧ ¬ s.flushes t ∧ s.streams isError = none then
      some (s.setStream isError (some (t, .flushing data)))
    else none
  | .getJob isError =>
    match s.streams isError with
    | some (t, .flushing data) => some (s.setStream isError (s.outputOf t data))
    | _ => none
  | .putOutput isError =>
    match s.streams isError with
    | some (_, .putting n data) =>
      (s.setStream isError none).put (.output n isError data.val data.property)
    | _ => none
  | .interrupt isError =>
    match s.streams isError with
    | some (_, .putting _ _) => some (s.setStream isError none)
    | _ => none
  | .finish g status =>
    match s.handlers g with
    | .running n =>
      if s.flushes (.handler g) then none else some (s.setHandler g (.finished n status))
    | _ => none
  | .sendResponse g =>
    match s.handlers g with
    | .finished n status => (s.setHandler g (.responded n)).put (.response n status)
    | _ => none
  | .clearJob g =>
    match s.handlers g with
    | .responded _ => some ({ s with job := Function.update s.job g none }.setHandler g .idle)
    | _ => none
  | .take =>
    match s.responseQueue with
    | some _ => some { s with responseQueue := none }
    | none => none

def run (s : JavaThreads γ ι) (actions : List (JavaAction γ ι)) : Option (JavaThreads γ ι) :=
  actions.foldlM step s

end Steps

end JavaThreads

end Abuild
