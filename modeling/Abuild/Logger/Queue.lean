import Abuild.Logger.Locks

/-!
The queue of the logger. What a call on a job has to write goes into the queue piece by piece, each
with the mutex of the queue locked, so that other jobs may write between two pieces; the prefix of
the job is put in front as it does. The thread of the logger takes the messages out one by one and
shows their lines on a stream.
-/

set_option autoImplicit false
set_option relaxedAutoImplicit false

namespace Abuild.Logger

def JobData.prefixMessage (j : JobData) (msg : Bytes) : Bytes := j.jobPrefix ++ msg

/-! ### What the calls write -/

/-- The messages of a flush, those that go into the queue together in one list. -/
def JobData.flushWrites (j : JobData) : List (List Message) :=
  let (j, output) := j.handleOutput false []
  let (j, error) := j.handleOutput true []
  (output ++ error).map ([·]) ++ if j.buffer.isEmpty then [] else [j.buffer]

/-- The messages that a call writes to the queue, those that go in together in one list. -/
def Jobs.writes (s : Jobs) : Call → List (List Message)
  | .handleOutput job isError data =>
    (s.jobs[job]?).elim [] fun j ↦ (j.handleOutput isError data).2.map ([·])
  | .log isError message job =>
    let message := message ++ [newline]
    if job = noJob then [[(messageType isError, message)]]
    else (s.jobs[job]?).elim [] fun j ↦ (j.handleMessage isError message).2.map ([·])
  | .closeJob job => if job = noJob then [] else (s.jobs[job]?).elim [] JobData.flushWrites
  | _ => []

/-! ### The queue -/

/-- A message in the queue, with the job that has written it and what that wrote. -/
structure Queued where
  job : ℕ
  message : Message
  text : Bytes
deriving DecidableEq, Repr

/-- What is shown for a message, line by line. -/
structure Shown where
  job : ℕ
  message : Message
  lines : List Bytes
deriving DecidableEq, Repr

structure LoggerQueue where
  outputPrefix : Bytes
  errorPrefix : Bytes
  jobs : Jobs
  /-- What the call on a job has still to write. -/
  pending : ℕ → List (List Message)
  queue : List Queued
  output : List Shown

/-- A call, one lock of the queue in the call that uses a job, or a message that is taken out. -/
inductive QueueAction
  | call (c : Call)
  | write (job : ℕ)
  | display
deriving DecidableEq, Repr

def carriageReturn : UInt8 := '\r'.toUInt8

/-- A character at the end is removed if it is the given one. -/
def stripLast (c : UInt8) (str : Bytes) : Bytes :=
  if str.getLast? = some c then str.dropLast else str

def stripTrailingNewline (str : Bytes) : Bytes := stripLast carriageReturn (stripLast newline str)

def outputLines (linePrefix msg : Bytes) : List Bytes :=
  ((stripTrailingNewline msg).splitOn newline).map (linePrefix ++ ·)

namespace LoggerQueue

def new (outputPrefix errorPrefix : Bytes) : LoggerQueue where
  outputPrefix
  errorPrefix
  jobs := ⟨1, ∅⟩
  pending := fun _ ↦ []
  queue := []
  output := []

variable (s : LoggerQueue)

def prefixMessage (msg : Bytes) (job : ℕ) : Bytes :=
  (s.jobs.jobs[job]?).elim msg (·.prefixMessage msg)

def writeToLogger (messages : List Message) (job : ℕ) : LoggerQueue :=
  { s with queue := s.queue ++ messages.map fun msg ↦ ⟨job, msg, s.prefixMessage msg.2 job⟩ }

def linePrefix : MessageType → Bytes
  | .error => s.errorPrefix
  | _ => s.outputPrefix

/-- What the thread of the logger does with a message. -/
def display (msg : Queued) : Shown where
  job := msg.job
  message := msg.message
  lines :=
    match msg.message.1 with
    | .shutdown => []
    | type => outputLines (s.linePrefix type) msg.text

/-- A call on a job is made when the one before it has been finished. -/
def act : QueueAction → Option LoggerQueue
  | .call c =>
    if c.job ≠ noJob ∧ (c.job ∉ s.jobs.jobs ∨ s.pending c.job ≠ []) then none
    else (s.jobs.call c).map fun (jobs, _) ↦
      { s with
        jobs
        pending := Function.update s.pending c.job (s.pending c.job ++ s.jobs.writes c) }
  | .write job =>
    match s.pending job with
    | [] => none
    | messages :: pending =>
      some ({ s with pending := Function.update s.pending job pending }.writeToLogger messages job)
  | .display =>
    match s.queue with
    | [] => none
    | msg :: queue => some { s with queue, output := s.output ++ [s.display msg] }

def run (actions : List QueueAction) : Option LoggerQueue := actions.foldlM act s

end LoggerQueue

end Abuild.Logger
