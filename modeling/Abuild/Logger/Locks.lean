import Abuild.Library.Locks
import Abuild.Logger
import Mathlib.Data.Fintype.Basic
import Std.Data.TreeMap

/-!
The mutexes of the logger. A thread that makes a call runs the locks and unlocks that the code of
`Logger.cc` has on its way, which depend on the job; a job is used by one thread at a time, so that
what a call does with the job is settled when it begins. What is put into the queue, and the mutex
of the queue itself, are left out.
-/

set_option autoImplicit false
set_option relaxedAutoImplicit false

namespace Abuild.Logger

open Locks
open Std (TreeMap)

inductive Mutex
  | jobdata
  | job (n : ℕ)
  | queueWrite
deriving DecidableEq, Repr

def Mutex.recursive : Mutex → Bool
  | .queueWrite => false
  | _ => true

abbrev Code := List (Instr Mutex)

def noJob : ℕ := 0

/-! ### The locks of each function -/

def findJobLocks : Code := locked .jobdata []

def prefixMessageLocks : Code := locked .jobdata []

/-- Both functions `writeToLogger`. -/
def writeToLoggerLocks (messages : List Message) : Code :=
  locked .queueWrite (messages.flatMap fun _ ↦ prefixMessageLocks)

namespace JobData

variable (n : ℕ) (j : JobData)

/-- A message is kept or written with the mutex of the job locked. -/
def deliverLocks (isError : Bool) (line : Bytes) : Code :=
  locked (.job n) ((j.deliver isError line).2.flatMap fun message ↦ writeToLoggerLocks [message])

def handleMessageLocks (isError : Bool) (line : Bytes) : Code :=
  if j.jobHeader.isEmpty then j.deliverLocks n isError line
  else
    (j.setJobHeader []).deliverLocks n false (j.jobHeader ++ [newline]) ++
      j.deliverLocks n isError line

def completeLineLocks (isError : Bool) : Code := j.handleMessageLocks n isError (j.line isError)

def addByteLocks (isError : Bool) (c : UInt8) : Code :=
  let j := j.setLine isError (j.line isError ++ [c])
  if c = newline then j.completeLineLocks n isError else []

/-- The locks for some bytes, with the job as it is when they come. -/
def addBytesLocks (isError : Bool) : JobData → Bytes → Code
  | _, [] => []
  | j, c :: data => j.addByteLocks n isError c ++ addBytesLocks isError (j.addByte isError c).1 data

def handleOutputLocks (isError : Bool) (data : Bytes) : Code :=
  locked (.job n) <|
    if data = [] then
      let line := j.line isError
      let line := if line ≠ [] ∧ line.getLast? ≠ some newline then line ++ noNewline else line
      if line ≠ [] then (j.setLine isError line).completeLineLocks n isError else []
    else addBytesLocks n isError j data

def flushLocks : Code :=
  let output := (j.handleOutput false []).1
  let error := (output.handleOutput true []).1
  locked (.job n) <|
    j.handleOutputLocks n false [] ++ output.handleOutputLocks n true [] ++
      if error.buffer.isEmpty then [] else writeToLoggerLocks error.buffer

end JobData

/-! ### Calls -/

inductive Call
  | requestJobHandle (bufferOutput : Bool) (jobPrefix : Bytes)
  | setJobHeader (job : ℕ) (jobHeader : Bytes)
  | getOutputHandler (job : ℕ)
  | handleOutput (job : ℕ) (isError : Bool) (data : Bytes)
  | log (isError : Bool) (message : Bytes) (job : ℕ)
  | closeJob (job : ℕ)
deriving DecidableEq, Repr

/-- The job that a call uses. -/
def Call.job : Call → ℕ
  | .requestJobHandle _ _ => noJob
  | .setJobHeader job _ => job
  | .getOutputHandler job => job
  | .handleOutput job _ _ => job
  | .log _ _ job => job
  | .closeJob job => job

/-- The jobs that are open, and the number of the next one. -/
structure Jobs where
  nextJob : ℕ
  jobs : TreeMap ℕ JobData

/-- The jobs after a call, and its locks. A job that is not open is looked for in vain; it has no
output handler that could be called. -/
def Jobs.call (s : Jobs) : Call → Option (Jobs × Code)
  | .requestJobHandle bufferOutput jobPrefix =>
    some (⟨s.nextJob + 1, s.jobs.insert s.nextJob (.new s.nextJob bufferOutput jobPrefix)⟩,
      locked .jobdata [])
  | .setJobHeader job jobHeader =>
    if job = noJob then some (s, [])
    else some ({ s with jobs := s.jobs.modify job (·.setJobHeader jobHeader) }, findJobLocks)
  | .getOutputHandler job => some (s, if job = noJob then [] else findJobLocks)
  | .handleOutput job isError data =>
    if job = noJob then none
    else
      (s.jobs[job]?).map fun j ↦
        ({ s with jobs := s.jobs.insert job (j.handleOutput isError data).1 },
          j.handleOutputLocks job isError data)
  | .log isError message job =>
    let message := message ++ [newline]
    if job = noJob then some (s, writeToLoggerLocks [(messageType isError, message)])
    else
      some <| match s.jobs[job]? with
        | none => (s, findJobLocks)
        | some j =>
          ({ s with jobs := s.jobs.insert job (j.handleMessage isError message).1 },
            findJobLocks ++ j.handleMessageLocks job isError message)
  | .closeJob job =>
    if job = noJob then some (s, [])
    else
      some ({ s with jobs := s.jobs.erase job },
        locked .jobdata ((s.jobs[job]?).elim [] (·.flushLocks job)))

/-! ### Threads -/

structure LoggerThreads (n : ℕ) where
  jobs : Jobs
  /-- The job of the call that a thread is in. -/
  job : Fin n → ℕ
  threads : Fin n → Thread Mutex

inductive Action (n : ℕ)
  | call (t : Fin n) (c : Call)
  | advance (t : Fin n)

namespace LoggerThreads

variable {n : ℕ}

def new (n : ℕ) : LoggerThreads n := ⟨⟨1, ∅⟩, fun _ ↦ noJob, fun _ ↦ idle⟩

/-- Another thread is in a call that uses the job. -/
def InUse (s : LoggerThreads n) (t : Fin n) (job : ℕ) : Prop :=
  job ≠ noJob ∧ ∃ u, u ≠ t ∧ (s.threads u).rest ≠ [] ∧ s.job u = job

instance (s : LoggerThreads n) (t : Fin n) (job : ℕ) : Decidable (s.InUse t job) :=
  inferInstanceAs (Decidable (_ ∧ ∃ u, u ≠ t ∧ (s.threads u).rest ≠ [] ∧ s.job u = job))

/-- A thread that is in no call makes one, or goes on with the one it is in. -/
def act (s : LoggerThreads n) : Action n → Option (LoggerThreads n)
  | .call t c =>
    if (s.threads t).rest ≠ [] ∨ s.InUse t c.job then none
    else (s.jobs.call c).map fun (jobs, code) ↦
      { jobs
        job := Function.update s.job t c.job
        threads := Function.update s.threads t ⟨(s.threads t).held, code⟩ }
  | .advance t => (advance Mutex.recursive s.threads t).map fun threads ↦ { s with threads }

end LoggerThreads

end Abuild.Logger
