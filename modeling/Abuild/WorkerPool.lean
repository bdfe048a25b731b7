import Mathlib

/-!
The worker pool of `WorkerPool.hh`: a number of worker threads that process
items, and the methods by which one controlling thread submits items and reads
results. A section of code that holds the pool's mutex is one step, and so is the
removal of an entry from a worker's queue, which has a mutex of its own. A method
that waits on the condition has a step only when what it waits for holds. Workers
are numbered, and the pool has at least one. Three histories say which items were
submitted, which were processed by which worker, and which results were read.
-/

set_option autoImplicit false
set_option relaxedAutoImplicit false

namespace Abuild

/-- Where a thread is in `worker_main`. -/
inductive WorkerPhase (Item : Type)
  | starting
  | waiting
  | processing (item : Item)
  | exited
deriving DecidableEq, Repr

/-- An entry of a worker's queue is an item to process, or asks the thread to
exit. -/
structure WorkerPool (n : ℕ) (Item Status : Type) where
  shutdownRequested : Bool
  results : List (Item × Status)
  availableWorkers : List (Fin n)
  queues : Fin n → List (Option Item)
  workers : Fin n → WorkerPhase Item
  submitted : List Item
  processed : List (Fin n × Item)
  read : List (Item × Status)

namespace WorkerPool

variable {n : ℕ} {Item Status : Type}

def new (n : ℕ) (Item Status : Type) : Option (WorkerPool n Item Status) :=
  if n ≥ 1 then
    some
      { shutdownRequested := false
        results := []
        availableWorkers := []
        queues := fun _ ↦ []
        workers := fun _ ↦ .starting
        submitted := []
        processed := []
        read := [] }
  else none

/-! ### The controlling thread -/

section Controller

variable (p : WorkerPool n Item Status)

/-- What `wait` waits for. -/
def waitReturns : Bool := p.shutdownRequested || !p.results.isEmpty || !p.availableWorkers.isEmpty

/-- What `waitForResults` waits for. -/
def waitForResultsReturns : Bool :=
  p.shutdownRequested || !p.results.isEmpty || !decide (p.availableWorkers.length < n)

def resultsAvailable : Bool := !p.results.isEmpty

def numAvailableWorkers : ℕ := p.availableWorkers.length

def busyWorkers : ℕ := n - p.availableWorkers.length

def idle : Bool := decide (p.availableWorkers.length = n) && p.results.isEmpty

/-- The first result, when there is one. -/
def getResults : Option ((Item × Status) × WorkerPool n Item Status) :=
  match p.results with
  | [] => none
  | r :: results => some (r, { p with results, read := p.read ++ [r] })

/-- Gives an item to the first available worker, when there is one. -/
def processItem (item : Item) : Option (WorkerPool n Item Status) :=
  match p.availableWorkers with
  | [] => none
  | workerId :: availableWorkers =>
    some { p with
      availableWorkers
      queues := Function.update p.queues workerId (p.queues workerId ++ [some item])
      submitted := p.submitted ++ [item] }

def requestShutdown : WorkerPool n Item Status :=
  { p with
    shutdownRequested := true
    queues := fun i ↦ p.queues i ++ [none] }

end Controller

/-! ### The workers -/

section Worker

variable (method : Item → Status) (p : WorkerPool n Item Status) (workerId : Fin n)

/-- A new thread makes itself available. -/
def register : WorkerPool n Item Status :=
  { p with
    availableWorkers := p.availableWorkers ++ [workerId]
    workers := Function.update p.workers workerId .waiting }

/-- A thread takes an item from its queue and calls the method. -/
def begin (item : Item) (queue : List (Option Item)) : WorkerPool n Item Status :=
  { p with
    queues := Function.update p.queues workerId queue
    workers := Function.update p.workers workerId (.processing item)
    processed := p.processed ++ [(workerId, item)] }

/-- The method has returned: the result is made available, and the thread. -/
def finish (item : Item) : WorkerPool n Item Status :=
  { p with
    results := p.results ++ [(item, method item)]
    availableWorkers := p.availableWorkers ++ [workerId]
    workers := Function.update p.workers workerId .waiting }

/-- A thread takes the request to exit from its queue. -/
def exit (queue : List (Option Item)) : WorkerPool n Item Status :=
  { p with
    queues := Function.update p.queues workerId queue
    workers := Function.update p.workers workerId .exited }

/-- The next step of a thread, when it has one. -/
def workerStep : Option (WorkerPool n Item Status) :=
  match p.workers workerId, p.queues workerId with
  | .starting, _ => some (p.register workerId)
  | .waiting, [] => none
  | .waiting, some item :: queue => some (p.begin workerId item queue)
  | .waiting, none :: queue => some (p.exit workerId queue)
  | .processing item, _ => some (p.finish method workerId item)
  | .exited, _ => none

end Worker

end WorkerPool

end Abuild
