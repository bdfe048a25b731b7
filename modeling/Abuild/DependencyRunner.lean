import Abuild.DependencyEvaluator
import Abuild.WorkerPool

/-!
The dependency runner of `DependencyRunner.cc`: the thread that calls `run`
processes all items of a dependency graph with a pool of workers. A step of the
runner is a step of that thread, which is at one point of `run` and calls the
pool at most once in a step, or a step of one worker of the pool. A schedule says
which of them takes each step.
-/

set_option autoImplicit false
set_option relaxedAutoImplicit false

namespace Abuild

/-- Where the thread is in `run`. -/
inductive RunPhase
  /-- The head of the outer loop. -/
  | top
  | wait
  | waitForResults
  /-- The test of the loop that reads results, and its body. -/
  | readTest
  | getResults
  /-- The tests of the loop that submits items, and the end of its body. -/
  | submitTest
  | submitWorkers
  | processItem (item : ItemType)
  /-- The test for the end of the outer loop. -/
  | idleTest
  /-- `joinThreads`, which has joined the workers below the number. -/
  | requestShutdown
  | join (i : ℕ)
  | returned (result : Bool)
deriving DecidableEq, Repr

structure DependencyRunner (n : ℕ) where
  evaluator : DependencyEvaluator
  pool : WorkerPool n ItemType Bool
  anyErrors : Bool
  stop : Bool
  phase : RunPhase

/-- Who takes a step. -/
inductive Actor (n : ℕ)
  | controller
  | worker (w : Fin n)
deriving DecidableEq, Repr

namespace DependencyRunner

variable {n : ℕ}

/-- The runner when `run` has been called. -/
def start (n : ℕ) (graph : DependencyGraph) (disableFailurePropagation : Bool) :
    Option (DependencyRunner n) := do
  let evaluator ← DependencyEvaluator.new graph
  let pool ← WorkerPool.new n ItemType Bool
  some
    { evaluator :=
        if disableFailurePropagation then evaluator.disableFailurePropagation else evaluator
      pool
      anyErrors := false
      stop := false
      phase := .top }

/-- The step of the thread that runs `run`, when it does not wait. -/
def controllerStep (stopOnFirstError : Bool) (s : DependencyRunner n) :
    Option (DependencyRunner n) :=
  match s.phase with
  | .top => do
    let next ← s.evaluator.nextReadyItem
    some { s with phase := if next.isSome then .wait else .waitForResults }
  | .wait => if s.pool.waitReturns then some { s with phase := .readTest } else none
  | .waitForResults =>
    if s.pool.waitForResultsReturns then some { s with phase := .readTest } else none
  | .readTest =>
    some { s with
      phase :=
        if s.pool.resultsAvailable then .getResults
        else if s.stop then .idleTest
        else .submitTest }
  | .getResults => do
    let ((finishedItem, status), pool) ← s.pool.getResults
    if status then
      let evaluator ← s.evaluator.setCompleted finishedItem
      some { s with pool, evaluator, phase := .readTest }
    else
      let evaluator ← s.evaluator.setFailed finishedItem
      some { s with
        pool
        evaluator
        anyErrors := true
        stop := if stopOnFirstError then true else s.stop
        phase := .readTest }
  | .submitTest =>
    some { s with phase := if s.pool.resultsAvailable then .idleTest else .submitWorkers }
  | .submitWorkers =>
    if s.pool.numAvailableWorkers ≠ 0 then do
      let next ← s.evaluator.nextReadyItem
      match next with
      | some item => do
        let evaluator ← s.evaluator.setRunning item
        some { s with evaluator, phase := .processItem item }
      | none => some { s with phase := .idleTest }
    else some { s with phase := .idleTest }
  | .processItem item => do
    let pool ← s.pool.processItem item
    some { s with pool, phase := .submitTest }
  | .idleTest =>
    if s.pool.idle then
      if s.stop then some { s with phase := .requestShutdown }
      else do
        let next ← s.evaluator.nextReadyItem
        some { s with phase := if next.isNone then .requestShutdown else .top }
    else some { s with phase := .top }
  | .requestShutdown => some { s with pool := s.pool.requestShutdown, phase := .join 0 }
  | .join i =>
    if h : i < n then
      if s.pool.workers ⟨i, h⟩ = .exited then some { s with phase := .join (i + 1) } else none
    else some { s with phase := .returned (!s.anyErrors) }
  | .returned _ => none

/-- The step of an actor, when it has one. -/
def act (method : ItemType → Bool) (stopOnFirstError : Bool) (s : DependencyRunner n) :
    Actor n → Option (DependencyRunner n)
  | .controller => s.controllerStep stopOnFirstError
  | .worker w => do
    let pool ← s.pool.workerStep method w
    some { s with pool }

/-- The runner after a schedule, when each of its actors has a step in turn. -/
def runSchedule (method : ItemType → Bool) (stopOnFirstError : Bool) (s : DependencyRunner n)
    (schedule : List (Actor n)) : Option (DependencyRunner n) :=
  schedule.foldlM (act method stopOnFirstError) s

end DependencyRunner

end Abuild
