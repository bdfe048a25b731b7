import Abuild.DependencyGraph

/-!
The dependency evaluator of `DependencyEvaluator.cc`. It keeps the state of every
item of an error-free dependency graph: an item is waiting until its
dependencies have completed, then ready, and is then set running, completed or
failed by calls. A call that finishes an item re-evaluates the items that depend
on it, and failure is propagated from there. The callback that is called for
each change of a state is a list of its calls.
-/

set_option autoImplicit false
set_option relaxedAutoImplicit false

namespace Abuild

open Std (TreeMap)

inductive ItemState
  | waiting
  | ready
  | running
  | completed
  | failed
  | depfailed
deriving DecidableEq, Repr

/-- The states that never change again. -/
def ItemState.Terminal (state : ItemState) : Prop :=
  state = .completed ∨ state = .failed ∨ state = .depfailed

instance (state : ItemState) : Decidable state.Terminal :=
  inferInstanceAs (Decidable (_ ∨ _ ∨ _))

structure DependencyEvaluator where
  graph : DependencyGraph
  states : TreeMap ItemType ItemState
  propagateFailure : Bool
  numRunning : ℤ
  /-- Whether there is a callback, and the calls that were made to it. -/
  changeCallback : Bool
  changes : List (ItemType × ItemState)

namespace DependencyEvaluator

def unparseState : ItemState → String
  | .waiting => "waiting"
  | .ready => "ready"
  | .running => "running"
  | .completed => "completed"
  | .failed => "failed"
  | .depfailed => "dependency-failed"

/-- The state that the constructor gives to an item. -/
def initialState (graph : DependencyGraph) (item : ItemType) : Option ItemState := do
  let deps ← graph.getDirectDependencies item
  some (if deps.isEmpty then .ready else .waiting)

def initialStates (graph : DependencyGraph) (inOrder : ItemList) :
    Option (TreeMap ItemType ItemState) :=
  inOrder.foldlM (fun states item ↦ do
    let state ← initialState graph item
    some (states.insert item state)) ∅

def new (graph : DependencyGraph) : Option DependencyEvaluator := do
  let checked ← graph.checked
  if ¬ checked then none
  else
    let inOrder ← graph.getSortedGraph
    let states ← initialStates graph inOrder
    some
      { graph
        states
        propagateFailure := true
        numRunning := 0
        changeCallback := false
        changes := [] }

def disableFailurePropagation (e : DependencyEvaluator) : DependencyEvaluator :=
  { e with propagateFailure := false }

def setChangeCallback (e : DependencyEvaluator) (callNow : Bool) : DependencyEvaluator :=
  { e with
    changeCallback := true
    changes := if callNow then e.changes ++ e.states.toList else e.changes }

/-- `states[item]`, which is the first of the states where there is none. -/
def stateOf (e : DependencyEvaluator) (item : ItemType) : ItemState :=
  e.states.getD item .waiting

def getItemState (e : DependencyEvaluator) (item : ItemType) : Option ItemState :=
  e.states[item]?

def assertState (e : DependencyEvaluator) (item : ItemType) (state : ItemState) : Option Unit :=
  if e.states[item]? = some state then some () else none

def setItemState (e : DependencyEvaluator) (item : ItemType) (state : ItemState) :
    DependencyEvaluator :=
  if e.stateOf item ≠ state then
    { e with
      states := e.states.insert item state
      changes := if e.changeCallback then e.changes ++ [(item, state)] else e.changes }
  else e

/-- The loop of `evaluate` over the dependencies of an item, which stops at the
first failed one: the values of `failed` and `blocked`. -/
def scan (e : DependencyEvaluator) (blocked : Bool) : ItemList → Bool × Bool
  | [] => (false, blocked)
  | dep :: deps =>
    let state := e.stateOf dep
    if state = .failed ∨ state = .depfailed then (e.propagateFailure, blocked)
    else if state ≠ .completed then e.scan true deps
    else e.scan blocked deps

/-- The first argument bounds the depth of the recursion, which the source
leaves to the stack. -/
def evaluate : ℕ → DependencyEvaluator → ItemType → Option DependencyEvaluator
  | 0, _, _ => none
  | depth + 1, e, item =>
    let istate := e.stateOf item
    if istate = .running ∨ istate = .completed ∨ istate = .failed ∨ istate = .depfailed then some e
    else do
      let deps ← e.graph.getDirectDependencies item
      let (failed, blocked) := e.scan false deps
      if failed then
        let e := e.setItemState item .depfailed
        -- evaluateReverseDependencies
        let rdeps ← e.graph.getReverseDependencies item
        rdeps.foldlM (evaluate depth) e
      else if ¬ blocked then some (e.setItemState item .ready)
      else some e

/-- An item comes after all it depends on, so that the recursion is never deeper
than the number of items. -/
def evaluateReverseDependencies (e : DependencyEvaluator) (item : ItemType) :
    Option DependencyEvaluator := do
  let rdeps ← e.graph.getReverseDependencies item
  rdeps.foldlM (evaluate (e.graph.inOrder.length + 1)) e

def setRunning (e : DependencyEvaluator) (item : ItemType) : Option DependencyEvaluator := do
  e.assertState item .ready
  let e := e.setItemState item .running
  some { e with numRunning := e.numRunning + 1 }

/-- `setCompleted` and `setFailed`. -/
def setFinished (e : DependencyEvaluator) (item : ItemType) (state : ItemState) :
    Option DependencyEvaluator := do
  e.assertState item .running
  let e := e.setItemState item state
  evaluateReverseDependencies { e with numRunning := e.numRunning - 1 } item

def setCompleted (e : DependencyEvaluator) (item : ItemType) : Option DependencyEvaluator :=
  e.setFinished item .completed

def setFailed (e : DependencyEvaluator) (item : ItemType) : Option DependencyEvaluator :=
  e.setFinished item .failed

/-- The first item of the sorted graph that is ready, if there is one. -/
def nextReadyItem (e : DependencyEvaluator) : Option (Option ItemType) := do
  let inOrder ← e.graph.getSortedGraph
  some (inOrder.find? fun item ↦ e.states[item]? = some .ready)

/-! ### Sequences of calls -/

/-- A call that changes the state of an item. -/
inductive Call
  | setRunning (item : ItemType)
  | setCompleted (item : ItemType)
  | setFailed (item : ItemType)
deriving DecidableEq, Repr

def call (e : DependencyEvaluator) : Call → Option DependencyEvaluator
  | .setRunning item => e.setRunning item
  | .setCompleted item => e.setCompleted item
  | .setFailed item => e.setFailed item

/-- A call whose assertion holds. -/
def Legal (e : DependencyEvaluator) : Call → Prop
  | .setRunning item => e.getItemState item = some .ready
  | .setCompleted item => e.getItemState item = some .running
  | .setFailed item => e.getItemState item = some .running

/-- The evaluator after a sequence of calls, when each of them is legal. -/
def run (e : DependencyEvaluator) (calls : List Call) : Option DependencyEvaluator :=
  calls.foldlM call e

end DependencyEvaluator

end Abuild
