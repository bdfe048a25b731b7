import Abuild.DependencyRunner

/-!
The build of the items of a build graph: `itemBuilder`, which the workers of the runner call for an
item on a platform, and the part of `buildBuildset` that runs them. The threads share the interfaces
of the items and the list of failed builds, which a mutex protects; a builder holds it, but for the
time in which a backend runs. So a builder has two sections, and the steps of the threads come in
any order.
-/

set_option autoImplicit false
set_option relaxedAutoImplicit false

namespace Abuild

open Std (TreeMap TreeSet)

variable {n : ℕ} {Parser : Type}

/-- What `itemBuilder` reads and calls. A parser has the interface of an item and the names of its
after-build files. -/
structure ItemBuilder (Parser : Type) where
  /-- The special target is `no-op`. -/
  noOp : Bool
  forcedFailures : TreeSet ItemType
  hasBuildFile : ItemType → Bool
  filter : ItemType → Bool
  isBuildItemWritable : ItemType → Bool
  /-- The parser with the interfaces of the direct dependencies imported, and whether there was no
  error. -/
  createItemInterface : ItemType → List Parser → Parser × Bool
  hasAfterBuilds : Parser → Bool
  invokeBackend : ItemType → Option Parser → Bool
  readAfterBuilds : ItemType → Parser → Parser × Bool

/-- Where a call of `itemBuilder` is. The parser is there if the item has an interface. -/
inductive BuilderPhase (Parser : Type)
  | called
  /-- The backend runs, without the mutex. -/
  | invoking (parser : Option Parser)
  | returned (parser : Option Parser) (status : Bool)

def BuilderPhase.parser : BuilderPhase Parser → Option Parser
  | .called => none
  | .invoking parser => parser
  | .returned parser _ => parser

/-- Whether the call has returned a failure. -/
def BuilderPhase.isFailure : BuilderPhase Parser → Bool
  | .returned _ status => !status
  | _ => false

/-- What the threads share. -/
structure SharedBuild (Parser : Type) where
  interfaces : TreeMap ItemType Parser
  failedBuilds : List ItemType

def SharedBuild.new : SharedBuild Parser := ⟨∅, []⟩

/-- What a section of a builder leaves: the item's interface, and the item among the failed builds
if it returns a failure. -/
def SharedBuild.leave (s : SharedBuild Parser) (item : ItemType) (phase : BuilderPhase Parser) :
    SharedBuild Parser where
  interfaces :=
    match phase.parser with
    | some parser => s.interfaces.insert item parser
    | none => s.interfaces
  failedBuilds := if phase.isFailure then s.failedBuilds ++ [item] else s.failedBuilds

namespace ItemBuilder

variable (b : ItemBuilder Parser)

def useInterfaces (item : ItemType) (isDepFailure : Bool) : Bool :=
  !(b.noOp || isDepFailure || b.forcedFailures.contains item)

/-- The interfaces of the direct dependencies of an item, all of which must be there. -/
def dependencyInterfaces (graph : DependencyGraph) (s : SharedBuild Parser) (item : ItemType) :
    Option (List Parser) := do
  let deps ← graph.getDirectDependencies item
  deps.mapM fun dep ↦ s.interfaces[dep]?

/-- The end of a builder for an item with a build file: after-build files are read if all is
well. -/
def afterBuild (item : ItemType) (parser : Option Parser) (status : Bool) : BuilderPhase Parser :=
  match parser with
  | none => .returned none status
  | some parser =>
    if status then
      .returned (some (b.readAfterBuilds item parser).1) (b.readAfterBuilds item parser).2
    else .returned (some parser) false

/-- Whether `buildItem` calls a backend. An item that is not writable, and every item of a no-op, is
taken to be built. -/
def callsBackend (item : ItemType) (isDepFailure : Bool) : Bool :=
  b.filter item && !isDepFailure && b.isBuildItemWritable item && !b.noOp

/-- `itemBuilder` after the interface has been created, where there is to be one. -/
def build (item : ItemType) (isDepFailure : Bool) (parser : Option Parser) (status : Bool) :
    BuilderPhase Parser :=
  if b.forcedFailures.contains item then .returned parser false
  else if b.hasBuildFile item then
    if status && b.callsBackend item isDepFailure then .invoking parser
    else b.afterBuild item parser status
  else
    -- Without a build file there may be no after-build files.
    .returned parser (status && !parser.any b.hasAfterBuilds)

/-- `itemBuilder` up to the backend, or to its end. -/
def itemBuilder (graph : DependencyGraph) (s : SharedBuild Parser) (item : ItemType)
    (isDepFailure : Bool) : Option (BuilderPhase Parser) :=
  if b.useInterfaces item isDepFailure then do
    let imported ← dependencyInterfaces graph s item
    some (b.build item isDepFailure (some (b.createItemInterface item imported).1)
      (b.createItemInterface item imported).2)
  else some (b.build item isDepFailure none true)

/-- The rest of a builder that has called a backend. -/
def afterBackend (item : ItemType) : BuilderPhase Parser → BuilderPhase Parser
  | .invoking parser => b.afterBuild item parser (b.invokeBackend item parser)
  | phase => phase

end ItemBuilder

/-- A run of the builders. The callback has been called for the first `called` changes of the state
of an item. -/
structure BuildRun (n : ℕ) (Parser : Type) where
  runner : DependencyRunner n
  builders : Fin n → BuilderPhase Parser
  shared : SharedBuild Parser
  called : ℕ

namespace BuildRun

/-- The runner of `buildBuildset`, whose callback hears of the states at the start, too. -/
def start (n : ℕ) (Parser : Type) (graph : DependencyGraph) (disableFailurePropagation : Bool) :
    Option (BuildRun n Parser) := do
  let runner ← DependencyRunner.start n graph disableFailurePropagation
  some
    { runner := { runner with evaluator := runner.evaluator.setChangeCallback true }
      builders := fun _ ↦ .called
      shared := .new
      called := 0 }

/-- `stateChangeCallback`, in the thread that runs `run`. -/
def stateChangeCallback (b : ItemBuilder Parser) (s : BuildRun n Parser) (item : ItemType)
    (state : ItemState) : Option (BuildRun n Parser) :=
  if state = .depfailed then do
    let phase ← b.itemBuilder s.runner.evaluator.graph s.shared item true
    some { s with shared := s.shared.leave item phase, called := s.called + 1 }
  else some { s with called := s.called + 1 }

/-- A step of the thread that runs `run`, which calls the callback for all changes before it goes
on. -/
def controllerStep (b : ItemBuilder Parser) (stopOnError : Bool) (s : BuildRun n Parser) :
    Option (BuildRun n Parser) :=
  match s.runner.evaluator.changes[s.called]? with
  | some (item, state) => s.stateChangeCallback b item state
  | none => do
    let runner ← s.runner.controllerStep stopOnError
    some { s with runner }

/-- A step of a worker: a section of the builder that it has called, or a step of the pool. -/
def workerStep (b : ItemBuilder Parser) (s : BuildRun n Parser) (w : Fin n) :
    Option (BuildRun n Parser) :=
  match s.runner.pool.workers w, s.builders w with
  | .processing item, .called => do
    let phase ← b.itemBuilder s.runner.evaluator.graph s.shared item false
    some { s with
      builders := Function.update s.builders w phase
      shared := s.shared.leave item phase }
  | .processing item, .invoking parser =>
    some { s with
      builders := Function.update s.builders w (b.afterBackend item (.invoking parser))
      shared := s.shared.leave item (b.afterBackend item (.invoking parser)) }
  | .processing _, .returned _ status => do
    let pool ← s.runner.pool.workerStep (fun _ ↦ status) w
    some { s with
      runner := { s.runner with pool }
      builders := Function.update s.builders w .called }
  | _, _ => do
    let pool ← s.runner.pool.workerStep (fun _ ↦ true) w
    some { s with runner := { s.runner with pool } }

/-- The step of an actor, when it has one. -/
def act (b : ItemBuilder Parser) (stopOnError : Bool) (s : BuildRun n Parser) :
    Actor n → Option (BuildRun n Parser)
  | .controller => s.controllerStep b stopOnError
  | .worker w => s.workerStep b w

/-- The build after a schedule, when each of its actors has a step in turn. -/
def runSchedule (b : ItemBuilder Parser) (stopOnError : Bool) (s : BuildRun n Parser)
    (schedule : List (Actor n)) : Option (BuildRun n Parser) :=
  schedule.foldlM (act b stopOnError) s

end BuildRun

/-! ### The items one after the other -/

/-- What has been built when the items are taken one after the other. -/
structure SerialBuild (Parser : Type) where
  states : TreeMap ItemType ItemState
  shared : SharedBuild Parser

namespace SerialBuild

variable (b : ItemBuilder Parser) (graph : DependencyGraph)

def new : SerialBuild Parser := ⟨∅, .new⟩

def stateOf (s : SerialBuild Parser) (item : ItemType) : ItemState := s.states.getD item .waiting

/-- Whether an item has not been built. -/
def isFailure (s : SerialBuild Parser) (item : ItemType) : Bool :=
  decide (s.stateOf item = .failed ∨ s.stateOf item = .depfailed)

/-- How the builder of an item ends. -/
def builderResult (shared : SharedBuild Parser) (item : ItemType) (isDepFailure : Bool) :
    Option (BuilderPhase Parser) := do
  let phase ← b.itemBuilder graph shared item isDepFailure
  some (b.afterBackend item phase)

/-- An item is built after those that it depends on. -/
def buildNext (s : SerialBuild Parser) (item : ItemType) : Option (SerialBuild Parser) := do
  let deps ← graph.getDirectDependencies item
  let isDepFailure := deps.any s.isFailure
  let phase ← builderResult b graph s.shared item isDepFailure
  let state : ItemState :=
    if isDepFailure then .depfailed else if phase.isFailure then .failed else .completed
  some ⟨s.states.insert item state, s.shared.leave item phase⟩

def buildAll : Option (SerialBuild Parser) := do
  let inOrder ← graph.getSortedGraph
  inOrder.foldlM (buildNext b graph) new

end SerialBuild

end Abuild
