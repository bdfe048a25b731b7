import Abuild.DependencyGraph.Groovy

/-!
The targets of a Groovy backend (`BuildState.groovy`). They are configured with closures and
dependencies, the graph of their dependencies is checked, and then targets are run. A closure is
code of the user: it acts on a world that the source knows nothing of, and it may itself run
targets, whose exceptions it may catch.

A state records what has happened to the targets and what has been printed (`Event`). An assertion
that fails is the absence of a value.
-/

set_option autoImplicit false
set_option relaxedAutoImplicit false

namespace Abuild

inductive Throwable
  | buildFailure (message : String)
  | buildException (message : String)
  | exception (className message : String)
  | error (className message : String)
deriving DecidableEq, Repr

namespace Throwable

def isException : Throwable → Bool
  | .error _ _ => false
  | _ => true

end Throwable

/-- The code of a closure, up to its end or to an exception. -/
inductive TargetClosure (υ : Type)
  | done
  | throw (e : Throwable)
  | act (f : υ → υ) (next : υ → TargetClosure υ)
  | error (message : String) (next : TargetClosure υ)
  | runTarget (target : String) (next : Except Throwable Bool → TargetClosure υ)

inductive Event
  | println (line : String)
  | error (message : String)
  | printStackTrace (e : Throwable)
  /-- `runTargets` is about to call `runTarget`, for which the target may be in progress. -/
  | asks (target : String) (inProgress : Bool)
  | runs (target : String) (index : ℕ)
  | throws (target : String) (e : Throwable)
  | caches (target : String) (status : Bool)
deriving DecidableEq, Repr

structure BuildState (υ : Type) where
  keepGoing : Bool
  verbose : Bool
  anyFailures : Bool
  curFile : Option String
  g : GroovyDependencyGraph
  closures : LinkedHashMap String (List (String × TargetClosure υ))
  targetDepOrigins : LinkedHashMap String (LinkedHashMap String ℕ)
  targetsRun : LinkedHashMap String (Option Bool)
  ready : Bool
  world : υ
  events : List Event

namespace BuildState

variable {υ : Type}

def new (keepGoing verbose : Bool) (world : υ) : BuildState υ where
  keepGoing
  verbose
  anyFailures := false
  curFile := none
  g := .new
  closures := .empty
  targetDepOrigins := .empty
  targetsRun := .empty
  ready := false
  world
  events := []

def record (s : BuildState υ) (event : Event) : BuildState υ :=
  { s with events := s.events ++ [event] }

def error (s : BuildState υ) (message : String) : BuildState υ :=
  { s.record (.error ("abuild-groovy: ERROR: " ++ message)) with anyFailures := true }

/-! ### Configuration -/

/-- A parameter of `configureTarget`. -/
inductive Parameter
  | deps (deps : List String)
  | replaceClosures (replaceClosures : Bool)
  | unknown (key : String)

/-- The file that defines dependencies of a target. -/
def addOrigin (s : BuildState υ) (name : String) : BuildState υ :=
  match s.curFile with
  | none => s
  | some curFile =>
    let files := (s.targetDepOrigins.getD name .empty).put curFile 1
    { s with targetDepOrigins := s.targetDepOrigins.put name files }

def applyParameter (name : String) (s : BuildState υ × Bool) :
    Parameter → Option (BuildState υ × Bool)
  | .deps deps => do
    let g ← deps.foldlM (fun g dep ↦ g.addDependency name dep) s.1.g
    some ({ s.1 with g }.addOrigin name, s.2)
  | .replaceClosures replaceClosures => some (s.1, replaceClosures)
  | .unknown key =>
    some (s.1.error ("configureTarget: unknown parameter " ++ key ++
      s.1.curFile.elim "" (" in file " ++ ·)), s.2)

/-- A target that is not known is added with no closures. -/
def addUnknownTarget (s : BuildState υ) (name : String) : Option (BuildState υ) :=
  if s.g.dependencies.containsKey name then some s
  else do
    let g ← s.g.addItem name
    some { s with g, closures := s.closures.put name [] }

/-- The parameters are in the order of their keys. -/
def configureTarget (s : BuildState υ) (parameters : List Parameter) (name : String)
    (body : Option (TargetClosure υ)) : Option (BuildState υ) := do
  let s ← s.addUnknownTarget name
  let (s, replaceClosures) ← parameters.foldlM (applyParameter name) (s, false)
  let s := if replaceClosures then { s with closures := s.closures.put name [] } else s
  match body with
  | none => some s
  | some body =>
    let origin := s.curFile.getD "built-in targets"
    some { s with closures := s.closures.put name (s.closures.getD name [] ++ [(origin, body)]) }

/-- What the files that configure a backend do, before the graph is checked. -/
inductive Setup (υ : Type)
  | configureTarget (parameters : List Parameter) (name : String) (body : Option (TargetClosure υ))
  | error (message : String)
  | load (file : Option String)

def setup (s : BuildState υ) : Setup υ → Option (BuildState υ)
  | .configureTarget parameters name body => s.configureTarget parameters name body
  | .error message => some (s.error message)
  | .load file => some { s with curFile := file }

/-- The messages about the graph, and the targets that they are about. -/
def reportGraph (s : BuildState υ) : BuildState υ :=
  let unknowns := GroovyDependencyGraph.sortKeys s.g.unknowns.keySet
  let s₁ := unknowns.foldl (fun s u ↦ (s.g.unknowns.getD u []).foldl (fun s item ↦ s.error
    ("target \"" ++ u ++ "\" depends on unknown target \"" ++ item ++ "\"")) s) s
  let s₂ := s₁.g.cycles.foldl (fun s c ↦ s.error
    ("the following targets are involved in a dependency cycle: " ++
      ", ".intercalate (c.map fun item ↦ "\"" ++ item ++ "\""))) s₁
  let targetsOfInterest := GroovyDependencyGraph.sortKeys (unknowns ++ s.g.cycles.flatten).dedup
  targetsOfInterest.foldl (fun s t ↦
    match s.targetDepOrigins.get? t with
    | none => s
    | some origins =>
      origins.keySet.foldl (fun s file ↦ s.error ("  " ++ file))
        (s.error ("dependencies are defined for target \"" ++ t ++ "\" in the following files:")))
    s₂

def checkGraph (s : BuildState υ) : Option (Bool × BuildState υ) := do
  let (result, g) ← s.g.check
  let s := { s with g }
  some (if result then (true, { s with ready := true }) else (false, s.reportGraph))

/-! ### `runTarget` -/

/-- After a failure no target is started, unless the user wants to keep going. -/
def stops (s : BuildState υ) : Bool := s.anyFailures && !s.keepGoing

/-- What the code of a closure does, where the first argument runs a target. -/
def runCode (runTarget : String → BuildState υ → Option (Except Throwable Bool × BuildState υ)) :
    TargetClosure υ → BuildState υ → Option (Option Throwable × BuildState υ)
  | .done, s => some (none, s)
  | .throw e, s => some (some e, s)
  | .act f next, s => runCode runTarget (next s.world) { s with world := f s.world }
  | .error message next, s => runCode runTarget next (s.error message)
  | .runTarget target next, s => do
    let (result, s) ← runTarget target s
    runCode runTarget (next result) s

/-- The message about an exception, and whether its stack trace is printed. -/
def caught (s : BuildState υ) (target origin : String) : Throwable → Option (String × Bool)
  | .buildFailure message => some ("build failure: " ++ message, s.verbose)
  | .buildException message => some ("ant build failure: " ++ message, s.verbose)
  | .exception className message =>
    some ("Caught exception " ++ className ++ " while running code for target \"" ++ target ++
      "\" from " ++ origin ++ ": " ++ message, true)
  | .error _ _ => none

/-- The closures of a target, from the one with the given index on. -/
def runClosures (runTarget : String → BuildState υ → Option (Except Throwable Bool × BuildState υ))
    (target : String) :
    ℕ → List (String × TargetClosure υ) → Bool → BuildState υ →
      Option (Except Throwable Bool × BuildState υ)
  | _, [], status, s => some (.ok status, s)
  | index, (origin, cl) :: closures, status, s => do
    let s := if s.verbose then
        s.record (.println ("--> running target " ++ target ++ " from " ++ origin))
      else s
    let (thrown, s) ← runCode runTarget cl (s.record (.runs target index))
    match thrown with
    | none =>
      if s.stops then some (.ok status, s)
      else runClosures runTarget target (index + 1) closures status s
    | some e =>
      let s := s.record (.throws target e)
      match s.caught target origin e with
      | none => some (.error e, s)
      | some (message, print) =>
        let s := s.error message
        let s := if print then s.record (.printStackTrace e) else s
        runClosures runTarget target (index + 1) closures false s

/-- A call of `runTarget` for the target throws an exception. -/
def callsItself (s : BuildState υ) (target : String) : Bool :=
  !s.stops && s.targetsRun.get? target == some none

def runTargets (runTarget : String → BuildState υ → Option (Except Throwable Bool × BuildState υ)) :
    List String → Bool → BuildState υ → Option (Except Throwable Bool × BuildState υ)
  | [], status, s => some (.ok status, s)
  | target :: targets, status, s => do
    let (result, s) ← runTarget target (s.record (.asks target (s.callsItself target)))
    match result with
    | .error e => some (.error e, s)
    | .ok result => runTargets runTarget targets (status && result) s

/-- The end of the run of a target. -/
def cache (s : BuildState υ) (target : String) (status : Bool) : BuildState υ :=
  { s.record (.caches target status) with
    anyFailures := s.anyFailures || !status
    targetsRun := s.targetsRun.put target (some status) }

/-- The first argument bounds the depth of the calls. -/
def runTarget : ℕ → String → BuildState υ → Option (Except Throwable Bool × BuildState υ)
  | 0, _, _ => none
  | depth + 1, target, s =>
    if ¬ s.ready then
      some (.error (.buildFailure "runTarget may not be called during initialization"), s)
    else if s.stops then some (.ok false, s)
    else
      match s.targetsRun.get? target with
      | some none =>
        some (.error (.buildFailure ("target \"" ++ target ++ "\" called itself most likely as a" ++
          " result of an explicit runTarget on itself or one" ++ "of its reverse dependencies")), s)
      | some (some status) => some (.ok status, s)
      | none =>
        let s := { s with targetsRun := s.targetsRun.put target none }
        match s.closures.get? target with
        | none => some (.ok false, (s.error ("unknown target " ++ target)).cache target false)
        | some closures => do
          let deps ← s.g.getDirectDependencies target
          let (result, s) ← runTargets (runTarget depth) deps true s
          match result with
          | .error e => some (.error e, s)
          | .ok false =>
            let s := s.error ("not building target \"" ++ target ++
              "\" because of failure of its dependencies")
            some (.ok false, s.cache target false)
          | .ok true => do
            let (result, s) ← runClosures (runTarget depth) target 0 closures true s
            match result with
            | .error e => some (.error e, s)
            | .ok status => some (.ok status, s.cache target status)

/-- A call from outside, while no target is run. There is a frame for every known target and one
more on the stack at most. -/
def call (s : BuildState υ) (target : String) : Option (Except Throwable Bool × BuildState υ) :=
  runTarget (s.closures.keySet.length + 1) target s

/-- Calls from outside, whose exceptions are caught. -/
def callAll (s : BuildState υ) (targets : List String) : Option (BuildState υ) :=
  targets.foldlM (fun s target ↦ (s.call target).map Prod.snd) s

end BuildState

end Abuild
