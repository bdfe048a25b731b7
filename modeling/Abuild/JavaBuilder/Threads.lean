import Abuild.JavaBuilder

/-!
The threads of `JavaBuilder.cc`: any number of callers of `makeRequest`, the thread that runs
`runIO`, and the one that runs the Java program. A section of code that holds the mutex is
one step. A wait on the condition gives the mutex up, but the join of the other thread in
`cleanup` does not, when `start` calls it. A handler of the connection is called by the
thread of `runIO` while that is in `io_service->run()`. The Java side may connect once, send
anything, and exit at any time. Where the source dereferences a null pointer or fails an
assertion, or an exception ends the program, there is no step.
-/

set_option autoImplicit false
set_option relaxedAutoImplicit false

namespace Abuild

/-- Where a caller is in `makeRequest`. -/
inductive CallerPhase
  | calling
  /-- In `cleanup`, which `start` calls with the mutex locked. -/
  | joining
  /-- On the condition in `waitForStartup`. -/
  | waiting
  /-- Notified, but without the mutex. -/
  | woken
  /-- `start` has returned. -/
  | started
  | awaiting (requestNumber : ℕ)
  | returned (result : Bool)
  /-- `start` has thrown a logic error. -/
  | failed
deriving DecidableEq, Repr

/-- Where the thread of `runIO` is. -/
inductive IoPhase
  | created
  /-- In `io_service->run()`. -/
  | serving
  /-- In `handleAccept`, without the mutex. -/
  | accepting
  | joiningJava
  /-- Before the last section. -/
  | failing
  | finished
deriving DecidableEq, Repr

/-- Where the thread of `runJava` is. -/
inductive JavaPhase
  | running
  /-- The program has exited, and the thread is without the mutex. -/
  | exited
  | finished
deriving DecidableEq, Repr

/-- A thread that does not exist has no phase. The socket exists together with the service. -/
structure BuilderThreads (ι : Type) where
  builder : JavaBuilder
  /-- The caller that keeps the mutex. -/
  mutex : Option ι
  callers : ι → CallerPhase
  ioThread : Option IoPhase
  javaThread : Option JavaPhase
  connected : Bool
  hasSocket : Bool
  serviceStopped : Bool
  acceptPending : Bool
  readPending : Bool
  pendingWrites : ℕ

/-- The steps of the callers, of the thread of `runIO`, and of the Java side and its thread. -/
inductive BuilderAction (ι : Type)
  | start (i : ι)
  | join (i : ι)
  | wake (i : ι)
  | register (i : ι)
  | dequeue (i : ι)
  | setUp
  | dispatchAccept
  | handleAccept
  | handleRead (data : Bytes)
  | handleReadError (eof : Bool)
  | handleWrite (error : Bool)
  | runReturns
  | joinJava
  | endOfRun
  | connect
  | exit
  | reportExit
deriving DecidableEq, Repr

namespace BuilderThreads

variable {ι : Type}

/-- The object before the first request. -/
def new (ι : Type) (captureOutput : Bool) : BuilderThreads ι where
  builder := JavaBuilder.new captureOutput
  mutex := none
  callers := fun _ ↦ .calling
  ioThread := none
  javaThread := none
  connected := false
  hasSocket := false
  serviceStopped := false
  acceptPending := false
  readPending := false
  pendingWrites := 0

/-- `notify_all` on the condition. -/
def notifyAll (callers : ι → CallerPhase) (i : ι) : CallerPhase :=
  if callers i = .waiting then .woken else callers i

/-- A change of the builder by `setRunMode`. -/
def setRunMode (s : BuilderThreads ι) (builder : JavaBuilder) : BuilderThreads ι :=
  { s with builder, callers := notifyAll s.callers }

/-- The status of a request that has been responded to. -/
def responseTo (dispatched : List Dispatch) (requestNumber : ℕ) : Option Bool :=
  dispatched.findSome? fun
    | .respond n status => if n = requestNumber then some status else none
    | _ => none

section Steps

variable [DecidableEq ι]

def setCaller (s : BuilderThreads ι) (i : ι) (phase : CallerPhase) : BuilderThreads ι :=
  { s with callers := Function.update s.callers i phase }

/-- The end of `start` where the Java side is started, up to the wait. -/
def launch (s : BuilderThreads ι) (i : ι) : BuilderThreads ι :=
  { s.setRunMode s.builder.startUp with
    ioThread := some .created, mutex := none }.setCaller i .waiting

/-- `start`, up to where it returns, waits or joins. -/
def startSection (s : BuilderThreads ι) (i : ι) : BuilderThreads ι :=
  match s.builder.runMode with
  | .running => s.setCaller i .started
  | .startingUp => s.setCaller i .waiting
  | .startupFailed => s.setCaller i (.returned false)
  | .shuttingDown => s.setCaller i .failed
  | .stopped => { s with mutex := some i }.setCaller i .joining
  | .idle => s.launch i

/-- The test of `waitForStartup`, by a caller that has the mutex again. -/
def wakeSection (s : BuilderThreads ι) (i : ι) : BuilderThreads ι :=
  match s.builder.runMode with
  | .running => s.setCaller i .started
  | .startupFailed => s.setCaller i (.returned false)
  | _ => s.setCaller i .waiting

/-- Whether the thread of `runIO` is in the service and may call a handler. -/
def servingHandlers (s : BuilderThreads ι) : Prop :=
  s.ioThread = some .serving ∧ s.serviceStopped = false

instance (s : BuilderThreads ι) : Decidable s.servingHandlers := inferInstanceAs (Decidable (_ ∧ _))

/-- Whether `io_service->run()` may return. -/
def runMayReturn (s : BuilderThreads ι) : Prop :=
  s.ioThread = some .serving ∧ (s.serviceStopped = true ∨
    (s.acceptPending = false ∧ s.readPending = false ∧ s.pendingWrites = 0))

instance (s : BuilderThreads ι) : Decidable s.runMayReturn := inferInstanceAs (Decidable (_ ∧ _))

def step (s : BuilderThreads ι) : BuilderAction ι → Option (BuilderThreads ι)
  | .start i =>
    if s.callers i = .calling ∧ s.mutex = none then some (s.startSection i) else none
  | .join i =>
    if s.callers i = .joining ∧ s.ioThread = some .finished then
      some ({ s with hasSocket := false }.launch i)
    else none
  | .wake i => if s.callers i = .woken ∧ s.mutex = none then some (s.wakeSection i) else none
  | .register i =>
    if s.callers i = .started ∧ s.mutex = none ∧ s.hasSocket = true then do
      let builder ← s.builder.registerRequest
      some ({ s with builder, pendingWrites := s.pendingWrites + 1 }.setCaller i
        (.awaiting builder.lastRequest))
    else none
  | .dequeue i =>
    match s.callers i with
    | .awaiting requestNumber => do
      let status ← responseTo s.builder.dispatched requestNumber
      some (s.setCaller i (.returned status))
    | _ => none
  | .setUp =>
    if s.ioThread = some .created ∧ s.mutex = none ∧ s.builder.runMode = .startingUp then
      some { s with
        ioThread := some .serving
        javaThread := some .running
        connected := false
        hasSocket := true
        serviceStopped := false
        acceptPending := true
        readPending := false
        pendingWrites := 0 }
    else none
  | .dispatchAccept =>
    if s.servingHandlers ∧ s.acceptPending = true ∧ s.connected = true then
      some { s with ioThread := some .accepting, acceptPending := false }
    else none
  | .handleAccept =>
    if s.ioThread = some .accepting ∧ s.mutex = none then
      some { s.setRunMode s.builder.handleAccept with
        ioThread := some .serving
        readPending := true }
    else none
  | .handleRead data =>
    if s.servingHandlers ∧ s.readPending = true ∧ s.mutex = none then do
      let builder ← s.builder.handleRead data
      some { s with builder, readPending := builder.runMode = .running }
    else none
  | .handleReadError eof =>
    if s.servingHandlers ∧ s.readPending = true ∧ s.mutex = none ∧
        s.javaThread ≠ some .running then
      some { s.setRunMode (s.builder.handleReadError eof) with readPending := false }
    else none
  | .handleWrite error =>
    if s.servingHandlers ∧ s.pendingWrites ≠ 0 ∧ (error = true → s.mutex = none) then
      some { s with pendingWrites := s.pendingWrites - 1 }
    else none
  | .runReturns => if s.runMayReturn then some { s with ioThread := some .joiningJava } else none
  | .joinJava =>
    if s.ioThread = some .joiningJava ∧ s.javaThread = some .finished then
      some { s with ioThread := some .failing }
    else none
  | .endOfRun =>
    if s.ioThread = some .failing ∧ s.mutex = none then
      some { s.setRunMode s.builder.endOfRun with
        ioThread := some .finished
        javaThread := none }
    else none
  | .connect =>
    if s.javaThread = some .running ∧ s.connected = false ∧ s.acceptPending = true then
      some { s with connected := true }
    else none
  | .exit =>
    if s.javaThread = some .running then some { s with javaThread := some .exited } else none
  | .reportExit =>
    if s.javaThread = some .exited ∧ s.mutex = none then
      some { s with
        javaThread := some .finished
        serviceStopped := s.serviceStopped || s.builder.runMode = .startingUp }
    else none

def run (s : BuilderThreads ι) (actions : List (BuilderAction ι)) : Option (BuilderThreads ι) :=
  actions.foldlM step s

/-- The steps with what they need and where they lead, a constructor for each action. -/
inductive Steps (s : BuilderThreads ι) : BuilderAction ι → BuilderThreads ι → Prop
  | start {i : ι} (hi : s.callers i = .calling) (hmutex : s.mutex = none) :
    Steps s (.start i) (s.startSection i)
  | join {i : ι} (hi : s.callers i = .joining) (hio : s.ioThread = some .finished) :
    Steps s (.join i) ({ s with hasSocket := false }.launch i)
  | wake {i : ι} (hi : s.callers i = .woken) (hmutex : s.mutex = none) :
    Steps s (.wake i) (s.wakeSection i)
  | register {i : ι} {builder : JavaBuilder} (hi : s.callers i = .started) (hmutex : s.mutex = none)
    (hsocket : s.hasSocket = true) (hregister : s.builder.registerRequest = some builder) :
    Steps s (.register i) ({ s with builder, pendingWrites := s.pendingWrites + 1 }.setCaller i
      (.awaiting builder.lastRequest))
  | dequeue {i : ι} {requestNumber : ℕ} {status : Bool}
    (hi : s.callers i = .awaiting requestNumber)
    (hstatus : responseTo s.builder.dispatched requestNumber = some status) :
    Steps s (.dequeue i) (s.setCaller i (.returned status))
  | setUp (hio : s.ioThread = some .created) (hmutex : s.mutex = none)
    (hmode : s.builder.runMode = .startingUp) :
    Steps s .setUp { s with
      ioThread := some .serving
      javaThread := some .running
      connected := false
      hasSocket := true
      serviceStopped := false
      acceptPending := true
      readPending := false
      pendingWrites := 0 }
  | dispatchAccept (hserving : s.servingHandlers) (haccept : s.acceptPending = true)
    (hconnected : s.connected = true) :
    Steps s .dispatchAccept { s with ioThread := some .accepting, acceptPending := false }
  | handleAccept (hio : s.ioThread = some .accepting) (hmutex : s.mutex = none) :
    Steps s .handleAccept { s.setRunMode s.builder.handleAccept with
      ioThread := some .serving
      readPending := true }
  | handleRead {data : Bytes} {builder : JavaBuilder} (hserving : s.servingHandlers)
    (hread : s.readPending = true) (hmutex : s.mutex = none)
    (hbuilder : s.builder.handleRead data = some builder) :
    Steps s (.handleRead data) { s with builder, readPending := builder.runMode = .running }
  | handleReadError {eof : Bool} (hserving : s.servingHandlers) (hread : s.readPending = true)
    (hmutex : s.mutex = none) (hjava : s.javaThread ≠ some .running) :
    Steps s (.handleReadError eof)
      { s.setRunMode (s.builder.handleReadError eof) with readPending := false }
  | handleWrite {error : Bool} (hserving : s.servingHandlers) (hpending : s.pendingWrites ≠ 0)
    (hmutex : error = true → s.mutex = none) :
    Steps s (.handleWrite error) { s with pendingWrites := s.pendingWrites - 1 }
  | runReturns (hreturn : s.runMayReturn) :
    Steps s .runReturns { s with ioThread := some .joiningJava }
  | joinJava (hio : s.ioThread = some .joiningJava) (hjava : s.javaThread = some .finished) :
    Steps s .joinJava { s with ioThread := some .failing }
  | endOfRun (hio : s.ioThread = some .failing) (hmutex : s.mutex = none) :
    Steps s .endOfRun { s.setRunMode s.builder.endOfRun with
      ioThread := some .finished
      javaThread := none }
  | connect (hjava : s.javaThread = some .running) (hconnected : s.connected = false)
    (haccept : s.acceptPending = true) :
    Steps s .connect { s with connected := true }
  | exit (hjava : s.javaThread = some .running) :
    Steps s .exit { s with javaThread := some .exited }
  | reportExit (hjava : s.javaThread = some .exited) (hmutex : s.mutex = none) :
    Steps s .reportExit { s with
      javaThread := some .finished
      serviceStopped := s.serviceStopped || s.builder.runMode = .startingUp }

variable {s s' : BuilderThreads ι} {action : BuilderAction ι}

theorem steps_of_step (h : step s action = some s') : Steps s action s' := by
  cases action with
  | start i =>
    obtain ⟨⟨hi, hmutex⟩, heq⟩ := Option.ite_none_right_eq_some.mp h
    exact Option.some_inj.mp heq ▸ .start hi hmutex
  | join i =>
    obtain ⟨⟨hi, hio⟩, heq⟩ := Option.ite_none_right_eq_some.mp h
    exact Option.some_inj.mp heq ▸ .join hi hio
  | wake i =>
    obtain ⟨⟨hi, hmutex⟩, heq⟩ := Option.ite_none_right_eq_some.mp h
    exact Option.some_inj.mp heq ▸ .wake hi hmutex
  | register i =>
    obtain ⟨⟨hi, hmutex, hsocket⟩, hrest⟩ := Option.ite_none_right_eq_some.mp h
    obtain ⟨builder, hregister, heq⟩ := Option.bind_eq_some_iff.mp hrest
    exact Option.some_inj.mp heq ▸ .register hi hmutex hsocket hregister
  | dequeue i =>
    unfold step at h
    dsimp only at h
    split at h
    next requestNumber hi =>
      obtain ⟨status, hstatus, heq⟩ := Option.bind_eq_some_iff.mp h
      exact Option.some_inj.mp heq ▸ .dequeue hi hstatus
    next => cases h
  | setUp =>
    obtain ⟨⟨hio, hmutex, hmode⟩, heq⟩ := Option.ite_none_right_eq_some.mp h
    exact Option.some_inj.mp heq ▸ .setUp hio hmutex hmode
  | dispatchAccept =>
    obtain ⟨⟨hserving, haccept, hconnected⟩, heq⟩ := Option.ite_none_right_eq_some.mp h
    exact Option.some_inj.mp heq ▸ .dispatchAccept hserving haccept hconnected
  | handleAccept =>
    obtain ⟨⟨hio, hmutex⟩, heq⟩ := Option.ite_none_right_eq_some.mp h
    exact Option.some_inj.mp heq ▸ .handleAccept hio hmutex
  | handleRead data =>
    obtain ⟨⟨hserving, hread, hmutex⟩, hrest⟩ := Option.ite_none_right_eq_some.mp h
    obtain ⟨builder, hbuilder, heq⟩ := Option.bind_eq_some_iff.mp hrest
    exact Option.some_inj.mp heq ▸ .handleRead hserving hread hmutex hbuilder
  | handleReadError eof =>
    obtain ⟨⟨hserving, hread, hmutex, hjava⟩, heq⟩ := Option.ite_none_right_eq_some.mp h
    exact Option.some_inj.mp heq ▸ .handleReadError hserving hread hmutex hjava
  | handleWrite error =>
    obtain ⟨⟨hserving, hpending, hmutex⟩, heq⟩ := Option.ite_none_right_eq_some.mp h
    exact Option.some_inj.mp heq ▸ .handleWrite hserving hpending hmutex
  | runReturns =>
    obtain ⟨hreturn, heq⟩ := Option.ite_none_right_eq_some.mp h
    exact Option.some_inj.mp heq ▸ .runReturns hreturn
  | joinJava =>
    obtain ⟨⟨hio, hjava⟩, heq⟩ := Option.ite_none_right_eq_some.mp h
    exact Option.some_inj.mp heq ▸ .joinJava hio hjava
  | endOfRun =>
    obtain ⟨⟨hio, hmutex⟩, heq⟩ := Option.ite_none_right_eq_some.mp h
    exact Option.some_inj.mp heq ▸ .endOfRun hio hmutex
  | connect =>
    obtain ⟨⟨hjava, hconnected, haccept⟩, heq⟩ := Option.ite_none_right_eq_some.mp h
    exact Option.some_inj.mp heq ▸ .connect hjava hconnected haccept
  | exit =>
    obtain ⟨hjava, heq⟩ := Option.ite_none_right_eq_some.mp h
    exact Option.some_inj.mp heq ▸ .exit hjava
  | reportExit =>
    obtain ⟨⟨hjava, hmutex⟩, heq⟩ := Option.ite_none_right_eq_some.mp h
    exact Option.some_inj.mp heq ▸ .reportExit hjava hmutex

end Steps

end BuilderThreads

end Abuild
