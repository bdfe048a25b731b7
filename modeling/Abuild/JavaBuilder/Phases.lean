import Abuild.JavaBuilder.Decode
import Abuild.JavaBuilder.Threads

/-!
What holds in every state of the threads of the builder: which phases of the thread of `runIO`
and of the thread of the Java program go with which mode, and that only a caller in the join
keeps the mutex, in the stopped mode (`Invariant.step`).
-/

set_option autoImplicit false
set_option relaxedAutoImplicit false

namespace Abuild.BuilderThreads

variable {ι : Type}

/-- In `waitForStartup`. -/
def Waits (phase : CallerPhase) : Prop := phase = .waiting ∨ phase = .woken

/-! ### The phases that go with a mode -/

/-- Where the threads of `runIO` and of `runJava` are in a mode. -/
def PhaseOk (s : BuilderThreads ι) : Prop :=
  match s.builder.runMode with
  | .idle => s.ioThread = none
  | .startingUp =>
    s.ioThread = some .created ∨ (s.ioThread = some .accepting ∧ s.acceptPending = false) ∨
      ((s.ioThread = some .serving ∨ s.ioThread = some .joiningJava ∨ s.ioThread = some .failing) ∧
        s.readPending = false ∧ (s.serviceStopped = true ↔ s.javaThread = some .finished))
  | .running =>
    (s.ioThread = some .serving ∧ s.acceptPending = false) ∨ s.ioThread = some .joiningJava ∨
      s.ioThread = some .failing
  | .startupFailed => s.ioThread = some .finished
  | .shuttingDown => False
  | .stopped =>
    (s.ioThread = some .serving ∧ s.acceptPending = false ∧ s.readPending = false) ∨
      s.ioThread = some .joiningJava ∨ s.ioThread = some .failing ∨ s.ioThread = some .finished

structure Invariant (s : BuilderThreads ι) : Prop where
  phase : PhaseOk s
  /-- The Java program has a thread until the thread of `runIO` has joined it. -/
  java : s.ioThread = some .serving ∨ s.ioThread = some .accepting ∨
    s.ioThread = some .joiningJava → s.javaThread.isSome
  mutex : ∀ i, s.callers i = .joining ↔ s.mutex = some i
  stopped : s.mutex.isSome → s.builder.runMode = .stopped
  waiting : ∀ i, s.callers i = .waiting →
    s.builder.runMode = .startingUp ∨ s.builder.runMode = .stopped
  idle : s.builder.runMode = .idle → ∀ i, ¬ Waits (s.callers i)

section Step

variable {s s' : BuilderThreads ι}

theorem notifyAll_ne_waiting (callers : ι → CallerPhase) (i : ι) :
    notifyAll callers i ≠ .waiting := by
  unfold notifyAll
  split_ifs with h
  · exact CallerPhase.noConfusion
  · exact h

theorem notifyAll_eq_joining_iff {callers : ι → CallerPhase} {i : ι} :
    notifyAll callers i = .joining ↔ callers i = .joining := by
  unfold notifyAll
  split_ifs with h
  · simp [h]
  · exact Iff.rfl

theorem notifyAll_eq_calling_iff {callers : ι → CallerPhase} {i : ι} :
    notifyAll callers i = .calling ↔ callers i = .calling := by
  unfold notifyAll
  split_ifs with h
  · simp [h]
  · exact Iff.rfl

theorem waits_notifyAll_iff {callers : ι → CallerPhase} {i : ι} :
    Waits (notifyAll callers i) ↔ Waits (callers i) := by
  unfold notifyAll
  split_ifs with h
  · rw [h]
    exact iff_of_true (Or.inr rfl) (Or.inl rfl)
  · exact Iff.rfl

theorem handleRead_runMode {data : Bytes} {b b' : JavaBuilder} (h : b.handleRead data = some b') :
    b'.runMode = b.runMode := by
  refine JavaBuilder.handleRead_induction (motive := fun b' ↦ b'.runMode = b.runMode) h rfl
    (fun _ _ hmode ↦ hmode) fun b₁ d b₂ hact hmode ↦ ?_
  unfold JavaBuilder.act at hact
  obtain ⟨-, heq⟩ := Option.ite_none_right_eq_some.mp hact
  rw [← Option.some_inj.mp heq]
  exact hmode

/-- A step that changes neither the callers nor the mode. -/
theorem Invariant.of_same (h : Invariant s) (hcallers : s'.callers = s.callers)
    (hmutex : s'.mutex = s.mutex) (hmode : s'.builder.runMode = s.builder.runMode)
    (hphase : PhaseOk s')
    (hjava : s'.ioThread = some .serving ∨ s'.ioThread = some .accepting ∨
      s'.ioThread = some .joiningJava → s'.javaThread.isSome) : Invariant s' where
  phase := hphase
  java := hjava
  mutex := by
    rw [hcallers, hmutex]
    exact h.mutex
  stopped := by
    rw [hmutex, hmode]
    exact h.stopped
  waiting := by
    rw [hcallers, hmode]
    exact h.waiting
  idle := by
    rw [hcallers, hmode]
    exact h.idle

/-- A change of the mode, which needs the mutex. -/
theorem Invariant.setMode (h : Invariant s) (hmutex : s.mutex = none)
    (hcallers : s'.callers = notifyAll s.callers) (hmutex' : s'.mutex = s.mutex)
    (hmode : s'.builder.runMode ≠ .idle) (hphase : PhaseOk s')
    (hjava : s'.ioThread = some .serving ∨ s'.ioThread = some .accepting ∨
      s'.ioThread = some .joiningJava → s'.javaThread.isSome) : Invariant s' where
  phase := hphase
  java := hjava
  mutex := by
    intro j
    rw [hcallers, notifyAll_eq_joining_iff, hmutex', h.mutex]
  stopped := by
    rw [hmutex', hmutex]
    exact fun hsome ↦ absurd hsome Bool.false_ne_true
  waiting := by
    intro j hj
    rw [hcallers] at hj
    exact absurd hj (notifyAll_ne_waiting s.callers j)
  idle := fun hidle ↦ absurd hidle hmode

theorem Invariant.mutex_of_ne_stopped (h : Invariant s) (hmode : s.builder.runMode ≠ .stopped) :
    s.mutex = none := by
  cases hmutex : s.mutex with
  | none => rfl
  | some i => exact absurd (h.stopped (by rw [hmutex]; rfl)) hmode

/-- The builder reads in the running mode. -/
theorem Invariant.running_of_read (h : Invariant s) (hio : s.ioThread = some .serving)
    (hread : s.readPending = true) : s.builder.runMode = .running := by
  have hphase := h.phase
  unfold PhaseOk at hphase
  rw [hio, hread] at hphase
  cases hmode : s.builder.runMode <;> simp_all

theorem handleReadError_running {b : JavaBuilder} (h : b.runMode = .running) (eof : Bool) :
    b.handleReadError eof = { b with runMode := .stopped } := by
  rw [JavaBuilder.handleReadError, if_pos (by simp [h])]

variable [DecidableEq ι]

/-- A step of one caller that does not hold the mutex across it. -/
theorem Invariant.setCaller (h : Invariant s) {i : ι} (hi : s.callers i ≠ .joining)
    {phase : CallerPhase} (hphase : phase ≠ .joining)
    (hwaits : Waits phase → s.builder.runMode = .startingUp ∨ s.builder.runMode = .stopped) :
    Invariant (s.setCaller i phase) where
  phase := h.phase
  java := h.java
  mutex := by
    intro j
    show Function.update s.callers i phase j = .joining ↔ s.mutex = some j
    rw [← h.mutex]
    by_cases hj : j = i
    · rw [hj, Function.update_self]
      exact iff_of_false hphase hi
    · rw [Function.update_of_ne hj]
  stopped := h.stopped
  waiting := by
    intro j hj
    replace hj : Function.update s.callers i phase j = .waiting := hj
    by_cases hji : j = i
    · rw [hji, Function.update_self] at hj
      exact hwaits (Or.inl hj)
    · rw [Function.update_of_ne hji] at hj
      exact h.waiting j hj
  idle := by
    intro hidle j hj
    replace hidle : s.builder.runMode = .idle := hidle
    replace hj : Waits (Function.update s.callers i phase j) := hj
    by_cases hji : j = i
    · rw [hji, Function.update_self] at hj
      have hmode := hwaits hj
      rw [hidle] at hmode
      rcases hmode with hmode | hmode <;> cases hmode
    · rw [Function.update_of_ne hji] at hj
      exact h.idle hidle j hj

/-- The start of the Java side by a caller that holds the mutex, or could. -/
theorem Invariant.launch (h : Invariant s) {i : ι} (hmutex : s.mutex = none ∨ s.mutex = some i) :
    Invariant (s.launch i) where
  phase := Or.inl rfl
  java := by
    rintro (heq | heq | heq) <;> cases heq
  mutex := by
    intro j
    show Function.update (notifyAll s.callers) i .waiting j = .joining ↔ none = some j
    refine iff_of_false ?_ (by simp)
    by_cases hj : j = i
    · rw [hj, Function.update_self]
      exact CallerPhase.noConfusion
    · rw [Function.update_of_ne hj]
      intro hjoining
      have hheld := (h.mutex j).mp (notifyAll_eq_joining_iff.mp hjoining)
      rcases hmutex with hnone | hsome
      · rw [hnone] at hheld
        cases hheld
      · exact hj (Option.some_inj.mp (hheld.symm.trans hsome))
  stopped := fun hsome ↦ absurd hsome Bool.false_ne_true
  waiting := fun _ _ ↦ Or.inl rfl
  idle := fun hidle ↦ RunMode.noConfusion hidle

/-- A step that starts a caller, or makes it wait, join or give up. -/
theorem Invariant.startSection (h : Invariant s) {i : ι} (hi : s.callers i = .calling)
    (hmutex : s.mutex = none) : Invariant (s.startSection i) := by
  have hne : s.callers i ≠ .joining := fun hj ↦ CallerPhase.noConfusion (hi.symm.trans hj)
  have hphase := h.phase
  unfold PhaseOk at hphase
  unfold BuilderThreads.startSection
  cases hmode : s.builder.runMode with
  | running => exact h.setCaller hne CallerPhase.noConfusion (by simp [Waits])
  | startingUp => exact h.setCaller hne CallerPhase.noConfusion fun _ ↦ Or.inl hmode
  | startupFailed => exact h.setCaller hne CallerPhase.noConfusion (by simp [Waits])
  | shuttingDown => exact h.setCaller hne CallerPhase.noConfusion (by simp [Waits])
  | idle => exact h.launch (Or.inl hmutex)
  | stopped =>
    refine ⟨h.phase, h.java, fun j ↦ ?_, fun _ ↦ hmode, fun j hj ↦ Or.inr hmode, fun hidle ↦ ?_⟩
    · show Function.update s.callers i .joining j = .joining ↔ some i = some j
      by_cases hj : j = i
      · rw [hj, Function.update_self]
        exact iff_of_true rfl rfl
      · rw [Function.update_of_ne hj, h.mutex, hmutex, Option.some_inj]
        exact iff_of_false (by simp) (Ne.symm hj)
    · exact RunMode.noConfusion (hmode.symm.trans hidle)

theorem Invariant.wakeSection (h : Invariant s) {i : ι} (hi : s.callers i = .woken) :
    Invariant (s.wakeSection i) := by
  have hne : s.callers i ≠ .joining := fun hj ↦ CallerPhase.noConfusion (hi.symm.trans hj)
  have hphase := h.phase
  unfold PhaseOk at hphase
  unfold BuilderThreads.wakeSection
  cases hmode : s.builder.runMode with
  | running => exact h.setCaller hne CallerPhase.noConfusion (by simp [Waits])
  | startingUp => exact h.setCaller hne CallerPhase.noConfusion fun _ ↦ Or.inl hmode
  | startupFailed => exact h.setCaller hne CallerPhase.noConfusion (by simp [Waits])
  | shuttingDown =>
    rw [hmode] at hphase
    exact hphase.elim
  | idle => exact absurd (Or.inr hi) (h.idle hmode i)
  | stopped => exact h.setCaller hne CallerPhase.noConfusion fun _ ↦ Or.inr hmode

theorem registerRequest_runMode {b b' : JavaBuilder} (h : b.registerRequest = some b') :
    b'.runMode = b.runMode := by
  unfold JavaBuilder.registerRequest at h
  obtain ⟨-, heq⟩ := Option.ite_none_right_eq_some.mp h
  rw [← Option.some_inj.mp heq]

theorem Invariant.step (h : Invariant s) {action : BuilderAction ι}
    (hstep : BuilderThreads.step s action = some s') : Invariant s' := by
  have hphase := h.phase
  unfold PhaseOk at hphase
  cases steps_of_step hstep with
  | start hi hmutex => exact h.startSection hi hmutex
  | @join i hi hio =>
    have hclean : Invariant { s with hasSocket := false } :=
      h.of_same rfl rfl rfl h.phase h.java
    exact hclean.launch (Or.inr ((h.mutex i).mp hi))
  | wake hi => exact h.wakeSection hi
  | @register i builder hi _ _ hregister =>
    have hmode := registerRequest_runMode hregister
    have hsame : Invariant { s with builder, pendingWrites := s.pendingWrites + 1 } := by
      refine h.of_same rfl rfl hmode ?_ h.java
      unfold PhaseOk
      dsimp only
      rw [hmode]
      exact hphase
    exact hsame.setCaller (fun hj ↦ CallerPhase.noConfusion (hi.symm.trans hj))
      CallerPhase.noConfusion (by simp [Waits])
  | dequeue hi =>
    exact h.setCaller (fun hj ↦ CallerPhase.noConfusion (hi.symm.trans hj))
      CallerPhase.noConfusion (by simp [Waits])
  | setUp hio hmutex hmode =>
    refine h.of_same rfl rfl rfl ?_ fun _ ↦ rfl
    unfold PhaseOk
    dsimp only
    rw [hmode]
    exact Or.inr (Or.inr ⟨Or.inl rfl, rfl, by simp⟩)
  | dispatchAccept hserving haccept =>
    refine h.of_same rfl rfl rfl ?_ fun _ ↦ h.java (Or.inl hserving.1)
    rw [hserving.1, haccept] at hphase
    unfold PhaseOk
    cases hmode : s.builder.runMode <;> simp_all
  | handleAccept hio hmutex =>
    refine h.setMode hmutex rfl rfl RunMode.noConfusion ?_ fun _ ↦ h.java (Or.inr (Or.inl hio))
    refine Or.inl ⟨rfl, ?_⟩
    rw [hio] at hphase
    show s.acceptPending = false
    cases hmode : s.builder.runMode <;> simp_all
  | handleRead hserving hread _ hbuilder =>
    have hio := hserving.1
    have hmode' := handleRead_runMode hbuilder
    refine h.of_same rfl rfl hmode' ?_ h.java
    unfold PhaseOk
    dsimp only
    rw [hmode']
    cases hmode : s.builder.runMode <;> simp_all
  | @handleReadError eof hserving hread hmutex =>
    have hrunning := h.running_of_read hserving.1 hread
    have hmode : (s.builder.handleReadError eof).runMode = .stopped := by
      rw [handleReadError_running hrunning]
    refine h.setMode hmutex rfl rfl ?_ ?_ h.java
    · exact fun hidle ↦ RunMode.noConfusion (hmode.symm.trans hidle)
    · unfold PhaseOk
      dsimp only [setRunMode]
      rw [hmode]
      rw [hrunning, hserving.1] at hphase
      refine Or.inl ⟨hserving.1, ?_, rfl⟩
      rcases hphase with ⟨-, haccept⟩ | hjoin | hfail
      · exact haccept
      · cases hjoin
      · cases hfail
  | handleWrite => exact h.of_same rfl rfl rfl h.phase h.java
  | runReturns hreturn =>
    have hio := hreturn.1
    refine h.of_same rfl rfl rfl ?_ fun _ ↦ h.java (Or.inl hio)
    rw [hio] at hphase
    unfold PhaseOk
    cases hmode : s.builder.runMode <;> simp_all
  | joinJava hio =>
    refine h.of_same rfl rfl rfl ?_ fun _ ↦ h.java (Or.inr (Or.inr hio))
    rw [hio] at hphase
    unfold PhaseOk
    cases hmode : s.builder.runMode <;> simp_all
  | endOfRun hio hmutex =>
    have hjava : some IoPhase.finished = some .serving ∨ some IoPhase.finished = some .accepting ∨
        some IoPhase.finished = some .joiningJava → (none : Option JavaPhase).isSome := by
      rintro (heq | heq | heq) <;> cases heq
    by_cases hmode : s.builder.runMode = .startingUp
    · have hend : s.builder.endOfRun.runMode = .startupFailed := by
        rw [JavaBuilder.endOfRun, if_pos hmode]
      refine h.setMode hmutex rfl rfl ?_ ?_ hjava
      · exact fun hidle ↦ RunMode.noConfusion (hend.symm.trans hidle)
      · unfold PhaseOk
        dsimp only [setRunMode]
        rw [hend]
    · have hend : s.builder.endOfRun.runMode = .stopped := by
        rw [JavaBuilder.endOfRun, if_neg hmode]
      refine h.setMode hmutex rfl rfl ?_ ?_ hjava
      · exact fun hidle ↦ RunMode.noConfusion (hend.symm.trans hidle)
      · unfold PhaseOk
        dsimp only [setRunMode]
        rw [hend]
        exact Or.inr (Or.inr (Or.inr rfl))
  | connect => exact h.of_same rfl rfl rfl h.phase h.java
  | exit hjava =>
    refine h.of_same rfl rfl rfl ?_ fun _ ↦ rfl
    unfold PhaseOk
    cases hmode : s.builder.runMode <;> simp_all
  | reportExit hjava hmutex =>
    refine h.of_same rfl rfl rfl ?_ fun _ ↦ rfl
    unfold PhaseOk
    cases hmode : s.builder.runMode <;> simp_all
    tauto

end Step

end Abuild.BuilderThreads
