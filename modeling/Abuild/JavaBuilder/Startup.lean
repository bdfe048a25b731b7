import Abuild.JavaBuilder.Phases
import Abuild.Library.Guarded

/-!
Callers that are blocked in `start`. `cleanup` joins the thread of `runIO` with the mutex
locked, which that thread needs for its last section; and a caller that waits for the startup
does not see that the mode was running if it has become stopped before the caller has the
mutex again. A run in which neither happens, the second with no caller to come, never blocks
a caller for good, and any other run does (`released_iff_timely`).
-/

set_option autoImplicit false
set_option relaxedAutoImplicit false

namespace Abuild.BuilderThreads

open Guarded Relation

variable {ι : Type}

/-- In `start`, on the condition or in the join. -/
def InStart (phase : CallerPhase) : Prop := phase = .joining ∨ phase = .waiting ∨ phase = .woken

/-- Every caller that is blocked in `start` may still get out of it. -/
def Released [DecidableEq ι] (s : BuilderThreads ι) : Prop :=
  ∀ i, InStart (s.callers i) → ∃ actions s', run s actions = some s' ∧ ¬ InStart (s'.callers i)

/-- `start` is not called in the stopped mode before the thread of `runIO` has ended, and the
running mode does not end while callers wait and no caller is to come. -/
def Timely (s : BuilderThreads ι) : BuilderAction ι → Prop
  | .start _ => s.builder.runMode = .stopped → s.ioThread = some .finished
  | .handleReadError _ => s.builder.runMode = .running → (∃ i, Waits (s.callers i)) →
      ∃ i, s.callers i = .calling
  | .endOfRun => s.builder.runMode = .running → (∃ i, Waits (s.callers i)) →
      ∃ i, s.callers i = .calling
  | _ => True

/-! ### What the threads may still do -/

section Reaches

variable {s s' : BuilderThreads ι}

/-- The mutex is free, and callers that are to come are still to come. -/
structure Keeps (s s' : BuilderThreads ι) : Prop where
  mutex : s'.mutex = none
  calling : ∀ i, s.callers i = .calling → s'.callers i = .calling

theorem Keeps.trans {s'' : BuilderThreads ι} (h : Keeps s s') (h' : Keeps s' s'') : Keeps s s'' :=
  ⟨h'.mutex, fun i hi ↦ h'.calling i (h.calling i hi)⟩

variable [DecidableEq ι]

/-- Some steps lead from a state to another. -/
def Reaches (s s' : BuilderThreads ι) : Prop :=
  ReflTransGen (fun s s' ↦ ∃ action, step s action = some s') s s'

theorem Reaches.of_step {action : BuilderAction ι} (h : step s action = some s') : Reaches s s' :=
  ReflTransGen.single ⟨action, h⟩

theorem Reaches.exists_run (h : Reaches s s') : ∃ actions, run s actions = some s' := by
  induction h using ReflTransGen.head_induction_on with
  | refl => exact ⟨[], rfl⟩
  | head hstep _ ih =>
    obtain ⟨action, haction⟩ := hstep
    obtain ⟨actions, hactions⟩ := ih
    refine ⟨action :: actions, ?_⟩
    rw [run, Fallible.foldlM_cons, haction]
    exact hactions

theorem Invariant.reaches (h : Invariant s) (hreach : Reaches s s') : Invariant s' := by
  induction hreach with
  | refl => exact h
  | tail _ hstep ih =>
    obtain ⟨action, haction⟩ := hstep
    exact ih.step haction

/-- The Java program may exit and its thread end, which stops the service if it was to start
up. -/
theorem java_finishes (hmutex : s.mutex = none) (hjava : s.javaThread.isSome) :
    ∃ stopped, Reaches s { s with javaThread := some .finished, serviceStopped := stopped } := by
  have hexited : ∀ s : BuilderThreads ι, s.mutex = none → s.javaThread = some .exited →
      ∃ stopped, Reaches s { s with javaThread := some .finished, serviceStopped := stopped } := by
    intro s hmutex hexited
    have hstep : step s .reportExit = _ := if_pos ⟨hexited, hmutex⟩
    exact ⟨_, .of_step hstep⟩
  obtain ⟨phase, hphase⟩ := Option.isSome_iff_exists.mp hjava
  cases phase with
  | running =>
    have hstep : step s .exit = some { s with javaThread := some .exited } := if_pos hphase
    obtain ⟨stopped, hreach⟩ := hexited { s with javaThread := some .exited } hmutex rfl
    exact ⟨stopped, (Reaches.of_step hstep).trans hreach⟩
  | exited => exact hexited s hmutex hphase
  | finished =>
    refine ⟨s.serviceStopped, ?_⟩
    rw [← hphase]
    exact ReflTransGen.refl

/-- When `io_service->run()` has returned, the thread may end. -/
theorem thread_ends (h : Invariant s) (hmutex : s.mutex = none)
    (hio : s.ioThread = some .joiningJava ∨ s.ioThread = some .failing) :
    ∃ s', Reaches s s' ∧ Keeps s s' ∧ s'.ioThread = some .finished ∧
      s'.builder.runMode = s.builder.endOfRun.runMode := by
  have hfailing : ∀ s : BuilderThreads ι, s.mutex = none → s.ioThread = some .failing →
      ∃ s', Reaches s s' ∧ Keeps s s' ∧ s'.ioThread = some .finished ∧
        s'.builder.runMode = s.builder.endOfRun.runMode := by
    intro s hmutex hio
    have hstep : step s .endOfRun = _ := if_pos ⟨hio, hmutex⟩
    exact ⟨_, .of_step hstep, ⟨hmutex, fun i hi ↦ notifyAll_eq_calling_iff.mpr hi⟩, rfl, rfl⟩
  rcases hio with hio | hio
  · obtain ⟨stopped, hreach⟩ := java_finishes hmutex (h.java (Or.inr (Or.inr hio)))
    have hstep : step { s with javaThread := some .finished, serviceStopped := stopped } .joinJava =
        _ := if_pos ⟨hio, rfl⟩
    obtain ⟨s', hreach', hkeeps, hrest⟩ := hfailing
      { s with
        javaThread := some .finished
        serviceStopped := stopped
        ioThread := some .failing } hmutex rfl
    exact ⟨s', (hreach.trans (Reaches.of_step hstep)).trans hreach',
      ⟨hkeeps.mutex, hkeeps.calling⟩, hrest⟩
  · exact hfailing s hmutex hio

/-- The startup may come to an end. -/
theorem startup_ends (h : Invariant s) (hmode : s.builder.runMode = .startingUp) :
    ∃ s', Reaches s s' ∧
      (s'.builder.runMode = .running ∨ s'.builder.runMode = .startupFailed) := by
  have hfree := h.mutex_of_ne_stopped (fun heq ↦ RunMode.noConfusion (hmode.symm.trans heq))
  -- from the service on, the Java program exits, and the thread ends
  have hserving : ∀ s : BuilderThreads ι, Invariant s → s.mutex = none →
      s.builder.runMode = .startingUp →
      (s.ioThread = some .serving ∨ s.ioThread = some .joiningJava ∨ s.ioThread = some .failing) →
      ∃ s', Reaches s s' ∧ s'.builder.runMode = .startupFailed := by
    intro s h hmutex hmode hio
    have hend : s.builder.endOfRun.runMode = .startupFailed := by
      rw [JavaBuilder.endOfRun, if_pos hmode]
    rcases hio with hio | hio
    · obtain ⟨stopped, hreach⟩ := java_finishes hmutex (h.java (Or.inl hio))
      have h' := h.reaches hreach
      have hstopped : stopped = true := by
        have hphase := h'.phase
        unfold PhaseOk at hphase
        dsimp only at hphase
        rw [hmode, hio] at hphase
        exact (show s.readPending = false ∧ stopped = true by simpa using hphase).2
      have hstep : step { s with javaThread := some .finished, serviceStopped := stopped }
          .runReturns = _ := if_pos ⟨hio, Or.inl hstopped⟩
      obtain ⟨s', hreach', -, -, hmode'⟩ :=
        thread_ends (h'.step hstep) hmutex (Or.inl rfl)
      exact ⟨s', (hreach.trans (Reaches.of_step hstep)).trans hreach', hmode'.trans hend⟩
    · obtain ⟨s', hreach, -, -, hmode'⟩ := thread_ends h hmutex hio
      exact ⟨s', hreach, hmode'.trans hend⟩
  have hphase := h.phase
  unfold PhaseOk at hphase
  rw [hmode] at hphase
  rcases hphase with hio | ⟨hio, -⟩ | ⟨hio, -⟩
  · have hstep : step s .setUp = _ := if_pos ⟨hio, hfree, hmode⟩
    obtain ⟨s', hreach, hfailed⟩ := hserving _ (h.step hstep) hfree hmode (Or.inl rfl)
    exact ⟨s', (Reaches.of_step hstep).trans hreach, Or.inr hfailed⟩
  · have hstep : step s .handleAccept = _ := if_pos ⟨hio, hfree⟩
    exact ⟨_, .of_step hstep, Or.inl rfl⟩
  · obtain ⟨s', hreach, hfailed⟩ := hserving s h hfree hmode hio
    exact ⟨s', hreach, Or.inr hfailed⟩

/-- Writes may all be completed. -/
theorem writes_complete (hgo : s.servingHandlers) :
    Reaches s { s with pendingWrites := 0 } := by
  generalize hwrites : s.pendingWrites = n
  induction n generalizing s with
  | zero =>
    rw [← hwrites]
    exact ReflTransGen.refl
  | succ n ih =>
    have hstep : step s (.handleWrite false) = some { s with pendingWrites := n } := by
      rw [step, if_pos ⟨hgo, by omega, fun hfalse ↦ absurd hfalse Bool.false_ne_true⟩, hwrites]
      rfl
    exact (Reaches.of_step hstep).trans (ih (s := { s with pendingWrites := n }) hgo rfl)

/-- After the Java side has exited, the thread may end, unless a caller has the mutex. -/
theorem stopped_ends (h : Invariant s) (hmutex : s.mutex = none)
    (hmode : s.builder.runMode = .stopped) :
    ∃ s', Reaches s s' ∧ Keeps s s' ∧ s'.ioThread = some .finished ∧
      s'.builder.runMode = .stopped := by
  have hend : s.builder.endOfRun.runMode = .stopped := by
    rw [JavaBuilder.endOfRun, if_neg (fun heq ↦ RunMode.noConfusion (hmode.symm.trans heq))]
  have hphase := h.phase
  unfold PhaseOk at hphase
  rw [hmode] at hphase
  rcases hphase with ⟨hio, haccept, hread⟩ | hio | hio | hio
  · have hreturns : ∃ s₁, Reaches s s₁ ∧ s₁.callers = s.callers ∧ s₁.mutex = none ∧
        s₁.builder = s.builder ∧ s₁.ioThread = some .joiningJava := by
      cases hstopped : s.serviceStopped with
      | true =>
        have hstep : step s .runReturns = _ := if_pos ⟨hio, Or.inl hstopped⟩
        exact ⟨_, .of_step hstep, rfl, hmutex, rfl, rfl⟩
      | false =>
        have hstep : step { s with pendingWrites := 0 } .runReturns = _ :=
          if_pos ⟨hio, Or.inr ⟨haccept, hread, rfl⟩⟩
        exact ⟨_, (writes_complete ⟨hio, hstopped⟩).trans (Reaches.of_step hstep), rfl, hmutex, rfl,
          rfl⟩
    obtain ⟨s₁, hreach₁, hcallers, hmutex₁, hbuilder, hio₁⟩ := hreturns
    obtain ⟨s', hreach', hkeeps, hfinished, hmode'⟩ :=
      thread_ends (h.reaches hreach₁) hmutex₁ (Or.inl hio₁)
    refine ⟨s', hreach₁.trans hreach', ⟨hkeeps.mutex, fun i hi ↦ ?_⟩, hfinished, ?_⟩
    · exact hkeeps.calling i (by rw [hcallers, hi])
    · rw [hmode', hbuilder, hend]
  · obtain ⟨s', hreach, hkeeps, hfinished, hmode'⟩ := thread_ends h hmutex (Or.inl hio)
    exact ⟨s', hreach, hkeeps, hfinished, hmode'.trans hend⟩
  · obtain ⟨s', hreach, hkeeps, hfinished, hmode'⟩ := thread_ends h hmutex (Or.inr hio)
    exact ⟨s', hreach, hkeeps, hfinished, hmode'.trans hend⟩
  · exact ⟨s, .refl, ⟨hmutex, fun _ hi ↦ hi⟩, hio, hmode⟩

/-- A caller in `start` may get out of it when the startup has come to an end. -/
theorem leaves_of_ended (h : Invariant s)
    (hmode : s.builder.runMode = .running ∨ s.builder.runMode = .startupFailed) (i : ι) :
    ∃ s', Reaches s s' ∧ ¬ InStart (s'.callers i) := by
  have hfree : s.mutex = none := by
    apply h.mutex_of_ne_stopped
    intro heq
    rw [heq] at hmode
    rcases hmode with hmode | hmode <;> cases hmode
  by_cases hin : InStart (s.callers i)
  · rcases hin with hjoining | hwaiting | hwoken
    · have hheld := (h.mutex i).mp hjoining
      rw [hfree] at hheld
      cases hheld
    · have hwait := h.waiting i hwaiting
      rcases hmode with hmode | hmode <;> rw [hmode] at hwait <;> simp at hwait
    · have hstep : step s (.wake i) = some (s.wakeSection i) := if_pos ⟨hwoken, hfree⟩
      refine ⟨_, .of_step hstep, ?_⟩
      rcases hmode with hmode | hmode
      · simp [wakeSection, hmode, setCaller, InStart]
      · simp [wakeSection, hmode, setCaller, InStart]
  · exact ⟨s, .refl, hin⟩

theorem leaves_of_startingUp (h : Invariant s) (hmode : s.builder.runMode = .startingUp) (i : ι) :
    ∃ s', Reaches s s' ∧ ¬ InStart (s'.callers i) := by
  obtain ⟨s₁, hreach₁, hended⟩ := startup_ends h hmode
  obtain ⟨s', hreach', hout⟩ := leaves_of_ended (h.reaches hreach₁) hended i
  exact ⟨s', hreach₁.trans hreach', hout⟩

/-- When the thread has ended, a caller in the join starts the Java side again. -/
theorem leaves_of_joining (h : Invariant s) {j : ι} (hj : s.callers j = .joining)
    (hio : s.ioThread = some .finished) (i : ι) :
    ∃ s', Reaches s s' ∧ ¬ InStart (s'.callers i) := by
  have hstep : step s (.join j) = _ := if_pos ⟨hj, hio⟩
  obtain ⟨s', hreach, hout⟩ := leaves_of_startingUp (h.step hstep) rfl i
  exact ⟨s', (Reaches.of_step hstep).trans hreach, hout⟩

/-- When the mode is stopped, a caller that is to come starts the Java side again. -/
theorem leaves_of_calling (h : Invariant s) (hmutex : s.mutex = none)
    (hmode : s.builder.runMode = .stopped) {j : ι} (hj : s.callers j = .calling) (i : ι) :
    ∃ s', Reaches s s' ∧ ¬ InStart (s'.callers i) := by
  obtain ⟨s₁, hreach₁, hkeeps, hfinished, hmode₁⟩ := stopped_ends h hmutex hmode
  have hstep : step s₁ (.start j) = some (s₁.startSection j) :=
    if_pos ⟨hkeeps.calling j hj, hkeeps.mutex⟩
  have hsection : s₁.startSection j = { s₁ with mutex := some j }.setCaller j .joining := by
    rw [startSection, hmode₁]
  have h₂ := (h.reaches hreach₁).step hstep
  rw [hsection] at hstep h₂
  obtain ⟨s', hreach', hout⟩ :=
    leaves_of_joining h₂
      (show Function.update s₁.callers j .joining j = .joining by simp) hfinished i
  exact ⟨s', (hreach₁.trans (Reaches.of_step hstep)).trans hreach', hout⟩

end Reaches

/-! ### Timely runs -/

/-- What timely steps keep: a caller that joins waits for a thread that has ended, and in the
stopped mode a caller that waits is not the last one. -/
structure TimelyInvariant (s : BuilderThreads ι) : Prop extends Invariant s where
  joins : ∀ i, s.callers i = .joining → s.ioThread = some .finished
  comes : s.builder.runMode = .stopped → (∃ i, Waits (s.callers i)) →
    ∃ i, s.callers i = .calling ∨ s.callers i = .joining

section Timely

variable {s s' : BuilderThreads ι}

theorem TimelyInvariant.of_same (h : TimelyInvariant s) (h' : Invariant s')
    (hcallers : s'.callers = s.callers) (hmode : s'.builder.runMode = s.builder.runMode)
    (hio : s'.ioThread = s.ioThread ∨ s.ioThread ≠ some .finished) : TimelyInvariant s' where
  toInvariant := h'
  joins := by
    intro i hi
    rw [hcallers] at hi
    rcases hio with hsame | hne
    · rw [hsame, h.joins i hi]
    · exact absurd (h.joins i hi) hne
  comes := by
    rw [hcallers, hmode]
    exact h.comes

/-- A change of the mode by the thread. -/
theorem TimelyInvariant.of_notify (h : TimelyInvariant s) (h' : Invariant s')
    (hcallers : s'.callers = notifyAll s.callers) (hmutex : s.mutex = none)
    (hcomes : s'.builder.runMode = .stopped → (∃ i, Waits (s.callers i)) →
      ∃ i, s.callers i = .calling) : TimelyInvariant s' where
  toInvariant := h'
  joins := by
    intro i hi
    rw [hcallers, notifyAll_eq_joining_iff, h.mutex, hmutex] at hi
    cases hi
  comes := by
    rintro hmode ⟨i, hi⟩
    rw [hcallers, waits_notifyAll_iff] at hi
    obtain ⟨j, hj⟩ := hcomes hmode ⟨i, hi⟩
    refine ⟨j, Or.inl ?_⟩
    rw [hcallers, notifyAll_eq_calling_iff, hj]

variable [DecidableEq ι]

/-- A caller that is not to come moves on. -/
theorem TimelyInvariant.of_setCaller (h : TimelyInvariant s) {i : ι} {phase : CallerPhase}
    (h' : Invariant s') (hcallers : s'.callers = Function.update s.callers i phase)
    (hmode : s'.builder.runMode = s.builder.runMode) (hio : s'.ioThread = s.ioThread)
    (hcalling : s.callers i ≠ .calling ∧ s.callers i ≠ .joining) (hphase : phase ≠ .joining)
    (hwaits : Waits phase → Waits (s.callers i)) : TimelyInvariant s' where
  toInvariant := h'
  joins := by
    intro j hj
    rw [hio]
    by_cases hji : j = i
    · rw [hcallers, hji, Function.update_self] at hj
      exact absurd hj hphase
    · rw [hcallers, Function.update_of_ne hji] at hj
      exact h.joins j hj
  comes := by
    rintro hstopped ⟨j, hj⟩
    have hbefore : ∃ j, Waits (s.callers j) := by
      by_cases hji : j = i
      · rw [hcallers, hji, Function.update_self] at hj
        exact ⟨i, hwaits hj⟩
      · rw [hcallers, Function.update_of_ne hji] at hj
        exact ⟨j, hj⟩
    obtain ⟨k, hk⟩ := h.comes (hmode.symm.trans hstopped) hbefore
    have hki : k ≠ i := by
      rintro rfl
      exact hk.elim hcalling.1 hcalling.2
    refine ⟨k, ?_⟩
    rw [hcallers, Function.update_of_ne hki]
    exact hk

/-- After the Java side has been started no caller joins and the mode is not stopped. -/
theorem timelyInvariant_launch {i : ι} (h' : Invariant (s.launch i)) :
    TimelyInvariant (s.launch i) where
  toInvariant := h'
  joins := by
    intro j hj
    have hheld := (h'.mutex j).mp hj
    cases hheld
  comes := fun hmode ↦ RunMode.noConfusion hmode

theorem TimelyInvariant.startSection (h : TimelyInvariant s) {i : ι}
    (hi : s.callers i = .calling) (hmutex : s.mutex = none)
    (htimely : s.builder.runMode = .stopped → s.ioThread = some .finished) :
    TimelyInvariant (s.startSection i) := by
  have h' := h.toInvariant.startSection hi hmutex
  have hmove : ∀ phase : CallerPhase, s.builder.runMode ≠ .stopped → phase ≠ .joining →
      Invariant (s.setCaller i phase) → TimelyInvariant (s.setCaller i phase) := by
    intro phase hmode hphase h'
    refine ⟨h', fun j hj ↦ ?_, fun hstopped ↦ absurd hstopped hmode⟩
    replace hj : Function.update s.callers i phase j = .joining := hj
    by_cases hji : j = i
    · rw [hji, Function.update_self] at hj
      exact absurd hj hphase
    · rw [Function.update_of_ne hji] at hj
      exact h.joins j hj
  unfold BuilderThreads.startSection at h' ⊢
  cases hmode : s.builder.runMode with
  | running =>
    rw [hmode] at h'
    exact hmove _ (by simp [hmode]) CallerPhase.noConfusion h'
  | startingUp =>
    rw [hmode] at h'
    exact hmove _ (by simp [hmode]) CallerPhase.noConfusion h'
  | startupFailed =>
    rw [hmode] at h'
    exact hmove _ (by simp [hmode]) CallerPhase.noConfusion h'
  | shuttingDown =>
    rw [hmode] at h'
    exact hmove _ (by simp [hmode]) CallerPhase.noConfusion h'
  | idle =>
    rw [hmode] at h'
    exact timelyInvariant_launch h'
  | stopped =>
    rw [hmode] at h'
    refine ⟨h', fun j _ ↦ htimely hmode, fun _ _ ↦ ⟨i, Or.inr ?_⟩⟩
    exact Function.update_self i _ _

theorem TimelyInvariant.wakeSection (h : TimelyInvariant s) {i : ι} (hi : s.callers i = .woken) :
    TimelyInvariant (s.wakeSection i) := by
  have h' := h.toInvariant.wakeSection hi
  have hwoken : s.callers i ≠ .calling ∧ s.callers i ≠ .joining := by
    rw [hi]
    exact ⟨CallerPhase.noConfusion, CallerPhase.noConfusion⟩
  have hmove : ∀ phase : CallerPhase, phase ≠ .joining → Invariant (s.setCaller i phase) →
      TimelyInvariant (s.setCaller i phase) := fun phase hphase h' ↦
    h.of_setCaller h' rfl rfl rfl hwoken hphase fun _ ↦ Or.inr hi
  unfold BuilderThreads.wakeSection at h' ⊢
  split at h'
  all_goals exact hmove _ CallerPhase.noConfusion h'

omit [DecidableEq ι] in
/-- When the thread ends in the running mode, a caller is to come if one waits. -/
theorem TimelyInvariant.endOfRun (h : TimelyInvariant s) (hio : s.ioThread = some .failing)
    (hmutex : s.mutex = none) (htimely : Timely s .endOfRun)
    (hstopped : s.builder.endOfRun.runMode = .stopped) (hwaits : ∃ i, Waits (s.callers i)) :
    ∃ i, s.callers i = .calling := by
  have hphase := h.phase
  unfold PhaseOk at hphase
  cases hmode : s.builder.runMode with
  | running => exact htimely hmode hwaits
  | stopped =>
    obtain ⟨j, hj | hj⟩ := h.comes hmode hwaits
    · exact ⟨j, hj⟩
    · rw [h.mutex, hmutex] at hj
      cases hj
  | startingUp =>
    have hfailed : s.builder.endOfRun.runMode = .startupFailed := by
      rw [JavaBuilder.endOfRun, if_pos hmode]
    exact RunMode.noConfusion (hfailed.symm.trans hstopped)
  | idle => simp [hmode, hio] at hphase
  | startupFailed => simp [hmode, hio] at hphase
  | shuttingDown => simp [hmode] at hphase

theorem TimelyInvariant.step (h : TimelyInvariant s) {action : BuilderAction ι}
    (htimely : Timely s action) (hstep : BuilderThreads.step s action = some s') :
    TimelyInvariant s' := by
  have h' := h.toInvariant.step hstep
  cases steps_of_step hstep with
  | start hi hmutex => exact h.startSection hi hmutex htimely
  | join => exact timelyInvariant_launch h'
  | wake hi => exact h.wakeSection hi
  | register hi _ _ hregister =>
    refine h.of_setCaller h' rfl (registerRequest_runMode hregister) rfl ?_ CallerPhase.noConfusion
      (by simp [Waits])
    rw [hi]
    exact ⟨CallerPhase.noConfusion, CallerPhase.noConfusion⟩
  | dequeue hi =>
    refine h.of_setCaller h' rfl rfl rfl ?_ CallerPhase.noConfusion (by simp [Waits])
    rw [hi]
    exact ⟨CallerPhase.noConfusion, CallerPhase.noConfusion⟩
  | setUp hio => exact h.of_same h' rfl rfl (Or.inr (by simp [hio]))
  | dispatchAccept hserving => exact h.of_same h' rfl rfl (Or.inr (by simp [hserving.1]))
  | handleAccept _ hmutex => exact h.of_notify h' rfl hmutex fun hmode ↦ RunMode.noConfusion hmode
  | handleRead _ _ _ hbuilder => exact h.of_same h' rfl (handleRead_runMode hbuilder) (Or.inl rfl)
  | handleReadError hserving hread hmutex =>
    exact h.of_notify h' rfl hmutex fun _ ↦ htimely (h.running_of_read hserving.1 hread)
  | runReturns hreturn => exact h.of_same h' rfl rfl (Or.inr (by simp [hreturn.1]))
  | joinJava hio => exact h.of_same h' rfl rfl (Or.inr (by simp [hio]))
  | endOfRun hio hmutex => exact h.of_notify h' rfl hmutex (h.endOfRun hio hmutex htimely)
  | handleWrite | connect | exit | reportExit => exact h.of_same h' rfl rfl (Or.inl rfl)

theorem TimelyInvariant.released (h : TimelyInvariant s) : Released s := by
  intro i hi
  suffices hleaves : ∃ s', Reaches s s' ∧ ¬ InStart (s'.callers i) by
    obtain ⟨s', hreach, hout⟩ := hleaves
    obtain ⟨actions, hrun⟩ := hreach.exists_run
    exact ⟨actions, s', hrun, hout⟩
  cases hmode : s.builder.runMode with
  | running => exact leaves_of_ended h.toInvariant (Or.inl hmode) i
  | startupFailed => exact leaves_of_ended h.toInvariant (Or.inr hmode) i
  | startingUp => exact leaves_of_startingUp h.toInvariant hmode i
  | shuttingDown =>
    have hphase := h.phase
    unfold PhaseOk at hphase
    rw [hmode] at hphase
    exact hphase.elim
  | idle =>
    have hfree := h.mutex_of_ne_stopped (by simp [hmode])
    rcases hi with hjoining | hwaits
    · rw [h.mutex, hfree] at hjoining
      cases hjoining
    · exact absurd hwaits (h.idle hmode i)
  | stopped =>
    cases hmutex : s.mutex with
    | some j =>
      have hj := (h.mutex j).mpr hmutex
      exact leaves_of_joining h.toInvariant hj (h.joins j hj) i
    | none =>
      rcases hi with hjoining | hwaits
      · rw [h.mutex, hmutex] at hjoining
        cases hjoining
      · obtain ⟨j, hj | hj⟩ := h.comes hmode ⟨i, hwaits⟩
        · exact leaves_of_calling h.toInvariant hmutex hmode hj i
        · rw [h.mutex, hmutex] at hj
          cases hj

end Timely

/-! ### Steps that block a caller for good -/

section Stuck

variable {s s' : BuilderThreads ι}

/-- A caller that joins a thread that has not ended. -/
structure JoinsTooEarly (i : ι) (s : BuilderThreads ι) : Prop extends Invariant s where
  joining : s.callers i = .joining
  unfinished : s.ioThread ≠ some .finished

/-- A caller that waits in the stopped mode when no other will start the Java side. -/
structure WaitsInVain (i : ι) (s : BuilderThreads ι) : Prop extends Invariant s where
  mode : s.builder.runMode = .stopped
  last : ∀ j, s.callers j ≠ .calling ∧ s.callers j ≠ .joining
  waits : Waits (s.callers i)

/-- Steps that change neither the mode nor, but for a notification, the callers. -/
theorem WaitsInVain.of_notify {i : ι} (h : WaitsInVain i s) (h' : Invariant s')
    (hcallers : s'.callers = s.callers ∨ s'.callers = notifyAll s.callers)
    (hmode : s'.builder.runMode = .stopped) : WaitsInVain i s' := by
  rcases hcallers with hsame | hnotify
  · refine ⟨h', hmode, ?_, ?_⟩
    · rw [hsame]
      exact h.last
    · rw [hsame]
      exact h.waits
  · refine ⟨h', hmode, fun j ↦ ?_, ?_⟩
    · rw [hnotify, Ne, Ne, notifyAll_eq_calling_iff, notifyAll_eq_joining_iff]
      exact h.last j
    · rw [hnotify, waits_notifyAll_iff]
      exact h.waits

/-- The running mode ends while a caller waits and no caller is to come. -/
theorem waitsInVain_of_notify (h : Invariant s) (h' : Invariant s')
    (hrunning : s.builder.runMode = .running) (hcallers : s'.callers = notifyAll s.callers)
    (hmode : s'.builder.runMode = .stopped) {i : ι} (hi : Waits (s.callers i))
    (hnone : ∀ j, s.callers j ≠ .calling) : WaitsInVain i s' := by
  have hfree := h.mutex_of_ne_stopped (by simp [hrunning])
  refine ⟨h', hmode, fun j ↦ ?_, ?_⟩
  · rw [hcallers, Ne, Ne, notifyAll_eq_calling_iff, notifyAll_eq_joining_iff, h.mutex, hfree]
    exact ⟨hnone j, by simp⟩
  · rw [hcallers, waits_notifyAll_iff]
    exact hi

variable [DecidableEq ι]

theorem not_released_of_stuck {Stuck : BuilderThreads ι → Prop} {i : ι}
    (hstep : ∀ s action s', Stuck s → step s action = some s' → Stuck s')
    (hin : ∀ s, Stuck s → InStart (s.callers i)) (hs : Stuck s) : ¬ Released s := by
  intro hreleased
  obtain ⟨actions, s', hrun, hout⟩ := hreleased i (hin s hs)
  exact hout (hin s' (Fallible.foldlM_induction hrun hs fun action _ s s' h hs ↦
    hstep s action s' hs h))

/-- The thread cannot end without the mutex, which the caller does not give up. -/
theorem JoinsTooEarly.step {i : ι} (h : JoinsTooEarly i s) {action : BuilderAction ι}
    (hstep : BuilderThreads.step s action = some s') : JoinsTooEarly i s' := by
  have h' := h.toInvariant.step hstep
  have hheld := (h.mutex i).mp h.joining
  have hbusy : s.mutex ≠ none := by
    rw [hheld]
    exact Option.some_ne_none i
  cases steps_of_step hstep with
  | join _ hio => exact absurd hio h.unfinished
  | @dequeue j _ _ hj =>
    have hij : i ≠ j := by
      rintro rfl
      exact CallerPhase.noConfusion (hj.symm.trans h.joining)
    exact ⟨h', (Function.update_of_ne hij _ _).trans h.joining, h.unfinished⟩
  | dispatchAccept | runReturns | joinJava => exact ⟨h', h.joining, by simp⟩
  | handleWrite | connect | exit => exact ⟨h', h.joining, h.unfinished⟩
  | start _ hmutex | wake _ hmutex | register _ hmutex | setUp _ hmutex | handleAccept _ hmutex
  | handleRead _ _ hmutex | handleReadError _ _ hmutex | endOfRun _ hmutex | reportExit _ hmutex =>
    exact absurd hmutex hbusy

theorem WaitsInVain.of_setCaller {i j : ι} (h : WaitsInVain i s) {phase : CallerPhase}
    (h' : Invariant s') (hcallers : s'.callers = Function.update s.callers j phase)
    (hmode : s'.builder.runMode = .stopped) (hphase : phase ≠ .calling ∧ phase ≠ .joining)
    (hwaits : Waits (s.callers j) → Waits phase) : WaitsInVain i s' := by
  refine ⟨h', hmode, fun k ↦ ?_, ?_⟩
  · rw [hcallers]
    by_cases hkj : k = j
    · rw [hkj, Function.update_self]
      exact hphase
    · rw [Function.update_of_ne hkj]
      exact h.last k
  · rw [hcallers]
    by_cases hij : i = j
    · rw [← hij, Function.update_self]
      exact hwaits (hij ▸ h.waits)
    · rw [Function.update_of_ne hij]
      exact h.waits

theorem WaitsInVain.step {i : ι} (h : WaitsInVain i s) {action : BuilderAction ι}
    (hstep : BuilderThreads.step s action = some s') : WaitsInVain i s' := by
  have h' := h.toInvariant.step hstep
  have hphase := h.phase
  unfold PhaseOk at hphase
  rw [h.mode] at hphase
  cases steps_of_step hstep with
  | @start j hj => exact absurd hj (h.last j).1
  | @join j hj => exact absurd hj (h.last j).2
  | wake =>
    unfold wakeSection at h' ⊢
    rw [h.mode] at h' ⊢
    exact h.of_setCaller h' rfl h.mode ⟨CallerPhase.noConfusion, CallerPhase.noConfusion⟩
      fun _ ↦ Or.inl rfl
  | register hj _ _ hregister =>
    refine h.of_setCaller h' rfl ((registerRequest_runMode hregister).trans h.mode)
      ⟨CallerPhase.noConfusion, CallerPhase.noConfusion⟩ ?_
    rw [hj]
    simp [Waits]
  | dequeue hj =>
    refine h.of_setCaller h' rfl h.mode ⟨CallerPhase.noConfusion, CallerPhase.noConfusion⟩ ?_
    rw [hj]
    simp [Waits]
  | setUp _ _ hmode => exact RunMode.noConfusion (h.mode.symm.trans hmode)
  | handleAccept hio => simp [hio] at hphase
  | handleRead _ _ _ hbuilder =>
    exact h.of_notify h' (Or.inl rfl) ((handleRead_runMode hbuilder).trans h.mode)
  | handleReadError hserving hread =>
    exact RunMode.noConfusion (h.mode.symm.trans (h.running_of_read hserving.1 hread))
  | endOfRun =>
    have hmode : s.builder.endOfRun.runMode = .stopped := by
      rw [JavaBuilder.endOfRun, if_neg fun heq ↦ RunMode.noConfusion (h.mode.symm.trans heq)]
    exact h.of_notify h' (Or.inr rfl) hmode
  | dispatchAccept | handleWrite | runReturns | joinJava | connect | exit | reportExit =>
    exact h.of_notify h' (Or.inl rfl) h.mode

/-- A step that is not timely blocks a caller for good. -/
theorem not_released_of_not_timely (h : Invariant s) {action : BuilderAction ι}
    (htimely : ¬ Timely s action) (hstep : step s action = some s') : ¬ Released s' := by
  have h' := h.step hstep
  have hvain : ∀ i, WaitsInVain i s' → ¬ Released s' := fun i hs ↦
    not_released_of_stuck (fun _ _ _ hs hstep ↦ hs.step hstep) (fun _ hs ↦ Or.inr hs.waits) hs
  cases steps_of_step hstep with
  | @start i =>
    obtain ⟨hmode, hio⟩ := Classical.not_imp.mp htimely
    unfold startSection at h' ⊢
    rw [hmode] at h' ⊢
    have hs : JoinsTooEarly i ({ s with mutex := some i }.setCaller i .joining) :=
      ⟨h', Function.update_self i _ _, hio⟩
    exact not_released_of_stuck (fun _ _ _ hs hstep ↦ hs.step hstep) (fun _ hs ↦ Or.inl hs.joining)
      hs
  | @handleReadError eof =>
    obtain ⟨hmode, hwaits⟩ := Classical.not_imp.mp htimely
    obtain ⟨⟨i, hi⟩, hnone⟩ := Classical.not_imp.mp hwaits
    refine hvain i (waitsInVain_of_notify h h' hmode rfl ?_ hi (not_exists.mp hnone))
    show (s.builder.handleReadError eof).runMode = .stopped
    rw [handleReadError_running hmode]
  | endOfRun =>
    obtain ⟨hmode, hwaits⟩ := Classical.not_imp.mp htimely
    obtain ⟨⟨i, hi⟩, hnone⟩ := Classical.not_imp.mp hwaits
    refine hvain i (waitsInVain_of_notify h h' hmode rfl ?_ hi (not_exists.mp hnone))
    show s.builder.endOfRun.runMode = .stopped
    rw [JavaBuilder.endOfRun, if_neg fun heq ↦ RunMode.noConfusion (hmode.symm.trans heq)]
  | _ => exact absurd trivial htimely

end Stuck

theorem timelyInvariant_new [DecidableEq ι] (captureOutput : Bool) :
    TimelyInvariant (new ι captureOutput) where
  phase := rfl
  java := by
    rintro (heq | heq | heq) <;> cases heq
  mutex := fun i ↦ iff_of_false CallerPhase.noConfusion (by simp [new])
  stopped := fun hsome ↦ absurd hsome Bool.false_ne_true
  waiting := fun i hi ↦ CallerPhase.noConfusion hi
  idle := fun _ i hi ↦ by simp [Waits, new] at hi
  joins := fun i hi ↦ CallerPhase.noConfusion hi
  comes := fun hmode ↦ RunMode.noConfusion hmode

/-- In a run every caller in `start` may always still get out of it exactly if every step is
timely. -/
theorem released_iff_timely [DecidableEq ι] {captureOutput : Bool}
    {actions : List (BuilderAction ι)} {s : BuilderThreads ι}
    (hrun : run (new ι captureOutput) actions = some s) :
    Holds step Released (new ι captureOutput) actions ↔
      Meets step Timely (new ι captureOutput) actions :=
  holds_iff_meets (fun _ h ↦ h.released) (fun _ _ _ h htimely hstep ↦ h.step htimely hstep)
    (fun _ _ _ h htimely hstep ↦ not_released_of_not_timely h.toInvariant htimely hstep)
    (timelyInvariant_new captureOutput) hrun

/-- The first request starts the Java side and is made. -/
def firstRequest {ι : Type} (i : ι) : List (BuilderAction ι) :=
  [.start i, .setUp, .connect, .dispatchAccept, .handleAccept, .wake i, .register i]

/-- The theorem, for the first request. -/
theorem released_iff_timely_firstRequest :
    Holds step Released (new Unit true) (firstRequest ()) := by
  have hsome : (run (new Unit true) (firstRequest ())).isSome := by decide
  obtain ⟨s, hrun⟩ := Option.isSome_iff_exists.mp hsome
  refine (released_iff_timely hrun).mpr ?_
  simp [firstRequest, Meets, Timely, new, JavaBuilder.new]

/-- After a request the Java side exits, and another request is made before the thread of
`runIO` has ended: the second caller is never released. -/
theorem not_released_secondRequest :
    ∃ s, run (new Bool true) (firstRequest false ++ [.exit, .handleReadError true, .start true]) =
      some s ∧ ¬ Released s := by
  have hsome : ((run (new Bool true) (firstRequest false ++ [.exit, .handleReadError true])).bind
      fun s ↦ (step s (.start true)).map fun _ ↦
        decide (s.builder.runMode = .stopped ∧ s.ioThread = some .serving)) = some true := by decide
  obtain ⟨s, hrun, hsome⟩ := Option.bind_eq_some_iff.mp hsome
  obtain ⟨s', hstep, hfound⟩ := Option.map_eq_some_iff.mp hsome
  obtain ⟨hmode, hio⟩ := of_decide_eq_true hfound
  have hinvariant : Invariant s := Fallible.foldlM_induction hrun
    (timelyInvariant_new true).toInvariant fun _ _ _ _ hstep h ↦ h.step hstep
  refine ⟨s', ?_, not_released_of_not_timely hinvariant (fun htimely ↦ ?_) hstep⟩
  · have happend : run (new Bool true)
        ((firstRequest false ++ [.exit, .handleReadError true]) ++ [.start true]) =
          (run (new Bool true) (firstRequest false ++ [.exit, .handleReadError true])).bind
            fun s ↦ run s [.start true] := List.foldlM_append
    have hlast : run s [.start true] = some s' := by
      rw [run, Fallible.foldlM_cons, hstep]
      rfl
    rw [hrun, Option.bind_some, hlast] at happend
    exact happend
  · have hfinished := htimely hmode
    rw [hio] at hfinished
    cases hfinished

end Abuild.BuilderThreads
