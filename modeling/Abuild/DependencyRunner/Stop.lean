import Abuild.DependencyRunner.Run

/-!
The dependency runner with failure propagation on, whether or not it stops at the first error. Up to
the point where it stops it is as if it did not (`Runs`): only fewer items are submitted. When it
stops nothing is with the workers any more, and from then on they only exit (`Stopped`).
-/

set_option autoImplicit false
set_option relaxedAutoImplicit false

namespace Abuild.DependencyRunner

open DependencyGraph DependencyEvaluator Precedence Relation

variable {n : ℕ} {g : DependencyGraph} {method : ItemType → Bool} {s s' : DependencyRunner n}

/-- The runner as if there were no reason to stop. -/
def unstopped (s : DependencyRunner n) : DependencyRunner n := { s with stop := false }

/-- The runner has stopped at an error. -/
structure Stopped (g : DependencyGraph) (method : ItemType → Bool) (s : DependencyRunner n) :
    Prop where
  sound : Sound g (fun _ ↦ False) s.evaluator
  wf : s.pool.Wf
  conserved : s.pool.Conserved method
  inFlight : ∀ a, s.pool.inFlight a = 0
  not_running : ∀ a, s.evaluator.stateOf a ≠ .running
  submitted : ∀ a, s.pool.submitted.count a = if Handed (s.evaluator.stateOf a) then 1 else 0
  status : ∀ a, s.evaluator.stateOf a = .completed ∨ s.evaluator.stateOf a = .failed →
    s.evaluator.stateOf a = outcome (method a)
  anyErrors : s.anyErrors = true ↔ ∃ a, s.evaluator.stateOf a = .failed
  shutdown : s.pool.shutdownRequested = true ↔ Joining s.phase
  phase : s.phase = .requestShutdown ∨ Joining s.phase
  result : ∀ result, s.phase = .returned result → result = !s.anyErrors

/-- What holds throughout a run. -/
structure Runs (g : DependencyGraph) (method : ItemType → Bool) (s : DependencyRunner n) :
    Prop where
  stop : s.stop = true → s.anyErrors = true
  mode : Invariant g method s.unstopped ∨ s.stop = true ∧ Stopped g method s

section Facts

theorem Stopped.not_submitting (h : Stopped g method s) (a : ItemType) :
    ¬ Submitting s.phase a := by
  intro ha
  unfold Submitting at ha
  rcases h.phase with hphase | hphase
  · rw [hphase] at ha
    cases ha
  · rw [ha] at hphase
    exact hphase

theorem Runs.sound (h : Runs g method s) : Sound g (fun _ ↦ False) s.evaluator :=
  h.mode.elim (·.sound) (·.2.sound)

theorem Runs.wf (h : Runs g method s) : s.pool.Wf := h.mode.elim (·.wf) (·.2.wf)

theorem Runs.conserved (h : Runs g method s) : s.pool.Conserved method :=
  h.mode.elim (·.conserved) (·.2.conserved)

theorem Runs.inFlight (h : Runs g method s) (a : ItemType) :
    s.pool.inFlight a + (if Submitting s.phase a then 1 else 0) =
      if s.evaluator.stateOf a = .running then 1 else 0 := by
  rcases h.mode with hinvariant | ⟨-, hstopped⟩
  · exact hinvariant.inFlight a
  · rw [hstopped.inFlight, if_neg (hstopped.not_submitting a), if_neg (hstopped.not_running a)]

theorem Runs.submitted (h : Runs g method s) (a : ItemType) :
    s.pool.submitted.count a + (if Submitting s.phase a then 1 else 0) =
      if Handed (s.evaluator.stateOf a) then 1 else 0 := by
  rcases h.mode with hinvariant | ⟨-, hstopped⟩
  · exact hinvariant.submitted a
  · rw [hstopped.submitted, if_neg (hstopped.not_submitting a), Nat.add_zero]

theorem Runs.status (h : Runs g method s) {a : ItemType}
    (ha : s.evaluator.stateOf a = .completed ∨ s.evaluator.stateOf a = .failed) :
    s.evaluator.stateOf a = outcome (method a) := by
  rcases h.mode with hinvariant | ⟨-, hstopped⟩
  · exact hinvariant.status a ha
  · exact hstopped.status a ha

theorem Runs.anyErrors (h : Runs g method s) :
    s.anyErrors = true ↔ ∃ a, s.evaluator.stateOf a = .failed := by
  rcases h.mode with hinvariant | ⟨-, hstopped⟩
  · exact hinvariant.anyErrors
  · exact hstopped.anyErrors

/-- All that a started item depends on has completed. -/
theorem Runs.completed_of_started (h : Runs g method s) {a b : ItemType}
    (hstarted : Started (s.evaluator.stateOf a)) (hab : DependsOn g.dependencies a b) :
    s.evaluator.stateOf b = .completed := h.sound.started a hstarted b hab

/-- An item that is with the workers is running. -/
theorem Runs.running_of_inFlight (h : Runs g method s) {a : ItemType} (ha : 0 < s.pool.inFlight a) :
    s.evaluator.stateOf a = .running := by
  by_contra hne
  have hflight := h.inFlight a
  rw [if_neg hne] at hflight
  omega

end Facts

section Step

theorem workerStep_keeps {w : Fin n} {pool : WorkerPool n ItemType Bool}
    (hp : s.pool.workerStep method w = some pool) :
    pool.shutdownRequested = s.pool.shutdownRequested ∧ pool.submitted = s.pool.submitted ∧
      pool.read = s.pool.read := by
  rcases WorkerPool.workerStep_cases hp with ⟨-, rfl⟩ | ⟨item, queue, -, -, rfl⟩ |
    ⟨queue, -, -, rfl⟩ | ⟨item, -, rfl⟩ <;> exact ⟨rfl, rfl, rfl⟩

theorem Runs.worker (h : Runs g method s) {w : Fin n} {pool : WorkerPool n ItemType Bool}
    (hp : s.pool.workerStep method w = some pool) : Runs g method { s with pool } := by
  refine ⟨h.stop, ?_⟩
  rcases h.mode with hinvariant | ⟨hstop, hstopped⟩
  · exact Or.inl (hinvariant.worker hp)
  · obtain ⟨hshutdown, hsubmitted, hread⟩ := workerStep_keeps hp
    have hconserved := hstopped.conserved.workerStep hp
    refine Or.inr ⟨hstop, { hstopped with
      wf := hstopped.wf.workerStep hp
      conserved := hconserved
      inFlight := fun a ↦ ?_
      submitted := fun a ↦ ?_
      shutdown := ?_ }⟩
    · -- Nothing was submitted or read, so as much is in flight as before.
      have hnew := hconserved.inFlight a
      have hold := hstopped.conserved.inFlight a
      rw [hsubmitted, hread] at hnew
      have hzero := hstopped.inFlight a
      dsimp only
      omega
    · rw [hsubmitted]
      exact hstopped.submitted a
    · rw [hshutdown]
      exact hstopped.shutdown

/-- Where the reason to stop is not looked at, a step is as without it. -/
theorem controllerStep_unstopped {stopOnFirstError : Bool} (hread : s.phase ≠ .readTest)
    (hidle : s.phase ≠ .idleTest) (hstop : s.stop = true → s.anyErrors = true)
    (hs : s.controllerStep stopOnFirstError = some s') :
    s.unstopped.controllerStep false = some s'.unstopped ∧
      (s'.stop = true → s'.anyErrors = true) := by
  unfold controllerStep at hs ⊢
  unfold unstopped
  dsimp only
  cases hphase : s.phase with
  | readTest => exact absurd hphase hread
  | idleTest => exact absurd hphase hidle
  | top =>
    rw [hphase] at hs
    obtain ⟨next, hnext, hsome⟩ := Option.bind_eq_some_iff.mp hs
    obtain rfl := Option.some_inj.mp hsome
    rw [hnext]
    exact ⟨rfl, hstop⟩
  | wait =>
    rw [hphase] at hs
    obtain ⟨hreturns, hsome⟩ := Option.ite_none_right_eq_some.mp hs
    obtain rfl := Option.some_inj.mp hsome
    exact ⟨if_pos hreturns, hstop⟩
  | waitForResults =>
    rw [hphase] at hs
    obtain ⟨hreturns, hsome⟩ := Option.ite_none_right_eq_some.mp hs
    obtain rfl := Option.some_inj.mp hsome
    exact ⟨if_pos hreturns, hstop⟩
  | getResults =>
    rw [hphase] at hs
    obtain ⟨⟨⟨item, status⟩, pool⟩, hget, hrest⟩ := Option.bind_eq_some_iff.mp hs
    rw [hget]
    cases hstatus : status with
    | true =>
      subst hstatus
      obtain ⟨evaluator, hset, hsome⟩ := Option.bind_eq_some_iff.mp hrest
      obtain rfl := Option.some_inj.mp hsome
      refine ⟨?_, hstop⟩
      show (s.evaluator.setCompleted item).bind _ = _
      rw [hset]
      rfl
    | false =>
      subst hstatus
      obtain ⟨evaluator, hset, hsome⟩ := Option.bind_eq_some_iff.mp hrest
      obtain rfl := Option.some_inj.mp hsome
      refine ⟨?_, fun _ ↦ rfl⟩
      show (s.evaluator.setFailed item).bind _ = _
      rw [hset]
      rfl
  | submitTest =>
    rw [hphase] at hs
    obtain rfl := Option.some_inj.mp hs
    exact ⟨rfl, hstop⟩
  | submitWorkers =>
    rw [hphase] at hs
    dsimp only at hs ⊢
    split_ifs at hs ⊢ with hworkers
    · obtain ⟨next, hnext, hrest⟩ := Option.bind_eq_some_iff.mp hs
      rw [hnext]
      cases next with
      | none =>
        obtain rfl := Option.some_inj.mp hrest
        exact ⟨rfl, hstop⟩
      | some item =>
        obtain ⟨evaluator, hset, hsome⟩ := Option.bind_eq_some_iff.mp hrest
        obtain rfl := Option.some_inj.mp hsome
        refine ⟨?_, hstop⟩
        show (s.evaluator.setRunning item).bind _ = _
        rw [hset]
        rfl
    · obtain rfl := Option.some_inj.mp hs
      exact ⟨rfl, hstop⟩
  | processItem item =>
    rw [hphase] at hs
    obtain ⟨pool, hpool, hsome⟩ := Option.bind_eq_some_iff.mp hs
    obtain rfl := Option.some_inj.mp hsome
    refine ⟨?_, hstop⟩
    show (s.pool.processItem item).bind _ = _
    rw [hpool]
    rfl
  | requestShutdown =>
    rw [hphase] at hs
    obtain rfl := Option.some_inj.mp hs
    exact ⟨rfl, hstop⟩
  | join i =>
    rw [hphase] at hs
    dsimp only at hs ⊢
    split_ifs at hs ⊢ with hi hexited
    · obtain rfl := Option.some_inj.mp hs
      exact ⟨rfl, hstop⟩
    · obtain rfl := Option.some_inj.mp hs
      exact ⟨rfl, hstop⟩
  | returned result =>
    rw [hphase] at hs
    cases hs

/-- The runner stops when the pool is idle. -/
theorem stopped_of_idle (h : Invariant g method s.unstopped) (hphase : s.phase = .idleTest)
    (hidle : s.pool.idle = true) : Stopped g method { s with phase := .requestShutdown } := by
  have hsubmitting : ∀ a, ¬ Submitting s.unstopped.phase a := fun a ha ↦ by
    unfold Submitting unstopped at ha
    rw [hphase] at ha
    cases ha
  have hflight : ∀ a, s.pool.inFlight a = 0 := fun a ↦ h.wf.inFlight_eq_zero hidle a
  refine
    { sound := h.sound
      wf := h.wf
      conserved := h.conserved
      inFlight := hflight
      not_running := fun a hrunning ↦ ?_
      submitted := fun a ↦ ?_
      status := h.status
      anyErrors := h.anyErrors
      shutdown := ?_
      phase := Or.inl rfl
      result := fun _ hresult ↦ RunPhase.noConfusion hresult }
  · have hrunning' : s.unstopped.evaluator.stateOf a = .running := hrunning
    have hsame := h.inFlight a
    rw [if_neg (hsubmitting a), if_pos hrunning'] at hsame
    exact absurd ((hflight a).symm.trans hsame) (by decide)
  · have hsame := h.submitted a
    rwa [if_neg (hsubmitting a)] at hsame
  · have hold := h.shutdown
    unfold unstopped at hold
    rw [hphase] at hold
    exact hold

/-- After the stop the workers are asked to exit, and are joined. -/
theorem Stopped.controller {stopOnFirstError : Bool} (h : Stopped g method s)
    (hs : s.controllerStep stopOnFirstError = some s') :
    Stopped g method s' ∧ s'.stop = s.stop ∧ s'.anyErrors = s.anyErrors := by
  unfold controllerStep at hs
  rcases h.phase with hphase | hphase
  · rw [hphase] at hs
    obtain rfl := Option.some_inj.mp hs
    have hoff : s.pool.shutdownRequested = false := by
      refine Bool.eq_false_iff.mpr fun hon ↦ ?_
      have hjoining := h.shutdown.mp hon
      rw [hphase] at hjoining
      exact hjoining
    have hconserved := h.conserved.requestShutdown
    refine ⟨{ h with
      wf := h.wf.requestShutdown hoff
      conserved := hconserved
      inFlight := fun a ↦ ?_
      shutdown := iff_of_true rfl trivial
      phase := Or.inr trivial
      result := fun _ hresult ↦ RunPhase.noConfusion hresult }, rfl, rfl⟩
    have hnew := hconserved.inFlight a
    have hold := h.conserved.inFlight a
    have hzero := h.inFlight a
    have hsame : s.pool.requestShutdown.submitted = s.pool.submitted ∧
        s.pool.requestShutdown.read = s.pool.read := ⟨rfl, rfl⟩
    rw [hsame.1, hsame.2] at hnew
    dsimp only
    omega
  · cases hp : s.phase with
    | join i =>
      rw [hp] at hs
      dsimp only at hs
      split_ifs at hs with hi hexited
      · obtain rfl := Option.some_inj.mp hs
        refine ⟨{ h with
          shutdown := iff_of_true (h.shutdown.mpr (hp ▸ trivial)) trivial
          phase := Or.inr trivial
          result := fun _ hresult ↦ RunPhase.noConfusion hresult }, rfl, rfl⟩
      · obtain rfl := Option.some_inj.mp hs
        refine ⟨{ h with
          shutdown := iff_of_true (h.shutdown.mpr (hp ▸ trivial)) trivial
          phase := Or.inr trivial
          result := fun result hresult ↦ (RunPhase.returned.inj hresult).symm }, rfl, rfl⟩
    | returned result =>
      rw [hp] at hs
      cases hs
    | _ =>
      rw [hp] at hphase
      exact hphase.elim

theorem Runs.controller (hg : ErrorFree g) {stopOnFirstError : Bool} (h : Runs g method s)
    (hs : s.controllerStep stopOnFirstError = some s') : Runs g method s' := by
  rcases h.mode with hinvariant | ⟨hstop, hstopped⟩
  · by_cases hread : s.phase = .readTest
    · have hsubmitting : ∀ a, ¬ Submitting s.unstopped.phase a := fun a ha ↦ by
        unfold Submitting unstopped at ha
        rw [hread] at ha
        cases ha
      have hjoining : ¬ Joining s.unstopped.phase := by
        unfold unstopped
        rw [hread]
        exact id
      unfold controllerStep at hs
      rw [hread] at hs
      obtain rfl := Option.some_inj.mp hs
      refine ⟨h.stop, Or.inl (hinvariant.setPhase hsubmitting ?_ ?_ ?_)⟩
      · intro a
        split_ifs <;> exact RunPhase.noConfusion
      · refine iff_of_false ?_ hjoining
        split_ifs <;> exact id
      · split_ifs with hresults hstop
        · have hne : s.pool.results ≠ [] := by simpa [WorkerPool.resultsAvailable] using hresults
          exact hne
        · trivial
        · trivial
    · by_cases hidle : s.phase = .idleTest
      · by_cases hstop : s.stop = true
        · unfold controllerStep at hs
          rw [hidle] at hs
          dsimp only at hs
          rw [if_pos hstop] at hs
          split_ifs at hs with hpool
          · obtain rfl := Option.some_inj.mp hs
            exact ⟨h.stop, Or.inr ⟨hstop, stopped_of_idle hinvariant hidle hpool⟩⟩
          · obtain rfl := Option.some_inj.mp hs
            refine ⟨h.stop, Or.inl (hinvariant.setPhase (fun a ha ↦ ?_) (fun a ↦ ?_) ?_ trivial)⟩
            · unfold Submitting unstopped at ha
              rw [hidle] at ha
              cases ha
            · exact RunPhase.noConfusion
            · unfold unstopped
              rw [hidle]
              exact Iff.rfl
        · have hsame : s.unstopped = s := by
            unfold unstopped
            rw [← Bool.eq_false_iff.mpr hstop]
          rw [hsame] at hinvariant
          have hstep : s.controllerStep false = some s' := by
            rw [← hs]
            unfold controllerStep
            rw [hidle]
          have hnext := hinvariant.controller hg hstep
          have hfalse := hnext.not_stop
          refine ⟨fun htrue ↦ absurd (hfalse.symm.trans htrue) (by decide), Or.inl ?_⟩
          unfold unstopped
          rw [← hfalse]
          exact hnext
      · obtain ⟨hstep, hstop⟩ := controllerStep_unstopped hread hidle h.stop hs
        exact ⟨hstop, Or.inl (hinvariant.controller hg hstep)⟩
  · obtain ⟨hnext, hsame, herrors⟩ := hstopped.controller hs
    exact ⟨fun _ ↦ herrors.trans (h.stop hstop), Or.inr ⟨hsame.trans hstop, hnext⟩⟩

end Step

/-! ### The end of a run -/

theorem isSome_of_isSome_bind {α β γ : Type} {x : Option α} {f : α → β} {f' : α → γ}
    (h : (x.bind fun a ↦ some (f a)).isSome) : (x.bind fun a ↦ some (f' a)).isSome := by
  cases x with
  | none => exact h
  | some a => rfl

/-- A step that there is without a reason to stop is there in any case. -/
theorem controllerStep_isSome (stopOnFirstError : Bool)
    (h : (s.unstopped.controllerStep false).isSome) :
    (s.controllerStep stopOnFirstError).isSome := by
  unfold controllerStep unstopped at h
  unfold controllerStep
  dsimp only at h
  cases hphase : s.phase with
  | getResults =>
    rw [hphase] at h
    obtain ⟨s₁, hs₁⟩ := Option.isSome_iff_exists.mp h
    obtain ⟨⟨⟨item, status⟩, pool⟩, hget, hrest⟩ := Option.bind_eq_some_iff.mp hs₁
    show (s.pool.getResults.bind _).isSome
    rw [hget]
    cases status with
    | true =>
      obtain ⟨evaluator, hset, -⟩ := Option.bind_eq_some_iff.mp hrest
      show ((s.evaluator.setCompleted item).bind _).isSome
      rw [hset]
      rfl
    | false =>
      obtain ⟨evaluator, hset, -⟩ := Option.bind_eq_some_iff.mp hrest
      show ((s.evaluator.setFailed item).bind _).isSome
      rw [hset]
      rfl
  | idleTest =>
    rw [hphase] at h
    dsimp only at h ⊢
    by_cases hidle : s.pool.idle = true
    · by_cases hstop : s.stop = true
      · rw [if_pos hidle, if_pos hstop]
        rfl
      · rw [if_pos hidle, if_neg Bool.false_ne_true] at h
        rw [if_pos hidle, if_neg hstop]
        exact isSome_of_isSome_bind h
    · rw [if_neg hidle]
      rfl
  | submitWorkers =>
    rw [hphase] at h
    dsimp only at h ⊢
    split_ifs at h ⊢ with hworkers
    · obtain ⟨s₁, hs₁⟩ := Option.isSome_iff_exists.mp h
      obtain ⟨next, hnext, hrest⟩ := Option.bind_eq_some_iff.mp hs₁
      rw [hnext]
      cases next with
      | none => rfl
      | some item =>
        obtain ⟨evaluator, hset, -⟩ := Option.bind_eq_some_iff.mp hrest
        show ((s.evaluator.setRunning item).bind _).isSome
        rw [hset]
        rfl
    · rfl
  | top =>
    rw [hphase] at h
    exact isSome_of_isSome_bind h
  | processItem item =>
    rw [hphase] at h
    exact isSome_of_isSome_bind h
  | wait =>
    rw [hphase] at h
    dsimp only at h ⊢
    split_ifs at h ⊢ <;> first | rfl | cases h
  | waitForResults =>
    rw [hphase] at h
    dsimp only at h ⊢
    split_ifs at h ⊢ <;> first | rfl | cases h
  | join i =>
    rw [hphase] at h
    dsimp only at h ⊢
    split_ifs at h ⊢ <;> first | rfl | cases h
  | returned result =>
    rw [hphase] at h
    cases h
  | _ => rfl

/-- Until `run` returns, some actor has a step. -/
theorem Runs.act_isSome (hg : ErrorFree g) (hn : 1 ≤ n) (h : Runs g method s)
    (stopOnFirstError : Bool) (hphase : ∀ result, s.phase ≠ .returned result) :
    (s.controllerStep stopOnFirstError).isSome ∨ ∃ w, (s.pool.workerStep method w).isSome := by
  rcases h.mode with hinvariant | ⟨-, hstopped⟩
  · obtain ⟨actor, s', hs⟩ := hinvariant.act_isSome hg hn hphase
    cases actor with
    | worker w =>
      obtain ⟨pool, hpool, -⟩ := Option.bind_eq_some_iff.mp hs
      exact Or.inr ⟨w, Option.isSome_iff_exists.mpr ⟨pool, hpool⟩⟩
    | controller =>
      exact Or.inl (controllerStep_isSome stopOnFirstError (Option.isSome_iff_exists.mpr ⟨s', hs⟩))
  · unfold controllerStep
    rcases hstopped.phase with hp | hp
    · rw [hp]
      exact Or.inl rfl
    · cases hjoin : s.phase with
      | join i =>
        by_cases hi : i < n
        · by_cases hexited : s.pool.workers ⟨i, hi⟩ = .exited
          · left
            dsimp only
            rw [dif_pos hi, if_pos hexited]
            rfl
          · exact Or.inr ⟨_, hstopped.wf.exit_isSome method (hstopped.shutdown.mpr hp) hexited⟩
        · left
          dsimp only
          rw [dif_neg hi]
          rfl
      | returned result => exact absurd hjoin (hphase result)
      | _ =>
        rw [hjoin] at hp
        exact hp.elim

/-- When `run` has returned, no item is running. The result is an error if an item has failed; if
there is none, all items have completed. -/
theorem Runs.returned (h : Runs g method s) {result : Bool}
    (hphase : s.phase = .returned result) :
    (∀ a, s.evaluator.stateOf a ≠ .running) ∧ (result = true ↔ s.anyErrors = false) ∧
      (s.stop = true ∨ ∀ a ∈ g.inOrder, (s.evaluator.stateOf a).Terminal) := by
  rcases h.mode with hinvariant | ⟨hstop, hstopped⟩
  · have hok := hinvariant.phase
    unfold PhaseOk unstopped at hok
    rw [hphase] at hok
    obtain ⟨hterminal, hresult⟩ := hok
    refine ⟨fun a hrunning ↦ ?_, ?_, Or.inr hterminal⟩
    · by_cases ha : a ∈ g.inOrder
      · have hend := hterminal a ha
        rw [hrunning] at hend
        exact absurd hend (by decide)
      · rw [h.sound.ofGraph.stateOf_eq_waiting ha] at hrunning
        cases hrunning
    · rw [hresult, Bool.not_eq_true']
  · refine ⟨hstopped.not_running, ?_, Or.inl hstop⟩
    rw [hstopped.result result hphase, Bool.not_eq_true']

end Abuild.DependencyRunner
