import Abuild.DependencyRunner
import Abuild.DependencyEvaluator.Propagate
import Abuild.WorkerPool.Invariant

/-!
A run of the dependency runner that neither stops at the first error nor switches
failure propagation off, under any schedule. The states of the items and the
contents of the pool are tied together (`Invariant`): the running items are those
in the pool, each once, and an item that was submitted is running, completed or
failed from then on. A pool that is idle has nothing in it, so the loop ends
only when no item is running or ready, and then all items are in a terminal state.
Some actor has a step until `run` returns (`act_isSome`), and `run_correct`
collects what holds of every schedule.
-/

set_option autoImplicit false
set_option relaxedAutoImplicit false

namespace Abuild.DependencyRunner

open DependencyGraph DependencyEvaluator Precedence Relation

variable {n : ℕ}

/-- The state in which an item ends that was processed with a status. -/
def outcome (status : Bool) : ItemState := if status then .completed else .failed

/-- The state of an item that was given to the pool. -/
def Handed (state : ItemState) : Prop :=
  state = .running ∨ state = .completed ∨ state = .failed

instance (state : ItemState) : Decidable (Handed state) :=
  inferInstanceAs (Decidable (_ ∨ _ ∨ _))

/-- The item has been set running and is about to be submitted. -/
def Submitting (phase : RunPhase) (a : ItemType) : Prop := phase = .processItem a

instance (phase : RunPhase) (a : ItemType) : Decidable (Submitting phase a) :=
  inferInstanceAs (Decidable (_ = _))

/-- The workers have been asked to exit. -/
def Joining : RunPhase → Prop
  | .join _ => True
  | .returned _ => True
  | _ => False

/-- What holds at a point of `run`. -/
def PhaseOk (g : DependencyGraph) (s : DependencyRunner n) : Prop :=
  match s.phase with
  | .getResults => s.pool.results ≠ []
  | .processItem item => item ∈ g.inOrder ∧ s.pool.availableWorkers ≠ []
  | .requestShutdown => ∀ a ∈ g.inOrder, (s.evaluator.stateOf a).Terminal
  | .join _ => ∀ a ∈ g.inOrder, (s.evaluator.stateOf a).Terminal
  | .returned result =>
    (∀ a ∈ g.inOrder, (s.evaluator.stateOf a).Terminal) ∧ result = !s.anyErrors
  | _ => True

structure Invariant (g : DependencyGraph) (method : ItemType → Bool) (s : DependencyRunner n) :
    Prop where
  sound : Sound g (fun _ ↦ False) s.evaluator
  counted : Counted g s.evaluator
  wf : s.pool.Wf
  conserved : s.pool.Conserved method
  inFlight : ∀ a, s.pool.inFlight a + (if Submitting s.phase a then 1 else 0) =
    if s.evaluator.stateOf a = .running then 1 else 0
  submitted : ∀ a, s.pool.submitted.count a + (if Submitting s.phase a then 1 else 0) =
    if Handed (s.evaluator.stateOf a) then 1 else 0
  status : ∀ a, s.evaluator.stateOf a = .completed ∨ s.evaluator.stateOf a = .failed →
    s.evaluator.stateOf a = outcome (method a)
  anyErrors : s.anyErrors = true ↔ ∃ a, s.evaluator.stateOf a = .failed
  not_stop : s.stop = false
  shutdown : s.pool.shutdownRequested = true ↔ Joining s.phase
  phase : PhaseOk g s

section Step

variable {g : DependencyGraph} {method : ItemType → Bool} {s s' : DependencyRunner n}

/-- A step that moves from one point of `run` to another and does nothing else. -/
theorem Invariant.setPhase (h : Invariant g method s) {phase : RunPhase}
    (hold : ∀ a, ¬ Submitting s.phase a) (hnew : ∀ a, ¬ Submitting phase a)
    (hjoining : Joining phase ↔ Joining s.phase) (hphase : PhaseOk g { s with phase }) :
    Invariant g method { s with phase } := by
  refine { h with inFlight := fun a ↦ ?_, submitted := fun a ↦ ?_, shutdown := ?_, phase := hphase }
  · rw [if_neg (hnew a)]
    have hsame := h.inFlight a
    rwa [if_neg (hold a)] at hsame
  · rw [if_neg (hnew a)]
    have hsame := h.submitted a
    rwa [if_neg (hold a)] at hsame
  · rw [hjoining]
    exact h.shutdown

/-- A step of a worker. -/
theorem Invariant.worker (h : Invariant g method s) {w : Fin n}
    {pool : WorkerPool n ItemType Bool} (hp : s.pool.workerStep method w = some pool) :
    Invariant g method { s with pool } := by
  have hconserved := h.conserved.workerStep hp
  have hpool : pool.shutdownRequested = s.pool.shutdownRequested ∧
      pool.submitted = s.pool.submitted ∧ pool.read = s.pool.read ∧
      s.pool.results <+: pool.results ∧ s.pool.availableWorkers <+: pool.availableWorkers := by
    rcases WorkerPool.workerStep_cases hp with ⟨-, rfl⟩ | ⟨item, queue, -, -, rfl⟩ |
      ⟨queue, -, -, rfl⟩ | ⟨item, -, rfl⟩
    · exact ⟨rfl, rfl, rfl, List.prefix_refl _, List.prefix_append _ _⟩
    · exact ⟨rfl, rfl, rfl, List.prefix_refl _, List.prefix_refl _⟩
    · exact ⟨rfl, rfl, rfl, List.prefix_refl _, List.prefix_refl _⟩
    · exact ⟨rfl, rfl, rfl, List.prefix_append _ _, List.prefix_append _ _⟩
  obtain ⟨hshutdown, hsubmitted, hread, hresults, havailable⟩ := hpool
  refine { h with
    wf := h.wf.workerStep hp
    conserved := hconserved
    inFlight := fun a ↦ ?_
    submitted := fun a ↦ ?_
    shutdown := ?_
    phase := ?_ }
  · -- Nothing was submitted or read, so as much is in flight as before.
    have hnew := hconserved.inFlight a
    have hold := h.conserved.inFlight a
    rw [hsubmitted, hread] at hnew
    rw [show pool.inFlight a = s.pool.inFlight a by omega]
    exact h.inFlight a
  · rw [hsubmitted]
    exact h.submitted a
  · rw [hshutdown]
    exact h.shutdown
  · have hphase := h.phase
    unfold PhaseOk at hphase ⊢
    dsimp only at hphase ⊢
    split at hphase
    · intro hnil
      exact hphase (List.prefix_nil.mp (hnil ▸ hresults))
    · refine ⟨hphase.1, fun hnil ↦ hphase.2 ?_⟩
      exact List.prefix_nil.mp (hnil ▸ havailable)
    · exact hphase
    · exact hphase
    · exact hphase
    · trivial

section Result

variable {item : ItemType} {status : Bool} {pool : WorkerPool n ItemType Bool}

/-- What is in flight is what was, without the item of the result. -/
theorem Invariant.inFlight_of_getResults (h : Invariant g method s)
    (hget : s.pool.getResults = some ((item, status), pool)) (a : ItemType) :
    s.pool.inFlight a = pool.inFlight a + if a = item then 1 else 0 := by
  obtain ⟨hsubmitted, hread⟩ : pool.submitted = s.pool.submitted ∧
      pool.read = s.pool.read ++ [(item, status)] := by
    unfold WorkerPool.getResults at hget
    split at hget
    · cases hget
    · cases hget
      exact ⟨rfl, rfl⟩
  have hnew := (h.conserved.getResults hget).1.inFlight a
  have hold := h.conserved.inFlight a
  rw [hsubmitted, hread, List.map_append, List.count_append, List.map_singleton,
    List.count_singleton] at hnew
  by_cases ha : a = item
  · subst ha
    simp only [beq_self_eq_true, if_true] at hnew ⊢
    omega
  · simp only [beq_iff_eq, Ne.symm ha, ha, if_false] at hnew ⊢
    omega

/-- The item of a result is in flight, and so it is running. -/
theorem Invariant.running_of_getResults (h : Invariant g method s)
    (hsubmitting : ∀ a, ¬ Submitting s.phase a)
    (hget : s.pool.getResults = some ((item, status), pool)) :
    item ∈ g.inOrder ∧ s.evaluator.stateOf item = .running := by
  have hrunning : s.evaluator.stateOf item = .running := by
    have hin := h.inFlight item
    rw [h.inFlight_of_getResults hget, if_pos rfl, if_neg (hsubmitting item)] at hin
    by_contra hne
    rw [if_neg hne] at hin
    omega
  refine ⟨?_, hrunning⟩
  by_contra hnot
  rw [h.sound.ofGraph.stateOf_eq_waiting hnot] at hrunning
  cases hrunning

/-- A running item may be set completed or failed. -/
theorem exists_setFinished (hg : ErrorFree g) (h : Invariant g method s)
    (hitem : item ∈ g.inOrder) (hrunning : s.evaluator.stateOf item = .running) (status : Bool) :
    ∃ evaluator c, s.evaluator.setFinished item (outcome status) = some evaluator ∧
      s.evaluator.call c = some evaluator := by
  have hlegal := h.sound.ofGraph.legal.mpr ⟨hitem, hrunning⟩
  cases status with
  | false =>
    obtain ⟨evaluator, heval⟩ :=
      (call_isSome_iff hg h.sound.ofGraph (.setFailed item)).mpr hlegal
    exact ⟨evaluator, .setFailed item, heval, heval⟩
  | true =>
    obtain ⟨evaluator, heval⟩ :=
      (call_isSome_iff hg h.sound.ofGraph (.setCompleted item)).mpr hlegal
    exact ⟨evaluator, .setCompleted item, heval, heval⟩

end Result

/-- The state after a result has been read and its item set completed or failed. -/
theorem Invariant.finish (hg : ErrorFree g) (h : Invariant g method s)
    (hphase : s.phase = .getResults) {item : ItemType} {status : Bool}
    {pool : WorkerPool n ItemType Bool}
    (hget : s.pool.getResults = some ((item, status), pool)) {evaluator : DependencyEvaluator}
    {c : DependencyEvaluator.Call}
    (heval : s.evaluator.setFinished item (outcome status) = some evaluator)
    (hc : s.evaluator.call c = some evaluator) :
    Invariant g method { s with
      pool
      evaluator
      anyErrors := if status then s.anyErrors else true
      phase := .readTest } := by
  obtain ⟨hconserved, hmem⟩ := h.conserved.getResults hget
  have hstatus : status = method item := h.conserved.status _ (Or.inl hmem)
  have hsubmitting : ∀ a, ¬ Submitting s.phase a := by simp [Submitting, hphase]
  obtain ⟨-, hrunning⟩ := h.running_of_getResults hsubmitting hget
  have hsubmitted : pool.submitted = s.pool.submitted ∧
      pool.shutdownRequested = s.pool.shutdownRequested := by
    unfold WorkerPool.getResults at hget
    split at hget
    · cases hget
    · cases hget
      exact ⟨rfl, rfl⟩
  have hfinished : outcome status = .completed ∨ outcome status = .failed := by
    cases status
    · exact Or.inr rfl
    · exact Or.inl rfl
  have hstates : ∀ {a : ItemType} {state : ItemState}, Handed state →
      (evaluator.stateOf a = state ↔
        (if a = item then outcome status else s.evaluator.stateOf a) = state) :=
    fun hstate ↦ stateOf_finish_iff hg h.sound.ofGraph heval hfinished hstate
  refine
    { sound := h.sound.call hg hc
      counted := h.counted.call hg h.sound.ofGraph hc
      wf := h.wf.getResults hget
      conserved := hconserved
      inFlight := fun a ↦ ?_
      submitted := fun a ↦ ?_
      status := fun a ha ↦ ?_
      anyErrors := ?_
      not_stop := h.not_stop
      shutdown := ?_
      phase := trivial }
  · have hold := h.inFlight a
    rw [h.inFlight_of_getResults hget, if_neg (hsubmitting a)] at hold
    simp only [hstates (Or.inl rfl), Submitting, reduceCtorEq, if_false]
    by_cases ha : a = item
    · have hne : outcome status ≠ .running := by cases status <;> decide
      rw [ha] at hold ⊢
      rw [hrunning, if_pos rfl, if_pos rfl] at hold
      rw [if_pos rfl, if_neg hne]
      have hzero := Nat.succ_inj.mp hold
      exact hzero
    · simp only [ha, if_false] at hold ⊢
      exact hold
  · have hold := h.submitted a
    rw [if_neg (hsubmitting a)] at hold
    have hsame : Handed (evaluator.stateOf a) ↔ Handed (s.evaluator.stateOf a) := by
      unfold Handed
      rw [hstates (Or.inl rfl), hstates (Or.inr (Or.inl rfl)), hstates (Or.inr (Or.inr rfl))]
      by_cases ha : a = item
      · subst ha
        rw [if_pos rfl, hrunning]
        cases status <;> decide
      · rw [if_neg ha]
    simp only [hsubmitted.1, hsame, Submitting, reduceCtorEq, if_false]
    exact hold
  · by_cases hitem' : a = item
    · subst hitem'
      have hout : evaluator.stateOf a = outcome status :=
        (hstates (Or.inr hfinished)).mpr (if_pos rfl)
      rw [hout, hstatus]
    · have hsame : ∀ state, Handed state →
          (evaluator.stateOf a = state ↔ s.evaluator.stateOf a = state) := by
        intro state hstate
        rw [hstates hstate, if_neg hitem']
      have hbefore : s.evaluator.stateOf a = .completed ∨ s.evaluator.stateOf a = .failed :=
        ha.imp (hsame _ (Or.inr (Or.inl rfl))).mp (hsame _ (Or.inr (Or.inr rfl))).mp
      have hmethod := h.status a hbefore
      refine (hsame _ ?_).mpr hmethod
      rw [← hmethod]
      exact Or.inr hbefore
  · have hfailed : ∀ a, evaluator.stateOf a = .failed ↔
        (if a = item then outcome status else s.evaluator.stateOf a) = .failed :=
      fun a ↦ hstates (Or.inr (Or.inr rfl))
    simp only [hfailed]
    have hnotitem : ∀ a, s.evaluator.stateOf a = .failed → a ≠ item := by
      rintro a ha rfl
      rw [hrunning] at ha
      cases ha
    cases hs : status
    · simp only [Bool.false_eq_true, if_false, true_iff]
      exact ⟨item, by rw [if_pos rfl]; rfl⟩
    · simp only [if_true]
      rw [h.anyErrors]
      refine exists_congr fun a ↦ ?_
      split_ifs with ha
      · refine iff_of_false (fun hf ↦ hnotitem a hf ha) (by decide)
      · rfl
  · have hold := h.shutdown
    rw [hphase] at hold
    dsimp only
    rw [hsubmitted.2]
    exact hold

/-- A result is read, and its item set completed or failed. -/
theorem Invariant.getResults (hg : ErrorFree g) (h : Invariant g method s)
    (hphase : s.phase = .getResults) :
    ∃ s', s.controllerStep false = some s' ∧ Invariant g method s' := by
  have hresults : s.pool.results ≠ [] := by
    have hok := h.phase
    unfold PhaseOk at hok
    rwa [hphase] at hok
  obtain ⟨⟨item, status⟩, results, hcons⟩ := List.exists_cons_of_ne_nil hresults
  have hget : s.pool.getResults = some ((item, status),
      { s.pool with results, read := s.pool.read ++ [(item, status)] }) := by
    unfold WorkerPool.getResults
    rw [hcons]
  obtain ⟨hitem, hrunning⟩ := h.running_of_getResults (by simp [Submitting, hphase]) hget
  obtain ⟨evaluator, c, heval, hc⟩ := exists_setFinished hg h hitem hrunning status
  refine ⟨_, ?_, h.finish hg hphase hget heval hc⟩
  unfold controllerStep
  rw [hphase]
  dsimp only
  rw [hget]
  cases hs : status
  · subst hs
    have hset : s.evaluator.setFailed item = some evaluator := heval
    simp [hset]
  · subst hs
    have hset : s.evaluator.setCompleted item = some evaluator := heval
    simp [hset]

/-- The next ready item is set running, to be submitted. -/
theorem Invariant.setRunning (hg : ErrorFree g) (h : Invariant g method s)
    (hphase : s.phase = .submitWorkers) (havailable : s.pool.availableWorkers ≠ [])
    {item : ItemType} (hitem : item ∈ g.inOrder) (hready : s.evaluator.stateOf item = .ready) :
    ∃ evaluator, s.evaluator.setRunning item = some evaluator ∧
      Invariant g method { s with evaluator, phase := .processItem item } := by
  have hset : s.evaluator.setRunning item = some (s.evaluator.markRunning item) :=
    (setRunning_eq_some h.sound.ofGraph).mpr ⟨hitem, hready, rfl⟩
  have hcall : s.evaluator.call (.setRunning item) = some (s.evaluator.markRunning item) := hset
  have hsubmitting : ∀ a, ¬ Submitting s.phase a := by
    intro a ha
    unfold Submitting at ha
    rw [hphase] at ha
    cases ha
  have hstates := stateOf_markRunning s.evaluator item
  have hfinished : ∀ a state, state = .completed ∨ state = .failed →
      ((s.evaluator.markRunning item).stateOf a = state ↔ s.evaluator.stateOf a = state) := by
    intro a state hstate
    rw [hstates]
    split_ifs with ha
    · subst ha
      rw [hready]
      rcases hstate with rfl | rfl <;> decide
    · rfl
  refine ⟨_, hset,
    { sound := h.sound.call hg hcall
      counted := h.counted.call hg h.sound.ofGraph hcall
      wf := h.wf
      conserved := h.conserved
      inFlight := fun a ↦ ?_
      submitted := fun a ↦ ?_
      status := fun a ha ↦ ?_
      anyErrors := ?_
      not_stop := h.not_stop
      shutdown := ?_
      phase := ⟨hitem, havailable⟩ }⟩
  · have hold := h.inFlight a
    rw [if_neg (hsubmitting a)] at hold
    simp only [Submitting, RunPhase.processItem.injEq, hstates]
    by_cases ha : a = item
    · subst ha
      rw [hready] at hold
      simpa using hold
    · simpa [ha, Ne.symm ha] using hold
  · have hold := h.submitted a
    rw [if_neg (hsubmitting a)] at hold
    simp only [Submitting, RunPhase.processItem.injEq, hstates]
    by_cases ha : a = item
    · subst ha
      rw [hready] at hold
      simpa [Handed] using hold
    · simpa [ha, Ne.symm ha] using hold
  · have hbefore := ha.imp (hfinished a _ (Or.inl rfl)).mp (hfinished a _ (Or.inr rfl)).mp
    have hmethod := h.status a hbefore
    refine (hfinished a _ ?_).mpr hmethod
    rwa [← hmethod]
  · rw [h.anyErrors]
    exact exists_congr fun a ↦ (hfinished a _ (Or.inr rfl)).symm
  · have hold := h.shutdown
    rw [hphase] at hold
    exact hold

/-- The item that was set running is submitted. -/
theorem Invariant.processItem (h : Invariant g method s) {item : ItemType}
    (hphase : s.phase = .processItem item) :
    ∃ pool, s.pool.processItem item = some pool ∧
      pool.submitted = s.pool.submitted ++ [item] ∧
      Invariant g method { s with pool, phase := .submitTest } := by
  have hok := h.phase
  unfold PhaseOk at hok
  rw [hphase] at hok
  obtain ⟨w, available, hcons⟩ := List.exists_cons_of_ne_nil hok.2
  have hp : s.pool.processItem item = some { s.pool with
      availableWorkers := available
      queues := Function.update s.pool.queues w (s.pool.queues w ++ [some item])
      submitted := s.pool.submitted ++ [item] } := by
    unfold WorkerPool.processItem
    rw [hcons]
  have hshutdown : s.pool.shutdownRequested = false := by
    have hold := h.shutdown
    rw [hphase] at hold
    simpa [Joining] using hold
  have hconserved := h.conserved.processItem hp
  have hcount : ∀ a, (s.pool.submitted ++ [item]).count a =
      s.pool.submitted.count a + if Submitting s.phase a then 1 else 0 := by
    intro a
    rw [hphase, List.count_append, List.count_singleton]
    simp [Submitting]
  refine ⟨_, hp, rfl,
    { sound := h.sound
      counted := h.counted
      wf := h.wf.processItem hshutdown hp
      conserved := hconserved
      inFlight := fun a ↦ ?_
      submitted := fun a ↦ ?_
      status := h.status
      anyErrors := h.anyErrors
      not_stop := h.not_stop
      shutdown := ?_
      phase := trivial }⟩
  · have hnew := hconserved.inFlight a
    have hold := h.conserved.inFlight a
    have hflight := h.inFlight a
    dsimp only at hnew
    rw [hcount] at hnew
    dsimp only
    simp only [Submitting, reduceCtorEq, if_false, Nat.add_zero]
    omega
  · have hold := h.submitted a
    dsimp only
    rw [hcount]
    simp only [Submitting, reduceCtorEq, if_false, Nat.add_zero]
    exact hold
  · refine iff_of_false ?_ id
    rw [hshutdown]
    decide

/-- An idle pool and no ready item: all items are in a terminal state. -/
theorem Invariant.terminal_of_idle (hg : ErrorFree g) (h : Invariant g method s)
    (hsubmitting : ∀ a, ¬ Submitting s.phase a) (hidle : s.pool.idle = true)
    (hready : ∀ a ∈ g.inOrder, s.evaluator.stateOf a ≠ .ready) :
    ∀ a ∈ g.inOrder, (s.evaluator.stateOf a).Terminal := by
  refine (h.sound.consistent hg h.counted).active.resolve_right ?_
  rintro ⟨a, ha, hstate | hstate⟩
  · exact hready a ha hstate
  · have hflight := h.inFlight a
    rw [h.wf.inFlight_eq_zero hidle, if_neg (hsubmitting a), if_pos hstate] at hflight
    cases hflight

theorem Invariant.submitWorkers (hg : ErrorFree g) (h : Invariant g method s)
    (hphase : s.phase = .submitWorkers) (hs : s.controllerStep false = some s') :
    Invariant g method s' := by
  obtain ⟨next, hnext, hsome, -⟩ := nextReadyItem_spec hg h.sound.ofGraph
  have hidleTest : Invariant g method { s with phase := .idleTest } :=
    h.setPhase (by simp [Submitting, hphase]) (by simp [Submitting])
      (by simp [Joining, hphase]) trivial
  unfold controllerStep at hs
  rw [hphase, hnext] at hs
  dsimp only [Option.bind_eq_bind, Option.bind_some] at hs
  split_ifs at hs with hworkers
  · cases next with
    | none =>
      cases hs
      exact hidleTest
    | some item =>
      obtain ⟨hitem, hready⟩ := hsome item rfl
      have havailable : s.pool.availableWorkers ≠ [] := by
        intro hnil
        unfold WorkerPool.numAvailableWorkers at hworkers
        rw [hnil] at hworkers
        exact hworkers rfl
      obtain ⟨evaluator, hset, hinvariant⟩ := h.setRunning hg hphase havailable hitem hready
      dsimp only at hs
      rw [hset] at hs
      cases hs
      exact hinvariant
  · cases hs
    exact hidleTest

theorem Invariant.idleTest (hg : ErrorFree g) (h : Invariant g method s)
    (hphase : s.phase = .idleTest) (hs : s.controllerStep false = some s') :
    Invariant g method s' := by
  obtain ⟨next, hnext, -, hnone⟩ := nextReadyItem_spec hg h.sound.ofGraph
  have hsubmitting : ∀ a, ¬ Submitting s.phase a := by simp [Submitting, hphase]
  have htop : Invariant g method { s with phase := .top } :=
    h.setPhase hsubmitting (by simp [Submitting]) (by simp [Joining, hphase]) trivial
  have hstop : ¬ s.stop = true := by
    rw [h.not_stop]
    decide
  unfold controllerStep at hs
  rw [hphase] at hs
  dsimp only at hs
  by_cases hidle : s.pool.idle = true
  · rw [if_pos hidle, if_neg hstop, hnext] at hs
    cases next with
    | none =>
      cases hs
      have hterminal := h.terminal_of_idle hg hsubmitting hidle (hnone rfl)
      exact h.setPhase hsubmitting (by simp [Submitting]) (by simp [Joining, hphase]) hterminal
    | some item =>
      cases hs
      exact htop
  · rw [if_neg hidle] at hs
    cases hs
    exact htop

/-- The workers are asked to exit when all items are in a terminal state. -/
theorem Invariant.requestShutdown (h : Invariant g method s)
    (hphase : s.phase = .requestShutdown) :
    Invariant g method { s with pool := s.pool.requestShutdown, phase := .join 0 } := by
  have hsubmitting : ∀ a, ¬ Submitting s.phase a := by simp [Submitting, hphase]
  have hoff : s.pool.shutdownRequested = false := by
    have hshutdown := h.shutdown
    rw [hphase] at hshutdown
    simpa [Joining] using hshutdown
  have hterminal : ∀ a ∈ g.inOrder, (s.evaluator.stateOf a).Terminal := by
    have hok := h.phase
    unfold PhaseOk at hok
    rwa [hphase] at hok
  have hconserved := h.conserved.requestShutdown
  refine
    { sound := h.sound
      counted := h.counted
      wf := h.wf.requestShutdown hoff
      conserved := hconserved
      inFlight := fun a ↦ ?_
      submitted := fun a ↦ ?_
      status := h.status
      anyErrors := h.anyErrors
      not_stop := h.not_stop
      shutdown := iff_of_true rfl trivial
      phase := hterminal }
  · have hnew := hconserved.inFlight a
    have hold := h.conserved.inFlight a
    have hflight := h.inFlight a
    rw [if_neg (hsubmitting a)] at hflight
    have hsame : s.pool.requestShutdown.submitted = s.pool.submitted ∧
        s.pool.requestShutdown.read = s.pool.read := ⟨rfl, rfl⟩
    rw [hsame.1, hsame.2] at hnew
    simp only [Submitting, reduceCtorEq, if_false, Nat.add_zero] at hflight ⊢
    omega
  · have hold := h.submitted a
    rw [if_neg (hsubmitting a)] at hold
    simp only [Submitting, reduceCtorEq, if_false, Nat.add_zero] at hold ⊢
    exact hold

theorem Invariant.join (h : Invariant g method s) {i : ℕ} (hphase : s.phase = .join i)
    (hs : s.controllerStep false = some s') : Invariant g method s' := by
  have hsubmitting : ∀ a, ¬ Submitting s.phase a := by simp [Submitting, hphase]
  have hterminal : ∀ a ∈ g.inOrder, (s.evaluator.stateOf a).Terminal := by
    have hok := h.phase
    unfold PhaseOk at hok
    rwa [hphase] at hok
  unfold controllerStep at hs
  rw [hphase] at hs
  dsimp only at hs
  split_ifs at hs
  · cases hs
    exact h.setPhase hsubmitting (by simp [Submitting]) (by simp [Joining, hphase]) hterminal
  · cases hs
    exact h.setPhase hsubmitting (by simp [Submitting]) (by simp [Joining, hphase])
      ⟨hterminal, rfl⟩

/-- A wait that is over. -/
theorem Invariant.setReadTest (h : Invariant g method s)
    (hphase : s.phase = .wait ∨ s.phase = .waitForResults) :
    Invariant g method { s with phase := .readTest } := by
  rcases hphase with hphase | hphase
  · exact h.setPhase (by simp [Submitting, hphase]) (by simp [Submitting])
      (by simp [Joining, hphase]) trivial
  · exact h.setPhase (by simp [Submitting, hphase]) (by simp [Submitting])
      (by simp [Joining, hphase]) trivial

/-- Every step of the thread that runs `run`. -/
theorem Invariant.controller (hg : ErrorFree g) (h : Invariant g method s)
    (hs : s.controllerStep false = some s') : Invariant g method s' := by
  cases hphase : s.phase with
  | top =>
    obtain ⟨next, hnext, -⟩ := nextReadyItem_spec hg h.sound.ofGraph
    unfold controllerStep at hs
    rw [hphase, hnext] at hs
    cases hs
    refine h.setPhase (by simp [Submitting, hphase]) ?_ ?_ ?_ <;>
      cases next <;> simp [Submitting, Joining, hphase, PhaseOk]
  | wait =>
    unfold controllerStep at hs
    rw [hphase] at hs
    obtain ⟨-, heq⟩ := Option.ite_none_right_eq_some.mp hs
    exact Option.some_inj.mp heq ▸ h.setReadTest (Or.inl hphase)
  | waitForResults =>
    unfold controllerStep at hs
    rw [hphase] at hs
    obtain ⟨-, heq⟩ := Option.ite_none_right_eq_some.mp hs
    exact Option.some_inj.mp heq ▸ h.setReadTest (Or.inr hphase)
  | readTest =>
    unfold controllerStep at hs
    rw [hphase] at hs
    cases hs
    refine h.setPhase (by simp [Submitting, hphase]) ?_ ?_ ?_
    · split_ifs <;> simp [Submitting]
    · split_ifs <;> simp [Joining, hphase]
    · split_ifs with hresults
      · simpa [WorkerPool.resultsAvailable, PhaseOk] using hresults
      · trivial
      · trivial
  | getResults =>
    obtain ⟨s'', hs'', hinvariant⟩ := h.getResults hg hphase
    obtain rfl : s'' = s' := Option.some_inj.mp (hs''.symm.trans hs)
    exact hinvariant
  | submitTest =>
    unfold controllerStep at hs
    rw [hphase] at hs
    cases hs
    refine h.setPhase (by simp [Submitting, hphase]) ?_ ?_ ?_
    · split_ifs <;> simp [Submitting]
    · split_ifs <;> simp [Joining, hphase]
    · split_ifs <;> trivial
  | submitWorkers => exact h.submitWorkers hg hphase hs
  | processItem item =>
    obtain ⟨pool, hpool, -, hinvariant⟩ := h.processItem hphase
    unfold controllerStep at hs
    rw [hphase] at hs
    dsimp only at hs
    rw [hpool] at hs
    cases hs
    exact hinvariant
  | idleTest => exact h.idleTest hg hphase hs
  | requestShutdown =>
    unfold controllerStep at hs
    rw [hphase] at hs
    cases hs
    exact h.requestShutdown hphase
  | join i => exact h.join hphase hs
  | returned result =>
    unfold controllerStep at hs
    rw [hphase] at hs
    cases hs

theorem Invariant.act (hg : ErrorFree g) (h : Invariant g method s) {actor : Actor n}
    (hs : s.act method false actor = some s') : Invariant g method s' := by
  cases actor with
  | controller => exact h.controller hg hs
  | worker w =>
    obtain ⟨pool, hpool, hsome⟩ := Option.bind_eq_some_iff.mp hs
    cases hsome
    exact h.worker hpool

end Step

/-! ### Schedules -/

theorem start_spec {g : DependencyGraph} (hg : ErrorFree g) (hn : 1 ≤ n)
    (method : ItemType → Bool) :
    ∃ s, start n g false = some s ∧ Invariant g method s := by
  obtain ⟨evaluator, hnew, hsound, hcounted⟩ := new_sound hg
  obtain ⟨e, hnew', -, -, -, hinitial⟩ := new_spec hg
  obtain rfl : evaluator = e := Option.some_inj.mp (hnew.symm.trans hnew')
  obtain ⟨pool, hpool⟩ : ∃ pool, WorkerPool.new n ItemType Bool = some pool := by
    unfold WorkerPool.new
    rw [if_pos hn]
    exact ⟨_, rfl⟩
  -- No item has been handed to the pool, and nothing is in it.
  have hstate : ∀ a, evaluator.stateOf a = .ready ∨ evaluator.stateOf a = .waiting := by
    intro a
    by_cases ha : a ∈ g.inOrder
    · exact (hinitial a ha).imp And.left And.left
    · exact Or.inr (hsound.ofGraph.stateOf_eq_waiting ha)
  have hempty : pool.submitted = [] ∧ pool.shutdownRequested = false := by
    unfold WorkerPool.new at hpool
    rw [if_pos hn] at hpool
    cases hpool
    exact ⟨rfl, rfl⟩
  have hconserved : pool.Conserved method := WorkerPool.conserved_new hpool
  refine ⟨⟨evaluator, pool, false, false, .top⟩, ?_, ?_⟩
  · unfold start
    rw [hnew, hpool]
    rfl
  · refine
      { sound := hsound
        counted := hcounted
        wf := WorkerPool.wf_new hpool
        conserved := hconserved
        inFlight := fun a ↦ ?_
        submitted := fun a ↦ ?_
        status := fun a ha ↦ ?_
        anyErrors := ?_
        not_stop := rfl
        shutdown := ?_
        phase := trivial }
    · have hflight := hconserved.inFlight a
      rw [hempty.1, List.count_nil] at hflight
      rcases hstate a with ha | ha <;> simp [ha, Submitting] <;> omega
    · rcases hstate a with ha | ha <;> simp [ha, Submitting, hempty.1, Handed]
    · rcases hstate a with hs | hs <;> simp [hs] at ha
    · refine iff_of_false Bool.false_ne_true ?_
      rintro ⟨a, ha⟩
      rcases hstate a with hs | hs <;> simp [hs] at ha
    · simp [hempty.2, Joining]

theorem runSchedule_invariant {g : DependencyGraph} (hg : ErrorFree g)
    {method : ItemType → Bool} (schedule : List (Actor n)) {s s' : DependencyRunner n}
    (h : Invariant g method s) (hs : s.runSchedule method false schedule = some s') :
    Invariant g method s' := by
  unfold runSchedule at hs
  induction schedule generalizing s with
  | nil =>
    obtain rfl : s = s' := by simpa using hs
    exact h
  | cons actor schedule ih =>
    rw [List.foldlM_cons] at hs
    obtain ⟨s₁, hs₁, hrest⟩ := Option.bind_eq_some_iff.mp hs
    exact ih (h.act hg hs₁) hrest

section Reached

variable {g : DependencyGraph} {method : ItemType → Bool} {s s' : DependencyRunner n}

/-- An item is submitted only where `run` calls `processItem` with it. -/
theorem submitted_of_act {actor : Actor n} (hs : s.act method false actor = some s') :
    s'.pool.submitted = s.pool.submitted ∨ ∃ item, s.phase = .processItem item ∧
      s'.pool.submitted = s.pool.submitted ++ [item] := by
  cases actor with
  | worker w =>
    obtain ⟨pool, hpool, hsome⟩ := Option.bind_eq_some_iff.mp hs
    cases hsome
    left
    rcases WorkerPool.workerStep_cases hpool with ⟨-, rfl⟩ | ⟨_, _, -, -, rfl⟩ |
      ⟨_, -, -, rfl⟩ | ⟨_, -, rfl⟩ <;> rfl
  | controller =>
    unfold act controllerStep at hs
    dsimp only at hs
    split at hs
    case h_8 item hphase =>
      obtain ⟨pool, hpool, hsome⟩ := Option.bind_eq_some_iff.mp hs
      cases hsome
      unfold WorkerPool.processItem at hpool
      split at hpool
      · cases hpool
      · cases hpool
        exact Or.inr ⟨item, hphase, rfl⟩
    case h_5 =>
      obtain ⟨⟨⟨item, status⟩, pool⟩, hpool, hrest⟩ := Option.bind_eq_some_iff.mp hs
      have hsubmitted : pool.submitted = s.pool.submitted := by
        unfold WorkerPool.getResults at hpool
        split at hpool
        · cases hpool
        · cases hpool
          rfl
      left
      dsimp only at hrest
      split_ifs at hrest <;>
        (obtain ⟨evaluator, -, hsome⟩ := Option.bind_eq_some_iff.mp hrest
         cases hsome
         exact hsubmitted)
    case h_7 =>
      left
      split_ifs at hs
      · obtain ⟨next, -, hrest⟩ := Option.bind_eq_some_iff.mp hs
        cases next with
        | none =>
          cases hrest
          rfl
        | some item =>
          obtain ⟨evaluator, -, hsome⟩ := Option.bind_eq_some_iff.mp hrest
          cases hsome
          rfl
      · cases hs
        rfl
    case h_1 =>
      obtain ⟨next, -, hsome⟩ := Option.bind_eq_some_iff.mp hs
      cases hsome
      exact Or.inl rfl
    case h_9 =>
      left
      split_ifs at hs
      · cases hs
        rfl
      · obtain ⟨next, -, hsome⟩ := Option.bind_eq_some_iff.mp hs
        cases hsome
        rfl
      · cases hs
        rfl
    all_goals
      try split_ifs at hs
      all_goals first | (cases hs; exact Or.inl rfl) | cases hs

/-- Everything that a started item depends on has completed. -/
theorem Invariant.completed_of_started (hg : ErrorFree g) (h : Invariant g method s)
    {a b : ItemType} (ha : a ∈ g.inOrder) (hstarted : Started (s.evaluator.stateOf a))
    (hab : TransGen (DependsOn g.dependencies) a b) : s.evaluator.stateOf b = .completed := by
  have hqp : ∀ c ∈ g.inOrder, s.evaluator.stateOf c = .completed →
      Started (s.evaluator.stateOf c) := by
    intro c _ hc
    rw [hc]
    exact Or.inr (Or.inr (Or.inl rfl))
  exact hg.ordered.closed_transGen (fun c _ hc ↦ h.sound.started c hc) hqp ha hstarted hab

/-- An item that is submitted is running, and so what it depends on has
completed. -/
theorem Invariant.completed_of_submitting (hg : ErrorFree g) (h : Invariant g method s)
    {item : ItemType} (hphase : s.phase = .processItem item) {b : ItemType}
    (hb : TransGen (DependsOn g.dependencies) item b) : s.evaluator.stateOf b = .completed := by
  have hok := h.phase
  unfold PhaseOk at hok
  rw [hphase] at hok
  have hflight := h.inFlight item
  rw [if_pos (show Submitting s.phase item from hphase)] at hflight
  have hrunning : s.evaluator.stateOf item = .running := by
    by_contra hne
    rw [if_neg hne] at hflight
    omega
  refine h.completed_of_started hg hok.1 ?_ hb
  rw [hrunning]
  exact Or.inr (Or.inl rfl)

theorem Invariant.submitted_nodup (h : Invariant g method s) : s.pool.submitted.Nodup := by
  rw [List.nodup_iff_count_le_one]
  intro a
  have hcount := h.submitted a
  split_ifs at hcount <;> omega

/-- The states of the items when `run` has returned. -/
theorem Invariant.returned (hg : ErrorFree g) (h : Invariant g method s) {result : Bool}
    (hphase : s.phase = .returned result) :
    (∀ a ∈ g.inOrder, (s.evaluator.stateOf a).Terminal) ∧
    (∀ a ∈ g.inOrder, s.evaluator.stateOf a = .depfailed ↔
      ∃ b, TransGen (DependsOn g.dependencies) a b ∧ s.evaluator.stateOf b = .failed) ∧
    (∀ a ∈ g.inOrder, s.evaluator.stateOf a ≠ .depfailed →
      (s.pool.processed.map Prod.snd).count a = 1 ∧
        s.evaluator.stateOf a = if method a then .completed else .failed) ∧
    (∀ a ∈ g.inOrder, s.evaluator.stateOf a = .depfailed →
      (s.pool.processed.map Prod.snd).count a = 0) ∧
    (result = true ↔ ∀ a ∈ g.inOrder, s.evaluator.stateOf a = .completed) := by
  have hok := h.phase
  unfold PhaseOk at hok
  rw [hphase] at hok
  obtain ⟨hterminal, hresult⟩ := hok
  have hsubmitting : ∀ a, ¬ Submitting s.phase a := by simp [Submitting, hphase]
  have hconsistent := h.sound.consistent hg h.counted
  have hdepfailed : ∀ a ∈ g.inOrder, s.evaluator.stateOf a = .depfailed ↔
      ∃ b, TransGen (DependsOn g.dependencies) a b ∧ s.evaluator.stateOf b = .failed :=
    hg.ordered.spreads_iff hconsistent.depfailed_iff
  -- Nothing is running, so everything that was submitted was processed.
  have hprocessed : ∀ a ∈ g.inOrder, (s.pool.processed.map Prod.snd).count a =
      if Handed (s.evaluator.stateOf a) then 1 else 0 := by
    intro a ha
    have hflight := h.inFlight a
    have hcount := h.submitted a
    have hnot : s.evaluator.stateOf a ≠ .running := by
      intro hrunning
      have hterm := hterminal a ha
      rw [hrunning] at hterm
      exact absurd hterm (by decide)
    rw [if_neg (hsubmitting a), if_neg hnot] at hflight
    rw [if_neg (hsubmitting a)] at hcount
    rw [h.conserved.processed_of_inFlight hflight]
    exact hcount
  refine ⟨hterminal, hdepfailed, fun a ha hne ↦ ?_, fun a ha hdep ↦ ?_, ?_⟩
  · have hfinished : s.evaluator.stateOf a = .completed ∨ s.evaluator.stateOf a = .failed := by
      rcases hterminal a ha with hstate | hstate | hstate
      · exact Or.inl hstate
      · exact Or.inr hstate
      · exact absurd hstate hne
    have hhanded : Handed (s.evaluator.stateOf a) := Or.inr hfinished
    refine ⟨?_, h.status a hfinished⟩
    rw [hprocessed a ha, if_pos hhanded]
  · rw [hprocessed a ha, hdep]
    rfl
  · rw [hresult, Bool.not_eq_true', Bool.eq_false_iff, Ne, h.anyErrors]
    constructor
    · intro hnone a ha
      rcases hterminal a ha with hstate | hstate | hstate
      · exact hstate
      · exact absurd ⟨a, hstate⟩ hnone
      · obtain ⟨b, -, hb⟩ := (hdepfailed a ha).mp hstate
        exact absurd ⟨b, hb⟩ hnone
    · rintro hall ⟨a, hfailed⟩
      by_cases ha : a ∈ g.inOrder
      · rw [hall a ha] at hfailed
        cases hfailed
      · rw [h.sound.ofGraph.stateOf_eq_waiting ha] at hfailed
        cases hfailed

theorem exists_not_mem_available {l : List (Fin n)} (hlen : l.length < n) : ∃ w, w ∉ l := by
  by_contra hall
  push Not at hall
  have hcard : (Finset.univ : Finset (Fin n)).card ≤ l.toFinset.card :=
    Finset.card_le_card fun w _ ↦ List.mem_toFinset.mpr (hall w)
  rw [Finset.card_univ, Fintype.card_fin] at hcard
  have hle := l.toFinset_card_le
  omega

/-- Until `run` returns, some actor has a step. -/
theorem Invariant.act_isSome (hg : ErrorFree g) (hn : 1 ≤ n) (h : Invariant g method s)
    (hphase : ∀ result, s.phase ≠ .returned result) :
    ∃ actor s', s.act method false actor = some s' := by
  obtain ⟨next, hnext, hsome, -⟩ := nextReadyItem_spec hg h.sound.ofGraph
  have hcontroller : (s.controllerStep false).isSome →
      ∃ actor s', s.act method false actor = some s' := by
    intro hstep
    obtain ⟨s', hs'⟩ := Option.isSome_iff_exists.mp hstep
    exact ⟨.controller, s', hs'⟩
  have hworker : ∀ w, (s.pool.workerStep method w).isSome →
      ∃ actor s', s.act method false actor = some s' := by
    intro w hw
    obtain ⟨pool, hpool⟩ := Option.isSome_iff_exists.mp hw
    exact ⟨.worker w, { s with pool }, Option.bind_eq_some_iff.mpr ⟨pool, hpool, rfl⟩⟩
  cases hp : s.phase with
  | top => exact hcontroller (by simp [controllerStep, hp, hnext])
  | wait =>
    by_cases hreturns : s.pool.waitReturns = true
    · exact hcontroller (by simp [controllerStep, hp, hreturns])
    · have hnil : s.pool.availableWorkers = [] := by
        unfold WorkerPool.waitReturns at hreturns
        simp only [Bool.or_eq_true, not_or] at hreturns
        simpa using hreturns.2
      exact hworker ⟨0, hn⟩ (h.wf.workerStep_isSome method (by simp [hnil]))
  | waitForResults =>
    by_cases hreturns : s.pool.waitForResultsReturns = true
    · exact hcontroller (by simp [controllerStep, hp, hreturns])
    · have hlen : s.pool.availableWorkers.length < n := by
        by_contra hlen
        exact hreturns (by simp [WorkerPool.waitForResultsReturns, hlen])
      obtain ⟨w, hw⟩ := exists_not_mem_available hlen
      exact hworker w (h.wf.workerStep_isSome method hw)
  | readTest => exact hcontroller (by simp [controllerStep, hp])
  | getResults =>
    obtain ⟨s', hs', -⟩ := h.getResults hg hp
    exact ⟨.controller, s', hs'⟩
  | submitTest => exact hcontroller (by simp [controllerStep, hp])
  | submitWorkers =>
    by_cases hworkers : s.pool.numAvailableWorkers ≠ 0
    · cases next with
      | none => exact hcontroller (by simp [controllerStep, hp, hworkers, hnext])
      | some item =>
        obtain ⟨hitem, hready⟩ := hsome item rfl
        have hset : s.evaluator.setRunning item = some (s.evaluator.markRunning item) :=
          (setRunning_eq_some h.sound.ofGraph).mpr ⟨hitem, hready, rfl⟩
        exact hcontroller (by simp [controllerStep, hp, hworkers, hnext, hset])
    · exact hcontroller (by simp [controllerStep, hp, not_not.mp hworkers])
  | processItem item =>
    obtain ⟨pool, hpool, -⟩ := h.processItem hp
    exact hcontroller (by simp [controllerStep, hp, hpool])
  | idleTest =>
    by_cases hidle : s.pool.idle = true
    · exact hcontroller (by simp [controllerStep, hp, hidle, h.not_stop, hnext])
    · exact hcontroller (by simp [controllerStep, hp, hidle])
  | requestShutdown => exact hcontroller (by simp [controllerStep, hp])
  | join i =>
    by_cases hi : i < n
    · by_cases hexited : s.pool.workers ⟨i, hi⟩ = .exited
      · exact hcontroller (by simp [controllerStep, hp, hi, hexited])
      · have hshutdown : s.pool.shutdownRequested = true := by
          rw [h.shutdown, hp]
          trivial
        exact hworker ⟨i, hi⟩ (h.wf.exit_isSome method hshutdown hexited)
    · exact hcontroller (by simp [controllerStep, hp, hi])
  | returned result => exact absurd hp (hphase result)

end Reached

/-- What holds in every state that a schedule of the runner reaches: an item is
submitted when all it depends on has completed, and only once; the run does not
get stuck; and when it has returned every item is in a terminal state, the one
that its dependencies and its own processing gave it. -/
theorem run_correct {g : DependencyGraph} (hg : ErrorFree g) (hn : 1 ≤ n)
    (method : ItemType → Bool) :
    ∃ s₀, start n g false = some s₀ ∧ ∀ schedule s,
      s₀.runSchedule method false schedule = some s →
      (∀ actor s' item, s.act method false actor = some s' →
        s'.pool.submitted = s.pool.submitted ++ [item] →
        ∀ b, TransGen (DependsOn g.dependencies) item b → s.evaluator.stateOf b = .completed) ∧
      s.pool.submitted.Nodup ∧
      ((∀ result, s.phase ≠ .returned result) →
        ∃ actor s', s.act method false actor = some s') ∧
      ∀ result, s.phase = .returned result →
        (∀ a ∈ g.inOrder, (s.evaluator.stateOf a).Terminal) ∧
        (∀ a ∈ g.inOrder, s.evaluator.stateOf a = .depfailed ↔
          ∃ b, TransGen (DependsOn g.dependencies) a b ∧ s.evaluator.stateOf b = .failed) ∧
        (∀ a ∈ g.inOrder, s.evaluator.stateOf a ≠ .depfailed →
          (s.pool.processed.map Prod.snd).count a = 1 ∧
            s.evaluator.stateOf a = if method a then .completed else .failed) ∧
        (∀ a ∈ g.inOrder, s.evaluator.stateOf a = .depfailed →
          (s.pool.processed.map Prod.snd).count a = 0) ∧
        (result = true ↔ ∀ a ∈ g.inOrder, s.evaluator.stateOf a = .completed) := by
  obtain ⟨s₀, hstart, hinvariant⟩ := start_spec hg hn method
  refine ⟨s₀, hstart, fun schedule s hs ↦ ?_⟩
  have h := runSchedule_invariant hg schedule hinvariant hs
  refine ⟨fun actor s' item hact hsubmitted b hb ↦ ?_, h.submitted_nodup, h.act_isSome hg hn,
    fun result hphase ↦ h.returned hg hphase⟩
  rcases submitted_of_act hact with hsame | ⟨item', hphase, hnew⟩
  · rw [hsame] at hsubmitted
    exact absurd (congrArg List.length hsubmitted) (by simp)
  · rw [hnew] at hsubmitted
    obtain rfl : item' = item := by simpa using hsubmitted
    exact h.completed_of_submitting hg hphase hb

theorem run_correct_chain :
    ∃ g s₀, (build [.addItem "b", .addItem "a", .addDependency "b" "a"]).bind check =
        some (true, g) ∧ start 2 g false = some s₀ ∧
      ∀ schedule s, s₀.runSchedule (fun _ ↦ true) false schedule = some s →
        s.pool.submitted.Nodup ∧ ∀ result, s.phase = .returned result →
          ∀ a ∈ g.inOrder, (s.evaluator.stateOf a).Terminal := by
  obtain ⟨⟨result, g⟩, hg⟩ := Option.isSome_iff_exists.mp
    (show ((build [.addItem "b", .addItem "a", .addDependency "b" "a"]).bind check).isSome by
      decide)
  have hresult : ((build [.addItem "b", .addItem "a", .addDependency "b" "a"]).bind check).map
      Prod.fst = some true := by decide
  rw [hg] at hresult
  obtain rfl : result = true := by simpa using hresult
  obtain ⟨s₀, hstart, hrun⟩ := run_correct (errorFree_of_build hg) (by decide : 1 ≤ 2) fun _ ↦ true
  refine ⟨g, s₀, hg, hstart, fun schedule s hs ↦ ?_⟩
  obtain ⟨-, hnodup, -, hreturned⟩ := hrun schedule s hs
  exact ⟨hnodup, fun result hphase ↦ (hreturned result hphase).1⟩

end Abuild.DependencyRunner
