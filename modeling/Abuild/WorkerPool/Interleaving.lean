import Abuild.WorkerPool.Invariant
import Abuild.Library.Fallible

/-!
Runs of the worker pool: the steps of its workers and the calls of one controlling thread, in
any order in which each has its step. The pool is shut down in none of them. `run_spec` says what
holds after every run, and that a pool whose workers are left to themselves comes to rest with
every item processed.
-/

set_option autoImplicit false
set_option relaxedAutoImplicit false

namespace Abuild.WorkerPool

variable {n : ℕ} {Item Status : Type}

/-- A call of the controlling thread. -/
inductive Call (Item : Type)
  | wait
  | waitForResults
  | getResults
  | processItem (item : Item)
deriving DecidableEq, Repr

/-- A call that has to wait has no step. -/
def call (p : WorkerPool n Item Status) : Call Item → Option (WorkerPool n Item Status)
  | .wait => if p.waitReturns then some p else none
  | .waitForResults => if p.waitForResultsReturns then some p else none
  | .getResults => p.getResults.map Prod.snd
  | .processItem item => p.processItem item

inductive Action (n : ℕ) (Item : Type)
  | controller (call : Call Item)
  | worker (workerId : Fin n)
deriving DecidableEq, Repr

def act (method : Item → Status) (p : WorkerPool n Item Status) :
    Action n Item → Option (WorkerPool n Item Status)
  | .controller call => p.call call
  | .worker workerId => p.workerStep method workerId

/-- The items that are given to `processItem`. -/
def given (actions : List (Action n Item)) : List Item :=
  actions.filterMap fun
    | .controller (.processItem item) => some item
    | _ => none

/-- A pool that has not been asked to shut down, after some actions. -/
structure Running [DecidableEq Item] (method : Item → Status) (actions : List (Action n Item))
    (p : WorkerPool n Item Status) : Prop where
  wf : Wf p
  conserved : Conserved method p
  shutdown : p.shutdownRequested = false
  submitted : p.submitted = given actions

/-! ### One action -/

section Frame

variable {method : Item → Status} {p p' : WorkerPool n Item Status}

theorem getResults_frame {r : Item × Status} (h : p.getResults = some (r, p')) :
    p'.shutdownRequested = p.shutdownRequested ∧ p'.submitted = p.submitted := by
  unfold getResults at h
  split at h
  · cases h
  · cases h
    exact ⟨rfl, rfl⟩

theorem processItem_frame {item : Item} (h : p.processItem item = some p') :
    p'.shutdownRequested = p.shutdownRequested ∧ p'.submitted = p.submitted ++ [item] := by
  unfold processItem at h
  split at h
  · cases h
  · cases h
    exact ⟨rfl, rfl⟩

theorem workerStep_frame {w : Fin n} (h : p.workerStep method w = some p') :
    p'.shutdownRequested = p.shutdownRequested ∧ p'.submitted = p.submitted := by
  rcases workerStep_cases h with ⟨-, rfl⟩ | ⟨_, _, -, -, rfl⟩ | ⟨_, -, -, rfl⟩ | ⟨_, -, rfl⟩ <;>
    exact ⟨rfl, rfl⟩

theorem given_append (actions : List (Action n Item)) (action : Action n Item) :
    given (actions ++ [action]) = given actions ++ given [action] :=
  List.filterMap_append

theorem given_append_workers (actions : List (Action n Item)) (ws : List (Fin n)) :
    given (actions ++ ws.map .worker) = given actions := by
  have hnone : given (ws.map .worker : List (Action n Item)) = [] := by
    unfold given
    rw [List.filterMap_map, List.filterMap_eq_nil_iff]
    exact fun _ _ ↦ rfl
  unfold given at hnone ⊢
  rw [List.filterMap_append, hnone, List.append_nil]

end Frame

section Actions

variable [DecidableEq Item] {method : Item → Status} {actions : List (Action n Item)}
  {p p' : WorkerPool n Item Status}

theorem Running.workerStep (h : Running method actions p) {w : Fin n}
    (hp : p.workerStep method w = some p') : Running method (actions ++ [.worker w]) p' := by
  obtain ⟨hshutdown, hsubmitted⟩ := workerStep_frame hp
  refine ⟨h.wf.workerStep hp, h.conserved.workerStep hp, hshutdown.trans h.shutdown, ?_⟩
  rw [hsubmitted, given_append, h.submitted]
  exact (List.append_nil _).symm

theorem Running.act (h : Running method actions p) {action : Action n Item}
    (hp : p.act method action = some p') : Running method (actions ++ [action]) p' := by
  cases action with
  | worker w => exact h.workerStep hp
  | controller call =>
    have hnone : given [Action.controller (n := n) call] = [] →
        given (actions ++ [.controller call]) = given actions := by
      intro hnone
      rw [given_append, hnone, List.append_nil]
    cases call with
    | wait =>
      obtain ⟨-, heq⟩ := Option.ite_none_right_eq_some.mp hp
      obtain rfl := Option.some_inj.mp heq
      exact ⟨h.wf, h.conserved, h.shutdown, h.submitted.trans (hnone rfl).symm⟩
    | waitForResults =>
      obtain ⟨-, heq⟩ := Option.ite_none_right_eq_some.mp hp
      obtain rfl := Option.some_inj.mp heq
      exact ⟨h.wf, h.conserved, h.shutdown, h.submitted.trans (hnone rfl).symm⟩
    | getResults =>
      obtain ⟨⟨r, p'⟩, hget, rfl⟩ := Option.map_eq_some_iff.mp hp
      obtain ⟨hshutdown, hsubmitted⟩ := getResults_frame hget
      refine ⟨h.wf.getResults hget, (h.conserved.getResults hget).1, hshutdown.trans h.shutdown, ?_⟩
      exact hsubmitted.trans (h.submitted.trans (hnone rfl).symm)
    | processItem item =>
      have hprocess : p.processItem item = some p' := hp
      obtain ⟨hshutdown, hsubmitted⟩ := processItem_frame hprocess
      refine ⟨h.wf.processItem h.shutdown hprocess, h.conserved.processItem hprocess,
        hshutdown.trans h.shutdown, ?_⟩
      rw [hsubmitted, given_append, h.submitted]
      rfl

theorem running_of_run {p₀ : WorkerPool n Item Status} (hnew : new n Item Status = some p₀)
    (hrun : actions.foldlM (WorkerPool.act method) p₀ = some p) : Running method actions p := by
  induction actions using List.reverseRecOn generalizing p with
  | nil =>
    obtain rfl := Option.some_inj.mp hrun
    refine ⟨wf_new hnew, conserved_new hnew, ?_, ?_⟩ <;>
    · unfold new at hnew
      split_ifs at hnew
      cases hnew
      rfl
  | append_singleton actions action ih =>
    rw [List.foldlM_append] at hrun
    obtain ⟨p₁, hp₁, hlast⟩ := Option.bind_eq_some_iff.mp hrun
    exact (ih hp₁).act (by simpa using hlast)

end Actions

/-! ### Available workers -/

/-- A worker that has not announced itself, or that holds an item. -/
def Occupied (p : WorkerPool n Item Status) (w : Fin n) : Prop :=
  p.workers w = .starting ∨ p.held w ≠ []

instance [DecidableEq Item] (p : WorkerPool n Item Status) : DecidablePred p.Occupied :=
  fun w ↦ inferInstanceAs (Decidable (p.workers w = .starting ∨ p.held w ≠ []))

section Available

variable {p : WorkerPool n Item Status}

theorem Wf.occupied_iff (h : Wf p) (hshutdown : p.shutdownRequested = false) (w : Fin n) :
    p.Occupied w ↔ w ∉ p.availableWorkers := by
  have hfits := h.fits w
  unfold Occupied held
  rw [hshutdown] at hfits
  generalize p.workers w = phase at hfits ⊢
  generalize p.queues w = queue at hfits ⊢
  cases hfits with
  | starting hnot => exact iff_of_true (Or.inl rfl) hnot
  | idle havailable =>
    refine iff_of_false ?_ (not_not.mpr havailable)
    rintro (hstarting | hheld)
    · cases hstarting
    · exact hheld rfl
  | given item hnot => exact iff_of_true (Or.inr (List.cons_ne_nil _ _)) hnot
  | processing item hnot => exact iff_of_true (Or.inr (List.cons_ne_nil _ _)) hnot
  | exited _ hrequested => cases hrequested

/-- Every worker is available or occupied, and none is both. -/
theorem Wf.length_add_card [DecidableEq Item] (h : Wf p)
    (hshutdown : p.shutdownRequested = false) :
    p.availableWorkers.length + (Finset.univ.filter p.Occupied).card = n := by
  have hoccupied : Finset.univ.filter p.Occupied = p.availableWorkers.toFinsetᶜ := by
    ext w
    rw [Finset.mem_filter, Finset.mem_compl, List.mem_toFinset, h.occupied_iff hshutdown]
    exact and_iff_right (Finset.mem_univ w)
  rw [hoccupied, ← List.toFinset_card_of_nodup h.nodup, Finset.card_add_card_compl,
    Fintype.card_fin]

end Available

/-! ### Workers left to themselves -/

/-- The steps that a thread takes before it waits for its next item. -/
def phaseSteps : WorkerPhase Item → ℕ
  | .starting => 1
  | .waiting => 0
  | .processing _ => 1
  | .exited => 0

/-- The steps that the workers can take without the controlling thread. -/
def stepsLeft (p : WorkerPool n Item Status) : ℕ :=
  ∑ w, phaseSteps (p.workers w) + ∑ w, 2 * (queuedItems (p.queues w)).length

section Left

variable [DecidableEq Item] {method : Item → Status} {actions : List (Action n Item)}
  {p p' : WorkerPool n Item Status}

/-- Each step of a worker is one of those that were left. -/
theorem Running.stepsLeft_workerStep (h : Running method actions p) {w : Fin n}
    (hp : p.workerStep method w = some p') : p'.stepsLeft + 1 = p.stepsLeft := by
  have hphase := sum_update phaseSteps p.workers w
  have hqueue := sum_update (fun queue ↦ 2 * (queuedItems queue).length) p.queues w
  have hfits := h.wf.fits w
  rw [h.shutdown] at hfits
  unfold stepsLeft
  rcases workerStep_cases hp with ⟨hworker, rfl⟩ | ⟨item, queue, hworker, hitem, rfl⟩ |
    ⟨queue, hworker, hitem, rfl⟩ | ⟨item, hworker, rfl⟩
  · have hnew := hphase .waiting
    rw [hworker] at hnew
    dsimp only [register, phaseSteps] at hnew ⊢
    omega
  · have hnew := hphase (.processing item)
    have hrest := hqueue queue
    have hcons : queuedItems (some item :: queue) = item :: queuedItems queue := rfl
    rw [hworker] at hnew
    rw [hitem, hcons, List.length_cons] at hrest
    dsimp only [WorkerPool.begin, phaseSteps] at hnew ⊢
    omega
  · -- No worker is asked to exit.
    rw [hworker, hitem] at hfits
    cases hfits
  · have hnew := hphase .waiting
    rw [hworker] at hnew
    dsimp only [finish, phaseSteps] at hnew ⊢
    omega

theorem Running.foldlM_workerStep (h : Running method actions p) {ws : List (Fin n)}
    (hp : ws.foldlM (WorkerPool.workerStep method) p = some p') :
    Running method (actions ++ ws.map .worker) p' ∧ p'.stepsLeft + ws.length = p.stepsLeft := by
  induction ws generalizing p actions with
  | nil =>
    obtain rfl := Option.some_inj.mp hp
    exact ⟨(List.append_nil actions).symm ▸ h, rfl⟩
  | cons w ws ih =>
    rw [Fallible.foldlM_cons] at hp
    obtain ⟨p₁, hp₁, hrest⟩ := Option.bind_eq_some_iff.mp hp
    obtain ⟨hrunning, hsteps⟩ := ih (h.workerStep hp₁) hrest
    have hone := h.stepsLeft_workerStep hp₁
    rw [List.append_assoc] at hrunning
    refine ⟨hrunning, ?_⟩
    rw [List.length_cons]
    omega

/-- Where no worker has a step, nothing is left to process. -/
theorem Running.processed_of_settled (h : Running method actions p)
    (hsettled : ∀ w, p.workerStep method w = none) :
    (p.processed.map Prod.snd).Perm (given actions) ∧
      ((p.results ++ p.read).map Prod.fst).Perm (given actions) := by
  have hheld : ∀ w, p.held w = [] := by
    intro w
    refine (h.wf.fits w).held_eq_nil ?_
    by_contra hnot
    have hsome := h.wf.workerStep_isSome method hnot
    rw [hsettled w] at hsome
    cases hsome
  have hqueued : ∀ a, p.numQueued a = 0 := fun a ↦ Finset.sum_eq_zero fun w _ ↦ by
    rw [(List.append_eq_nil_iff.mp (hheld w)).1]
    rfl
  have hprocessing : ∀ a, p.numProcessing a = 0 := fun a ↦ Finset.sum_eq_zero fun w _ ↦ by
    rw [(List.append_eq_nil_iff.mp (hheld w)).2]
    rfl
  have hprocessed : (p.processed.map Prod.snd).Perm (given actions) := by
    rw [List.perm_iff_count]
    intro a
    have hsubmitted := h.conserved.submitted a
    rw [hqueued, h.submitted] at hsubmitted
    omega
  refine ⟨hprocessed, List.Perm.trans ?_ hprocessed⟩
  rw [List.perm_iff_count]
  intro a
  have hresults := h.conserved.processed a
  rw [hprocessing] at hresults
  rw [List.map_append, List.count_append]
  omega

/-- An idle pool has had all its results read. -/
theorem Running.read_of_idle (h : Running method actions p) (hidle : p.idle = true) :
    (p.read.map Prod.fst).Perm (given actions) := by
  rw [List.perm_iff_count]
  intro a
  have hflight := h.conserved.inFlight a
  rw [h.wf.inFlight_eq_zero hidle, h.submitted] at hflight
  omega

/-- After every run, each item that was given has been taken from one queue at most and has one
result at most, with its status; left to themselves the workers come to rest, and each then has
been processed and has its result. -/
theorem run_spec {p₀ : WorkerPool n Item Status} (hnew : new n Item Status = some p₀)
    (hrun : actions.foldlM (act method) p₀ = some p) :
    (∀ a, (given actions).count a = p.numQueued a + (p.processed.map Prod.snd).count a ∧
      (p.processed.map Prod.snd).count a =
        p.numProcessing a + ((p.results ++ p.read).map Prod.fst).count a) ∧
    (∀ r ∈ p.results ++ p.read, r.2 = method r.1) ∧
    (∀ (ws : List (Fin n)) (p' : WorkerPool n Item Status),
      ws.foldlM (WorkerPool.workerStep method) p = some p' →
      ws.length ≤ p.stepsLeft ∧ ((∀ w, p'.workerStep method w = none) →
        (p'.processed.map Prod.snd).Perm (given actions) ∧
          ((p'.results ++ p'.read).map Prod.fst).Perm (given actions))) ∧
    p.availableWorkers.Nodup ∧ (∀ w ∈ p.availableWorkers, p.held w = []) ∧
    p.availableWorkers.length + (Finset.univ.filter p.Occupied).card = n ∧
    (p.idle = true → (p.read.map Prod.fst).Perm (given actions)) := by
  have h := running_of_run hnew hrun
  refine ⟨fun a ↦ ⟨?_, ?_⟩, fun r hr ↦ h.conserved.status r (List.mem_append.mp hr), ?_,
    h.wf.nodup, fun w hw ↦ (h.wf.fits w).held_eq_nil hw, h.wf.length_add_card h.shutdown,
    h.read_of_idle⟩
  · rw [← h.submitted]
    exact h.conserved.submitted a
  · rw [h.conserved.processed a, List.map_append, List.count_append, add_assoc]
  · intro ws p' hws
    obtain ⟨hrunning, hsteps⟩ := h.foldlM_workerStep hws
    refine ⟨by omega, fun hsettled ↦ ?_⟩
    have hperm := hrunning.processed_of_settled hsettled
    rwa [given_append_workers] at hperm

end Left

/-- The theorem, where one of two workers processes an item before the other has started. -/
theorem run_spec_started : ∃ p : WorkerPool 2 ℕ Bool,
    (new 2 ℕ Bool).bind (fun p₀ ↦ [Action.worker 0, .controller (.processItem 5), .worker 0,
      .worker 0, .controller .getResults, .worker 1].foldlM (act Nat.bodd) p₀) = some p ∧
    (p.read.map Prod.fst).Perm [5] := by
  have hsome : (((new 2 ℕ Bool).bind fun p₀ ↦ [Action.worker 0, .controller (.processItem 5),
      .worker 0, .worker 0, .controller .getResults, .worker 1].foldlM (act Nat.bodd) p₀).map
        idle) = some true := by decide
  obtain ⟨p, hp, hidle⟩ := Option.map_eq_some_iff.mp hsome
  obtain ⟨p₀, hnew, hrun⟩ := Option.bind_eq_some_iff.mp hp
  exact ⟨p, hp, (run_spec hnew hrun).2.2.2.2.2.2 hidle⟩

end Abuild.WorkerPool
