import Abuild.BuildRun.Serial
import Abuild.DependencyEvaluator.Changes
import Abuild.DependencyRunner.Stop

/-!
Where an item is while the runner runs: it is submitted once at most, and from then on it is in a
queue, with a worker, among the results, or its result has been read. What a step of the thread that
runs `run` does not touch.
-/

set_option autoImplicit false
set_option relaxedAutoImplicit false

namespace Abuild.DependencyRunner

open DependencyGraph DependencyEvaluator

variable {n : ℕ} {g : DependencyGraph} {method : ItemType → Bool} {s s' : DependencyRunner n}

section Places

variable (h : Runs g method s)
include h

/-- An item that has been submitted is at one place. -/
theorem Runs.places (a : ItemType) :
    s.pool.numQueued a + s.pool.numProcessing a + (s.pool.results.map Prod.fst).count a +
        (s.pool.read.map Prod.fst).count a + (if Submitting s.phase a then 1 else 0) =
      if Handed (s.evaluator.stateOf a) then 1 else 0 := by
  have hsubmitted := h.submitted a
  have hcount := h.conserved.submitted a
  have hprocessed := h.conserved.processed a
  omega

theorem Runs.handed_of_places {a : ItemType}
    (ha : 0 < s.pool.numQueued a + s.pool.numProcessing a + (s.pool.results.map Prod.fst).count a +
      (s.pool.read.map Prod.fst).count a) : Handed (s.evaluator.stateOf a) := by
  by_contra hnot
  have hplaces := h.places a
  rw [if_neg hnot] at hplaces
  omega

theorem Runs.places_le (a : ItemType) :
    s.pool.numQueued a + s.pool.numProcessing a + (s.pool.results.map Prod.fst).count a +
      (s.pool.read.map Prod.fst).count a ≤ 1 := by
  have hplaces := h.places a
  split_ifs at hplaces <;> omega

/-- An item that has been submitted is running until its result has been read. -/
theorem Runs.running_of_places {a : ItemType}
    (ha : 0 < s.pool.numQueued a + s.pool.numProcessing a +
      (s.pool.results.map Prod.fst).count a) : s.evaluator.stateOf a = .running := by
  have hcount := h.conserved.submitted a
  have hprocessed := h.conserved.processed a
  have htotal := h.conserved.inFlight a
  refine h.running_of_inFlight ?_
  omega

/-- The result of a completed or failed item has been read. -/
theorem Runs.exists_read {a : ItemType}
    (ha : s.evaluator.stateOf a = .completed ∨ s.evaluator.stateOf a = .failed) :
    ∃ x ∈ s.pool.read, x.1 = a ∧ x.2 = method a := by
  have hplaces := h.places a
  have hflight := h.inFlight a
  rw [if_pos (show Handed (s.evaluator.stateOf a) from Or.inr ha)] at hplaces
  have hne : s.evaluator.stateOf a ≠ .running := by
    rcases ha with ha | ha <;> rw [ha] <;> decide
  rw [if_neg hne] at hflight
  have hcount := h.conserved.submitted a
  have hprocessed := h.conserved.processed a
  have htotal := h.conserved.inFlight a
  have hread : 0 < (s.pool.read.map Prod.fst).count a := by omega
  obtain ⟨x, hx, rfl⟩ := List.mem_map.mp (List.count_pos_iff.mp hread)
  exact ⟨x, hx, rfl, h.conserved.status x (Or.inr hx)⟩

end Places

theorem numQueued_pos {p : WorkerPool n ItemType Bool} {w : Fin n} {item : ItemType}
    {queue : List (Option ItemType)} (h : p.queues w = some item :: queue) :
    0 < p.numQueued item := by
  refine lt_of_lt_of_le ?_ (Finset.single_le_sum
    (f := fun v ↦ (WorkerPool.queuedItems (p.queues v)).count item) (fun _ _ ↦ Nat.zero_le _)
    (Finset.mem_univ w))
  rw [h, List.count_pos_iff]
  exact List.mem_filterMap.mpr ⟨some item, List.mem_cons_self, rfl⟩

theorem numProcessing_pos {p : WorkerPool n ItemType Bool} {w : Fin n} {item : ItemType}
    (h : p.workers w = .processing item) : 0 < p.numProcessing item := by
  refine lt_of_lt_of_le ?_ (Finset.single_le_sum
    (f := fun v ↦ (WorkerPool.processingItems (p.workers v)).count item) (fun _ _ ↦ Nat.zero_le _)
    (Finset.mem_univ w))
  rw [h]
  exact List.count_pos_iff.mpr List.mem_cons_self

theorem Runs.running_of_processing (h : Runs g method s) {w : Fin n} {item : ItemType}
    (hw : s.pool.workers w = .processing item) : s.evaluator.stateOf item = .running := by
  have hpos := numProcessing_pos hw
  refine h.running_of_places ?_
  omega

theorem exists_processing {p : WorkerPool n ItemType Bool} {item : ItemType}
    (h : 0 < p.numProcessing item) : ∃ w, p.workers w = .processing item := by
  obtain ⟨w, -, hw⟩ := Finset.exists_ne_zero_of_sum_ne_zero h.ne'
  refine ⟨w, ?_⟩
  cases hworker : p.workers w with
  | processing other =>
    rw [hworker] at hw
    have hmem := List.count_pos_iff.mp (Nat.pos_of_ne_zero hw)
    rw [List.mem_singleton.mp hmem]
  | _ =>
    rw [hworker] at hw
    exact absurd List.count_nil hw

/-- An item is with one worker only. -/
theorem Runs.eq_of_processing (h : Runs g method s) {v w : Fin n} {item : ItemType}
    (hv : s.pool.workers v = .processing item) (hw : s.pool.workers w = .processing item) :
    v = w := by
  by_contra hne
  have hpair := Finset.sum_le_sum_of_subset
    (f := fun v ↦ (WorkerPool.processingItems (s.pool.workers v)).count item)
    (Finset.subset_univ ({v, w} : Finset (Fin n)))
  rw [Finset.sum_pair hne, hv, hw] at hpair
  have hone : (WorkerPool.processingItems (WorkerPhase.processing item)).count item = 1 :=
    List.count_singleton_self
  rw [hone] at hpair
  have hle := h.places_le item
  unfold WorkerPool.numProcessing at hle
  omega

/-- What has been processed is with a worker, or has a result. -/
theorem Runs.processed_iff (h : Runs g method s) (a : ItemType) :
    a ∈ s.pool.processed.map Prod.snd ↔ 0 < s.pool.numProcessing a ∨
      ∃ x, (x ∈ s.pool.results ∨ x ∈ s.pool.read) ∧ x.1 = a := by
  have hprocessed := h.conserved.processed a
  have hmem : ∀ l : List (ItemType × Bool), 0 < (l.map Prod.fst).count a ↔ ∃ x ∈ l, x.1 = a :=
    fun l ↦ List.count_pos_iff.trans List.mem_map
  rw [← List.count_pos_iff, hprocessed, Nat.add_assoc, Nat.add_pos_iff_pos_or_pos,
    Nat.add_pos_iff_pos_or_pos, hmem, hmem]
  refine or_congr_right ?_
  simp only [or_and_right, exists_or]

theorem Runs.handed_of_processed (h : Runs g method s) {a : ItemType}
    (ha : a ∈ s.pool.processed.map Prod.snd) : Handed (s.evaluator.stateOf a) := by
  have hpos := List.count_pos_iff.mpr ha
  have hprocessed := h.conserved.processed a
  refine h.handed_of_places ?_
  omega

/-- What a step of the thread that runs `run` leaves as it is, or only adds to. -/
structure Keeps (stopOnFirstError : Bool) (s s' : DependencyRunner n) : Prop where
  workers : s'.pool.workers = s.pool.workers
  processed : s'.pool.processed = s.pool.processed
  finished : ∀ x, (x ∈ s'.pool.results ∨ x ∈ s'.pool.read) ↔ x ∈ s.pool.results ∨ x ∈ s.pool.read
  submitted : ∀ a ∈ s'.pool.submitted, a ∈ s.pool.submitted ∨ Submitting s.phase a
  changes : Changes s.evaluator s'.evaluator
  joining : Joining s'.phase → s'.evaluator = s.evaluator
  stop : s'.stop = true → s.stop = true ∨ stopOnFirstError = true

theorem keeps_of_pool_eq {stopOnFirstError : Bool} {s s' : DependencyRunner n}
    (hpool : s'.pool = s.pool) (hchanges : Changes s.evaluator s'.evaluator)
    (hjoining : Joining s'.phase → s'.evaluator = s.evaluator) (hstop : s'.stop = s.stop) :
    Keeps stopOnFirstError s s' where
  workers := by rw [hpool]
  processed := by rw [hpool]
  finished x := by rw [hpool]
  submitted a ha := Or.inl (hpool ▸ ha)
  changes := hchanges
  joining := hjoining
  stop := fun h ↦ Or.inl (hstop.symm.trans h)

theorem keeps_of_controllerStep {stopOnFirstError : Bool}
    (hs : s.controllerStep stopOnFirstError = some s') : Keeps stopOnFirstError s s' := by
  unfold controllerStep at hs
  cases hphase : s.phase with
  | top =>
    rw [hphase] at hs
    obtain ⟨next, -, hsome⟩ := Option.bind_eq_some_iff.mp hs
    obtain rfl := Option.some_inj.mp hsome
    exact keeps_of_pool_eq rfl .refl (fun _ ↦ rfl) rfl
  | wait =>
    rw [hphase] at hs
    obtain ⟨-, hsome⟩ := Option.ite_none_right_eq_some.mp hs
    obtain rfl := Option.some_inj.mp hsome
    exact keeps_of_pool_eq rfl .refl (fun _ ↦ rfl) rfl
  | waitForResults =>
    rw [hphase] at hs
    obtain ⟨-, hsome⟩ := Option.ite_none_right_eq_some.mp hs
    obtain rfl := Option.some_inj.mp hsome
    exact keeps_of_pool_eq rfl .refl (fun _ ↦ rfl) rfl
  | readTest =>
    rw [hphase] at hs
    obtain rfl := Option.some_inj.mp hs
    exact keeps_of_pool_eq rfl .refl (fun _ ↦ rfl) rfl
  | getResults =>
    rw [hphase] at hs
    obtain ⟨x, hget, hrest⟩ := Option.bind_eq_some_iff.mp hs
    have hpool : x.2.workers = s.pool.workers ∧ x.2.processed = s.pool.processed ∧
        x.2.submitted = s.pool.submitted ∧
          ∀ y, (y ∈ x.2.results ∨ y ∈ x.2.read) ↔ y ∈ s.pool.results ∨ y ∈ s.pool.read := by
      unfold WorkerPool.getResults at hget
      cases hresults : s.pool.results with
      | nil =>
        rw [hresults] at hget
        cases hget
      | cons r results =>
        rw [hresults] at hget
        obtain rfl := Option.some_inj.mp hget
        refine ⟨rfl, rfl, rfl, fun y ↦ ?_⟩
        rw [List.mem_append, List.mem_singleton, List.mem_cons]
        tauto
    obtain ⟨hworkers, hprocessed, hsame, hfinished⟩ := hpool
    have hsubmitted : ∀ a ∈ x.2.submitted, a ∈ s.pool.submitted ∨ Submitting s.phase a :=
      fun a ha ↦ Or.inl (hsame ▸ ha)
    dsimp only at hrest
    by_cases hstatus : x.1.2 = true
    · rw [if_pos hstatus] at hrest
      obtain ⟨evaluator, hset, hsome⟩ := Option.bind_eq_some_iff.mp hrest
      obtain rfl := Option.some_inj.mp hsome
      exact ⟨hworkers, hprocessed, hfinished, hsubmitted, setFinished_changes (Or.inl rfl) hset,
        fun hjoining ↦ hjoining.elim, Or.inl⟩
    · rw [if_neg hstatus] at hrest
      obtain ⟨evaluator, hset, hsome⟩ := Option.bind_eq_some_iff.mp hrest
      obtain rfl := Option.some_inj.mp hsome
      refine ⟨hworkers, hprocessed, hfinished, hsubmitted, setFinished_changes (Or.inr rfl) hset,
        fun hjoining ↦ hjoining.elim, fun hstop ↦ ?_⟩
      dsimp only at hstop
      split_ifs at hstop with hfirst
      · exact Or.inr hfirst
      · exact Or.inl hstop
  | submitTest =>
    rw [hphase] at hs
    obtain rfl := Option.some_inj.mp hs
    exact keeps_of_pool_eq rfl .refl (fun _ ↦ rfl) rfl
  | submitWorkers =>
    rw [hphase] at hs
    dsimp only at hs
    split_ifs at hs with hworkers
    · obtain ⟨next, -, hrest⟩ := Option.bind_eq_some_iff.mp hs
      cases next with
      | none =>
        obtain rfl := Option.some_inj.mp hrest
        exact keeps_of_pool_eq rfl .refl (fun _ ↦ rfl) rfl
      | some item =>
        obtain ⟨evaluator, hset, hsome⟩ := Option.bind_eq_some_iff.mp hrest
        obtain rfl := Option.some_inj.mp hsome
        exact keeps_of_pool_eq rfl (setRunning_changes hset) (fun hjoining ↦ hjoining.elim) rfl
    · obtain rfl := Option.some_inj.mp hs
      exact keeps_of_pool_eq rfl .refl (fun _ ↦ rfl) rfl
  | processItem item =>
    rw [hphase] at hs
    obtain ⟨pool, hpool, hsome⟩ := Option.bind_eq_some_iff.mp hs
    obtain rfl := Option.some_inj.mp hsome
    unfold WorkerPool.processItem at hpool
    split at hpool
    · cases hpool
    · obtain rfl := Option.some_inj.mp hpool
      refine ⟨rfl, rfl, fun _ ↦ Iff.rfl, fun a ha ↦ ?_, .refl, fun _ ↦ rfl, Or.inl⟩
      refine (List.mem_append.mp ha).imp_right fun hlast ↦ ?_
      rw [List.mem_singleton.mp hlast]
      exact hphase
  | idleTest =>
    rw [hphase] at hs
    dsimp only at hs
    split_ifs at hs
    · obtain rfl := Option.some_inj.mp hs
      exact keeps_of_pool_eq rfl .refl (fun _ ↦ rfl) rfl
    · obtain ⟨next, -, hsome⟩ := Option.bind_eq_some_iff.mp hs
      obtain rfl := Option.some_inj.mp hsome
      exact keeps_of_pool_eq rfl .refl (fun _ ↦ rfl) rfl
    · obtain rfl := Option.some_inj.mp hs
      exact keeps_of_pool_eq rfl .refl (fun _ ↦ rfl) rfl
  | requestShutdown =>
    rw [hphase] at hs
    obtain rfl := Option.some_inj.mp hs
    exact ⟨rfl, rfl, fun _ ↦ Iff.rfl, fun _ ↦ Or.inl, .refl, fun _ ↦ rfl, Or.inl⟩
  | join i =>
    rw [hphase] at hs
    dsimp only at hs
    split_ifs at hs
    · obtain rfl := Option.some_inj.mp hs
      exact keeps_of_pool_eq rfl .refl (fun _ ↦ rfl) rfl
    · obtain rfl := Option.some_inj.mp hs
      exact keeps_of_pool_eq rfl .refl (fun _ ↦ rfl) rfl
  | returned result =>
    rw [hphase] at hs
    cases hs

end Abuild.DependencyRunner
