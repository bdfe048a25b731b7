import Abuild.WorkerPool

/-!
The invariant of the worker pool under the steps of its workers and of the
controlling thread. A worker, its place among the available ones and its queue
fit together (`Fits`): it is available when it has started and holds no item, and
it holds one item at most. So a pool that is idle holds no item
(`Wf.held_eq_nil_of_idle`), and a worker that is not available has a step
(`Wf.workerStep_isSome`). Every item is as often among the submitted ones as it is
in a queue or was processed, and as often among the processed ones as it is being
processed, has a result or was read (`Conserved`); a result carries the status of
its item.
-/

set_option autoImplicit false
set_option relaxedAutoImplicit false

namespace Abuild.WorkerPool

variable {n : ℕ} {Item Status : Type}

/-- What is left in a queue without items: the request to exit, after shutdown. -/
def tail (shutdown : Bool) : List (Option Item) := if shutdown then [none] else []

/-- How the place of a worker among the available ones, its phase and its queue
fit together. -/
inductive Fits (shutdown : Bool) : Prop → WorkerPhase Item → List (Option Item) → Prop
  | starting {available : Prop} :
      ¬ available → Fits shutdown available .starting (tail shutdown)
  | idle {available : Prop} : available → Fits shutdown available .waiting (tail shutdown)
  | given {available : Prop} (item : Item) :
      ¬ available → Fits shutdown available .waiting (some item :: tail shutdown)
  | processing {available : Prop} (item : Item) :
      ¬ available → Fits shutdown available (.processing item) (tail shutdown)
  | exited {available : Prop} :
      available → shutdown = true → Fits shutdown available .exited []

structure Wf (p : WorkerPool n Item Status) : Prop where
  nodup : p.availableWorkers.Nodup
  fits : ∀ w, Fits p.shutdownRequested (w ∈ p.availableWorkers) (p.workers w) (p.queues w)

/-- The items in a queue. -/
def queuedItems (queue : List (Option Item)) : List Item := queue.filterMap id

/-- The item that a worker is processing. -/
def processingItems : WorkerPhase Item → List Item
  | .processing item => [item]
  | _ => []

/-- The items that a worker has been given and has not finished. -/
def held (p : WorkerPool n Item Status) (w : Fin n) : List Item :=
  queuedItems (p.queues w) ++ processingItems (p.workers w)

theorem queuedItems_tail (shutdown : Bool) :
    queuedItems (tail shutdown : List (Option Item)) = [] := by
  cases shutdown <;> rfl

theorem queuedItems_append (queue rest : List (Option Item)) :
    queuedItems (queue ++ rest) = queuedItems queue ++ queuedItems rest :=
  List.filterMap_append

/-! ### One worker -/

section Fits

variable {shutdown : Bool} {available : Prop} {phase : WorkerPhase Item}
  {queue : List (Option Item)}

/-- A worker that is available holds no item. -/
theorem Fits.held_eq_nil (h : Fits shutdown available phase queue) (havailable : available) :
    queuedItems queue ++ processingItems phase = [] := by
  cases h with
  | starting hnot => exact absurd havailable hnot
  | idle => exact congrArg (· ++ []) (queuedItems_tail shutdown)
  | given item hnot => exact absurd havailable hnot
  | processing item hnot => exact absurd havailable hnot
  | exited => rfl

theorem Fits.register (h : Fits shutdown available .starting queue) {available' : Prop}
    (havailable : available') : ¬ available ∧ Fits shutdown available' .waiting queue := by
  cases h with
  | starting hnot => exact ⟨hnot, .idle havailable⟩

theorem Fits.begin {item : Item} (h : Fits shutdown available .waiting (some item :: queue)) :
    Fits shutdown available (.processing item) queue ∧ queuedItems queue = [] := by
  generalize hq : some item :: queue = q at h
  cases h with
  | idle =>
    cases shutdown <;> cases hq
  | given item' hnot =>
    cases hq
    exact ⟨.processing item hnot, queuedItems_tail shutdown⟩

theorem Fits.finish {item : Item} (h : Fits shutdown available (.processing item) queue)
    {available' : Prop} (havailable : available') :
    ¬ available ∧ Fits shutdown available' .waiting queue ∧ queuedItems queue = [] := by
  cases h with
  | processing item hnot => exact ⟨hnot, .idle havailable, queuedItems_tail shutdown⟩

theorem Fits.exit (h : Fits shutdown available .waiting (none :: queue)) :
    Fits shutdown available .exited queue ∧ queuedItems queue = [] := by
  generalize hq : none :: queue = q at h
  cases h with
  | idle havailable =>
    cases hshutdown : shutdown
    · rw [hshutdown] at hq
      cases hq
    · rw [hshutdown] at hq
      cases hq
      exact ⟨.exited havailable rfl, rfl⟩
  | given item' hnot => cases hq

theorem Fits.processItem (h : Fits false available phase queue) (havailable : available)
    {available' : Prop} (hnot : ¬ available') (item : Item) :
    Fits false available' phase (queue ++ [some item]) := by
  cases h with
  | starting hnot' => exact absurd havailable hnot'
  | idle => exact .given item hnot
  | given item' hnot' => exact absurd havailable hnot'
  | processing item' hnot' => exact absurd havailable hnot'
  | exited _ hshutdown => exact absurd hshutdown (by decide)

theorem Fits.requestShutdown (h : Fits false available phase queue) :
    Fits true available phase (queue ++ [none]) := by
  cases h with
  | starting hnot => exact .starting hnot
  | idle havailable => exact .idle havailable
  | given item hnot => exact .given item hnot
  | processing item hnot => exact .processing item hnot
  | exited _ hshutdown => exact absurd hshutdown (by decide)

theorem Fits.congr {available' : Prop} (h : Fits shutdown available phase queue)
    (hiff : available' ↔ available) : Fits shutdown available' phase queue := by
  rwa [propext hiff]

end Fits

/-! ### A step of the pool -/

/-- The pool after a change of one worker. -/
theorem Wf.update {p p' : WorkerPool n Item Status} (h : Wf p) (w : Fin n)
    (hnodup : p'.availableWorkers.Nodup)
    (hshutdown : p'.shutdownRequested = p.shutdownRequested)
    (hothers : ∀ v, v ≠ w → (v ∈ p'.availableWorkers ↔ v ∈ p.availableWorkers) ∧
      p'.workers v = p.workers v ∧ p'.queues v = p.queues v)
    (hw : Fits p'.shutdownRequested (w ∈ p'.availableWorkers) (p'.workers w) (p'.queues w)) :
    Wf p' := by
  refine ⟨hnodup, fun v ↦ ?_⟩
  by_cases hv : v = w
  · exact hv ▸ hw
  · obtain ⟨havailable, hworkers, hqueues⟩ := hothers v hv
    rw [hworkers, hqueues, hshutdown]
    exact (h.fits v).congr havailable

theorem nodup_append_singleton {l : List (Fin n)} {w : Fin n} (h : l.Nodup) (hw : w ∉ l) :
    (l ++ [w]).Nodup := by
  refine List.nodup_append.mpr ⟨h, List.nodup_singleton w, ?_⟩
  intro a ha b hb hab
  rw [List.mem_singleton] at hb
  exact hw (hb ▸ hab ▸ ha)

/-- A worker is at most one of the new available ones. -/
theorem mem_append_singleton_of_ne {l : List (Fin n)} {v w : Fin n} (hv : v ≠ w) :
    v ∈ l ++ [w] ↔ v ∈ l := by
  rw [List.mem_append, List.mem_singleton]
  exact or_iff_left hv

theorem Wf.register {p : WorkerPool n Item Status} (h : Wf p) {w : Fin n}
    (hstart : p.workers w = .starting) : Wf (p.register w) := by
  have hfits := h.fits w
  rw [hstart] at hfits
  obtain ⟨hnot, hwaiting⟩ := hfits.register (show w ∈ p.availableWorkers ++ [w] by simp)
  refine h.update w (nodup_append_singleton h.nodup hnot) rfl (fun v hv ↦ ?_) ?_
  · exact ⟨mem_append_singleton_of_ne hv, Function.update_of_ne hv .., rfl⟩
  · unfold WorkerPool.register
    dsimp only
    rw [Function.update_self]
    exact hwaiting

theorem Wf.begin {p : WorkerPool n Item Status} (h : Wf p) {w : Fin n} {item : Item}
    {queue : List (Option Item)} (hwaiting : p.workers w = .waiting)
    (hqueue : p.queues w = some item :: queue) : Wf (p.begin w item queue) := by
  have hfits := h.fits w
  rw [hwaiting, hqueue] at hfits
  refine h.update w h.nodup rfl (fun v hv ↦ ?_) ?_
  · exact ⟨Iff.rfl, Function.update_of_ne hv .., Function.update_of_ne hv ..⟩
  · unfold WorkerPool.begin
    dsimp only
    rw [Function.update_self, Function.update_self]
    exact hfits.begin.1

theorem Wf.finish {p : WorkerPool n Item Status} (h : Wf p) (method : Item → Status) {w : Fin n}
    {item : Item} (hitem : p.workers w = .processing item) : Wf (p.finish method w item) := by
  have hfits := h.fits w
  rw [hitem] at hfits
  obtain ⟨hnot, hwaiting, -⟩ :=
    hfits.finish (show w ∈ p.availableWorkers ++ [w] by simp)
  refine h.update w (nodup_append_singleton h.nodup hnot) rfl (fun v hv ↦ ?_) ?_
  · exact ⟨mem_append_singleton_of_ne hv, Function.update_of_ne hv .., rfl⟩
  · unfold WorkerPool.finish
    dsimp only
    rw [Function.update_self]
    exact hwaiting

theorem Wf.exit {p : WorkerPool n Item Status} (h : Wf p) {w : Fin n}
    {queue : List (Option Item)} (hwaiting : p.workers w = .waiting)
    (hqueue : p.queues w = none :: queue) : Wf (p.exit w queue) := by
  have hfits := h.fits w
  rw [hwaiting, hqueue] at hfits
  refine h.update w h.nodup rfl (fun v hv ↦ ?_) ?_
  · exact ⟨Iff.rfl, Function.update_of_ne hv .., Function.update_of_ne hv ..⟩
  · unfold WorkerPool.exit
    dsimp only
    rw [Function.update_self, Function.update_self]
    exact hfits.exit.1

theorem wf_new {p : WorkerPool n Item Status} (h : new n Item Status = some p) : Wf p := by
  unfold new at h
  split_ifs at h
  cases h
  exact ⟨List.nodup_nil, fun w ↦ .starting (by simp)⟩

theorem Wf.getResults {p p' : WorkerPool n Item Status} (h : Wf p) {r : Item × Status}
    (hr : p.getResults = some (r, p')) : Wf p' := by
  unfold WorkerPool.getResults at hr
  split at hr
  · cases hr
  · cases hr
    exact ⟨h.nodup, h.fits⟩

theorem Wf.processItem {p p' : WorkerPool n Item Status} (h : Wf p)
    (hshutdown : p.shutdownRequested = false) {item : Item}
    (hp : p.processItem item = some p') : Wf p' := by
  unfold WorkerPool.processItem at hp
  split at hp
  · cases hp
  · next w available havailable =>
    cases hp
    obtain ⟨hnot, hnodup⟩ := List.nodup_cons.mp (havailable ▸ h.nodup)
    have hfits := h.fits w
    rw [hshutdown] at hfits
    refine h.update w hnodup rfl (fun v hv ↦ ⟨?_, rfl, Function.update_of_ne hv ..⟩) ?_
    · rw [havailable, List.mem_cons]
      exact (or_iff_right hv).symm
    · dsimp only
      rw [Function.update_self, hshutdown]
      exact hfits.processItem (by simp [havailable]) hnot item

theorem Wf.requestShutdown {p : WorkerPool n Item Status} (h : Wf p)
    (hshutdown : p.shutdownRequested = false) : Wf p.requestShutdown := by
  refine ⟨h.nodup, fun w ↦ ?_⟩
  have hfits := h.fits w
  rw [hshutdown] at hfits
  exact hfits.requestShutdown

/-- Every step of a worker. -/
theorem workerStep_cases {method : Item → Status} {p p' : WorkerPool n Item Status} {w : Fin n}
    (hp : p.workerStep method w = some p') :
    (p.workers w = .starting ∧ p' = p.register w) ∨
    (∃ item queue, p.workers w = .waiting ∧ p.queues w = some item :: queue ∧
      p' = p.begin w item queue) ∨
    (∃ queue, p.workers w = .waiting ∧ p.queues w = none :: queue ∧ p' = p.exit w queue) ∨
    ∃ item, p.workers w = .processing item ∧ p' = p.finish method w item := by
  unfold workerStep at hp
  split at hp
  · next hphase => exact Or.inl ⟨hphase, (Option.some_inj.mp hp).symm⟩
  · cases hp
  · next hphase hqueue =>
    exact Or.inr (Or.inl ⟨_, _, hphase, hqueue, (Option.some_inj.mp hp).symm⟩)
  · next hphase hqueue =>
    exact Or.inr (Or.inr (Or.inl ⟨_, hphase, hqueue, (Option.some_inj.mp hp).symm⟩))
  · next hphase => exact Or.inr (Or.inr (Or.inr ⟨_, hphase, (Option.some_inj.mp hp).symm⟩))
  · cases hp

theorem Wf.workerStep {method : Item → Status} {p p' : WorkerPool n Item Status} (h : Wf p)
    {w : Fin n} (hp : p.workerStep method w = some p') : Wf p' := by
  rcases workerStep_cases hp with ⟨hphase, rfl⟩ | ⟨item, queue, hphase, hqueue, rfl⟩ |
    ⟨queue, hphase, hqueue, rfl⟩ | ⟨item, hphase, rfl⟩
  · exact h.register hphase
  · exact h.begin hphase hqueue
  · exact h.exit hphase hqueue
  · exact h.finish method hphase

/-! ### Consequences -/

/-- A pool without results whose workers are all available holds no item. -/
theorem Wf.held_eq_nil_of_idle {p : WorkerPool n Item Status} (h : Wf p) (hidle : p.idle = true) :
    p.results = [] ∧ ∀ w, p.held w = [] := by
  unfold idle at hidle
  rw [Bool.and_eq_true, decide_eq_true_iff, List.isEmpty_iff] at hidle
  refine ⟨hidle.2, fun w ↦ (h.fits w).held_eq_nil ?_⟩
  have hall : p.availableWorkers.toFinset = Finset.univ := by
    rw [← Finset.card_eq_iff_eq_univ, List.toFinset_card_of_nodup h.nodup, hidle.1,
      Fintype.card_fin]
  have hw := Finset.mem_univ w
  rw [← hall] at hw
  exact List.mem_toFinset.mp hw

/-- After shutdown an available worker that has not exited has a step. -/
theorem Wf.exit_isSome {p : WorkerPool n Item Status} (h : Wf p) (method : Item → Status)
    (hshutdown : p.shutdownRequested = true) {w : Fin n} (hw : p.workers w ≠ .exited) :
    (p.workerStep method w).isSome := by
  have hfits := h.fits w
  rw [hshutdown] at hfits
  unfold WorkerPool.workerStep
  generalize p.workers w = phase at hfits hw ⊢
  generalize p.queues w = queue at hfits ⊢
  cases hfits with
  | starting => rfl
  | idle => rfl
  | given => rfl
  | processing => rfl
  | exited => exact absurd rfl hw

/-- A worker that is not available has a step. -/
theorem Wf.workerStep_isSome {p : WorkerPool n Item Status} (h : Wf p) (method : Item → Status)
    {w : Fin n} (hw : w ∉ p.availableWorkers) : (p.workerStep method w).isSome := by
  have hfits := h.fits w
  unfold WorkerPool.workerStep
  generalize p.workers w = phase at hfits ⊢
  generalize p.queues w = queue at hfits ⊢
  cases hfits with
  | starting => rfl
  | idle havailable => exact absurd havailable hw
  | given => rfl
  | processing => rfl
  | exited havailable => exact absurd havailable hw

/-! ### Items are neither lost nor made up -/

section Conserved

variable [DecidableEq Item]

/-- How often an item is in the queues. -/
def numQueued (p : WorkerPool n Item Status) (a : Item) : ℕ :=
  ∑ w, (queuedItems (p.queues w)).count a

/-- How often an item is being processed. -/
def numProcessing (p : WorkerPool n Item Status) (a : Item) : ℕ :=
  ∑ w, (processingItems (p.workers w)).count a

structure Conserved (method : Item → Status) (p : WorkerPool n Item Status) : Prop where
  submitted : ∀ a, p.submitted.count a = p.numQueued a + (p.processed.map Prod.snd).count a
  processed : ∀ a, (p.processed.map Prod.snd).count a =
    p.numProcessing a + (p.results.map Prod.fst).count a + (p.read.map Prod.fst).count a
  status : ∀ r, r ∈ p.results ∨ r ∈ p.read → r.2 = method r.1

theorem sum_update {α : Type} (f : α → ℕ) (g : Fin n → α) (w : Fin n) (x : α) :
    ∑ v, f (Function.update g w x v) + f (g w) = ∑ v, f (g v) + f x := by
  have hothers : ∑ v ∈ Finset.univ.erase w, f (Function.update g w x v) =
      ∑ v ∈ Finset.univ.erase w, f (g v) :=
    Finset.sum_congr rfl fun v hv ↦ by rw [Function.update_of_ne (Finset.ne_of_mem_erase hv)]
  have hnew := Finset.add_sum_erase _ (fun v ↦ f (Function.update g w x v)) (Finset.mem_univ w)
  have hold := Finset.add_sum_erase _ (fun v ↦ f (g v)) (Finset.mem_univ w)
  rw [Function.update_self] at hnew
  omega

theorem conserved_new {method : Item → Status} {p : WorkerPool n Item Status}
    (h : new n Item Status = some p) : Conserved method p := by
  unfold new at h
  split_ifs at h
  cases h
  constructor <;> simp [numQueued, numProcessing, queuedItems, processingItems]

theorem numQueued_update (p : WorkerPool n Item Status) (w : Fin n) (queue : List (Option Item))
    (a : Item) :
    ∑ v, (queuedItems (Function.update p.queues w queue v)).count a +
      (queuedItems (p.queues w)).count a = p.numQueued a + (queuedItems queue).count a :=
  sum_update (fun queue ↦ (queuedItems queue).count a) p.queues w queue

theorem numProcessing_update (p : WorkerPool n Item Status) (w : Fin n)
    (phase : WorkerPhase Item) (a : Item) :
    ∑ v, (processingItems (Function.update p.workers w phase v)).count a +
      (processingItems (p.workers w)).count a =
        p.numProcessing a + (processingItems phase).count a :=
  sum_update (fun phase ↦ (processingItems phase).count a) p.workers w phase

theorem Conserved.workerStep {method : Item → Status} {p p' : WorkerPool n Item Status}
    (h : Conserved method p) {w : Fin n} (hp : p.workerStep method w = some p') :
    Conserved method p' := by
  rcases workerStep_cases hp with ⟨hphase, rfl⟩ | ⟨item, queue, hphase, hqueue, rfl⟩ |
    ⟨queue, hphase, hqueue, rfl⟩ | ⟨item, hphase, rfl⟩
  · refine ⟨h.submitted, fun a ↦ ?_, h.status⟩
    have hprocessing := numProcessing_update p w .waiting a
    have hold := h.processed a
    rw [hphase] at hprocessing
    unfold WorkerPool.register numProcessing
    dsimp only [processingItems, List.count_nil] at hprocessing ⊢
    omega
  · have hnew : ∀ a, ((p.processed ++ [(w, item)]).map Prod.snd).count a =
        (p.processed.map Prod.snd).count a + [item].count a := by
      intro a
      rw [List.map_append, List.count_append]
      rfl
    refine ⟨fun a ↦ ?_, fun a ↦ ?_, h.status⟩
    · have hqueued := numQueued_update p w queue a
      have hold := h.submitted a
      have hcons : (queuedItems (some item :: queue)).count a =
          [item].count a + (queuedItems queue).count a := by
        rw [← List.count_append]
        rfl
      rw [hqueue, hcons] at hqueued
      unfold WorkerPool.begin numQueued
      dsimp only
      rw [hnew]
      omega
    · have hprocessing := numProcessing_update p w (.processing item) a
      have hold := h.processed a
      rw [hphase] at hprocessing
      unfold WorkerPool.begin numProcessing
      dsimp only [processingItems, List.count_nil] at hprocessing ⊢
      rw [hnew]
      omega
  · refine ⟨fun a ↦ ?_, fun a ↦ ?_, h.status⟩
    · have hqueued := numQueued_update p w queue a
      have hold := h.submitted a
      have hcons : queuedItems (none :: queue) = queuedItems queue := rfl
      rw [hqueue, hcons] at hqueued
      unfold WorkerPool.exit numQueued
      dsimp only
      omega
    · have hprocessing := numProcessing_update p w .exited a
      have hold := h.processed a
      rw [hphase] at hprocessing
      unfold WorkerPool.exit numProcessing
      dsimp only [processingItems, List.count_nil] at hprocessing ⊢
      omega
  · refine ⟨h.submitted, fun a ↦ ?_, fun r hr ↦ ?_⟩
    · have hprocessing := numProcessing_update p w .waiting a
      have hold := h.processed a
      have hresults : ((p.results ++ [(item, method item)]).map Prod.fst).count a =
          (p.results.map Prod.fst).count a + [item].count a := by
        rw [List.map_append, List.count_append]
        rfl
      rw [hphase] at hprocessing
      unfold WorkerPool.finish numProcessing
      dsimp only [processingItems, List.count_nil] at hprocessing ⊢
      rw [hresults]
      omega
    · rcases hr with hr | hr
      · rcases List.mem_append.mp hr with hr | hr
        · exact h.status r (Or.inl hr)
        · rw [List.mem_singleton.mp hr]
      · exact h.status r (Or.inr hr)

theorem Conserved.getResults {method : Item → Status} {p p' : WorkerPool n Item Status}
    (h : Conserved method p) {r : Item × Status} (hr : p.getResults = some (r, p')) :
    Conserved method p' ∧ r ∈ p.results := by
  unfold WorkerPool.getResults at hr
  split at hr
  · cases hr
  · next r' results hresults =>
    cases hr
    refine ⟨⟨h.submitted, fun a ↦ ?_, fun s hs ↦ h.status s ?_⟩, by simp [hresults]⟩
    · have hold := h.processed a
      have hread : ((p.read ++ [r]).map Prod.fst).count a =
          (p.read.map Prod.fst).count a + [r.1].count a := by
        rw [List.map_append, List.count_append]
        rfl
      have hcons : ((r :: results).map Prod.fst).count a =
          [r.1].count a + (results.map Prod.fst).count a := by
        rw [← List.count_append]
        rfl
      rw [hresults, hcons] at hold
      dsimp only
      rw [hread]
      unfold numProcessing at hold ⊢
      dsimp only
      omega
    · rw [hresults]
      rcases hs with hs | hs
      · exact Or.inl (List.mem_cons_of_mem _ hs)
      · rcases List.mem_append.mp hs with hs | hs
        · exact Or.inr hs
        · rw [List.mem_singleton.mp hs]
          exact Or.inl List.mem_cons_self

theorem Conserved.processItem {method : Item → Status} {p p' : WorkerPool n Item Status}
    (h : Conserved method p) {item : Item} (hp : p.processItem item = some p') :
    Conserved method p' := by
  unfold WorkerPool.processItem at hp
  split at hp
  · cases hp
  · next w available _ =>
    cases hp
    refine ⟨fun a ↦ ?_, h.processed, h.status⟩
    have hqueued := numQueued_update p w (p.queues w ++ [some item]) a
    have hold := h.submitted a
    have hsome : queuedItems [some item] = [item] := rfl
    rw [queuedItems_append, hsome, List.count_append] at hqueued
    unfold numQueued
    dsimp only
    rw [List.count_append]
    omega

theorem Conserved.requestShutdown {method : Item → Status} {p : WorkerPool n Item Status}
    (h : Conserved method p) : Conserved method p.requestShutdown := by
  refine ⟨fun a ↦ ?_, h.processed, h.status⟩
  rw [show p.requestShutdown.numQueued a = p.numQueued a from ?_]
  · exact h.submitted a
  · refine Finset.sum_congr rfl fun w _ ↦ congrArg (List.count a) ?_
    exact (queuedItems_append _ _).trans (List.append_nil _)

/-- How often an item is with a worker or has a result that was not read. -/
def inFlight (p : WorkerPool n Item Status) (a : Item) : ℕ :=
  ∑ w, (p.held w).count a + (p.results.map Prod.fst).count a

theorem Conserved.inFlight {method : Item → Status} {p : WorkerPool n Item Status}
    (h : Conserved method p) (a : Item) :
    p.submitted.count a = p.inFlight a + (p.read.map Prod.fst).count a := by
  have hheld : ∑ w, (p.held w).count a = p.numQueued a + p.numProcessing a := by
    unfold numQueued numProcessing
    rw [← Finset.sum_add_distrib]
    exact Finset.sum_congr rfl fun w _ ↦ List.count_append
  have hsubmitted := h.submitted a
  have hprocessed := h.processed a
  unfold WorkerPool.inFlight
  omega

/-- Nothing is in flight in an idle pool. -/
theorem Wf.inFlight_eq_zero {p : WorkerPool n Item Status} (h : Wf p) (hidle : p.idle = true)
    (a : Item) : p.inFlight a = 0 := by
  obtain ⟨hresults, hheld⟩ := h.held_eq_nil_of_idle hidle
  unfold WorkerPool.inFlight
  rw [hresults, Finset.sum_eq_zero fun w _ ↦ by rw [hheld w, List.count_nil]]
  rfl

/-- An item that is not in flight was processed as often as it was submitted. -/
theorem Conserved.processed_of_inFlight {method : Item → Status} {p : WorkerPool n Item Status}
    (h : Conserved method p) {a : Item} (hflight : p.inFlight a = 0) :
    (p.processed.map Prod.snd).count a = p.submitted.count a := by
  have hqueued : p.numQueued a ≤ ∑ w, (p.held w).count a := by
    refine Finset.sum_le_sum fun w _ ↦ ?_
    unfold held
    rw [List.count_append]
    exact Nat.le_add_right _ _
  have hsubmitted := h.submitted a
  unfold WorkerPool.inFlight at hflight
  omega

end Conserved

end Abuild.WorkerPool
