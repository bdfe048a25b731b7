import Abuild.BuildRun.Places

/-!
The build with any number of workers comes to the same as the items built one after the other, in
every order of the steps of its threads, and no interface is missing where it is imported
(`build_serial`). Failure propagation is on. What the threads share is compared with what the serial
build leaves, item by item, by the place where the runner has an item (`Agrees`).
-/

set_option autoImplicit false
set_option relaxedAutoImplicit false

namespace Abuild.BuildRun

open Std (TreeMap TreeSet)
open DependencyGraph DependencyEvaluator DependencyRunner Precedence
open SerialBuild (Settled builderResult)

variable {n : ℕ} {Parser : Type} {b : ItemBuilder Parser} {g : DependencyGraph}
  {r : SerialBuild Parser} {s s' : BuildRun n Parser}

/-! ### The steps -/

theorem workerStep_cases {w : Fin n} (hs : s.workerStep b w = some s') :
    (∃ item phase, s.runner.pool.workers w = .processing item ∧ s.builders w = .called ∧
      b.itemBuilder s.runner.evaluator.graph s.shared item false = some phase ∧
        s' = { s with
          builders := Function.update s.builders w phase
          shared := s.shared.leave item phase }) ∨
    (∃ item parser, s.runner.pool.workers w = .processing item ∧
      s.builders w = .invoking parser ∧
        s' = { s with
          builders := Function.update s.builders w (b.afterBackend item (.invoking parser))
          shared := s.shared.leave item (b.afterBackend item (.invoking parser)) }) ∨
    (∃ item parser status pool, s.runner.pool.workers w = .processing item ∧
      s.builders w = .returned parser status ∧
        s.runner.pool.workerStep (fun _ ↦ status) w = some pool ∧
          s' = { s with
            runner := { s.runner with pool }
            builders := Function.update s.builders w .called }) ∨
    ∃ pool, (∀ item, s.runner.pool.workers w ≠ .processing item) ∧
      s.runner.pool.workerStep (fun _ ↦ true) w = some pool ∧
        s' = { s with runner := { s.runner with pool } } := by
  unfold workerStep at hs
  split at hs
  · next item hworker hbuilder =>
    obtain ⟨phase, hphase, hsome⟩ := Option.bind_eq_some_iff.mp hs
    exact Or.inl ⟨item, phase, hworker, hbuilder, hphase, (Option.some_inj.mp hsome).symm⟩
  · next item parser hworker hbuilder =>
    exact Or.inr (Or.inl ⟨item, parser, hworker, hbuilder, (Option.some_inj.mp hs).symm⟩)
  · next item parser status hworker hbuilder =>
    obtain ⟨pool, hpool, hsome⟩ := Option.bind_eq_some_iff.mp hs
    exact Or.inr (Or.inr (Or.inl
      ⟨item, parser, status, pool, hworker, hbuilder, hpool, (Option.some_inj.mp hsome).symm⟩))
  · next hcalled hinvoking hreturned =>
    obtain ⟨pool, hpool, hsome⟩ := Option.bind_eq_some_iff.mp hs
    refine Or.inr (Or.inr (Or.inr ⟨pool, fun item hworker ↦ ?_, hpool,
      (Option.some_inj.mp hsome).symm⟩))
    cases hbuilder : s.builders w with
    | called => exact hcalled item hworker hbuilder
    | invoking parser => exact hinvoking item parser hworker hbuilder
    | returned parser status => exact hreturned item parser status hworker hbuilder

theorem controllerStep_cases {stopOnError : Bool} (hs : s.controllerStep b stopOnError = some s') :
    (∃ item state, s.runner.evaluator.changes[s.called]? = some (item, state) ∧
      s.stateChangeCallback b item state = some s') ∨
    (s.runner.evaluator.changes[s.called]? = none ∧
      ∃ runner, s.runner.controllerStep stopOnError = some runner ∧ s' = { s with runner }) := by
  unfold controllerStep at hs
  split at hs
  · next item state hchange => exact Or.inl ⟨item, state, hchange, hs⟩
  · next hnone =>
    obtain ⟨runner, hrunner, hsome⟩ := Option.bind_eq_some_iff.mp hs
    exact Or.inr ⟨hnone, runner, hrunner, (Option.some_inj.mp hsome).symm⟩

/-- The callback adds at most a forced failure to the failed builds. -/
theorem stateChangeCallback_eq (s : BuildRun n Parser) (item : ItemType) (state : ItemState) :
    s.stateChangeCallback b item state = some
      (if state = .depfailed then { s with
        shared := s.shared.leave item (.returned none (!b.forcedFailures.contains item))
        called := s.called + 1 }
      else { s with called := s.called + 1 }) := by
  unfold stateChangeCallback
  split_ifs with hstate
  · rw [ItemBuilder.itemBuilder_depFailure]
    rfl
  · rfl

/-! ### The invariant -/

/-- Whether an item is built when the items are built one after the other. -/
def builds (r : SerialBuild Parser) (item : ItemType) : Bool := decide (r.stateOf item = .completed)

/-- A builder is where the builder of the serial build has been. -/
def OnCourse (b : ItemBuilder Parser) (g : DependencyGraph) (r : SerialBuild Parser)
    (item : ItemType) (phase : BuilderPhase Parser) : Prop :=
  phase = .called ∨ ∃ first, b.itemBuilder g r.shared item false = some first ∧
    (phase = first ∨ phase = b.afterBackend item first)

/-- What the threads share has of an item what its builder has left so far. -/
structure Begun (b : ItemBuilder Parser) (g : DependencyGraph) (r : SerialBuild Parser)
    (shared : SharedBuild Parser) (item : ItemType) (phase : BuilderPhase Parser) : Prop where
  onCourse : OnCourse b g r item phase
  interface : shared.interfaces[item]? = phase.parser
  failed : shared.failedBuilds.count item = if phase.isFailure then 1 else 0

/-- What the threads share agrees with what the serial build leaves. -/
structure Agrees (b : ItemBuilder Parser) (g : DependencyGraph) (r : SerialBuild Parser)
    (s : BuildRun n Parser) : Prop where
  runs : Runs g (builds r) s.runner
  reported : Reported g s.runner.evaluator
  called_le : s.called ≤ s.runner.evaluator.changes.length
  told : Joining s.runner.phase → s.called = s.runner.evaluator.changes.length
  idle : ∀ w, (∀ item, s.runner.pool.workers w ≠ .processing item) → s.builders w = .called
  begun : ∀ w item, s.runner.pool.workers w = .processing item →
    Begun b g r s.shared item (s.builders w)
  finished : ∀ x, x ∈ s.runner.pool.results ∨ x ∈ s.runner.pool.read →
    s.shared.interfaces[x.1]? = r.shared.interfaces[x.1]? ∧
      s.shared.failedBuilds.count x.1 = if x.2 then 0 else 1
  unbegun : ∀ a, a ∉ s.runner.pool.processed.map Prod.snd → s.shared.interfaces[a]? = none ∧
    s.shared.failedBuilds.count a = if (a, .depfailed) ∈
      s.runner.evaluator.changes.take s.called ∧ b.forcedFailures.contains a = true then 1 else 0

section Items

theorem Agrees.mem_inOrder (h : Agrees b g r s) {item : ItemType}
    (hitem : s.runner.evaluator.stateOf item ≠ .waiting) : item ∈ g.inOrder := by
  by_contra hnot
  exact hitem (h.runs.sound.ofGraph.stateOf_eq_waiting hnot)

/-- A completed item is one that the serial build has built. -/
theorem Agrees.completed (h : Agrees b g r s) {item : ItemType}
    (hitem : s.runner.evaluator.stateOf item = .completed) : r.stateOf item = .completed := by
  have hstatus := h.runs.status (Or.inl hitem)
  rw [hitem] at hstatus
  unfold outcome builds at hstatus
  split_ifs at hstatus with hbuilds
  exact of_decide_eq_true hbuilds

/-- The dependencies of a started item have been built, and their interfaces are those of the serial
build. -/
theorem Agrees.dependencies (hg : ErrorFree g) (h : Agrees b g r s) {item : ItemType}
    (hitem : Started (s.runner.evaluator.stateOf item)) {deps : ItemList}
    (hdeps : g.getDirectDependencies item = some deps) :
    (∀ d ∈ deps, s.shared.interfaces[d]? = r.shared.interfaces[d]?) ∧
      deps.any r.isFailure = false := by
  have hcompleted : ∀ d ∈ deps, s.runner.evaluator.stateOf d = .completed := fun d hd ↦
    h.runs.completed_of_started hitem ((hg.mem_directDependencies hdeps d).mp hd)
  refine ⟨fun d hd ↦ ?_, List.any_eq_false.mpr fun d hd ↦ ?_⟩
  · obtain ⟨x, hx, rfl, -⟩ := h.runs.exists_read (Or.inl (hcompleted d hd))
    exact (h.finished x (Or.inr hx)).1
  · unfold SerialBuild.isFailure
    rw [h.completed (hcompleted d hd)]
    decide

variable (hg : ErrorFree g) (hr : Settled b g g.inOrder r) (h : Agrees b g r s)
include hg hr h

/-- A started item has a builder in the serial build, and finds what that one has found. -/
theorem Agrees.builder {item : ItemType} (hitem : Started (s.runner.evaluator.stateOf item)) :
    ∃ first parser status, b.itemBuilder g r.shared item false = some first ∧
      b.itemBuilder g s.shared item false = some first ∧
        b.afterBackend item first = .returned parser status ∧
          r.shared.interfaces[item]? = parser ∧
            r.stateOf item = if status then .completed else .failed := by
  have hmem : item ∈ g.inOrder := h.mem_inOrder fun hwaiting ↦ by
    rw [hwaiting] at hitem
    rcases hitem with hitem | hitem | hitem | hitem <;> cases hitem
  obtain ⟨deps, hdeps, -⟩ := hg.getDirectDependencies hmem
  obtain ⟨hsame, hfailure⟩ := h.dependencies hg hitem hdeps
  obtain ⟨parser, status, hresult, hinterface, hstate⟩ := hr.built item hmem deps hdeps hfailure
  obtain ⟨first, hfirst, hend⟩ := Option.bind_eq_some_iff.mp hresult
  refine ⟨first, parser, status, hfirst, ?_, Option.some_inj.mp hend, hinterface, hstate⟩
  rw [← hfirst]
  refine ItemBuilder.itemBuilder_congr (fun deps' hdeps' d hd ↦ ?_) false
  obtain rfl := Option.some_inj.mp (hdeps.symm.trans hdeps')
  exact hsame d hd

/-- A builder that has returned leaves what the serial build leaves. -/
theorem Agrees.returned {w : Fin n} {item : ItemType} {parser : Option Parser} {status : Bool}
    (hworker : s.runner.pool.workers w = .processing item)
    (hbuilder : s.builders w = .returned parser status) :
    r.shared.interfaces[item]? = parser ∧ builds r item = status := by
  obtain ⟨first, parser', status', hfirst, -, hend, hinterface, hstate⟩ :=
    h.builder hg hr (Or.inr (Or.inl (h.runs.running_of_processing hworker)))
  have hcourse := (h.begun w item hworker).onCourse
  rw [hbuilder] at hcourse
  have hsame : parser = parser' ∧ status = status' := by
    rcases hcourse with hcalled | ⟨first', hfirst', hphase⟩
    · cases hcalled
    · obtain rfl := Option.some_inj.mp (hfirst.symm.trans hfirst')
      rcases hphase with rfl | hphase
      · exact BuilderPhase.returned.inj hend
      · exact BuilderPhase.returned.inj (hphase.trans hend)
  obtain ⟨rfl, rfl⟩ := hsame
  refine ⟨hinterface, ?_⟩
  unfold builds
  rw [hstate]
  cases status <;> rfl

end Items

/-! ### What a step preserves -/

theorem not_mem_changes (h : Agrees b g r s) {a : ItemType}
    (ha : s.runner.evaluator.stateOf a ≠ .depfailed) :
    (a, .depfailed) ∉ s.runner.evaluator.changes := by
  have hcount := h.reported.heard.count_depfailed a
  rw [if_neg ha] at hcount
  exact List.count_eq_zero.mp hcount

/-- What is told of an item that has not been begun and is about no failure of a dependency. -/
theorem Agrees.fresh (h : Agrees b g r s) {a : ItemType}
    (ha : a ∉ s.runner.pool.processed.map Prod.snd)
    (hstate : s.runner.evaluator.stateOf a ≠ .depfailed) :
    s.shared.interfaces[a]? = none ∧ s.shared.failedBuilds.count a = 0 := by
  obtain ⟨hinterface, hcount⟩ := h.unbegun a ha
  rw [if_neg fun hboth ↦ not_mem_changes h hstate (List.mem_of_mem_take hboth.1)] at hcount
  exact ⟨hinterface, hcount⟩

/-- A section of a builder changes nothing of other items. -/
theorem leave_of_ne (shared : SharedBuild Parser) {item a : ItemType} (phase : BuilderPhase Parser)
    (ha : a ≠ item) : (shared.leave item phase).interfaces[a]? = shared.interfaces[a]? ∧
      (shared.leave item phase).failedBuilds.count a = shared.failedBuilds.count a := by
  rw [SharedBuild.getElem?_leave, SharedBuild.count_leave, if_neg ha, if_neg fun h ↦ ha h.1]
  exact ⟨rfl, rfl⟩

/-- A section of the builder of an item that a worker has. -/
theorem Agrees.section (h : Agrees b g r s) {w : Fin n} {item : ItemType}
    (hworker : s.runner.pool.workers w = .processing item) {phase : BuilderPhase Parser}
    (hcourse : OnCourse b g r item phase)
    (hparser : phase.parser.or (s.builders w).parser = phase.parser)
    (hfailure : (s.builders w).isFailure = false) :
    Agrees b g r { s with
      builders := Function.update s.builders w phase
      shared := s.shared.leave item phase } := by
  have hprocessing := numProcessing_pos hworker
  refine { h with
    idle := fun v hv ↦ ?_
    begun := fun v other hv ↦ ?_
    finished := fun x hx ↦ ?_
    unbegun := fun a ha ↦ ?_ }
  · have hne : v ≠ w := by
      rintro rfl
      exact hv item hworker
    exact (Function.update_of_ne hne _ _).trans (h.idle v hv)
  · dsimp only
    by_cases hvw : v = w
    · subst hvw
      obtain rfl := WorkerPhase.processing.inj (hworker.symm.trans hv)
      have hbegun := h.begun v item hworker
      rw [Function.update_self]
      refine ⟨hcourse, ?_, ?_⟩
      · rw [SharedBuild.getElem?_leave, if_pos rfl, hbegun.interface, hparser]
      · rw [SharedBuild.count_leave, hbegun.failed, hfailure]
        simp
    · have hne : other ≠ item := by
        rintro rfl
        exact hvw (h.runs.eq_of_processing hv hworker)
      obtain ⟨hinterface, hcount⟩ := leave_of_ne s.shared phase hne
      have hbegun := h.begun v other hv
      rw [Function.update_of_ne hvw]
      exact ⟨hbegun.onCourse, hinterface.trans hbegun.interface, hcount.trans hbegun.failed⟩
  · have hne : x.1 ≠ item := by
      intro heq
      have hle := h.runs.places_le item
      have hpos : 0 < (s.runner.pool.results.map Prod.fst).count item +
          (s.runner.pool.read.map Prod.fst).count item := by
        rw [Nat.add_pos_iff_pos_or_pos, List.count_pos_iff, List.count_pos_iff, ← heq]
        exact hx.imp List.mem_map_of_mem List.mem_map_of_mem
      omega
    obtain ⟨hinterface, hcount⟩ := leave_of_ne s.shared phase hne
    rw [hinterface, hcount]
    exact h.finished x hx
  · have hne : a ≠ item := by
      rintro rfl
      exact ha ((h.runs.processed_iff a).mpr (Or.inl hprocessing))
    obtain ⟨hinterface, hcount⟩ := leave_of_ne s.shared phase hne
    rw [hinterface, hcount]
    exact h.unbegun a ha

/-- The callback for one change. -/
theorem Agrees.callback (h : Agrees b g r s) {item : ItemType} {state : ItemState}
    (hchange : s.runner.evaluator.changes[s.called]? = some (item, state))
    (hs : s.stateChangeCallback b item state = some s') : Agrees b g r s' := by
  obtain ⟨hlt, hget⟩ := List.getElem?_eq_some_iff.mp hchange
  have htake : s.runner.evaluator.changes.take (s.called + 1) =
      s.runner.evaluator.changes.take s.called ++ [(item, state)] := by
    rw [List.take_add_one, hchange]
    rfl
  have htold : Joining s.runner.phase → s.called + 1 = s.runner.evaluator.changes.length :=
    fun hjoining ↦ absurd (h.told hjoining) hlt.ne
  rw [stateChangeCallback_eq] at hs
  obtain rfl := Option.some_inj.mp hs
  by_cases hstate : state = .depfailed
  · subst hstate
    rw [if_pos rfl]
    have hdepfailed : s.runner.evaluator.stateOf item = .depfailed := by
      by_contra hne
      exact not_mem_changes h hne (List.mem_of_getElem? hchange)
    have hnot : item ∉ s.runner.pool.processed.map Prod.snd := fun hmem ↦ by
      have hhanded := h.runs.handed_of_processed hmem
      rw [hdepfailed] at hhanded
      exact absurd hhanded (by decide)
    -- The failure is told once.
    have hfirst : (item, .depfailed) ∉ s.runner.evaluator.changes.take s.called := by
      have hcount := h.reported.heard.count_depfailed item
      rw [if_pos hdepfailed] at hcount
      have hle := (List.take_sublist (s.called + 1) s.runner.evaluator.changes).count_le
        (item, ItemState.depfailed)
      rw [htake, List.count_append, List.count_singleton_self, hcount] at hle
      exact List.count_eq_zero.mp (by omega)
    refine { h with
      called_le := hlt
      told := htold
      begun := fun w other hw ↦ ?_
      finished := fun x hx ↦ ?_
      unbegun := fun a ha ↦ ?_ }
    · have hne : other ≠ item := by
        rintro rfl
        exact hnot ((h.runs.processed_iff other).mpr (Or.inl (numProcessing_pos hw)))
      obtain ⟨hinterface, hcount⟩ := leave_of_ne s.shared
        (.returned none (!b.forcedFailures.contains item)) hne
      have hbegun := h.begun w other hw
      exact ⟨hbegun.onCourse, hinterface.trans hbegun.interface, hcount.trans hbegun.failed⟩
    · have hne : x.1 ≠ item := fun heq ↦
        hnot ((h.runs.processed_iff item).mpr (Or.inr ⟨x, hx, heq⟩))
      obtain ⟨hinterface, hcount⟩ := leave_of_ne s.shared
        (.returned none (!b.forcedFailures.contains item)) hne
      rw [hinterface, hcount]
      exact h.finished x hx
    · obtain ⟨hinterface, hcount⟩ := h.unbegun a ha
      by_cases hne : a = item
      · subst hne
        rw [if_neg fun hboth ↦ hfirst hboth.1] at hcount
        rw [SharedBuild.getElem?_leave, SharedBuild.count_leave, hcount, Nat.zero_add]
        refine ⟨(if_pos rfl).trans hinterface, if_congr ?_ rfl rfl⟩
        rw [htake, List.mem_append, List.mem_singleton]
        simp [BuilderPhase.isFailure]
      · obtain ⟨hinterface', hcount'⟩ := leave_of_ne s.shared
          (.returned none (!b.forcedFailures.contains item)) hne
        refine ⟨hinterface'.trans hinterface,
          hcount'.trans (hcount.trans (if_congr (and_congr_left fun _ ↦ ?_) rfl rfl))⟩
        rw [htake, List.mem_append, List.mem_singleton]
        exact (or_iff_left fun heq ↦ hne (Prod.mk.inj heq).1).symm
  · rw [if_neg hstate]
    refine { h with called_le := hlt, told := htold, unbegun := fun a ha ↦ ?_ }
    obtain ⟨hinterface, hcount⟩ := h.unbegun a ha
    refine ⟨hinterface, hcount.trans (if_congr (and_congr_left fun _ ↦ ?_) rfl rfl)⟩
    rw [htake, List.mem_append, List.mem_singleton]
    exact (or_iff_left fun heq ↦ hstate (Prod.mk.inj heq).2.symm).symm

/-- A step of `run`. -/
theorem Agrees.runner (hg : ErrorFree g) (h : Agrees b g r s) {stopOnError : Bool}
    (hnone : s.runner.evaluator.changes[s.called]? = none) {runner : DependencyRunner n}
    (hs : s.runner.controllerStep stopOnError = some runner) :
    Agrees b g r { s with runner } := by
  have hkeeps := keeps_of_controllerStep hs
  have hcalled : s.called = s.runner.evaluator.changes.length :=
    le_antisymm h.called_le (List.getElem?_eq_none_iff.mp hnone)
  obtain ⟨more, hmore⟩ := hkeeps.changes.changes_prefix
  have htake : runner.evaluator.changes.take s.called =
      s.runner.evaluator.changes.take s.called := by
    rw [← hmore, hcalled, List.take_left, List.take_length]
  refine
    { runs := h.runs.controller hg hs
      reported := h.reported.changes hkeeps.changes
      called_le := h.called_le.trans (List.IsPrefix.length_le ⟨more, hmore⟩)
      told := fun hjoining ↦ ?_
      idle := fun w hw ↦ h.idle w fun item hitem ↦ hw item ?_
      begun := fun w item hw ↦ h.begun w item ?_
      finished := fun x hx ↦ h.finished x ((hkeeps.finished x).mp hx)
      unbegun := fun a ha ↦ ?_ }
  · rw [hkeeps.joining hjoining]
    exact hcalled
  · rw [hkeeps.workers]
    exact hitem
  · rw [← hkeeps.workers]
    exact hw
  · rw [hkeeps.processed] at ha
    rw [htake]
    exact h.unbegun a ha

/-- A worker that is not in a builder takes a step of the pool. -/
theorem Agrees.setPool (h : Agrees b g r s) {w : Fin n}
    (hw : ∀ item, s.runner.pool.workers w ≠ .processing item)
    {pool : WorkerPool n ItemType Bool}
    (hruns : Runs g (builds r) { s.runner with pool })
    (hothers : ∀ v, v ≠ w → pool.workers v = s.runner.pool.workers v)
    (hresults : pool.results = s.runner.pool.results) (hread : pool.read = s.runner.pool.read)
    (hprocessed : s.runner.pool.processed <+: pool.processed)
    (hbegins : ∀ item, pool.workers w = .processing item →
      s.shared.interfaces[item]? = none ∧ s.shared.failedBuilds.count item = 0) :
    Agrees b g r { s with runner := { s.runner with pool } } := by
  refine { h with
    runs := hruns
    idle := fun v hv ↦ ?_
    begun := fun v item hv ↦ ?_
    finished := fun x hx ↦ ?_
    unbegun := fun a ha ↦ ?_ }
  · by_cases hvw : v = w
    · exact hvw ▸ h.idle w hw
    · exact h.idle v fun item hitem ↦ hv item ((hothers v hvw).trans hitem)
  · by_cases hvw : v = w
    · subst hvw
      obtain ⟨hinterface, hcount⟩ := hbegins item hv
      dsimp only
      rw [h.idle v hw]
      exact ⟨Or.inl rfl, hinterface, hcount⟩
    · exact h.begun v item ((hothers v hvw).symm.trans hv)
  · exact h.finished x (hresults ▸ hread ▸ hx)
  · refine h.unbegun a fun hmem ↦ ha ?_
    exact ((hprocessed.map Prod.snd).subset hmem)

theorem Agrees.pool (h : Agrees b g r s) {w : Fin n}
    (hw : ∀ item, s.runner.pool.workers w ≠ .processing item)
    {pool : WorkerPool n ItemType Bool}
    (hpool : s.runner.pool.workerStep (fun _ ↦ true) w = some pool) :
    Agrees b g r { s with runner := { s.runner with pool } } := by
  have hsame : s.runner.pool.workerStep (builds r) w = some pool := by
    rw [← hpool]
    unfold WorkerPool.workerStep
    split <;> first | rfl | (next hworker => exact absurd hworker (hw _))
  have hruns := h.runs.worker hsame
  rcases WorkerPool.workerStep_cases hpool with ⟨-, rfl⟩ |
    ⟨item, queue, -, hqueue, rfl⟩ | ⟨queue, -, -, rfl⟩ | ⟨item, hworker, -⟩
  · refine h.setPool hw hruns (fun v hv ↦ Function.update_of_ne hv _ _) rfl rfl List.prefix_rfl ?_
    intro item hitem
    cases (Function.update_self w _ _).symm.trans hitem
  · refine h.setPool hw hruns (fun v hv ↦ Function.update_of_ne hv _ _) rfl rfl
      (List.prefix_append _ _) ?_
    intro other hother
    obtain rfl := WorkerPhase.processing.inj ((Function.update_self w _ _).symm.trans hother)
    -- The item that the worker takes from its queue has not been begun.
    have hqueued := numQueued_pos hqueue
    have hle := h.runs.places_le item
    have hrunning : s.runner.evaluator.stateOf item = .running := by
      refine h.runs.running_of_places ?_
      omega
    refine h.fresh (fun hmem ↦ ?_) (by rw [hrunning]; decide)
    have hpos := List.count_pos_iff.mpr hmem
    have hcount := h.runs.conserved.processed item
    omega
  · refine h.setPool hw hruns (fun v hv ↦ Function.update_of_ne hv _ _) rfl rfl List.prefix_rfl ?_
    intro item hitem
    cases (Function.update_self w _ _).symm.trans hitem
  · exact absurd hworker (hw item)

/-- A builder has returned, and its worker makes the result available. -/
theorem Agrees.finish (hg : ErrorFree g) (hr : Settled b g g.inOrder r) (h : Agrees b g r s)
    {w : Fin n} {item : ItemType} {parser : Option Parser} {status : Bool}
    (hworker : s.runner.pool.workers w = .processing item)
    (hbuilder : s.builders w = .returned parser status) {pool : WorkerPool n ItemType Bool}
    (hpool : s.runner.pool.workerStep (fun _ ↦ status) w = some pool) :
    Agrees b g r { s with
      runner := { s.runner with pool }
      builders := Function.update s.builders w .called } := by
  obtain ⟨hinterface, hbuilds⟩ := h.returned hg hr hworker hbuilder
  have hbegun := h.begun w item hworker
  rw [hbuilder] at hbegun
  have hfinish : pool = s.runner.pool.finish (fun _ ↦ status) w item := by
    unfold WorkerPool.workerStep at hpool
    rw [hworker] at hpool
    exact (Option.some_inj.mp hpool).symm
  have hsame : s.runner.pool.workerStep (builds r) w = some pool := by
    unfold WorkerPool.workerStep
    rw [hworker, hfinish]
    unfold WorkerPool.finish
    dsimp only
    rw [hbuilds]
  have hruns := h.runs.worker hsame
  subst hfinish
  refine { h with
    runs := hruns
    idle := fun v hv ↦ ?_
    begun := fun v other hv ↦ ?_
    finished := fun x hx ↦ ?_ }
  · by_cases hvw : v = w
    · subst hvw
      exact Function.update_self v _ _
    · refine (Function.update_of_ne hvw _ _).trans (h.idle v fun other hother ↦ hv other ?_)
      exact (Function.update_of_ne hvw _ _).trans hother
  · by_cases hvw : v = w
    · subst hvw
      cases (Function.update_self v _ _).symm.trans hv
    · dsimp only
      rw [Function.update_of_ne hvw]
      exact h.begun v other ((Function.update_of_ne hvw _ _).symm.trans hv)
  · rcases hx with hx | hx
    · rcases List.mem_append.mp hx with hx | hx
      · exact h.finished x (Or.inl hx)
      · obtain rfl := List.mem_singleton.mp hx
        refine ⟨hbegun.interface.trans hinterface.symm, hbegun.failed.trans ?_⟩
        cases status <;> rfl
    · exact h.finished x (Or.inr hx)

/-- The first section of a builder. -/
theorem Agrees.enter (hg : ErrorFree g) (hr : Settled b g g.inOrder r) (h : Agrees b g r s)
    {w : Fin n} {item : ItemType} (hworker : s.runner.pool.workers w = .processing item)
    (hbuilder : s.builders w = .called) {phase : BuilderPhase Parser}
    (hphase : b.itemBuilder s.runner.evaluator.graph s.shared item false = some phase) :
    Agrees b g r { s with
      builders := Function.update s.builders w phase
      shared := s.shared.leave item phase } := by
  obtain ⟨first, -, -, hfirst, hsame, -⟩ :=
    h.builder hg hr (Or.inr (Or.inl (h.runs.running_of_processing hworker)))
  rw [h.runs.sound.ofGraph.graph_eq] at hphase
  obtain rfl := Option.some_inj.mp (hsame.symm.trans hphase)
  refine h.section hworker (Or.inr ⟨first, hfirst, Or.inl rfl⟩) ?_ ?_
  · rw [hbuilder]
    exact Option.or_none
  · rw [hbuilder]
    rfl

/-- The second section of a builder. -/
theorem Agrees.backend (h : Agrees b g r s) {w : Fin n} {item : ItemType}
    {parser : Option Parser} (hworker : s.runner.pool.workers w = .processing item)
    (hbuilder : s.builders w = .invoking parser) :
    Agrees b g r { s with
      builders := Function.update s.builders w (b.afterBackend item (.invoking parser))
      shared := s.shared.leave item (b.afterBackend item (.invoking parser)) } := by
  obtain ⟨parser', status', hend, hsome⟩ :=
    ItemBuilder.afterBuild_returned (b := b) item parser (b.invokeBackend item parser)
  have hreturned : b.afterBackend item (.invoking parser) = .returned parser' status' := hend
  refine h.section hworker ?_ ?_ ?_
  · have hcourse := (h.begun w item hworker).onCourse
    rw [hbuilder] at hcourse
    rcases hcourse with hcalled | ⟨first, hfirst, rfl | hafter⟩
    · cases hcalled
    · exact Or.inr ⟨_, hfirst, Or.inr rfl⟩
    · obtain ⟨parser'', status'', hend', -⟩ := ItemBuilder.afterBackend_cases hfirst
      cases hafter.trans hend'
  · rw [hreturned, hbuilder]
    show parser'.or parser = parser'
    cases parser' with
    | none =>
      obtain rfl := Option.isSome_eq_false_iff.mp hsome.symm |> Option.isNone_iff_eq_none.mp
      rfl
    | some parser' => rfl
  · rw [hbuilder]
    rfl

theorem Agrees.act (hg : ErrorFree g) (hr : Settled b g g.inOrder r) (h : Agrees b g r s)
    {stopOnError : Bool} {actor : Actor n} (hs : s.act b stopOnError actor = some s') :
    Agrees b g r s' := by
  cases actor with
  | controller =>
    rcases controllerStep_cases hs with ⟨item, state, hchange, hcallback⟩ |
      ⟨hnone, runner, hrunner, rfl⟩
    · exact h.callback hchange hcallback
    · exact h.runner hg hnone hrunner
  | worker w =>
    rcases workerStep_cases hs with ⟨item, phase, hworker, hbuilder, hphase, rfl⟩ |
      ⟨item, parser, hworker, hbuilder, rfl⟩ |
      ⟨item, parser, status, pool, hworker, hbuilder, hpool, rfl⟩ | ⟨pool, hw, hpool, rfl⟩
    · exact h.enter hg hr hworker hbuilder hphase
    · exact h.backend hworker hbuilder
    · exact h.finish hg hr hworker hbuilder hpool
    · exact h.pool hw hpool

theorem Agrees.runSchedule (hg : ErrorFree g) (hr : Settled b g g.inOrder r)
    {stopOnError : Bool} {schedule : List (Actor n)} (h : Agrees b g r s)
    (hs : s.runSchedule b stopOnError schedule = some s') : Agrees b g r s' :=
  Fallible.foldlM_induction hs h fun _ _ _ _ hact hagrees ↦ hagrees.act hg hr hact

theorem invariant_setChangeCallback {method : ItemType → Bool} {runner : DependencyRunner n}
    (h : Invariant g method runner) :
    Invariant g method { runner with evaluator := runner.evaluator.setChangeCallback true } :=
  { h with
    sound := ⟨⟨h.sound.ofGraph.graph_eq, h.sound.ofGraph.mem_states⟩, h.sound.propagateFailure,
      h.sound.depfailed, h.sound.started, h.sound.waiting⟩
    counted := h.counted
    inFlight := h.inFlight
    submitted := h.submitted
    status := h.status
    anyErrors := h.anyErrors
    phase := h.phase }

theorem start_agrees (hg : ErrorFree g) (hn : 1 ≤ n) (b : ItemBuilder Parser)
    (r : SerialBuild Parser) :
    ∃ s, start n Parser g false = some s ∧ Agrees b g r s := by
  obtain ⟨runner, hstart, hinvariant⟩ := start_spec (n := n) hg hn (builds r)
  refine ⟨_, Option.bind_eq_some_iff.mpr ⟨runner, hstart, rfl⟩, ?_⟩
  obtain ⟨evaluator, hnew, hrest⟩ := Option.bind_eq_some_iff.mp hstart
  obtain ⟨pool, hpool, hrunner⟩ := Option.bind_eq_some_iff.mp hrest
  obtain rfl := Option.some_inj.mp hrunner
  obtain rfl : pool = ⟨false, [], [], fun _ ↦ [], fun _ ↦ .starting, [], [], []⟩ := by
    unfold WorkerPool.new at hpool
    rw [if_pos hn] at hpool
    exact (Option.some_inj.mp hpool).symm
  exact
    { runs := ⟨fun hstop ↦ absurd hstop Bool.false_ne_true,
        Or.inl (invariant_setChangeCallback hinvariant)⟩
      reported := reported_setChangeCallback hg hnew
      called_le := Nat.zero_le _
      told := fun hjoining ↦ hjoining.elim
      idle := fun _ _ ↦ rfl
      begun := fun _ _ hworker ↦ by cases hworker
      finished := fun _ hx ↦ absurd hx (not_or.mpr ⟨List.not_mem_nil, List.not_mem_nil⟩)
      unbegun := fun a _ ↦
        ⟨TreeMap.getElem?_emptyc, (if_neg fun hboth ↦ List.not_mem_nil hboth.1).symm⟩ }

/-! ### The end of the build -/

section Results

variable (hg : ErrorFree g) (hr : Settled b g g.inOrder r) (h : Agrees b g r s)
include hg hr h

/-- An item that has come to its end is in the state that it has in the serial build. -/
theorem Agrees.stateOf_eq : ∀ a ∈ g.inOrder, (s.runner.evaluator.stateOf a).Terminal →
    s.runner.evaluator.stateOf a = r.stateOf a := by
  refine hg.ordered.induction fun a ha ih hterminal ↦ ?_
  have hfinished : s.runner.evaluator.stateOf a = .completed ∨
      s.runner.evaluator.stateOf a = .failed → s.runner.evaluator.stateOf a = r.stateOf a := by
    intro hstate
    obtain ⟨-, -, status, -, -, -, -, hr'⟩ := h.builder hg hr (Or.inr (Or.inr hstate))
    have hstatus := h.runs.status hstate
    unfold builds at hstatus
    rw [hr'] at hstatus ⊢
    rw [hstatus]
    cases status <;> rfl
  rcases hterminal with hstate | hstate | hstate
  · exact hfinished (Or.inl hstate)
  · exact hfinished (Or.inr hstate)
  · obtain ⟨d, hd, hbad⟩ := h.runs.sound.depfailed a hstate
    have hsame := ih d hd (hbad.elim (fun hd ↦ Or.inr (Or.inl hd)) fun hd ↦ Or.inr (Or.inr hd))
    obtain ⟨deps, hdeps, hmem⟩ := hg.getDirectDependencies ha
    have hany : deps.any r.isFailure = true := by
      refine List.any_eq_true.mpr ⟨d, (hmem d).mpr hd, decide_eq_true ?_⟩
      rwa [← hsame]
    rw [hstate, (hr.depfailed a ha deps hdeps hany).1]

/-- Its interface is that of the serial build. -/
theorem Agrees.interface_eq {a : ItemType} (ha : (s.runner.evaluator.stateOf a).Terminal) :
    s.shared.interfaces[a]? = r.shared.interfaces[a]? := by
  have hfinished : s.runner.evaluator.stateOf a = .completed ∨
      s.runner.evaluator.stateOf a = .failed →
        s.shared.interfaces[a]? = r.shared.interfaces[a]? := by
    intro hstate
    obtain ⟨x, hx, rfl, -⟩ := h.runs.exists_read hstate
    exact (h.finished x (Or.inr hx)).1
  rcases id ha with hstate | hstate | hstate
  · exact hfinished (Or.inl hstate)
  · exact hfinished (Or.inr hstate)
  · have hmem := h.mem_inOrder (show s.runner.evaluator.stateOf a ≠ .waiting by rw [hstate]; decide)
    have hr' := h.stateOf_eq hg hr a hmem ha
    have hnot : a ∉ s.runner.pool.processed.map Prod.snd := fun hmem ↦ by
      have hhanded := h.runs.handed_of_processed hmem
      rw [hstate] at hhanded
      exact absurd hhanded (by decide)
    rw [(h.unbegun a hnot).1]
    obtain ⟨deps, hdeps, -⟩ := hg.getDirectDependencies hmem
    cases hany : deps.any r.isFailure with
    | true => exact (hr.depfailed a hmem deps hdeps hany).2.symm
    | false =>
      obtain ⟨parser, status, -, -, hstatus⟩ := hr.built a hmem deps hdeps hany
      rw [hstate, hstatus] at hr'
      cases status <;> cases hr'

omit h in
/-- How often the serial build has an item among the failed builds. -/
theorem count_failedBuilds (a : ItemType) : r.shared.failedBuilds.count a =
    if a ∈ g.inOrder ∧ b.isReported a (r.stateOf a) = true then 1 else 0 := by
  rw [hr.failedBuilds, List.Nodup.count (hg.checked.nodup.filter _)]
  simp only [List.mem_filter]

/-- The failed builds are among those of the serial build, each once at most. -/
theorem Agrees.count_le (a : ItemType) :
    s.shared.failedBuilds.count a ≤ r.shared.failedBuilds.count a := by
  have hreported : s.runner.evaluator.stateOf a ≠ .waiting →
      b.isReported a (r.stateOf a) = true → r.shared.failedBuilds.count a = 1 := by
    intro hstate hmem
    rw [count_failedBuilds hg hr, if_pos ⟨h.mem_inOrder hstate, hmem⟩]
  have hfailed : Handed (s.runner.evaluator.stateOf a) → builds r a = false →
      r.shared.failedBuilds.count a = 1 := by
    intro hhanded hbuilds
    have hstarted : Started (s.runner.evaluator.stateOf a) := Or.inr hhanded
    obtain ⟨-, -, status, -, -, -, -, hstate⟩ := h.builder hg hr hstarted
    refine hreported (fun hwaiting ↦ ?_) ?_
    · rw [hwaiting] at hhanded
      exact absurd hhanded (by decide)
    · unfold builds at hbuilds
      rw [hstate] at hbuilds ⊢
      cases status with
      | true => exact absurd hbuilds (by decide)
      | false => rfl
  by_cases hprocessed : a ∈ s.runner.pool.processed.map Prod.snd
  · have hhanded := h.runs.handed_of_processed hprocessed
    rcases (h.runs.processed_iff a).mp hprocessed with hpos | ⟨x, hx, rfl⟩
    · obtain ⟨w, hw⟩ := exists_processing hpos
      rw [(h.begun w a hw).failed]
      cases hbuilder : s.builders w with
      | returned parser status =>
        cases status with
        | true => exact Nat.zero_le _
        | false => exact (hfailed hhanded (h.returned hg hr hw hbuilder).2).ge
      | _ => exact Nat.zero_le _
    · rw [(h.finished x hx).2]
      have hstatus := h.runs.conserved.status x hx
      split_ifs with hx2
      · exact Nat.zero_le _
      · exact (hfailed hhanded (hstatus.symm.trans (Bool.eq_false_iff.mpr hx2))).ge
  · rw [(h.unbegun a hprocessed).2]
    split_ifs with hboth
    · obtain ⟨htold, hforced⟩ := hboth
      have hstate : s.runner.evaluator.stateOf a = .depfailed := by
        by_contra hne
        exact not_mem_changes h hne (List.mem_of_mem_take htold)
      have hmem :=
        h.mem_inOrder (show s.runner.evaluator.stateOf a ≠ .waiting by rw [hstate]; decide)
      refine (hreported (by rw [hstate]; decide) ?_).ge
      rw [← h.stateOf_eq hg hr a hmem (Or.inr (Or.inr hstate)), hstate]
      exact hforced
    · exact Nat.zero_le _

/-- When the build has returned without a stop, the failed builds are those of the serial build. -/
theorem Agrees.count_eq {result : Bool} (hphase : s.runner.phase = .returned result)
    (hstop : s.runner.stop = false) (a : ItemType) :
    s.shared.failedBuilds.count a = r.shared.failedBuilds.count a := by
  obtain ⟨-, -, hstopped⟩ := h.runs.returned hphase
  have hterminal := hstopped.resolve_left fun hstop' ↦ by
    rw [hstop] at hstop'
    cases hstop'
  refine le_antisymm (h.count_le hg hr a) ?_
  rw [count_failedBuilds hg hr]
  split_ifs with hboth
  · obtain ⟨hmem, hreported⟩ := hboth
    rw [← h.stateOf_eq hg hr a hmem (hterminal a hmem)] at hreported
    rcases hterminal a hmem with hstate | hstate | hstate
    · rw [hstate] at hreported
      cases hreported
    · obtain ⟨x, hx, rfl, hx2⟩ := h.runs.exists_read (Or.inr hstate)
      have hstatus := h.runs.status (Or.inr hstate)
      rw [hstate, ← hx2] at hstatus
      rw [(h.finished x (Or.inr hx)).2]
      cases hx3 : x.2 with
      | true =>
        rw [hx3] at hstatus
        cases hstatus
      | false => exact le_rfl
    · have hnot : a ∉ s.runner.pool.processed.map Prod.snd := fun hprocessed ↦ by
        have hhanded := h.runs.handed_of_processed hprocessed
        rw [hstate] at hhanded
        exact absurd hhanded (by decide)
      have hcount := h.reported.heard.count_depfailed a
      rw [if_pos hstate] at hcount
      have htold : (a, .depfailed) ∈ s.runner.evaluator.changes.take s.called := by
        rw [h.told (by rw [hphase]; trivial), List.take_length]
        exact List.count_pos_iff.mp (by rw [hcount]; decide)
      rw [hstate] at hreported
      rw [(h.unbegun a hnot).2, if_pos ⟨htold, hreported⟩]
  · exact Nat.zero_le _

/-- The build returns without an error exactly if the serial build has none. -/
theorem Agrees.result_iff {result : Bool} (hphase : s.runner.phase = .returned result) :
    result = true ↔ r.shared.failedBuilds = [] := by
  obtain ⟨-, hresult, hstopped⟩ := h.runs.returned hphase
  rw [hresult]
  constructor
  · intro hnone
    have hnofail : ∀ a, s.runner.evaluator.stateOf a ≠ .failed := fun a hfailed ↦ by
      rw [h.runs.anyErrors.mpr ⟨a, hfailed⟩] at hnone
      cases hnone
    have hterminal := hstopped.resolve_left fun hstop ↦ by
      rw [h.runs.stop hstop] at hnone
      cases hnone
    have hcompleted : ∀ a ∈ g.inOrder, s.runner.evaluator.stateOf a = .completed := by
      refine hg.ordered.induction fun a ha ih ↦ ?_
      rcases hterminal a ha with hstate | hstate | hstate
      · exact hstate
      · exact absurd hstate (hnofail a)
      · obtain ⟨d, hd, hbad⟩ := h.runs.sound.depfailed a hstate
        rw [ih d hd] at hbad
        exact absurd hbad (by decide)
    rw [hr.failedBuilds, List.filter_eq_nil_iff]
    intro a ha
    rw [h.completed (hcompleted a ha)]
    exact Bool.false_ne_true
  · intro hnil
    refine Bool.eq_false_iff.mpr fun herrors ↦ ?_
    obtain ⟨a, hfailed⟩ := h.runs.anyErrors.mp herrors
    have hmem :=
      h.mem_inOrder (show s.runner.evaluator.stateOf a ≠ .waiting by rw [hfailed]; decide)
    have hcount := count_failedBuilds hg hr a
    rw [← h.stateOf_eq hg hr a hmem (Or.inr (Or.inl hfailed)), hfailed, hnil,
      if_pos ⟨hmem, rfl⟩] at hcount
    cases hcount

/-- An interface that is imported is there. -/
theorem Agrees.itemBuilder_isSome {w : Fin n} {item : ItemType}
    (hw : s.runner.pool.workers w = .processing item) :
    (b.itemBuilder s.runner.evaluator.graph s.shared item false).isSome := by
  obtain ⟨first, -, -, -, hfirst, -⟩ :=
    h.builder hg hr (Or.inr (Or.inl (h.runs.running_of_processing hw)))
  rw [h.runs.sound.ofGraph.graph_eq, hfirst]
  rfl

/-- Until the build returns, some actor has a step. -/
theorem Agrees.act_isSome (hn : 1 ≤ n) (stopOnError : Bool)
    (hphase : ∀ result, s.runner.phase ≠ .returned result) :
    ∃ actor, (s.act b stopOnError actor).isSome := by
  cases hchange : s.runner.evaluator.changes[s.called]? with
  | some change =>
    refine ⟨.controller, ?_⟩
    show (s.controllerStep b stopOnError).isSome
    unfold controllerStep
    rw [hchange]
    show (s.stateChangeCallback b change.1 change.2).isSome
    rw [stateChangeCallback_eq]
    rfl
  | none =>
    rcases h.runs.act_isSome hg hn stopOnError hphase with hstep | ⟨w, hstep⟩
    · refine ⟨.controller, ?_⟩
      show (s.controllerStep b stopOnError).isSome
      obtain ⟨runner, hrunner⟩ := Option.isSome_iff_exists.mp hstep
      unfold controllerStep
      rw [hchange]
      show ((s.runner.controllerStep stopOnError).bind _).isSome
      rw [hrunner]
      rfl
    · refine ⟨.worker w, ?_⟩
      show (s.workerStep b w).isSome
      unfold workerStep
      split
      · next item hworker hbuilder =>
        obtain ⟨phase, hsome⟩ := Option.isSome_iff_exists.mp (h.itemBuilder_isSome hg hr hworker)
        show ((b.itemBuilder s.runner.evaluator.graph s.shared item false).bind _).isSome
        rw [hsome]
        rfl
      · rfl
      · next item parser status hworker hbuilder =>
        show ((s.runner.pool.workerStep (fun _ ↦ status) w).bind _).isSome
        unfold WorkerPool.workerStep
        rw [hworker]
        rfl
      · next hcalled hinvoking hreturned =>
        have hsame : s.runner.pool.workerStep (fun _ ↦ true) w =
            s.runner.pool.workerStep (builds r) w := by
          unfold WorkerPool.workerStep
          split <;> first | rfl | skip
          next item hworker =>
            cases hbuilder : s.builders w with
            | called => exact absurd hbuilder (hcalled item hworker)
            | invoking parser => exact absurd hbuilder (hinvoking item parser hworker)
            | returned parser status => exact absurd hbuilder (hreturned item parser status hworker)
        show ((s.runner.pool.workerStep (fun _ ↦ true) w).bind _).isSome
        obtain ⟨pool, hpool⟩ := Option.isSome_iff_exists.mp hstep
        rw [hsame, hpool]
        rfl

end Results

theorem stop_of_act {stopOnError : Bool} {actor : Actor n}
    (hs : s.act b stopOnError actor = some s') (hstop : s'.runner.stop = true) :
    s.runner.stop = true ∨ stopOnError = true := by
  cases actor with
  | controller =>
    rcases controllerStep_cases hs with ⟨item, state, -, hcallback⟩ | ⟨-, runner, hrunner, rfl⟩
    · rw [stateChangeCallback_eq] at hcallback
      obtain rfl := Option.some_inj.mp hcallback
      split_ifs at hstop
      · exact Or.inl hstop
      · exact Or.inl hstop
    · exact (keeps_of_controllerStep hrunner).stop hstop
  | worker w =>
    rcases workerStep_cases hs with ⟨_, _, -, -, -, rfl⟩ | ⟨_, _, -, -, rfl⟩ |
      ⟨_, _, _, _, -, -, -, rfl⟩ | ⟨_, -, -, rfl⟩
    · exact Or.inl hstop
    · exact Or.inl hstop
    · exact Or.inl hstop
    · exact Or.inl hstop

/-- In every order of the steps of the threads, with any number of workers: the interfaces that a
builder imports are there; an item that has come to its end is in the state and has the interface
that it has when the items are built one after the other; and the failed builds are among those of
this serial build. The build does not get stuck. When it has returned, it has failed if the serial
build has, and unless it stops at the first error the failed builds are the same. -/
theorem build_serial (b : ItemBuilder Parser) (hg : ErrorFree g) (hn : 1 ≤ n)
    (stopOnError : Bool) :
    ∃ (s₀ : BuildRun n Parser) (r : SerialBuild Parser), start n Parser g false = some s₀ ∧
      SerialBuild.buildAll b g = some r ∧
      ∀ schedule s, s₀.runSchedule b stopOnError schedule = some s →
        (∀ w item, s.runner.pool.workers w = .processing item →
          (b.itemBuilder s.runner.evaluator.graph s.shared item false).isSome) ∧
        (∀ a ∈ g.inOrder, (s.runner.evaluator.stateOf a).Terminal →
          s.runner.evaluator.stateOf a = r.stateOf a ∧
            s.shared.interfaces[a]? = r.shared.interfaces[a]?) ∧
        s.shared.failedBuilds.Subperm r.shared.failedBuilds ∧
        ((∀ result, s.runner.phase ≠ .returned result) →
          ∃ actor, (s.act b stopOnError actor).isSome) ∧
        ∀ result, s.runner.phase = .returned result →
          (result = true ↔ r.shared.failedBuilds = []) ∧
          (stopOnError = false → (∀ a ∈ g.inOrder, (s.runner.evaluator.stateOf a).Terminal) ∧
            s.shared.failedBuilds.Perm r.shared.failedBuilds) := by
  obtain ⟨r, hr, hsettled⟩ := SerialBuild.buildAll_settled b hg
  obtain ⟨s₀, hstart, hagrees⟩ := start_agrees hg hn b r
  refine ⟨s₀, r, hstart, hr, fun schedule s hs ↦ ?_⟩
  have h := hagrees.runSchedule hg hsettled hs
  have hcount := h.count_le hg hsettled
  refine ⟨fun w item hw ↦ h.itemBuilder_isSome hg hsettled hw,
    fun a ha hterminal ↦ ⟨h.stateOf_eq hg hsettled a ha hterminal,
      h.interface_eq hg hsettled hterminal⟩,
    List.subperm_ext_iff.mpr fun a _ ↦ hcount a,
    h.act_isSome hg hsettled hn stopOnError,
    fun result hphase ↦ ⟨h.result_iff hg hsettled hphase, fun hkeepGoing ↦ ?_⟩⟩
  have hstop : s.runner.stop = false := by
    have hnever : s.runner.stop = true → stopOnError = true := by
      refine Fallible.foldlM_induction (motive := fun s ↦ s.runner.stop = true → stopOnError = true)
        hs (fun hstop ↦ ?_) fun _ _ _ _ hact ih hstop ↦ ?_
      · have hnone : s₀.runner.stop = false := by
          obtain ⟨runner, hrunner, hsome⟩ := Option.bind_eq_some_iff.mp hstart
          obtain ⟨evaluator, -, hrest⟩ := Option.bind_eq_some_iff.mp hrunner
          obtain ⟨pool, -, hpool⟩ := Option.bind_eq_some_iff.mp hrest
          obtain rfl := Option.some_inj.mp hpool
          obtain rfl := Option.some_inj.mp hsome
          rfl
        rw [hnone] at hstop
        cases hstop
      · exact (stop_of_act hact hstop).elim ih id
    refine Bool.eq_false_iff.mpr fun hstop ↦ ?_
    rw [hkeepGoing] at hnever
    exact absurd (hnever hstop) Bool.false_ne_true
  obtain ⟨-, -, hstopped⟩ := h.runs.returned hphase
  refine ⟨hstopped.resolve_left fun hstop' ↦ ?_,
    List.perm_iff_count.mpr fun a ↦ h.count_eq hg hsettled hphase hstop a⟩
  rw [hstop] at hstop'
  cases hstop'

/-- Two items, the second of which depends on the first. -/
def chainAdditions : List Addition := [.addItem "b", .addItem "a", .addDependency "b" "a"]

/-- A builder that records the names of the items, whose backend fails for some. -/
def chainBuilder (forcedFailures : TreeSet ItemType) (fails : ItemType → Bool) :
    ItemBuilder (List ItemType) where
  noOp := false
  forcedFailures
  hasBuildFile _ := true
  filter _ := true
  isBuildItemWritable _ := true
  createItemInterface item imported := (imported.flatten ++ [item], true)
  hasAfterBuilds _ := false
  invokeBackend item _ := !fails item
  readAfterBuilds _ parser := (parser, true)

/-- The first item fails, in every order of the steps of two workers. -/
theorem build_serial_chain :
    ∃ g s₀, (build chainAdditions).bind check = some (true, g) ∧
      start 2 (List ItemType) g false = some s₀ ∧
      ∀ schedule s,
        s₀.runSchedule (chainBuilder ∅ fun item ↦ item == "a") false schedule = some s →
          ∀ result, s.runner.phase = .returned result → result = false ∧
            s.shared.failedBuilds.Perm ["a"] := by
  have hboth : ((build chainAdditions).bind check).bind (fun x ↦
      (SerialBuild.buildAll (chainBuilder ∅ fun item ↦ item == "a") x.2).map fun r ↦
        (x.1, r.shared.failedBuilds)) = some (true, ["a"]) := by decide
  obtain ⟨⟨result, g⟩, hg, hrest⟩ := Option.bind_eq_some_iff.mp hboth
  obtain ⟨r, hr, hsame⟩ := Option.map_eq_some_iff.mp hrest
  obtain ⟨hresult, hfailed⟩ := Prod.mk.inj hsame
  obtain rfl : result = true := hresult
  obtain ⟨s₀, r', hstart, hr', hrun⟩ := build_serial (n := 2)
    (chainBuilder ∅ fun item ↦ item == "a") (errorFree_of_build hg) (by decide) false
  obtain rfl := Option.some_inj.mp (hr.symm.trans hr')
  refine ⟨g, s₀, hg, hstart, fun schedule s hs result hphase ↦ ?_⟩
  obtain ⟨-, -, -, -, hreturned⟩ := hrun schedule s hs
  obtain ⟨hiff, hkeepGoing⟩ := hreturned result hphase
  obtain ⟨-, hperm⟩ := hkeepGoing rfl
  rw [hfailed] at hiff hperm
  refine ⟨Bool.eq_false_iff.mpr fun htrue ↦ ?_, hperm⟩
  cases hiff.mp htrue

/-- A worker that goes on as long as it can, and then the thread that runs `run`. -/
def forcedSchedule : List (Actor 1) :=
  [.worker 0] ++ List.replicate 9 .controller ++ List.replicate 3 (.worker 0) ++
    List.replicate 13 .controller ++ [.worker 0]

/-- Failure propagation is needed: without it, an item that depends on a forced failure is built,
and imports an interface that has never been created. -/
theorem not_isSome_itemBuilder :
    ∃ (b : ItemBuilder (List ItemType)) (g : DependencyGraph) (s₀ s : BuildRun 1 (List ItemType)),
      ErrorFree g ∧ start 1 (List ItemType) g true = some s₀ ∧
        s₀.runSchedule b false forcedSchedule = some s ∧
          s.runner.pool.workers 0 = .processing "b" ∧
            (b.itemBuilder s.runner.evaluator.graph s.shared "b" false).isSome = false := by
  have hrun : ((build chainAdditions).bind check).bind (fun x ↦
      ((start 1 (List ItemType) x.2 true).bind fun s₀ ↦
        s₀.runSchedule (chainBuilder (TreeSet.ofList ["a"]) fun _ ↦ false) false
          forcedSchedule).map fun s ↦
        (x.1, s.runner.pool.workers 0, ((chainBuilder (TreeSet.ofList ["a"])
          fun _ ↦ false).itemBuilder s.runner.evaluator.graph s.shared "b" false).isSome)) =
      some (true, .processing "b", false) := by rfl
  obtain ⟨⟨result, g⟩, hg, hrest⟩ := Option.bind_eq_some_iff.mp hrun
  obtain ⟨s, hs, hsame⟩ := Option.map_eq_some_iff.mp hrest
  obtain ⟨s₀, hstart, hschedule⟩ := Option.bind_eq_some_iff.mp hs
  obtain ⟨hresult, hboth⟩ := Prod.mk.inj hsame
  obtain ⟨hworker, hnone⟩ := Prod.mk.inj hboth
  obtain rfl : result = true := hresult
  exact ⟨_, g, s₀, s, errorFree_of_build hg, hstart, hschedule, hworker, hnone⟩

end Abuild.BuildRun
