import Abuild.BuildRun.Parallel

/-!
What the monitor is told of a build: a line for every change of the state of an item, in the order
of the calls of `stateChangeCallback`. In every run the lines of an item are a path of states, an
item is told to be ready after all that it depends on have been told to be completed, it is told to
be running before a worker has it, and at the end the states that were told last are those of the
items.
-/

set_option autoImplicit false
set_option relaxedAutoImplicit false

namespace Abuild.BuildRun

open DependencyGraph DependencyEvaluator DependencyRunner

variable {n : ℕ} {Parser : Type} {b : ItemBuilder Parser} {g : DependencyGraph}
  {r : SerialBuild Parser} {s s' : BuildRun n Parser}

/-- The changes for which the callback has been called. -/
def told (s : BuildRun n Parser) : List (ItemType × ItemState) :=
  s.runner.evaluator.changes.take s.called

/-- The states that an item has been told to have. -/
def statesTold (s : BuildRun n Parser) (item : ItemType) : List ItemState :=
  (s.told.filter (·.1 == item)).map Prod.snd

theorem told_isPrefix (s : BuildRun n Parser) : s.told <+: s.runner.evaluator.changes :=
  List.take_prefix _ _

theorem statesTold_isPrefix (s : BuildRun n Parser) (item : ItemType) :
    s.statesTold item <+: s.runner.evaluator.heard item :=
  (s.told_isPrefix.filter _).map _

/-- Whatever the workers have been given has been told to be running. -/
def Announced (s : BuildRun n Parser) : Prop :=
  ∀ a ∈ s.runner.pool.submitted, (a, .running) ∈ s.told

theorem Announced.act (h : Agrees b g r s) (ha : Announced s) {stopOnError : Bool}
    {actor : Actor n} (hs : s.act b stopOnError actor = some s') : Announced s' := by
  cases actor with
  | controller =>
    rcases controllerStep_cases hs with ⟨item, state, hchange, hcallback⟩ |
      ⟨hnone, runner, hrunner, rfl⟩
    · rw [stateChangeCallback_eq] at hcallback
      obtain rfl := Option.some_inj.mp hcallback
      intro a hsubmitted
      have hmem : (a, ItemState.running) ∈ s.told := by
        refine ha a ?_
        split_ifs at hsubmitted <;> exact hsubmitted
      unfold told at hmem ⊢
      have hmore := (List.take_prefix_take_left (l := s.runner.evaluator.changes)
        (Nat.le_succ s.called)).subset hmem
      split_ifs <;> exact hmore
    · -- The runner gives an item to the workers when all changes have been told.
      have hkeeps := keeps_of_controllerStep hrunner
      have hcalled := le_antisymm h.called_le (List.getElem?_eq_none_iff.mp hnone)
      have hall : s.told = s.runner.evaluator.changes := by
        unfold told
        rw [hcalled, List.take_length]
      have hmore := hkeeps.changes.changes_prefix
      have htold : s.told <+: told { s with runner } := by
        rw [hall]
        refine List.prefix_of_prefix_length_le hmore (told_isPrefix { s with runner }) ?_
        unfold told
        rw [List.length_take, hcalled]
        exact le_min le_rfl hmore.length_le
      intro a hsubmitted
      refine htold.subset ?_
      rcases hkeeps.submitted a hsubmitted with hbefore | hnow
      · exact ha a hbefore
      · have hflight := h.runs.inFlight a
        rw [if_pos hnow] at hflight
        have hrunning : s.runner.evaluator.stateOf a = .running := by
          by_contra hne
          rw [if_neg hne] at hflight
          omega
        rw [hall]
        exact h.reported.heard.mem_changes hrunning ItemState.noConfusion
  | worker w =>
    rcases workerStep_cases hs with ⟨item, phase, -, -, -, rfl⟩ | ⟨item, parser, -, -, rfl⟩ |
      ⟨item, parser, status, pool, -, -, hpool, rfl⟩ | ⟨pool, -, hpool, rfl⟩
    · exact ha
    · exact ha
    · obtain ⟨-, hsubmitted, -⟩ := workerStep_keeps hpool
      exact fun a hmem ↦ ha a (hsubmitted ▸ hmem)
    · obtain ⟨-, hsubmitted, -⟩ := workerStep_keeps hpool
      exact fun a hmem ↦ ha a (hsubmitted ▸ hmem)

/-- The states of a path are more and more advanced, so that none comes twice. -/
theorem nodup_of_isChain_follows {states : List ItemState} (h : states.IsChain Follows) :
    states.Nodup := by
  have hranks : (states.map rank).IsChain (· < ·) :=
    (List.isChain_map rank).mpr (h.imp fun _ _ hfollows ↦ hfollows.rank_lt)
  exact (List.isChain_iff_pairwise.mp hranks).nodup.of_map rank

/-- The state changes that the monitor is told of, in every order of the steps of the threads. -/
theorem stateChanges_told (b : ItemBuilder Parser) (hg : ErrorFree g) (hn : 1 ≤ n)
    (stopOnError : Bool) :
    ∃ s₀ : BuildRun n Parser, start n Parser g false = some s₀ ∧
      ∀ schedule s, s₀.runSchedule b stopOnError schedule = some s →
        Explained g s.told ∧
        (∀ item ∈ g.inOrder, (s.statesTold item).IsChain Follows ∧ (s.statesTold item).Nodup ∧
          ∀ state, (s.statesTold item).head? = some state → state = .waiting ∨ state = .ready) ∧
        (∀ w item, s.runner.pool.workers w = .processing item → (item, .running) ∈ s.told) ∧
        ∀ result, s.runner.phase = .returned result → ∀ item ∈ g.inOrder,
          (s.statesTold item).getLast? = some (s.runner.evaluator.stateOf item) := by
  obtain ⟨r, -, hsettled⟩ := SerialBuild.buildAll_settled b hg
  obtain ⟨s₀, hstart, hagrees⟩ := start_agrees hg hn b r
  refine ⟨s₀, hstart, fun schedule s hs ↦ ?_⟩
  have hnothing : Announced s₀ := by
    obtain ⟨runner, hrunner, hsome⟩ := Option.bind_eq_some_iff.mp hstart
    obtain rfl := Option.some_inj.mp hsome
    obtain ⟨evaluator, -, hrest⟩ := Option.bind_eq_some_iff.mp hrunner
    obtain ⟨pool, hpool, hsame⟩ := Option.bind_eq_some_iff.mp hrest
    obtain rfl := Option.some_inj.mp hsame
    unfold WorkerPool.new at hpool
    rw [if_pos hn] at hpool
    obtain rfl := Option.some_inj.mp hpool
    exact fun a ha ↦ absurd ha List.not_mem_nil
  obtain ⟨h, hannounced⟩ : Agrees b g r s ∧ Announced s :=
    Fallible.foldlM_induction (motive := fun s ↦ Agrees b g r s ∧ Announced s) hs
      ⟨hagrees, hnothing⟩ fun _ _ _ _ hact ih ↦
        ⟨ih.1.act hg hsettled hact, ih.2.act ih.1 hact⟩
  have hpath : ∀ item, (s.statesTold item).IsChain Follows := fun item ↦ by
    have hchain := h.reported.heard.chain item
    obtain ⟨more, hmore⟩ := s.statesTold_isPrefix item
    rw [← hmore] at hchain
    exact (List.isChain_append.mp hchain).1
  refine ⟨h.reported.explained.of_isPrefix s.told_isPrefix,
    fun item hitem ↦ ⟨hpath item, nodup_of_isChain_follows (hpath item), ?_⟩,
    fun w item hw ↦ hannounced item ?_, fun result hphase item hitem ↦ ?_⟩
  · intro state hhead
    obtain ⟨first, hfirst, hstate⟩ := h.reported.first item hitem
    obtain ⟨more, hmore⟩ := s.statesTold_isPrefix item
    rw [← hmore, List.head?_append, hhead] at hfirst
    obtain rfl := Option.some_inj.mp hfirst
    exact hstate
  · have hpos := numProcessing_pos hw
    have hplaces := h.runs.conserved.submitted item
    have hprocessed := h.runs.conserved.processed item
    refine List.count_pos_iff.mp ?_
    omega
  · -- When `run` has returned, all changes have been told.
    have hcalled := h.told (by rw [hphase]; trivial)
    have hall : s.statesTold item = s.runner.evaluator.heard item := by
      unfold statesTold told
      rw [hcalled, List.take_length]
      rfl
    rw [hall, h.reported.heard.last]
    obtain ⟨state, hhead, -⟩ := h.reported.first item hitem
    cases hget : s.runner.evaluator.states[item]? with
    | none =>
      have hlast := (h.reported.heard.last item).trans hget
      rw [List.getLast?_eq_none_iff.mp hlast] at hhead
      cases hhead
    | some state =>
      unfold stateOf
      rw [Std.TreeMap.getD_eq_getD_getElem?, hget]
      rfl

/-- Of two items the second is told to be ready only after the first is told to be completed. -/
theorem stateChanges_told_chain :
    ∃ g s₀, (build chainAdditions).bind check = some (true, g) ∧
      start 2 (List ItemType) g false = some s₀ ∧
      ∀ schedule s,
        s₀.runSchedule (chainBuilder ∅ fun _ ↦ false) false schedule = some s →
          ("b", .ready) ∈ s.told → ("a", .completed) ∈ s.told := by
  have hboth : ((build chainAdditions).bind check).map (fun x ↦
      (x.1, x.2.getDirectDependencies "b")) = some (true, some ["a"]) := by decide
  obtain ⟨⟨result, g⟩, hg, hsame⟩ := Option.map_eq_some_iff.mp hboth
  obtain ⟨hresult, hdependencies⟩ := Prod.mk.inj hsame
  obtain rfl : result = true := hresult
  obtain ⟨s₀, hstart, hrun⟩ := stateChanges_told (n := 2) (chainBuilder ∅ fun _ ↦ false)
    (errorFree_of_build hg) (by decide) false
  refine ⟨g, s₀, hg, hstart, fun schedule s hs hready ↦ ?_⟩
  obtain ⟨hexplained, -⟩ := hrun schedule s hs
  obtain ⟨before, after, htold⟩ := List.append_of_mem hready
  obtain ⟨deps, hdeps, hcompleted⟩ := hexplained.ready before "b" after htold
  obtain rfl : ["a"] = deps := Option.some_inj.mp (hdependencies.symm.trans hdeps)
  rw [htold]
  exact List.mem_append_left _ (hcompleted "a" (by simp))

end Abuild.BuildRun
