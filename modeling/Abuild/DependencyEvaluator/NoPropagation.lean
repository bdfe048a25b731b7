import Abuild.DependencyEvaluator.Evaluate

/-!
The evaluator with failure propagation off. A re-evaluated item that waits
becomes ready when the dependencies before its first failed one have completed
(`Released`): the loop of `evaluate` leaves at a failed dependency whether or not
failure is propagated, so the ones after it are not looked at. An item whose
later dependencies are unfinished is then ready too early (`Premature`). Every
ready or running item has finished dependencies, in every state of a run, exactly
when no call of the run releases an item prematurely (`run_unblocked_iff`).
-/

set_option autoImplicit false
set_option relaxedAutoImplicit false

namespace Abuild.DependencyEvaluator

open Std (TreeMap)
open DependencyGraph Precedence Relation

def Finished (state : ItemState) : Prop := state = .completed ∨ state = .failed

instance (state : ItemState) : Decidable (Finished state) := inferInstanceAs (Decidable (_ ∨ _))

/-- The dependencies before the first failed one have all completed. -/
def Released (state : ItemType → ItemState) (deps : ItemList) : Prop :=
  (∀ b ∈ deps, state b = .completed) ∨
    ∃ before d after, deps = before ++ d :: after ∧ state d = .failed ∧
      ∀ b ∈ before, state b = .completed

/-- The dependencies before the first failed one have all completed, and one after
it is unfinished. -/
def Premature (state : ItemType → ItemState) (deps : ItemList) : Prop :=
  ∃ before d after, deps = before ++ d :: after ∧ state d = .failed ∧
    (∀ b ∈ before, state b = .completed) ∧ ∃ c ∈ after, ¬ Finished (state c)

/-- No waiting item that depends on `item` is released prematurely when the state
of `item` becomes `state`. -/
def OrderlyAfter (e : DependencyEvaluator) (item : ItemType) (state : ItemState) : Prop :=
  ∀ r deps, e.stateOf r = .waiting → e.graph.getDirectDependencies r = some deps → item ∈ deps →
    ¬ Premature (fun a ↦ if a = item then state else e.stateOf a) deps

/-- The call releases no item prematurely. -/
def Orderly (e : DependencyEvaluator) : Call → Prop
  | .setRunning _ => True
  | .setCompleted item => e.OrderlyAfter item .completed
  | .setFailed item => e.OrderlyAfter item .failed

/-- Every direct dependency of a ready or running item has completed or failed. -/
def Unblocked (e : DependencyEvaluator) : Prop :=
  ∀ a deps, e.graph.getDirectDependencies a = some deps →
    (e.stateOf a = .ready ∨ e.stateOf a = .running) → ∀ b ∈ deps, Finished (e.stateOf b)

/-- What holds of the evaluator throughout a run. -/
structure Off (g : DependencyGraph) (e : DependencyEvaluator) : Prop where
  ofGraph : Over g e
  propagateFailure : e.propagateFailure = false
  not_depfailed : ∀ a, e.stateOf a ≠ .depfailed

theorem Released.congr {state state' : ItemType → ItemState}
    (hcompleted : ∀ a, state' a = .completed ↔ state a = .completed)
    (hfailed : ∀ a, state' a = .failed ↔ state a = .failed) (deps : ItemList) :
    Released state' deps ↔ Released state deps := by
  unfold Released
  simp only [hcompleted, hfailed]

theorem Released.of_premature {state : ItemType → ItemState} {deps : ItemList}
    (h : Premature state deps) : Released state deps := by
  obtain ⟨before, d, after, hsplit, hd, hbefore, -⟩ := h
  exact Or.inr ⟨before, d, after, hsplit, hd, hbefore⟩

/-- A released item is released too early, or all its dependencies are finished. -/
theorem Released.finished {state : ItemType → ItemState} {deps : ItemList}
    (h : Released state deps) (hpremature : ¬ Premature state deps) :
    ∀ b ∈ deps, Finished (state b) := by
  rcases h with hall | ⟨before, d, after, rfl, hd, hbefore⟩
  · exact fun b hb ↦ Or.inl (hall b hb)
  · intro b hb
    rcases List.mem_append.mp hb with hb | hb
    · exact Or.inl (hbefore b hb)
    · rcases List.mem_cons.mp hb with rfl | hb
      · exact Or.inr hd
      · by_contra hunfinished
        exact hpremature ⟨before, d, after, rfl, hd, hbefore, b, hb, hunfinished⟩

/-- The item waits, and a re-evaluation makes it ready. -/
def Releases (e : DependencyEvaluator) (item : ItemType) : Prop :=
  e.stateOf item = .waiting ∧
    ∃ deps, e.graph.getDirectDependencies item = some deps ∧ Released e.stateOf deps

/-- What the loop of `evaluate` finds. -/
theorem scan_released {g : DependencyGraph} {e : DependencyEvaluator} (h : Off g e)
    (deps : ItemList) :
    (e.scan false deps).1 = false ∧ ((e.scan false deps).2 = false ↔ Released e.stateOf deps) := by
  have hbad : ∀ a, Bad (e.stateOf a) ↔ e.stateOf a = .failed :=
    fun a ↦ or_iff_left (h.not_depfailed a)
  rcases scan_cases e false deps with ⟨hgood, heq⟩ | ⟨before, d, after, rfl, hgood, hd, heq⟩
  · rw [heq]
    refine ⟨rfl, ?_⟩
    dsimp only
    rw [Bool.false_or, List.any_eq_false]
    constructor
    · intro hall
      exact Or.inl fun b hb ↦ by simpa using hall b hb
    · rintro (hall | ⟨before, d, after, rfl, hd, -⟩)
      · exact fun b hb ↦ by simpa using hall b hb
      · exact absurd (Or.inl hd) (hgood d (by simp))
  · rw [heq, h.propagateFailure]
    refine ⟨rfl, ?_⟩
    dsimp only
    rw [Bool.false_or, List.any_eq_false]
    constructor
    · intro hall
      exact Or.inr ⟨before, d, after, rfl, (hbad d).mp hd, fun b hb ↦ by simpa using hall b hb⟩
    · rintro (hall | ⟨before', d', after', hsplit, hd', hbefore'⟩)
      · exact fun b hb ↦ by simpa using hall b (by simp [hb])
      · -- The first failed dependency is the same in both splits.
        have hfirst : before' = before := by
          rcases List.append_eq_append_iff.mp hsplit with ⟨rest, rfl, hrest⟩ | ⟨rest, rfl, hrest⟩
          · cases rest with
            | nil => simp
            | cons x rest =>
              obtain ⟨rfl, -⟩ := List.cons_eq_cons.mp hrest
              have hx := hbefore' d (by simp)
              rw [(hbad d).mp hd] at hx
              exact absurd hx (by decide)
          · cases rest with
            | nil => simp
            | cons x rest =>
              obtain ⟨rfl, -⟩ := List.cons_eq_cons.mp hrest
              exact absurd (Or.inl hd') (hgood d' (by simp))
        rw [← hfirst]
        exact fun b hb ↦ by simpa using hbefore' b hb

/-- A re-evaluation without propagation changes its own item at most. -/
theorem evaluate_off {g : DependencyGraph} (hg : ErrorFree g) {e e' : DependencyEvaluator}
    (h : Off g e) {item : ItemType} (hitem : item ∈ g.inOrder) {depth : ℕ}
    (he : evaluate depth e item = some e') :
    Off g e' ∧ (e.Releases item → e'.stateOf item = .ready) ∧
      ∀ a, ¬ (a = item ∧ e.Releases item) → e'.stateOf a = e.stateOf a := by
  cases depth with
  | zero => simp [evaluate] at he
  | succ depth =>
    rcases evaluate_cases hg h.ofGraph hitem he with ⟨hwaiting, -, rfl⟩ |
      ⟨hstate, deps, -, hdeps, hscan⟩
    · exact ⟨h, fun hreleases ↦ absurd hreleases.1 hwaiting, fun _ _ ↦ rfl⟩
    obtain ⟨hfailed, hiff⟩ := scan_released h deps
    have hreleased : e.Releases item → Released e.stateOf deps := by
      rintro ⟨-, deps', hdeps', hreleased⟩
      rw [h.ofGraph.graph_eq, hdeps] at hdeps'
      exact Option.some_inj.mp hdeps' ▸ hreleased
    rcases hscan with ⟨htrue, -⟩ | ⟨hfree, rfl⟩ | ⟨hblocked, rfl⟩
    · rw [hfailed] at htrue
      exact absurd htrue (by decide)
    · refine ⟨⟨h.ofGraph.setItemState hitem _, ?_, fun a ↦ ?_⟩, fun _ ↦ ?_, fun a ha ↦ ?_⟩
      · rw [setItemState_propagateFailure, h.propagateFailure]
      · rw [stateOf_setItemState]
        split_ifs
        · decide
        · exact h.not_depfailed a
      · rw [stateOf_setItemState, if_pos rfl]
      · rw [stateOf_setItemState]
        split_ifs with haitem
        · subst haitem
          refine (hstate.resolve_left fun hwaiting ↦ ha ⟨rfl, hwaiting, deps, ?_, ?_⟩).symm
          · rw [h.ofGraph.graph_eq, hdeps]
          · exact hiff.mp (by rw [hfree])
        · rfl
    · refine ⟨h, fun hreleases ↦ ?_, fun _ _ ↦ rfl⟩
      have hfree := hiff.mpr (hreleased hreleases)
      rw [hblocked] at hfree
      exact absurd hfree (by decide)

/-- Re-evaluations of several items release those that a re-evaluation of any one
of them alone would release. -/
theorem foldlM_evaluate_off {g : DependencyGraph} (hg : ErrorFree g) {depth : ℕ}
    (items : ItemList) (hitems : ∀ a ∈ items, a ∈ g.inOrder) {e e' : DependencyEvaluator}
    (h : Off g e) (he : items.foldlM (evaluate depth) e = some e') :
    Off g e' ∧ ∀ a, (a ∈ items ∧ e.Releases a → e'.stateOf a = .ready) ∧
      (¬ (a ∈ items ∧ e.Releases a) → e'.stateOf a = e.stateOf a) := by
  induction items generalizing e with
  | nil =>
    obtain rfl : e = e' := by simpa using he
    exact ⟨h, fun a ↦ by simp⟩
  | cons item items ih =>
    rw [List.foldlM_cons] at he
    obtain ⟨e₁, he₁, hrest⟩ := Option.bind_eq_some_iff.mp he
    obtain ⟨h₁, hitem, hothers⟩ := evaluate_off hg h (hitems item (by simp)) he₁
    obtain ⟨h', hstates⟩ := ih (fun a ha ↦ hitems a (List.mem_cons_of_mem _ ha)) h₁ hrest
    -- The first re-evaluation finishes nothing, so it does not matter to the others.
    have hfinal : ∀ a state, state = .completed ∨ state = .failed →
        (e₁.stateOf a = state ↔ e.stateOf a = state) := by
      intro a state hstate
      by_cases ha : a = item ∧ e.Releases item
      · rw [ha.1, hitem ha.2, ha.2.1]
        rcases hstate with rfl | rfl <;> decide
      · rw [hothers a ha]
    have hreleases : ∀ a, ¬ (a = item ∧ e.Releases item) → (e₁.Releases a ↔ e.Releases a) := by
      intro a ha
      unfold Releases
      rw [hothers a ha, h₁.ofGraph.graph_eq, h.ofGraph.graph_eq]
      simp only [Released.congr (fun b ↦ hfinal b _ (Or.inl rfl))
        (fun b ↦ hfinal b _ (Or.inr rfl))]
    refine ⟨h', fun a ↦ ?_⟩
    by_cases ha : a = item ∧ e.Releases item
    · have hready : e₁.stateOf a = .ready := ha.1 ▸ hitem ha.2
      have hnot : ¬ (a ∈ items ∧ e₁.Releases a) := by
        rintro ⟨-, hwaiting, -⟩
        rw [hready] at hwaiting
        exact absurd hwaiting (by decide)
      refine ⟨fun _ ↦ by rw [(hstates a).2 hnot, hready], fun hnone ↦ ?_⟩
      exact absurd ⟨by simp [ha.1], ha.1 ▸ ha.2⟩ hnone
    · have hiff : a ∈ item :: items ∧ e.Releases a ↔ a ∈ items ∧ e₁.Releases a := by
        rw [hreleases a ha, List.mem_cons]
        constructor
        · rintro ⟨rfl | hmem, hrel⟩
          · exact absurd ⟨rfl, hrel⟩ ha
          · exact ⟨hmem, hrel⟩
        · rintro ⟨hmem, hrel⟩
          exact ⟨Or.inr hmem, hrel⟩
      rw [hiff, ← hothers a ha]
      exact hstates a

theorem Off.markRunning {g : DependencyGraph} {e : DependencyEvaluator} (h : Off g e)
    {item : ItemType} (hitem : item ∈ g.inOrder) : Off g (e.markRunning item) := by
  refine ⟨h.ofGraph.markRunning hitem, ?_, fun a ↦ ?_⟩
  · unfold DependencyEvaluator.markRunning
    rw [setItemState_propagateFailure, h.propagateFailure]
  · rw [stateOf_markRunning]
    split_ifs
    · decide
    · exact h.not_depfailed a

theorem Off.markFinished {g : DependencyGraph} {e : DependencyEvaluator} (h : Off g e)
    {item : ItemType} (hitem : item ∈ g.inOrder) {state : ItemState} (hstate : Finished state) :
    Off g (e.markFinished item state) := by
  refine ⟨h.ofGraph.markFinished hitem state, ?_, fun a ↦ ?_⟩
  · unfold DependencyEvaluator.markFinished
    rw [setItemState_propagateFailure, h.propagateFailure]
  · rw [stateOf_markFinished]
    split_ifs
    · rcases hstate with rfl | rfl <;> decide
    · exact h.not_depfailed a

/-- Finishing an item leaves every ready or running item with finished
dependencies exactly when it releases no item prematurely. -/
theorem unblocked_finish_iff {g : DependencyGraph} (hg : ErrorFree g)
    {e e' : DependencyEvaluator} (h : Off g e) (hunblocked : e.Unblocked) {item : ItemType}
    (hitem : item ∈ g.inOrder) (hrunning : e.stateOf item = .running) {state : ItemState}
    (hstate : Finished state) {rdeps : ItemList}
    (hrdeps : ∀ b, b ∈ rdeps ↔ DependsOn g.dependencies b item)
    (he : rdeps.foldlM (evaluate (g.inOrder.length + 1)) (e.markFinished item state) = some e') :
    Off g e' ∧ (e'.Unblocked ↔ e.OrderlyAfter item state) := by
  have hmark := h.markFinished hitem hstate
  have hmarkStates : (e.markFinished item state).stateOf =
      fun a ↦ if a = item then state else e.stateOf a :=
    funext (stateOf_markFinished e item state)
  obtain ⟨h', hstates⟩ := foldlM_evaluate_off hg rdeps
    (fun b hb ↦ hg.mem_inOrder_left ((hrdeps b).mp hb)) hmark he
  have hmem : ∀ a deps, g.getDirectDependencies a = some deps → (item ∈ deps ↔ a ∈ rdeps) := by
    intro a deps hdeps
    rw [hrdeps, hg.mem_directDependencies hdeps]
  -- A re-evaluation does not change which items are finished.
  have hfinished : ∀ b, Finished (e'.stateOf b) ↔
      Finished ((e.markFinished item state).stateOf b) := by
    intro b
    by_cases hb : b ∈ rdeps ∧ (e.markFinished item state).Releases b
    · rw [(hstates b).1 hb, hb.2.1]
      decide
    · rw [(hstates b).2 hb]
  have hgraph : (e.markFinished item state).graph = g := hmark.ofGraph.graph_eq
  refine ⟨h', ?_, ?_⟩
  · intro hunblocked' r deps hwaiting hdeps hitemdeps hpremature
    rw [h.ofGraph.graph_eq] at hdeps
    rw [← hmarkStates] at hpremature
    have hne : r ≠ item := by
      rintro rfl
      rw [hrunning] at hwaiting
      exact absurd hwaiting (by decide)
    have hready : e'.stateOf r = .ready := by
      refine (hstates r).1 ⟨(hmem r deps hdeps).mp hitemdeps, ?_, deps, ?_, ?_⟩
      · rw [stateOf_markFinished, if_neg hne, hwaiting]
      · rw [hgraph, hdeps]
      · exact Released.of_premature hpremature
    obtain ⟨before, d, after, rfl, -, -, c, hc, hunfinished⟩ := hpremature
    refine hunfinished ((hfinished c).mp ?_)
    exact hunblocked' r _ (h'.ofGraph.graph_eq.symm ▸ hdeps) (Or.inl hready) c (by simp [hc])
  · intro horderly a deps hdeps ha b hb
    rw [h'.ofGraph.graph_eq] at hdeps
    rw [hfinished]
    by_cases hreleases : a ∈ rdeps ∧ (e.markFinished item state).Releases a
    · obtain ⟨hardeps, hwaiting, deps', hdeps', hreleased⟩ := hreleases
      rw [hgraph, hdeps] at hdeps'
      obtain rfl := Option.some_inj.mp hdeps'
      have hne : a ≠ item := by
        rintro rfl
        rw [stateOf_markFinished, if_pos rfl] at hwaiting
        rcases hstate with rfl | rfl <;> exact absurd hwaiting (by decide)
      rw [stateOf_markFinished, if_neg hne] at hwaiting
      have hnot := horderly a deps hwaiting (by rw [h.ofGraph.graph_eq, hdeps])
        ((hmem a deps hdeps).mpr hardeps)
      rw [← hmarkStates] at hnot
      exact hreleased.finished hnot b hb
    · rw [(hstates a).2 hreleases] at ha
      have hne : a ≠ item := by
        rintro rfl
        rw [stateOf_markFinished, if_pos rfl] at ha
        rcases hstate with rfl | rfl <;> exact absurd ha (by decide)
      rw [stateOf_markFinished, if_neg hne] at ha
      have hbfinished := hunblocked a deps (by rw [h.ofGraph.graph_eq, hdeps]) ha b hb
      rw [stateOf_markFinished]
      split_ifs
      · exact hstate
      · exact hbfinished

/-- One call, from a state in which every ready or running item has finished
dependencies. -/
theorem unblocked_call_iff {g : DependencyGraph} (hg : ErrorFree g) {e e' : DependencyEvaluator}
    (h : Off g e) (hunblocked : e.Unblocked) {c : Call} (hc : e.call c = some e') :
    Off g e' ∧ (e'.Unblocked ↔ e.Orderly c) := by
  rcases call_cases hg h.ofGraph hc with ⟨item, rfl, hitem, hstate, rfl⟩ |
    ⟨item, state, hfinishes, hitem, hstate, rdeps, hrdeps, hfold⟩
  · refine ⟨h.markRunning hitem, iff_of_true ?_ trivial⟩
    intro a deps hdeps ha b hb
    have hgraph := (h.markRunning hitem).ofGraph.graph_eq
    rw [hgraph, ← h.ofGraph.graph_eq] at hdeps
    rw [stateOf_markRunning] at ha ⊢
    have hbfinished : Finished (e.stateOf b) := by
      split_ifs at ha with haitem
      · exact hunblocked a deps hdeps (Or.inl (haitem ▸ hstate)) b hb
      · exact hunblocked a deps hdeps ha b hb
    rw [if_neg]
    · exact hbfinished
    · rintro rfl
      rw [hstate] at hbfinished
      exact absurd hbfinished (by decide)
  · rcases hfinishes with ⟨rfl, rfl⟩ | ⟨rfl, rfl⟩
    · exact unblocked_finish_iff hg h hunblocked hitem hstate (Or.inl rfl) hrdeps hfold
    · exact unblocked_finish_iff hg h hunblocked hitem hstate (Or.inr rfl) hrdeps hfold

/-- A run, from a state in which every ready or running item has finished
dependencies. -/
theorem run_unblocked_iff_of_unblocked {g : DependencyGraph} (hg : ErrorFree g)
    (calls : List Call) {e : DependencyEvaluator} (h : Off g e) (hunblocked : e.Unblocked)
    (hrun : (e.run calls).isSome) :
    (∀ pre rest e', calls = pre ++ rest → e.run pre = some e' → e'.Unblocked) ↔
      ∀ pre c rest e', calls = pre ++ c :: rest → e.run pre = some e' → e'.Orderly c := by
  unfold run at *
  induction calls generalizing e with
  | nil =>
    refine iff_of_true ?_ ?_
    · intro pre rest e' hsplit he'
      obtain ⟨rfl, -⟩ := List.append_eq_nil_iff.mp hsplit.symm
      obtain rfl : e = e' := by simpa using he'
      exact hunblocked
    · intro pre c rest e' hsplit
      simp at hsplit
  | cons c calls ih =>
    obtain ⟨e', he'⟩ := Option.isSome_iff_exists.mp hrun
    rw [List.foldlM_cons] at he'
    obtain ⟨e₁, hc, hrest⟩ := Option.bind_eq_some_iff.mp he'
    obtain ⟨h₁, hiff⟩ := unblocked_call_iff hg h hunblocked hc
    have hrun₁ : (calls.foldlM call e₁).isSome := by
      rw [hrest]
      rfl
    have hcons : ∀ pre, (c :: pre).foldlM call e = pre.foldlM call e₁ := by
      intro pre
      rw [List.foldlM_cons, hc]
      rfl
    constructor
    · intro hall
      have hunblocked₁ : e₁.Unblocked := hall [c] calls e₁ rfl (by rw [hcons]; rfl)
      have horderly := (ih h₁ hunblocked₁ hrun₁).mp fun pre rest e'' hsplit he'' ↦
        hall (c :: pre) rest e'' (by rw [hsplit]; rfl) (by rw [hcons, he''])
      intro pre c' rest e'' hsplit he''
      cases pre with
      | nil =>
        obtain ⟨rfl, -⟩ := List.cons_eq_cons.mp hsplit
        obtain rfl : e = e'' := by simpa using he''
        exact hiff.mp hunblocked₁
      | cons x pre =>
        obtain ⟨rfl, htail⟩ := List.cons_eq_cons.mp hsplit
        exact horderly pre c' rest e'' htail (by rw [← hcons, he''])
    · intro hall
      have hunblocked₁ : e₁.Unblocked := hiff.mpr (hall [] c calls e rfl rfl)
      have hstates := (ih h₁ hunblocked₁ hrun₁).mpr fun pre c' rest e'' hsplit he'' ↦
        hall (c :: pre) c' rest e'' (by rw [hsplit]; rfl) (by rw [hcons, he''])
      intro pre rest e'' hsplit he''
      cases pre with
      | nil =>
        obtain rfl : e = e'' := by simpa using he''
        exact hunblocked
      | cons x pre =>
        obtain ⟨rfl, htail⟩ := List.cons_eq_cons.mp hsplit
        exact hstates pre rest e'' htail (by rw [← hcons, he''])

theorem new_off {g : DependencyGraph} (hg : ErrorFree g) :
    ∃ e, new g = some e ∧ Off g e.disableFailurePropagation ∧
      e.disableFailurePropagation.Unblocked := by
  obtain ⟨e, hnew, hover, -, -, hinitial⟩ := new_spec hg
  have hstate : ∀ a, (e.stateOf a = .ready ∧ ∀ b, ¬ DependsOn g.dependencies a b) ∨
      e.stateOf a = .waiting := by
    intro a
    by_cases ha : a ∈ g.inOrder
    · exact (hinitial a ha).imp_right And.left
    · exact Or.inr (hover.stateOf_eq_waiting ha)
  refine ⟨e, hnew, ⟨⟨hover.graph_eq, hover.mem_states⟩, rfl, fun a ↦ ?_⟩, ?_⟩
  · show e.stateOf a ≠ .depfailed
    rcases hstate a with ⟨h, -⟩ | h <;> rw [h] <;> decide
  · intro a deps hdeps ha b hb
    have hdeps' : g.getDirectDependencies a = some deps := hover.graph_eq ▸ hdeps
    have ha' : e.stateOf a = .ready ∨ e.stateOf a = .running := ha
    rcases hstate a with ⟨-, hnone⟩ | hwaiting
    · exact absurd ((hg.mem_directDependencies hdeps' b).mp hb) (hnone b)
    · rw [hwaiting] at ha'
      exact absurd ha' (by decide)

/-- With failure propagation off, in every state of a run of legal calls every
ready or running item has completed or failed dependencies only, exactly when no
call of the run releases an item prematurely. -/
theorem run_unblocked_iff {g : DependencyGraph} (hg : ErrorFree g) :
    ∃ e₀, new g = some e₀ ∧ ∀ calls e, e₀.disableFailurePropagation.run calls = some e →
      ((∀ pre rest e', calls = pre ++ rest →
          e₀.disableFailurePropagation.run pre = some e' → e'.Unblocked) ↔
        ∀ pre c rest e', calls = pre ++ c :: rest →
          e₀.disableFailurePropagation.run pre = some e' → e'.Orderly c) := by
  obtain ⟨e₀, hnew, hoff, hunblocked⟩ := new_off hg
  refine ⟨e₀, hnew, fun calls e he ↦ ?_⟩
  exact run_unblocked_iff_of_unblocked hg calls hoff hunblocked (by rw [he]; rfl)

/-- An item that depends on two others, the first of which fails. -/
def earlyRelease : List Addition :=
  [.addItem "c", .addItem "b", .addItem "a", .addDependency "a" "b", .addDependency "a" "c"]

theorem run_unblocked_iff_earlyRelease :
    ∃ g e₀, (build earlyRelease).bind check = some (true, g) ∧ new g = some e₀ ∧
      ∀ calls e, e₀.disableFailurePropagation.run calls = some e →
        ((∀ pre rest e', calls = pre ++ rest →
            e₀.disableFailurePropagation.run pre = some e' → e'.Unblocked) ↔
          ∀ pre c rest e', calls = pre ++ c :: rest →
            e₀.disableFailurePropagation.run pre = some e' → e'.Orderly c) := by
  obtain ⟨⟨result, g⟩, hg⟩ := Option.isSome_iff_exists.mp
    (show ((build earlyRelease).bind check).isSome by decide)
  have hresult : ((build earlyRelease).bind check).map Prod.fst = some true := by decide
  rw [hg] at hresult
  obtain rfl : result = true := by simpa using hresult
  obtain ⟨e₀, hnew, hiff⟩ := run_unblocked_iff (errorFree_of_build hg)
  exact ⟨g, e₀, hg, hnew, hiff⟩

/-- A ready item may have an unfinished dependency: once its first dependency
fails, an item is ready while the second is ready as well. -/
theorem not_unblocked_earlyRelease :
    ¬ ∀ g e₀ calls e, ErrorFree g → new g = some e₀ →
      e₀.disableFailurePropagation.run calls = some e → e.Unblocked := by
  intro hall
  have hrun : ((build earlyRelease).bind check).bind (fun (result, g) ↦ (new g).bind fun e₀ ↦
      (e₀.disableFailurePropagation.run [.setRunning "b", .setFailed "b"]).map fun e ↦
        (result, e.graph.getDirectDependencies "a", e.stateOf "a", e.stateOf "c")) =
      some (true, some ["b", "c"], .ready, .ready) := by decide
  obtain ⟨⟨result, g⟩, hg, hrun⟩ := Option.bind_eq_some_iff.mp hrun
  obtain ⟨e₀, hnew, hrun⟩ := Option.bind_eq_some_iff.mp hrun
  obtain ⟨e, he, hstates⟩ := Option.map_eq_some_iff.mp hrun
  simp only [Prod.mk.injEq] at hstates
  obtain ⟨rfl, hdeps, ha, hc⟩ := hstates
  have hunblocked := hall g e₀ _ e (errorFree_of_build hg) hnew he
  have hfinished := hunblocked "a" _ hdeps (Or.inl ha) "c" (by simp)
  rw [hc] at hfinished
  exact absurd hfinished (by decide)

end Abuild.DependencyEvaluator
