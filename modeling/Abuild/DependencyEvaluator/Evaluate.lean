import Abuild.DependencyEvaluator
import Abuild.DependencyGraph.Build

/-!
What the evaluator does with failure propagation and without. A re-evaluation
always returns on an error-free graph, and it makes items ready or depfailed that
have not been set running (`evaluate_returns`); `evaluate_cases` lists what it can
do, and `scan_cases` what its loop over the dependencies finds. A call returns
exactly when it is legal (`call_isSome_iff`), never changes a terminal state
(`call_terminal`) and keeps the count of the running items (`Counted.call`).
-/

set_option autoImplicit false
set_option relaxedAutoImplicit false

namespace Abuild.DependencyEvaluator

open Std (TreeMap)
open DependencyGraph Precedence

/-- The states of an item that did not complete. -/
def Bad (state : ItemState) : Prop := state = .failed ∨ state = .depfailed

instance (state : ItemState) : Decidable (Bad state) := inferInstanceAs (Decidable (_ ∨ _))

/-- The states of an item that has been ready. -/
def Started (state : ItemState) : Prop :=
  state = .ready ∨ state = .running ∨ state = .completed ∨ state = .failed

/-- The evaluator has a state for exactly the items of the graph. -/
structure Over (g : DependencyGraph) (e : DependencyEvaluator) : Prop where
  graph_eq : e.graph = g
  mem_states : ∀ a, a ∈ e.states ↔ a ∈ g.inOrder

/-- Only items that were not set running have changed, to ready or depfailed. -/
structure Evaluated (e e' : DependencyEvaluator) : Prop where
  propagateFailure : e'.propagateFailure = e.propagateFailure
  numRunning : e'.numRunning = e.numRunning
  states : ∀ a, e'.stateOf a = e.stateOf a ∨
    ((e.stateOf a = .waiting ∨ e.stateOf a = .ready) ∧
      (e'.stateOf a = .ready ∨ e'.stateOf a = .depfailed))

/-! ### Setting a state -/

section SetItemState

variable (e : DependencyEvaluator) (item : ItemType) (state : ItemState)

theorem stateOf_setItemState (a : ItemType) :
    (e.setItemState item state).stateOf a = if a = item then state else e.stateOf a := by
  unfold setItemState
  by_cases hne : e.stateOf item ≠ state
  · rw [if_pos hne]
    unfold stateOf
    simp only [TreeMap.getD_insert, compare_eq_iff_eq, eq_comm (a := item)]
  · rw [if_neg hne]
    split_ifs with ha
    · rw [ha]
      exact not_not.mp hne
    · rfl

@[simp] theorem setItemState_graph : (e.setItemState item state).graph = e.graph := by
  unfold setItemState
  split_ifs <;> rfl

@[simp] theorem setItemState_propagateFailure :
    (e.setItemState item state).propagateFailure = e.propagateFailure := by
  unfold setItemState
  split_ifs <;> rfl

@[simp] theorem setItemState_numRunning :
    (e.setItemState item state).numRunning = e.numRunning := by
  unfold setItemState
  split_ifs <;> rfl

end SetItemState

theorem Over.setItemState {g : DependencyGraph} {e : DependencyEvaluator} (h : Over g e)
    {item : ItemType} (hitem : item ∈ g.inOrder) (state : ItemState) :
    Over g (e.setItemState item state) := by
  refine ⟨by rw [setItemState_graph, h.graph_eq], fun a ↦ ?_⟩
  unfold DependencyEvaluator.setItemState
  by_cases hne : e.stateOf item ≠ state
  · rw [if_pos hne, TreeMap.mem_insert, compare_eq_iff_eq, h.mem_states]
    exact or_iff_right_of_imp fun ha ↦ ha ▸ hitem
  · rw [if_neg hne]
    exact h.mem_states a

theorem Over.getItemState {g : DependencyGraph} {e : DependencyEvaluator} (h : Over g e)
    {a : ItemType} (ha : a ∈ g.inOrder) : e.getItemState a = some (e.stateOf a) := by
  obtain ⟨state, hstate⟩ := Option.isSome_iff_exists.mp
    (TreeMap.mem_iff_isSome_getElem?.mp ((h.mem_states a).mpr ha))
  unfold DependencyEvaluator.getItemState DependencyEvaluator.stateOf
  rw [TreeMap.getD_eq_getD_getElem?, hstate, Option.getD_some]

theorem Over.stateOf_eq_waiting {g : DependencyGraph} {e : DependencyEvaluator} (h : Over g e)
    {a : ItemType} (ha : a ∉ g.inOrder) : e.stateOf a = .waiting := by
  rw [← h.mem_states] at ha
  exact TreeMap.getD_eq_fallback ha

theorem Over.assertState {g : DependencyGraph} {e : DependencyEvaluator} (h : Over g e)
    {a : ItemType} {state : ItemState} :
    e.assertState a state = some () ↔ a ∈ g.inOrder ∧ e.stateOf a = state := by
  unfold DependencyEvaluator.assertState
  rw [ite_eq_left_iff]
  constructor
  · intro hstate
    have hget : e.getItemState a = some state := by
      by_contra hne
      exact absurd (hstate hne) (by simp)
    have ha : a ∈ g.inOrder := by
      rw [← h.mem_states, TreeMap.mem_iff_isSome_getElem?]
      exact Option.isSome_iff_exists.mpr ⟨state, hget⟩
    rw [h.getItemState ha] at hget
    exact ⟨ha, Option.some_inj.mp hget⟩
  · rintro ⟨ha, hstate⟩ hne
    exact absurd (hstate ▸ h.getItemState ha) hne

theorem Evaluated.refl (e : DependencyEvaluator) : Evaluated e e := ⟨rfl, rfl, fun _ ↦ Or.inl rfl⟩

theorem Evaluated.trans {e₁ e₂ e₃ : DependencyEvaluator} (h : Evaluated e₁ e₂)
    (h' : Evaluated e₂ e₃) : Evaluated e₁ e₃ := by
  refine ⟨h'.propagateFailure.trans h.propagateFailure, h'.numRunning.trans h.numRunning,
    fun a ↦ ?_⟩
  rcases h.states a with ha | ⟨hwaiting, ha⟩
  · rw [← ha]
    exact h'.states a
  · refine Or.inr ⟨hwaiting, ?_⟩
    rcases h'.states a with ha' | ⟨-, ha'⟩
    · rwa [ha']
    · exact ha'

theorem Evaluated.setItemState {e : DependencyEvaluator} {item : ItemType} {state : ItemState}
    (hitem : e.stateOf item = .waiting ∨ e.stateOf item = .ready)
    (hstate : state = .ready ∨ state = .depfailed) : Evaluated e (e.setItemState item state) := by
  refine ⟨setItemState_propagateFailure .., setItemState_numRunning .., fun a ↦ ?_⟩
  rw [stateOf_setItemState]
  split_ifs with ha
  · subst ha
    exact Or.inr ⟨hitem, hstate⟩
  · exact Or.inl rfl

/-- An item in a terminal state keeps it. -/
theorem Evaluated.stateOf_eq {e e' : DependencyEvaluator} (h : Evaluated e e') {a : ItemType}
    (ha : (e.stateOf a).Terminal) : e'.stateOf a = e.stateOf a := by
  refine (h.states a).resolve_right fun ⟨hpending, _⟩ ↦ ?_
  rcases hpending with hstate | hstate <;> rw [hstate] at ha <;> exact absurd ha (by decide)

/-- A state that a re-evaluation does not produce was there before. -/
theorem Evaluated.stateOf_iff {e e' : DependencyEvaluator} (h : Evaluated e e') {a : ItemType}
    {state : ItemState} (hstate : state = .running ∨ state = .completed ∨ state = .failed) :
    e'.stateOf a = state ↔ e.stateOf a = state := by
  rcases h.states a with ha | ⟨hwaiting, ha⟩
  · rw [ha]
  · rcases hwaiting with hwaiting | hwaiting <;> rcases ha with ha | ha <;> rw [hwaiting, ha] <;>
      rcases hstate with rfl | rfl | rfl <;> decide

/-! ### One re-evaluation -/

theorem scan_cons (e : DependencyEvaluator) (blocked : Bool) (dep : ItemType) (deps : ItemList) :
    e.scan blocked (dep :: deps) =
      if Bad (e.stateOf dep) then (e.propagateFailure, blocked)
      else e.scan (blocked || decide (e.stateOf dep ≠ .completed)) deps := by
  rw [scan]
  by_cases hbad : Bad (e.stateOf dep)
  · rw [if_pos hbad]
    exact if_pos hbad
  · rw [if_neg hbad]
    refine (if_neg hbad).trans ?_
    split_ifs with hcompleted
    · simp [hcompleted]
    · simp [not_not.mp hcompleted]

/-- What the loop over the dependencies finds: no failed one, or a first failed
one, after which it does not look. -/
theorem scan_cases (e : DependencyEvaluator) (blocked : Bool) (deps : ItemList) :
    ((∀ d ∈ deps, ¬ Bad (e.stateOf d)) ∧
      e.scan blocked deps = (false, blocked || deps.any (e.stateOf · ≠ .completed))) ∨
    ∃ before d after, deps = before ++ d :: after ∧ (∀ b ∈ before, ¬ Bad (e.stateOf b)) ∧
      Bad (e.stateOf d) ∧ e.scan blocked deps =
        (e.propagateFailure, blocked || before.any (e.stateOf · ≠ .completed)) := by
  induction deps generalizing blocked with
  | nil =>
    refine Or.inl ⟨by simp, ?_⟩
    simp [scan]
  | cons dep deps ih =>
    by_cases hbad : Bad (e.stateOf dep)
    · refine Or.inr ⟨[], dep, deps, rfl, by simp, hbad, ?_⟩
      rw [scan_cons, if_pos hbad, List.any_nil, Bool.or_false]
    · rw [scan_cons, if_neg hbad]
      rcases ih (blocked || decide (e.stateOf dep ≠ .completed)) with
        ⟨hnone, heq⟩ | ⟨before, d, after, rfl, hbefore, hd, heq⟩
      · refine Or.inl ⟨by simpa [hbad] using hnone, ?_⟩
        rw [heq, List.any_cons, Bool.or_assoc]
      · refine Or.inr ⟨dep :: before, d, after, rfl, by simpa [hbad] using hbefore, hd, ?_⟩
        rw [heq, List.any_cons, Bool.or_assoc]

/-- Everything that `evaluate` can do to an item of the graph. -/
theorem evaluate_cases {g : DependencyGraph} (hg : ErrorFree g) {e e' : DependencyEvaluator}
    (h : Over g e) {item : ItemType} (hitem : item ∈ g.inOrder) {depth : ℕ}
    (he : evaluate (depth + 1) e item = some e') :
    (e.stateOf item ≠ .waiting ∧ e.stateOf item ≠ .ready ∧ e' = e) ∨
    ((e.stateOf item = .waiting ∨ e.stateOf item = .ready) ∧
      ∃ deps, (∀ b, b ∈ deps ↔ DependsOn g.dependencies item b) ∧
        g.getDirectDependencies item = some deps ∧
        (((e.scan false deps).1 = true ∧
          ∃ rdeps : ItemList, (∀ b, b ∈ rdeps ↔ DependsOn g.dependencies b item) ∧
            rdeps.foldlM (evaluate depth) (e.setItemState item .depfailed) = some e') ∨
          (e.scan false deps = (false, false) ∧ e' = e.setItemState item .ready) ∨
          (e.scan false deps = (false, true) ∧ e' = e))) := by
  rw [evaluate] at he
  dsimp only at he
  split_ifs at he with hsettled
  · cases he
    refine Or.inl ⟨?_, ?_, rfl⟩ <;> intro hstate <;> rw [hstate] at hsettled <;> simp at hsettled
  · refine Or.inr ⟨?_, ?_⟩
    · cases hstate : e.stateOf item <;> simp_all
    · obtain ⟨deps, hdeps, hmem⟩ := hg.getDirectDependencies hitem
      refine ⟨deps, hmem, hdeps, ?_⟩
      rw [h.graph_eq, hdeps] at he
      dsimp only [Option.bind_eq_bind, Option.bind_some] at he
      split_ifs at he with hfailed hblocked
      · obtain ⟨rdeps, hrdeps, hrmem⟩ := hg.getReverseDependencies hitem
        rw [setItemState_graph, h.graph_eq, hrdeps] at he
        exact Or.inl ⟨hfailed, rdeps, hrmem, he⟩
      · refine Or.inr (Or.inr ⟨Prod.ext ?_ ?_, ?_⟩)
        · exact Bool.eq_false_iff.mpr hfailed
        · simpa using hblocked
        · exact (Option.some_inj.mp he).symm
      · refine Or.inr (Or.inl ⟨Prod.ext ?_ ?_, ?_⟩)
        · exact Bool.eq_false_iff.mpr hfailed
        · exact Bool.eq_false_iff.mpr (by simpa using hblocked)
        · exact (Option.some_inj.mp he).symm

/-- `evaluate` returns when the bound on its depth exceeds the number of items
after its own. -/
theorem evaluate_returns {g : DependencyGraph} (hg : ErrorFree g) (depth : ℕ)
    {e : DependencyEvaluator} (h : Over g e) {item : ItemType} (hitem : item ∈ g.inOrder)
    (hdepth : g.inOrder.length ≤ depth + g.inOrder.idxOf item) :
    ∃ e', evaluate depth e item = some e' ∧ Over g e' ∧ Evaluated e e' := by
  induction depth generalizing e item with
  | zero =>
    have hlt := List.idxOf_lt_length_of_mem hitem
    omega
  | succ depth ih =>
    have hfold : ∀ (rdeps : ItemList), (∀ b ∈ rdeps, DependsOn g.dependencies b item) →
        ∀ e, Over g e →
        ∃ e', rdeps.foldlM (evaluate depth) e = some e' ∧ Over g e' ∧ Evaluated e e' := by
      intro rdeps
      induction rdeps with
      | nil => exact fun _ e he ↦ ⟨e, rfl, he, Evaluated.refl e⟩
      | cons rdep rdeps ihr =>
        intro hrdeps e he
        have hrdep := hrdeps rdep (by simp)
        have hlt := hg.ordered.idxOf_lt (hg.mem_inOrder_left hrdep) hrdep
        obtain ⟨e₁, he₁, hover₁, heval₁⟩ := ih he (hg.mem_inOrder_left hrdep) (by omega)
        obtain ⟨e₂, he₂, hover₂, heval₂⟩ :=
          ihr (fun b hb ↦ hrdeps b (List.mem_cons_of_mem _ hb)) e₁ hover₁
        refine ⟨e₂, ?_, hover₂, heval₁.trans heval₂⟩
        rw [List.foldlM_cons, he₁]
        exact he₂
    obtain ⟨deps, hdeps, hmem⟩ := hg.getDirectDependencies hitem
    rw [evaluate]
    dsimp only
    split_ifs with hsettled
    · exact ⟨e, rfl, h, Evaluated.refl e⟩
    · rw [h.graph_eq, hdeps]
      dsimp only [Option.bind_eq_bind, Option.bind_some]
      have hstate : e.stateOf item = .waiting ∨ e.stateOf item = .ready := by
        cases hstate : e.stateOf item <;> simp_all
      split_ifs with hfailed hblocked
      · obtain ⟨rdeps, hrdeps, hrmem⟩ := hg.getReverseDependencies hitem
        rw [setItemState_graph, h.graph_eq, hrdeps]
        dsimp only [Option.bind_some]
        obtain ⟨e', he', hover, heval⟩ := hfold rdeps (fun b hb ↦ (hrmem b).mp hb)
          (e.setItemState item .depfailed) (h.setItemState hitem _)
        exact ⟨e', he', hover, (Evaluated.setItemState hstate (Or.inr rfl)).trans heval⟩
      · exact ⟨e, rfl, h, Evaluated.refl e⟩
      · exact ⟨_, rfl, h.setItemState hitem _, Evaluated.setItemState hstate (Or.inl rfl)⟩

/-- A run of re-evaluations of items of the graph. -/
theorem foldlM_evaluate_returns {g : DependencyGraph} (hg : ErrorFree g) {items : ItemList}
    (hitems : ∀ a ∈ items, a ∈ g.inOrder) {e : DependencyEvaluator} (h : Over g e) :
    ∃ e', items.foldlM (evaluate (g.inOrder.length + 1)) e = some e' ∧ Over g e' ∧
      Evaluated e e' := by
  induction items generalizing e with
  | nil => exact ⟨e, rfl, h, Evaluated.refl e⟩
  | cons item items ih =>
    obtain ⟨e₁, he₁, hover₁, heval₁⟩ := evaluate_returns hg (g.inOrder.length + 1) h
      (hitems item (by simp)) (by omega)
    obtain ⟨e₂, he₂, hover₂, heval₂⟩ := ih (fun b hb ↦ hitems b (List.mem_cons_of_mem _ hb)) hover₁
    refine ⟨e₂, ?_, hover₂, heval₁.trans heval₂⟩
    rw [List.foldlM_cons, he₁]
    exact he₂

/-! ### Calls -/

/-- The evaluator when an item has just been set running. -/
def markRunning (e : DependencyEvaluator) (item : ItemType) : DependencyEvaluator :=
  { e.setItemState item .running with numRunning := e.numRunning + 1 }

/-- The evaluator when an item has just been set completed or failed, and the
items that depend on it have not been re-evaluated. -/
def markFinished (e : DependencyEvaluator) (item : ItemType) (state : ItemState) :
    DependencyEvaluator :=
  { e.setItemState item state with numRunning := e.numRunning - 1 }

theorem stateOf_markRunning (e : DependencyEvaluator) (item a : ItemType) :
    (e.markRunning item).stateOf a = if a = item then .running else e.stateOf a :=
  stateOf_setItemState e item .running a

theorem stateOf_markFinished (e : DependencyEvaluator) (item : ItemType) (state : ItemState)
    (a : ItemType) :
    (e.markFinished item state).stateOf a = if a = item then state else e.stateOf a :=
  stateOf_setItemState e item state a

theorem Over.markRunning {g : DependencyGraph} {e : DependencyEvaluator} (h : Over g e)
    {item : ItemType} (hitem : item ∈ g.inOrder) : Over g (e.markRunning item) :=
  ⟨(h.setItemState hitem .running).graph_eq, (h.setItemState hitem .running).mem_states⟩

theorem Over.markFinished {g : DependencyGraph} {e : DependencyEvaluator} (h : Over g e)
    {item : ItemType} (hitem : item ∈ g.inOrder) (state : ItemState) :
    Over g (e.markFinished item state) :=
  ⟨(h.setItemState hitem state).graph_eq, (h.setItemState hitem state).mem_states⟩

/-- The item and the final state of a call that finishes an item. -/
def Call.Finishes (c : Call) (item : ItemType) (state : ItemState) : Prop :=
  (c = .setCompleted item ∧ state = .completed) ∨ (c = .setFailed item ∧ state = .failed)

theorem setRunning_eq_some {g : DependencyGraph} {e e' : DependencyEvaluator} (h : Over g e)
    {item : ItemType} : e.setRunning item = some e' ↔
      item ∈ g.inOrder ∧ e.stateOf item = .ready ∧ e' = e.markRunning item := by
  unfold setRunning
  rw [Option.bind_eq_bind, Option.bind_eq_some_iff]
  constructor
  · rintro ⟨_, hassert, he'⟩
    obtain ⟨hitem, hstate⟩ := h.assertState.mp hassert
    simp only [setItemState_numRunning] at he'
    exact ⟨hitem, hstate, (Option.some_inj.mp he').symm⟩
  · rintro ⟨hitem, hstate, rfl⟩
    refine ⟨(), h.assertState.mpr ⟨hitem, hstate⟩, ?_⟩
    simp only [setItemState_numRunning]
    rfl

theorem evaluateReverseDependencies_eq {g : DependencyGraph} (hg : ErrorFree g)
    {e : DependencyEvaluator} (h : Over g e) {item : ItemType} (hitem : item ∈ g.inOrder) :
    ∃ rdeps : ItemList, (∀ b, b ∈ rdeps ↔ DependsOn g.dependencies b item) ∧
      e.evaluateReverseDependencies item =
        rdeps.foldlM (evaluate (g.inOrder.length + 1)) e := by
  obtain ⟨rdeps, hrdeps, hmem⟩ := hg.getReverseDependencies hitem
  refine ⟨rdeps, hmem, ?_⟩
  unfold evaluateReverseDependencies
  rw [h.graph_eq, hrdeps]
  rfl

theorem setFinished_eq {g : DependencyGraph} (hg : ErrorFree g) {e : DependencyEvaluator}
    (h : Over g e) {item : ItemType} (hitem : item ∈ g.inOrder) (state : ItemState)
    (hstate : e.stateOf item = .running) :
    ∃ rdeps : ItemList, (∀ b, b ∈ rdeps ↔ DependsOn g.dependencies b item) ∧
      e.setFinished item state =
        rdeps.foldlM (evaluate (g.inOrder.length + 1)) (e.markFinished item state) := by
  obtain ⟨rdeps, hmem, heq⟩ := evaluateReverseDependencies_eq hg (h.markFinished hitem state) hitem
  refine ⟨rdeps, hmem, ?_⟩
  unfold setFinished
  rw [h.assertState.mpr ⟨hitem, hstate⟩, ← heq]
  simp only [setItemState_numRunning]
  rfl

/-- Everything that a call can do. -/
theorem call_cases {g : DependencyGraph} (hg : ErrorFree g) {e e' : DependencyEvaluator}
    (h : Over g e) {c : Call} (hc : e.call c = some e') :
    (∃ item, c = .setRunning item ∧ item ∈ g.inOrder ∧ e.stateOf item = .ready ∧
      e' = e.markRunning item) ∨
    ∃ item state, c.Finishes item state ∧ item ∈ g.inOrder ∧ e.stateOf item = .running ∧
      ∃ rdeps : ItemList, (∀ b, b ∈ rdeps ↔ DependsOn g.dependencies b item) ∧
        rdeps.foldlM (evaluate (g.inOrder.length + 1)) (e.markFinished item state) = some e' := by
  have hfinished : ∀ item state, e.setFinished item state = some e' →
      item ∈ g.inOrder ∧ e.stateOf item = .running ∧
        ∃ rdeps : ItemList, (∀ b, b ∈ rdeps ↔ DependsOn g.dependencies b item) ∧
          rdeps.foldlM (evaluate (g.inOrder.length + 1)) (e.markFinished item state) =
            some e' := by
    intro item state hsome
    have hsome' := hsome
    unfold setFinished at hsome
    obtain ⟨_, hassert, -⟩ := Option.bind_eq_some_iff.mp hsome
    obtain ⟨hitem, hstate⟩ := h.assertState.mp hassert
    obtain ⟨rdeps, hmem, heq⟩ := setFinished_eq hg h hitem state hstate
    exact ⟨hitem, hstate, rdeps, hmem, heq ▸ hsome'⟩
  cases c with
  | setRunning item =>
    obtain ⟨hitem, hstate, he'⟩ := (setRunning_eq_some h).mp hc
    exact Or.inl ⟨item, rfl, hitem, hstate, he'⟩
  | setCompleted item =>
    exact Or.inr ⟨item, .completed, Or.inl ⟨rfl, rfl⟩, hfinished item .completed hc⟩
  | setFailed item =>
    exact Or.inr ⟨item, .failed, Or.inr ⟨rfl, rfl⟩, hfinished item .failed hc⟩

theorem Over.legal {g : DependencyGraph} {e : DependencyEvaluator} (h : Over g e)
    {item : ItemType} {state : ItemState} :
    e.getItemState item = some state ↔ item ∈ g.inOrder ∧ e.stateOf item = state := by
  rw [← h.assertState]
  unfold DependencyEvaluator.getItemState DependencyEvaluator.assertState
  split_ifs with heq <;> simp [heq]

/-- A call returns exactly when it is legal. -/
theorem call_isSome_iff {g : DependencyGraph} (hg : ErrorFree g) {e : DependencyEvaluator}
    (h : Over g e) (c : Call) : (∃ e', e.call c = some e') ↔ e.Legal c := by
  have hfinished : ∀ item state, item ∈ g.inOrder ∧ e.stateOf item = .running →
      ∃ e', e.setFinished item state = some e' := by
    rintro item state ⟨hitem, hstate⟩
    obtain ⟨rdeps, hmem, heq⟩ := setFinished_eq hg h hitem state hstate
    obtain ⟨e', he', -⟩ := foldlM_evaluate_returns hg
      (fun b hb ↦ hg.mem_inOrder_left ((hmem b).mp hb)) (h.markFinished hitem state)
    exact ⟨e', heq.trans he'⟩
  constructor
  · rintro ⟨e', he'⟩
    rcases call_cases hg h he' with ⟨item, rfl, hitem, hstate, -⟩ |
      ⟨item, state, ⟨rfl, -⟩ | ⟨rfl, -⟩, hitem, hstate, -⟩
    · exact h.legal.mpr ⟨hitem, hstate⟩
    · exact h.legal.mpr ⟨hitem, hstate⟩
    · exact h.legal.mpr ⟨hitem, hstate⟩
  · intro hlegal
    cases c with
    | setRunning item =>
      obtain ⟨hitem, hstate⟩ := h.legal.mp hlegal
      exact ⟨_, (setRunning_eq_some h).mpr ⟨hitem, hstate, rfl⟩⟩
    | setCompleted item => exact hfinished item .completed (h.legal.mp hlegal)
    | setFailed item => exact hfinished item .failed (h.legal.mp hlegal)

/-- What holds of a call in either mode: the state of the item it names, and that
of the others as a re-evaluation leaves them. -/
theorem call_spec {g : DependencyGraph} (hg : ErrorFree g) {e e' : DependencyEvaluator}
    (h : Over g e) {c : Call} (hc : e.call c = some e') :
    Over g e' ∧ ((∃ item, c = .setRunning item ∧ item ∈ g.inOrder ∧ e.stateOf item = .ready ∧
        e' = e.markRunning item) ∨
      ∃ item state, c.Finishes item state ∧ item ∈ g.inOrder ∧ e.stateOf item = .running ∧
        Evaluated (e.markFinished item state) e') := by
  rcases call_cases hg h hc with ⟨item, rfl, hitem, hstate, rfl⟩ |
    ⟨item, state, hfinishes, hitem, hstate, rdeps, hmem, he'⟩
  · exact ⟨h.markRunning hitem, Or.inl ⟨item, rfl, hitem, hstate, rfl⟩⟩
  · obtain ⟨e'', he'', hover, heval⟩ := foldlM_evaluate_returns hg
      (fun b hb ↦ hg.mem_inOrder_left ((hmem b).mp hb)) (h.markFinished hitem state)
    obtain rfl : e'' = e' := Option.some_inj.mp (he''.symm.trans he')
    exact ⟨hover, Or.inr ⟨item, state, hfinishes, hitem, hstate, heval⟩⟩

/-- A terminal state never changes. -/
theorem call_terminal {g : DependencyGraph} (hg : ErrorFree g) {e e' : DependencyEvaluator}
    (h : Over g e) {c : Call} (hc : e.call c = some e') {a : ItemType}
    (ha : (e.stateOf a).Terminal) : e'.stateOf a = e.stateOf a := by
  rcases (call_spec hg h hc).2 with ⟨item, -, -, hstate, rfl⟩ |
    ⟨item, state, hfinishes, -, hstate, heval⟩
  · rw [stateOf_markRunning, if_neg]
    intro heq
    rw [heq, hstate] at ha
    exact absurd ha (by decide)
  · have hne : a ≠ item := by
      intro heq
      rw [heq, hstate] at ha
      exact absurd ha (by decide)
    have hmark : (e.markFinished item state).stateOf a = e.stateOf a := by
      rw [stateOf_markFinished, if_neg hne]
    rw [heval.stateOf_eq (by rwa [hmark]), hmark]

/-- Which items are running, completed or failed after a call that finishes one. -/
theorem stateOf_finish_iff {g : DependencyGraph} (hg : ErrorFree g)
    {e e' : DependencyEvaluator} (h : Over g e) {item : ItemType} {finished : ItemState}
    (he : e.setFinished item finished = some e')
    (hfinished : finished = .completed ∨ finished = .failed) {a : ItemType} {state : ItemState}
    (hstate : state = .running ∨ state = .completed ∨ state = .failed) :
    e'.stateOf a = state ↔ (if a = item then finished else e.stateOf a) = state := by
  have hcall : ∃ c : Call, c.Finishes item finished ∧ e.call c = some e' := by
    rcases hfinished with rfl | rfl
    · exact ⟨.setCompleted item, Or.inl ⟨rfl, rfl⟩, he⟩
    · exact ⟨.setFailed item, Or.inr ⟨rfl, rfl⟩, he⟩
  obtain ⟨c, hfinishes, hc⟩ := hcall
  rcases (call_spec hg h hc).2 with ⟨item', rfl, -⟩ | ⟨item', finished', hfinishes', -, -, heval⟩
  · rcases hfinishes with ⟨heq, -⟩ | ⟨heq, -⟩ <;> cases heq
  · have hsame : item' = item ∧ finished' = finished := by
      rcases hfinishes with ⟨rfl, rfl⟩ | ⟨rfl, rfl⟩ <;>
        rcases hfinishes' with ⟨heq, rfl⟩ | ⟨heq, rfl⟩ <;> cases heq <;> exact ⟨rfl, rfl⟩
    obtain ⟨rfl, rfl⟩ := hsame
    rw [heval.stateOf_iff hstate, stateOf_markFinished]

/-- The next ready item is ready, and there is none when no item is. -/
theorem nextReadyItem_spec {g : DependencyGraph} (hg : ErrorFree g) {e : DependencyEvaluator}
    (h : Over g e) : ∃ next, e.nextReadyItem = some next ∧
      (∀ item, next = some item → item ∈ g.inOrder ∧ e.stateOf item = .ready) ∧
      (next = none → ∀ a ∈ g.inOrder, e.stateOf a ≠ .ready) := by
  refine ⟨g.inOrder.find? fun item ↦ e.states[item]? = some .ready, ?_, fun item hitem ↦ ?_,
    fun hnone a ha hready ↦ ?_⟩
  · unfold nextReadyItem
    rw [h.graph_eq, hg.getSortedGraph]
    rfl
  · have hready := List.find?_some hitem
    rw [decide_eq_true_iff] at hready
    exact h.legal.mp hready
  · have hnot := List.find?_eq_none.mp hnone a ha
    rw [decide_eq_true_iff] at hnot
    exact hnot (h.legal.mpr ⟨ha, hready⟩)

/-! ### The count of running items -/

/-- The running items. -/
def runningItems (g : DependencyGraph) (e : DependencyEvaluator) : ItemList :=
  g.inOrder.filter fun a ↦ e.stateOf a = .running

/-- `num_running` is the number of running items. -/
def Counted (g : DependencyGraph) (e : DependencyEvaluator) : Prop :=
  e.numRunning = (runningItems g e).length

theorem length_filter_insert {α : Type} [DecidableEq α] {l : List α} (hl : l.Nodup) {item : α}
    (hitem : item ∈ l) {p q : α → Prop} [DecidablePred p] [DecidablePred q] (hp : ¬ p item)
    (hq : ∀ a, q a ↔ a = item ∨ p a) : (l.filter q).length = (l.filter p).length + 1 := by
  induction l with
  | nil => simp at hitem
  | cons a l ih =>
    obtain ⟨hal, hl⟩ := List.nodup_cons.mp hl
    by_cases ha : a = item
    · subst ha
      have hrest : l.filter q = l.filter p := by
        refine List.filter_congr fun b hb ↦ ?_
        have hne : b ≠ a := fun h ↦ hal (h ▸ hb)
        simp [hq, hne]
      simp [hq, hp, ← hrest]
    · have hmem := (List.mem_cons.mp hitem).resolve_left (Ne.symm ha)
      by_cases hpa : p a <;> simp [hq, ha, hpa] <;> simpa [hq] using ih hl hmem

theorem Counted.call {g : DependencyGraph} (hg : ErrorFree g) {e e' : DependencyEvaluator}
    (h : Over g e) (hcount : Counted g e) {c : Call} (hc : e.call c = some e') : Counted g e' := by
  unfold Counted runningItems at *
  rcases (call_spec hg h hc).2 with ⟨item, -, hitem, hstate, rfl⟩ |
    ⟨item, state, hfinishes, hitem, hstate, heval⟩
  · have hlen := length_filter_insert hg.checked.nodup hitem
      (p := fun a ↦ e.stateOf a = .running) (q := fun a ↦ (e.markRunning item).stateOf a = .running)
      (by rw [hstate]; decide) (fun a ↦ by rw [stateOf_markRunning]; split_ifs <;> simp_all)
    rw [hlen]
    unfold markRunning
    dsimp only
    rw [hcount]
    rfl
  · have hlen := length_filter_insert hg.checked.nodup hitem
      (p := fun a ↦ e'.stateOf a = .running) (q := fun a ↦ e.stateOf a = .running)
      (by
        rw [heval.stateOf_iff (Or.inl rfl), stateOf_markFinished, if_pos rfl]
        rcases hfinishes with ⟨-, rfl⟩ | ⟨-, rfl⟩ <;> decide)
      (fun a ↦ by
        rw [heval.stateOf_iff (Or.inl rfl), stateOf_markFinished]
        split_ifs <;> simp_all)
    rw [heval.numRunning]
    unfold markFinished
    dsimp only
    rw [hcount, hlen]
    push_cast
    ring

/-! ### The constructor -/

theorem foldlM_initialStates {g : DependencyGraph} (hg : ErrorFree g) (items : ItemList)
    (hitems : ∀ a ∈ items, a ∈ g.inOrder) (states : TreeMap ItemType ItemState) :
    ∃ states', items.foldlM (fun states item ↦ do
        let state ← initialState g item
        some (states.insert item state)) states = some states' ∧
      (∀ a, a ∈ states' ↔ a ∈ items ∨ a ∈ states) ∧
      ∀ a, states'[a]? = if a ∈ items then initialState g a else states[a]? := by
  induction items generalizing states with
  | nil => exact ⟨states, rfl, by simp, by simp⟩
  | cons item items ih =>
    obtain ⟨deps, hdeps, -⟩ := hg.getDirectDependencies (hitems item (by simp))
    have hstate : initialState g item = some (if deps.isEmpty then .ready else .waiting) := by
      unfold initialState
      rw [hdeps]
      rfl
    obtain ⟨states', hfold, hmem, hget⟩ := ih (fun a ha ↦ hitems a (List.mem_cons_of_mem _ ha))
      (states.insert item (if deps.isEmpty then .ready else .waiting))
    refine ⟨states', ?_, fun a ↦ ?_, fun a ↦ ?_⟩
    · rw [List.foldlM_cons, hstate]
      exact hfold
    · rw [hmem, TreeMap.mem_insert, compare_eq_iff_eq, List.mem_cons]
      tauto
    · rw [hget, TreeMap.getElem?_insert]
      by_cases ha : a ∈ items
      · simp [ha]
      · by_cases haitem : item = a
        · subst haitem
          simp [ha, hstate]
        · simp [ha, haitem, Ne.symm haitem]

/-- A new evaluator has every item without dependencies ready, and the others
waiting. -/
theorem new_spec {g : DependencyGraph} (hg : ErrorFree g) :
    ∃ e, new g = some e ∧ Over g e ∧ e.propagateFailure = true ∧ Counted g e ∧
      ∀ a ∈ g.inOrder, (e.stateOf a = .ready ∧ ∀ b, ¬ DependsOn g.dependencies a b) ∨
        (e.stateOf a = .waiting ∧ ∃ b, DependsOn g.dependencies a b) := by
  obtain ⟨states, hstates, hmem, hget⟩ := foldlM_initialStates hg g.inOrder (fun _ ha ↦ ha) ∅
  have hchecked : g.checked = some true := by
    unfold checked
    rw [hg.assertChecked, hg.2]
    rfl
  have hnew : new g = some ⟨g, states, true, 0, false, []⟩ := by
    have hinitialStates : initialStates g g.inOrder = some states := hstates
    simp [new, hchecked, hg.getSortedGraph, hinitialStates]
  have hinitial : ∀ a ∈ g.inOrder,
      ((⟨g, states, true, 0, false, []⟩ : DependencyEvaluator).stateOf a = .ready ∧
        ∀ b, ¬ DependsOn g.dependencies a b) ∨
      ((⟨g, states, true, 0, false, []⟩ : DependencyEvaluator).stateOf a = .waiting ∧
        ∃ b, DependsOn g.dependencies a b) := by
    intro a ha
    obtain ⟨deps, hdeps, hdmem⟩ := hg.getDirectDependencies ha
    unfold stateOf
    rw [TreeMap.getD_eq_getD_getElem?, hget, if_pos ha]
    unfold initialState
    rw [hdeps]
    cases deps with
    | nil => exact Or.inl ⟨rfl, fun b hb ↦ by simpa using (hdmem b).mpr hb⟩
    | cons dep deps => exact Or.inr ⟨rfl, dep, (hdmem dep).mp (by simp)⟩
  refine ⟨_, hnew, ⟨rfl, fun a ↦ by simp [hmem]⟩, rfl, ?_, hinitial⟩
  unfold Counted runningItems
  rw [List.filter_eq_nil_iff.mpr]
  · rfl
  · intro a ha
    rcases hinitial a ha with ⟨hstate, -⟩ | ⟨hstate, -⟩ <;> rw [hstate] <;> decide

end Abuild.DependencyEvaluator
