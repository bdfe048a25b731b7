import Abuild.DependencyEvaluator.Evaluate

/-!
What the change callback of the evaluator hears. Every state that an item gets follows from the one
that it has (`Follows`), and is reported; so what is heard of an item is a path of states that leads
to the one it has (`Heard`), and no state is heard of twice. With failure propagation, what makes an
item ready or fails it has been heard before (`Explained`).
-/

set_option autoImplicit false
set_option relaxedAutoImplicit false

namespace Abuild.DependencyEvaluator

open Std (TreeMap)
open Relation

/-- The states that may come next. -/
inductive Follows : ItemState → ItemState → Prop
  | released : Follows .waiting .ready
  | waitingFails : Follows .waiting .depfailed
  | readyFails : Follows .ready .depfailed
  | begun : Follows .ready .running
  | completed : Follows .running .completed
  | failed : Follows .running .failed

/-- Where a state is on the way of an item. -/
def rank : ItemState → ℕ
  | .waiting => 0
  | .ready => 1
  | .running => 2
  | _ => 3

theorem Follows.rank_lt {state state' : ItemState} (h : Follows state state') :
    rank state < rank state' := by
  cases h <;> decide

/-- Why an item gets a state, by the states of the items that it depends on. -/
structure Reason (e : DependencyEvaluator) (item : ItemType) (state : ItemState) : Prop where
  ready : state = .ready → e.propagateFailure = true → ∃ deps,
    e.graph.getDirectDependencies item = some deps ∧ ∀ d ∈ deps, e.stateOf d = .completed
  depfailed : state = .depfailed → ∃ deps,
    e.graph.getDirectDependencies item = some deps ∧ ∃ d ∈ deps, Bad (e.stateOf d)

/-- An item gets a state. -/
structure SetsTo (item : ItemType) (state : ItemState) (e e' : DependencyEvaluator) : Prop where
  follows : e.stateOf item ≠ state → Follows (e.stateOf item) state
  reason : e.stateOf item ≠ state → Reason e item state
  graph : e'.graph = e.graph
  propagateFailure : e'.propagateFailure = e.propagateFailure
  states : e'.states = (e.setItemState item state).states
  changes : e'.changes = (e.setItemState item state).changes
  changeCallback : e'.changeCallback = e.changeCallback

/-- One item gets a state. -/
def SetsState (e e' : DependencyEvaluator) : Prop := ∃ item state, SetsTo item state e e'

/-- Some items get states, one after the other. -/
abbrev Changes : DependencyEvaluator → DependencyEvaluator → Prop := ReflTransGen SetsState

theorem setItemState_changeCallback (e : DependencyEvaluator) (item : ItemType)
    (state : ItemState) :
    (e.setItemState item state).changeCallback = e.changeCallback := by
  unfold setItemState
  split_ifs <;> rfl

theorem setsTo_setItemState {e : DependencyEvaluator} {item : ItemType} {state : ItemState}
    (hfollows : e.stateOf item ≠ state → Follows (e.stateOf item) state)
    (hreason : e.stateOf item ≠ state → Reason e item state) :
    SetsTo item state e (e.setItemState item state) where
  follows := hfollows
  reason := hreason
  graph := setItemState_graph e item state
  propagateFailure := setItemState_propagateFailure e item state
  states := rfl
  changes := rfl
  changeCallback := setItemState_changeCallback e item state

/-- The states that a call sets need no reason. -/
theorem reason_of_ne {e : DependencyEvaluator} {item : ItemType} {state : ItemState}
    (hready : state ≠ .ready) (hdepfailed : state ≠ .depfailed) : Reason e item state :=
  ⟨fun h ↦ absurd h hready, fun h ↦ absurd h hdepfailed⟩

theorem foldlM_changes {f : DependencyEvaluator → ItemType → Option DependencyEvaluator}
    (hf : ∀ e e' item, f e item = some e' → Changes e e') (items : ItemList)
    {e e' : DependencyEvaluator} (he : items.foldlM f e = some e') : Changes e e' := by
  induction items generalizing e with
  | nil =>
    obtain rfl := Option.some_inj.mp he
    exact .refl
  | cons item items ih =>
    rw [List.foldlM_cons] at he
    obtain ⟨e₁, he₁, hrest⟩ := Option.bind_eq_some_iff.mp he
    exact (hf e e₁ item he₁).trans (ih hrest)

/-- The loop over the dependencies stops at a failure that there is. -/
theorem bad_of_scan {e : DependencyEvaluator} {deps : ItemList} (h : (e.scan false deps).1 = true) :
    ∃ d ∈ deps, Bad (e.stateOf d) := by
  rcases scan_cases e false deps with ⟨-, hscan⟩ | ⟨before, d, after, rfl, -, hbad, -⟩
  · rw [hscan] at h
    cases h
  · exact ⟨d, List.mem_append_right _ List.mem_cons_self, hbad⟩

theorem completed_of_scan {e : DependencyEvaluator} {deps : ItemList}
    (hpropagate : e.propagateFailure = true) (hfailed : (e.scan false deps).1 = false)
    (hblocked : (e.scan false deps).2 = false) : ∀ d ∈ deps, e.stateOf d = .completed := by
  rcases scan_cases e false deps with ⟨-, hscan⟩ | ⟨before, d, after, -, -, -, hscan⟩
  · rw [hscan, Bool.false_or] at hblocked
    intro d hd
    simpa using List.any_eq_false.mp hblocked d hd
  · rw [hscan] at hfailed
    cases hpropagate.symm.trans hfailed

/-- A re-evaluation. -/
theorem evaluate_changes (depth : ℕ) {e e' : DependencyEvaluator} {item : ItemType}
    (he : evaluate depth e item = some e') : Changes e e' := by
  induction depth generalizing e e' item with
  | zero => cases he
  | succ depth ih =>
    rw [evaluate] at he
    dsimp only at he
    split_ifs at he with hsettled
    · obtain rfl := Option.some_inj.mp he
      exact .refl
    · have hstate : e.stateOf item = .waiting ∨ e.stateOf item = .ready := by
        cases hstate : e.stateOf item <;> simp_all
      obtain ⟨deps, hdeps, hrest⟩ := Option.bind_eq_some_iff.mp he
      split_ifs at hrest with hfailed hblocked
      · obtain ⟨rdeps, -, hfold⟩ := Option.bind_eq_some_iff.mp hrest
        refine ReflTransGen.head ⟨item, .depfailed, setsTo_setItemState (fun _ ↦ ?_) fun _ ↦ ?_⟩
          (foldlM_changes (fun _ _ _ ↦ ih) rdeps hfold)
        · rcases hstate with hstate | hstate <;> rw [hstate]
          exacts [.waitingFails, .readyFails]
        · exact ⟨ItemState.noConfusion, fun _ ↦ ⟨deps, hdeps, bad_of_scan hfailed⟩⟩
      · obtain rfl := Option.some_inj.mp hrest
        exact .refl
      · obtain rfl := Option.some_inj.mp hrest
        refine .single ⟨item, .ready, setsTo_setItemState (fun hne ↦ ?_) fun _ ↦ ?_⟩
        · rcases hstate with hstate | hstate
          · rw [hstate]
            exact .released
          · exact absurd hstate hne
        · exact ⟨fun _ hpropagate ↦ ⟨deps, hdeps, completed_of_scan hpropagate
            (Bool.eq_false_iff.mpr hfailed) (Bool.eq_false_iff.mpr hblocked)⟩,
            ItemState.noConfusion⟩

theorem evaluateReverseDependencies_changes {e e' : DependencyEvaluator} {item : ItemType}
    (he : e.evaluateReverseDependencies item = some e') : Changes e e' := by
  obtain ⟨rdeps, -, hfold⟩ := Option.bind_eq_some_iff.mp he
  exact foldlM_changes (fun _ _ _ ↦ evaluate_changes _) rdeps hfold

theorem stateOf_of_assertState {e : DependencyEvaluator} {item : ItemType} {state : ItemState}
    {u : Unit} (h : e.assertState item state = some u) : e.stateOf item = state := by
  unfold assertState at h
  split_ifs at h with hstate
  unfold stateOf
  rw [TreeMap.getD_eq_getD_getElem?, hstate]
  rfl

theorem setRunning_changes {e e' : DependencyEvaluator} {item : ItemType}
    (he : e.setRunning item = some e') : Changes e e' := by
  obtain ⟨u, hassert, he'⟩ := Option.bind_eq_some_iff.mp he
  obtain rfl := Option.some_inj.mp he'
  have hsets : SetsTo item .running e (e.setItemState item .running) := by
    refine setsTo_setItemState (fun _ ↦ ?_) fun _ ↦
      reason_of_ne ItemState.noConfusion ItemState.noConfusion
    rw [stateOf_of_assertState hassert]
    exact .begun
  exact .single ⟨item, .running, { hsets with }⟩

theorem setFinished_changes {e e' : DependencyEvaluator} {item : ItemType} {state : ItemState}
    (hstate : state = .completed ∨ state = .failed) (he : e.setFinished item state = some e') :
    Changes e e' := by
  obtain ⟨u, hassert, hrest⟩ := Option.bind_eq_some_iff.mp he
  have hsets : SetsTo item state e (e.setItemState item state) := by
    refine setsTo_setItemState (fun _ ↦ ?_) fun _ ↦ ?_
    · rw [stateOf_of_assertState hassert]
      rcases hstate with rfl | rfl
      exacts [.completed, .failed]
    · rcases hstate with rfl | rfl <;>
        exact reason_of_ne ItemState.noConfusion ItemState.noConfusion
  refine ReflTransGen.head ?_ (evaluateReverseDependencies_changes hrest)
  exact ⟨item, state, { hsets with }⟩

/-! ### What is heard -/

/-- What the callback hears of an item. -/
def heard (e : DependencyEvaluator) (item : ItemType) : List ItemState :=
  (e.changes.filter (·.1 == item)).map Prod.snd

/-- The callback has heard of every item a path that leads to its state. -/
structure Heard (e : DependencyEvaluator) : Prop where
  changeCallback : e.changeCallback = true
  chain : ∀ item, (e.heard item).IsChain Follows
  last : ∀ item, (e.heard item).getLast? = e.states[item]?

theorem SetsState.changes_prefix {e e' : DependencyEvaluator} (h : SetsState e e') :
    e.changes <+: e'.changes := by
  obtain ⟨item, state, hsets⟩ := h
  rw [hsets.changes]
  unfold setItemState
  split_ifs with hne hcallback
  · exact List.prefix_append ..
  · exact List.prefix_rfl
  · exact List.prefix_rfl

theorem Changes.changes_prefix {e e' : DependencyEvaluator} (h : Changes e e') :
    e.changes <+: e'.changes := by
  induction h with
  | refl => exact List.prefix_rfl
  | tail _ hstep ih => exact ih.trans hstep.changes_prefix

theorem Heard.setsState {e e' : DependencyEvaluator} (h : Heard e) (hs : SetsState e e') :
    Heard e' := by
  obtain ⟨item, state, hfollows, -, -, -, hstates, hchanges, hcallback⟩ := hs
  have hcalled := hcallback.trans h.changeCallback
  by_cases hne : e.stateOf item ≠ state
  · have hset : e.setItemState item state = { e with
        states := e.states.insert item state, changes := e.changes ++ [(item, state)] } := by
      unfold setItemState
      rw [if_pos hne, if_pos h.changeCallback]
    have hheard : ∀ a, e'.heard a = if a = item then e.heard a ++ [state] else e.heard a := by
      intro a
      unfold heard
      rw [hchanges, hset, List.filter_append, List.map_append]
      split_ifs with ha
      · subst ha
        rw [List.filter_singleton, beq_self_eq_true]
        rfl
      · rw [List.filter_singleton, beq_false_of_ne (Ne.symm ha)]
        exact List.append_nil _
    refine ⟨hcalled, ?_, ?_⟩
    · intro a
      rw [hheard]
      split_ifs with ha
      · subst ha
        refine (h.chain a).append (List.isChain_singleton _) fun x hx y hy ↦ ?_
        -- The state that was heard last is the one that the item has.
        rw [h.last] at hx
        have hstate : e.stateOf a = x := by
          unfold stateOf
          rw [TreeMap.getD_eq_getD_getElem?, hx]
          rfl
        obtain rfl : state = y := by simpa using hy
        exact hstate ▸ hfollows hne
      · exact h.chain a
    · intro a
      rw [hheard, hstates, hset, TreeMap.getElem?_insert]
      by_cases ha : a = item
      · rw [if_pos ha, if_pos (compare_eq_iff_eq.mpr ha.symm), List.getLast?_append]
        rfl
      · rw [if_neg ha, if_neg fun heq ↦ ha (compare_eq_iff_eq.mp heq).symm]
        exact h.last a
  · have hset : e.setItemState item state = e := by
      unfold setItemState
      rw [if_neg hne]
    rw [hset] at hstates hchanges
    have hheard : ∀ a, e'.heard a = e.heard a := fun a ↦ by
      unfold heard
      rw [hchanges]
    refine ⟨hcalled, fun a ↦ ?_, fun a ↦ ?_⟩
    · rw [hheard]
      exact h.chain a
    · rw [hheard, hstates]
      exact h.last a

theorem Heard.changes {e e' : DependencyEvaluator} (h : Heard e) (hs : Changes e e') :
    Heard e' := by
  induction hs with
  | refl => exact h
  | tail _ hstep ih => exact ih.setsState hstep

/-! ### What explains a change -/

/-- What makes an item ready, or fails it, has been heard before: that all items that it depends on
have completed, or that one of them has failed. -/
structure Explained (g : DependencyGraph) (changes : List (ItemType × ItemState)) : Prop where
  ready : ∀ before item after, changes = before ++ (item, .ready) :: after →
    ∃ deps, g.getDirectDependencies item = some deps ∧ ∀ d ∈ deps, (d, .completed) ∈ before
  depfailed : ∀ before item after, changes = before ++ (item, .depfailed) :: after →
    ∃ deps, g.getDirectDependencies item = some deps ∧
      ∃ d ∈ deps, (d, .failed) ∈ before ∨ (d, .depfailed) ∈ before

/-- What has been heard up to some point is explained, too. -/
theorem Explained.of_isPrefix {g : DependencyGraph} {changes changes' : List (ItemType × ItemState)}
    (h : Explained g changes') (hbefore : changes <+: changes') : Explained g changes := by
  obtain ⟨more, rfl⟩ := hbefore
  constructor
  · rintro before item after rfl
    exact h.ready before item (after ++ more) (by simp)
  · rintro before item after rfl
    exact h.depfailed before item (after ++ more) (by simp)

theorem Heard.mem_changes {e : DependencyEvaluator} (h : Heard e) {item : ItemType}
    {state : ItemState} (hstate : e.stateOf item = state) (hne : state ≠ .waiting) :
    (item, state) ∈ e.changes := by
  have hget : e.states[item]? = some state := by
    unfold stateOf at hstate
    rw [TreeMap.getD_eq_getD_getElem?] at hstate
    cases hs : e.states[item]? with
    | none =>
      rw [hs] at hstate
      exact absurd hstate.symm hne
    | some state' =>
      rw [hs] at hstate
      exact congrArg some hstate
  obtain ⟨change, hchange, rfl⟩ :=
    List.mem_map.mp (List.mem_of_getLast? ((h.last item).trans hget))
  obtain ⟨hmem, hitem⟩ := List.mem_filter.mp hchange
  obtain rfl := eq_of_beq hitem
  exact hmem

theorem Explained.setsState {g : DependencyGraph} {e e' : DependencyEvaluator}
    (h : Explained g e.changes) (hheard : Heard e) (hg : e.graph = g)
    (hpropagate : e.propagateFailure = true) (hs : SetsState e e') : Explained g e'.changes := by
  obtain ⟨item, state, hsets⟩ := hs
  by_cases hne : e.stateOf item = state
  · have hset : e.setItemState item state = e := by
      unfold setItemState
      rw [if_neg (not_not.mpr hne)]
    rw [hsets.changes, hset]
    exact h
  · have hset : e'.changes = e.changes ++ [(item, state)] := by
      rw [hsets.changes]
      unfold setItemState
      rw [if_pos hne, if_pos hheard.changeCallback]
    have hreason := hsets.reason hne
    -- The change is the new one, or it was there before.
    have hcases : ∀ {before after change}, e'.changes = before ++ change :: after →
        (before = e.changes ∧ change = (item, state)) ∨
          ∃ after', e.changes = before ++ change :: after' := by
      intro before after change heq
      rw [hset] at heq
      rcases List.eq_nil_or_concat after with rfl | ⟨after', last, rfl⟩
      · obtain ⟨hbefore, hchange⟩ := List.append_inj' heq rfl
        exact Or.inl ⟨hbefore.symm, (List.cons.inj hchange).1.symm⟩
      · rw [List.concat_eq_append, ← List.cons_append, ← List.append_assoc] at heq
        exact Or.inr ⟨after', (List.append_inj' heq rfl).1⟩
    constructor
    · intro before a after heq
      rcases hcases heq with ⟨rfl, hchange⟩ | ⟨after', heq'⟩
      · obtain ⟨rfl, rfl⟩ := Prod.mk.inj hchange
        obtain ⟨deps, hdeps, hcompleted⟩ := hreason.ready rfl hpropagate
        exact ⟨deps, hg ▸ hdeps, fun d hd ↦
          hheard.mem_changes (hcompleted d hd) ItemState.noConfusion⟩
      · exact h.ready before a after' heq'
    · intro before a after heq
      rcases hcases heq with ⟨rfl, hchange⟩ | ⟨after', heq'⟩
      · obtain ⟨rfl, rfl⟩ := Prod.mk.inj hchange
        obtain ⟨deps, hdeps, d, hd, hbad⟩ := hreason.depfailed rfl
        refine ⟨deps, hg ▸ hdeps, d, hd, ?_⟩
        exact hbad.imp (hheard.mem_changes · ItemState.noConfusion)
          (hheard.mem_changes · ItemState.noConfusion)
      · exact h.depfailed before a after' heq'

/-- What the callback has heard of an evaluator for a graph, with failure propagation. -/
structure Reported (g : DependencyGraph) (e : DependencyEvaluator) : Prop where
  heard : Heard e
  graph : e.graph = g
  propagateFailure : e.propagateFailure = true
  explained : Explained g e.changes
  first : ∀ item ∈ g.inOrder, ∃ state, (e.heard item).head? = some state ∧
    (state = .waiting ∨ state = .ready)

theorem Reported.changes {g : DependencyGraph} {e e' : DependencyEvaluator} (h : Reported g e)
    (hs : Changes e e') : Reported g e' := by
  induction hs with
  | refl => exact h
  | tail _ hstep ih =>
    refine ⟨ih.heard.setsState hstep, ?_, ?_,
      ih.explained.setsState ih.heard ih.graph ih.propagateFailure hstep, ?_⟩
    · obtain ⟨item, state, hsets⟩ := hstep
      exact hsets.graph.trans ih.graph
    · obtain ⟨item, state, hsets⟩ := hstep
      exact hsets.propagateFailure.trans ih.propagateFailure
    · intro item hitem
      obtain ⟨state, hhead, hstate⟩ := ih.first item hitem
      obtain ⟨more, hmore⟩ := hstep.changes_prefix
      refine ⟨state, ?_, hstate⟩
      unfold DependencyEvaluator.heard at hhead ⊢
      rw [← hmore, List.filter_append, List.map_append, List.head?_append, hhead]
      rfl

/-- A state that no state follows is heard of once, if it is the state of the item. -/
theorem count_of_isChain {states : List ItemState} (h : states.IsChain Follows) {state : ItemState}
    (hend : ∀ next, ¬ Follows state next) :
    states.count state = if states.getLast? = some state then 1 else 0 := by
  induction states with
  | nil => rfl
  | cons first rest ih =>
    cases rest with
    | nil =>
      simp [List.count_singleton]
    | cons second rest =>
      obtain ⟨hfirst, hrest⟩ := List.isChain_cons_cons.mp h
      have hne : first ≠ state := by
        rintro rfl
        exact hend second hfirst
      rw [List.count_cons_of_ne hne, ih hrest, List.getLast?_cons_cons]

theorem Heard.count_depfailed {e : DependencyEvaluator} (h : Heard e) (item : ItemType) :
    e.changes.count (item, .depfailed) = if e.stateOf item = .depfailed then 1 else 0 := by
  have hend : ∀ next, ¬ Follows .depfailed next := by
    intro next hnext
    cases hnext
  have hcount := count_of_isChain (h.chain item) hend
  rw [h.last] at hcount
  have hsame : e.states[item]? = some .depfailed ↔ e.stateOf item = .depfailed := by
    unfold stateOf
    rw [TreeMap.getD_eq_getD_getElem?]
    cases e.states[item]? with
    | none => simp
    | some state => simp
  rw [← if_congr hsame rfl rfl, ← hcount]
  unfold heard
  rw [List.count, List.count, List.countP_map, List.countP_filter]
  refine List.countP_congr fun change _ ↦ ?_
  simp [Prod.ext_iff, and_comm]

theorem changes_new {g : DependencyGraph} {e : DependencyEvaluator} (h : new g = some e) :
    e.changes = [] := by
  obtain ⟨checked, -, hrest⟩ := Option.bind_eq_some_iff.mp h
  split_ifs at hrest
  obtain ⟨inOrder, -, hrest⟩ := Option.bind_eq_some_iff.mp hrest
  obtain ⟨states, -, hsome⟩ := Option.bind_eq_some_iff.mp hrest
  obtain rfl := Option.some_inj.mp hsome
  rfl

/-- A callback that is set at the start hears of the state of every item. -/
theorem heard_start {e : DependencyEvaluator} (h : e.changes = []) (item : ItemType) :
    (e.setChangeCallback true).heard item = (e.states[item]?).toList := by
  have hchanges : (e.setChangeCallback true).changes = e.states.toList := by
    unfold setChangeCallback
    rw [if_pos rfl, h, List.nil_append]
  have hnodup : (e.states.toList.filter (·.1 == item)).Nodup := by
    refine List.Nodup.filter _ (List.Pairwise.imp ?_ e.states.distinct_keys_toList)
    rintro x y hne rfl
    exact hne (compare_eq_iff_eq.mpr rfl)
  have hmem : ∀ state, (item, state) ∈ e.states.toList.filter (·.1 == item) ↔
      e.states[item]? = some state := fun state ↦ by
    rw [List.mem_filter, beq_self_eq_true, and_iff_left rfl,
      TreeMap.mem_toList_iff_getElem?_eq_some]
  have hkey : ∀ x ∈ e.states.toList.filter (·.1 == item), x.1 = item := fun x hx ↦
    eq_of_beq (List.mem_filter.mp hx).2
  unfold heard
  rw [hchanges]
  cases hstate : e.states[item]? with
  | none =>
    have hnil : e.states.toList.filter (·.1 == item) = [] := by
      refine List.eq_nil_iff_forall_not_mem.mpr fun x hx ↦ ?_
      have hx' := (hmem x.2).mp (hkey x hx ▸ hx)
      cases hstate.symm.trans hx'
    rw [hnil]
    rfl
  | some state =>
    have hall : ∀ x ∈ e.states.toList.filter (·.1 == item), x = (item, state) := fun x hx ↦ by
      have hx' := (hmem x.2).mp (hkey x hx ▸ hx)
      exact Prod.ext (hkey x hx) (Option.some_inj.mp (hx'.symm.trans hstate))
    have hreplicate := List.eq_replicate_of_mem hall
    have hone : (e.states.toList.filter (·.1 == item)).length = 1 := by
      refine le_antisymm ?_ (List.length_pos_of_mem ((hmem state).mpr hstate))
      rw [hreplicate] at hnodup
      exact List.nodup_replicate.mp hnodup
    rw [hreplicate, hone]
    rfl

theorem heard_setChangeCallback {e : DependencyEvaluator} (h : e.changes = []) :
    Heard (e.setChangeCallback true) := by
  refine ⟨rfl, fun item ↦ ?_, fun item ↦ ?_⟩
  · rw [heard_start h]
    cases e.states[item]? with
    | none => exact List.isChain_nil
    | some state => exact List.isChain_singleton _
  · rw [heard_start h]
    show _ = e.states[item]?
    cases e.states[item]? with
    | none => rfl
    | some state => rfl

/-- At the start the items without dependencies are heard to be ready, and the others to wait. -/
theorem reported_setChangeCallback {g : DependencyGraph} (hg : DependencyGraph.ErrorFree g)
    {e : DependencyEvaluator} (h : new g = some e) : Reported g (e.setChangeCallback true) := by
  obtain ⟨e₁, hnew, hover, hpropagate, -, hinitial⟩ := new_spec hg
  obtain rfl := Option.some_inj.mp (h.symm.trans hnew)
  have hchanges : (e.setChangeCallback true).changes = e.states.toList := by
    unfold setChangeCallback
    rw [if_pos rfl, changes_new h, List.nil_append]
  have hstate : ∀ item state, (item, state) ∈ e.states.toList →
      item ∈ g.inOrder ∧ e.stateOf item = state := by
    intro item state hmem
    have hget := TreeMap.mem_toList_iff_getElem?_eq_some.mp hmem
    refine ⟨(hover.mem_states item).mp (TreeMap.isSome_getElem?_iff_mem.mp (hget ▸ rfl)), ?_⟩
    unfold stateOf
    rw [TreeMap.getD_eq_getD_getElem?, hget]
    rfl
  refine ⟨heard_setChangeCallback (changes_new h), hover.graph_eq, hpropagate, ⟨?_, ?_⟩, ?_⟩
  · intro before item after heq
    obtain ⟨hitem, hready⟩ := hstate item .ready (by simp [← hchanges, heq])
    obtain ⟨deps, hdeps, hmem⟩ := hg.getDirectDependencies hitem
    refine ⟨deps, hdeps, fun d hd ↦ ?_⟩
    rcases hinitial item hitem with ⟨-, hnone⟩ | ⟨hwaiting, -⟩
    · exact absurd ((hmem d).mp hd) (hnone d)
    · cases hready.symm.trans hwaiting
  · intro before item after heq
    obtain ⟨hitem, hfailed⟩ := hstate item .depfailed (by simp [← hchanges, heq])
    rcases hinitial item hitem with ⟨hready, -⟩ | ⟨hwaiting, -⟩
    · cases hfailed.symm.trans hready
    · cases hfailed.symm.trans hwaiting
  · intro item hitem
    have hhas : (e.states[item]?).isSome :=
      TreeMap.isSome_getElem?_iff_mem.mpr ((hover.mem_states item).mpr hitem)
    obtain ⟨state, hget⟩ := Option.isSome_iff_exists.mp hhas
    have hsame : e.stateOf item = state := by
      unfold stateOf
      rw [TreeMap.getD_eq_getD_getElem?, hget]
      rfl
    refine ⟨state, ?_, ?_⟩
    · rw [heard_start (changes_new h), hget]
      rfl
    · rw [← hsame]
      exact (hinitial item hitem).elim (fun hready ↦ Or.inr hready.1) fun hwait ↦ Or.inl hwait.1

end Abuild.DependencyEvaluator
