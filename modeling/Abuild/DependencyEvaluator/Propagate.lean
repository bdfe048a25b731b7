import Abuild.DependencyEvaluator.Evaluate

/-!
The evaluator with failure propagation on. While a call re-evaluates items, the
states are right except that some items wait although their dependencies no
longer make them wait (`Sound`, with the set of those items); a re-evaluation
takes its item out of the set (`evaluate_sound`), because the items that become
pending on the way are re-evaluated by it. Between calls the set is empty, and
the state of every item is then the one its dependencies give it
(`run_consistent`).
-/

set_option autoImplicit false
set_option relaxedAutoImplicit false

namespace Abuild.DependencyEvaluator

open Std (TreeMap)
open DependencyGraph Precedence Relation

/-- The states fit together, but for pending items that wait without cause. -/
structure Sound (g : DependencyGraph) (pending : ItemType → Prop) (e : DependencyEvaluator) :
    Prop where
  ofGraph : Over g e
  propagateFailure : e.propagateFailure = true
  depfailed : ∀ a, e.stateOf a = .depfailed →
    ∃ b, DependsOn g.dependencies a b ∧ Bad (e.stateOf b)
  started : ∀ a, Started (e.stateOf a) → ∀ b, DependsOn g.dependencies a b →
    e.stateOf b = .completed
  waiting : ∀ a ∈ g.inOrder, ¬ pending a → e.stateOf a = .waiting →
    (∀ b, DependsOn g.dependencies a b → ¬ Bad (e.stateOf b)) ∧
      ∃ b, DependsOn g.dependencies a b ∧ e.stateOf b ≠ .completed

theorem Sound.mono {g : DependencyGraph} {pending pending' : ItemType → Prop}
    {e : DependencyEvaluator} (h : Sound g pending e) (hsub : ∀ a, pending a → pending' a) :
    Sound g pending' e :=
  { h with waiting := fun a ha hpending ↦ h.waiting a ha fun hp ↦ hpending (hsub a hp) }

/-- A new state for one item, whose dependents become pending. The old state is
neither completed nor bad, so that nothing was derived from it. -/
theorem Sound.mark {g : DependencyGraph} {pending : ItemType → Prop} {e e' : DependencyEvaluator}
    (h : Sound g pending e) {item : ItemType} {state : ItemState} (hover : Over g e')
    (hpropagate : e'.propagateFailure = true)
    (hstates : ∀ a, e'.stateOf a = if a = item then state else e.stateOf a)
    (hold : e.stateOf item ≠ .completed ∧ ¬ Bad (e.stateOf item))
    (hdepfailed : state = .depfailed →
      ∃ b, DependsOn g.dependencies item b ∧ Bad (e.stateOf b))
    (hstarted : Started state → ∀ b, DependsOn g.dependencies item b →
      e.stateOf b = .completed)
    (hwaiting : state ≠ .waiting) :
    Sound g (fun a ↦ (pending a ∧ a ≠ item) ∨ DependsOn g.dependencies a item) e' := by
  have hkeep : ∀ b, e.stateOf b = .completed ∨ Bad (e.stateOf b) → e'.stateOf b = e.stateOf b := by
    intro b hb
    rw [hstates, if_neg]
    rintro rfl
    exact hb.elim hold.1 hold.2
  constructor
  · exact hover
  · exact hpropagate
  · intro a ha
    rw [hstates] at ha
    have hdep : ∃ b, DependsOn g.dependencies a b ∧ Bad (e.stateOf b) := by
      split_ifs at ha with haitem
      · exact haitem ▸ hdepfailed ha
      · exact h.depfailed a ha
    obtain ⟨b, hab, hb⟩ := hdep
    exact ⟨b, hab, by rwa [hkeep b (Or.inr hb)]⟩
  · intro a ha b hab
    have hb : e.stateOf b = .completed := by
      rw [hstates] at ha
      split_ifs at ha with haitem
      · exact hstarted ha b (haitem ▸ hab)
      · exact h.started a ha b hab
    rw [hkeep b (Or.inl hb), hb]
  · intro a hmem hpending ha
    obtain ⟨hnotpending, hnotdep⟩ := not_or.mp hpending
    have hne : a ≠ item := by
      rintro rfl
      rw [hstates, if_pos rfl] at ha
      exact hwaiting ha
    rw [hstates, if_neg hne] at ha
    have hsame : ∀ b, DependsOn g.dependencies a b → e'.stateOf b = e.stateOf b := by
      intro b hab
      rw [hstates, if_neg]
      rintro rfl
      exact hnotdep hab
    obtain ⟨hgood, b, hab, hb⟩ := h.waiting a hmem (fun hp ↦ hnotpending ⟨hp, hne⟩) ha
    refine ⟨fun c hac ↦ ?_, b, hab, ?_⟩
    · rw [hsame c hac]
      exact hgood c hac
    · rwa [hsame b hab]

/-- Re-evaluations of pending items leave the others pending. -/
theorem foldlM_evaluate_sound {g : DependencyGraph} {depth : ℕ}
    (hstep : ∀ (item : ItemType) (e e' : DependencyEvaluator) (pending : ItemType → Prop),
      item ∈ g.inOrder → Sound g pending e → evaluate depth e item = some e' →
      Sound g (fun a ↦ pending a ∧ a ≠ item) e')
    (items : ItemList) (hitems : ∀ a ∈ items, a ∈ g.inOrder) {e e' : DependencyEvaluator}
    {pending : ItemType → Prop} (h : Sound g (fun a ↦ pending a ∨ a ∈ items) e)
    (he : items.foldlM (evaluate depth) e = some e') : Sound g pending e' := by
  induction items generalizing e with
  | nil =>
    obtain rfl : e = e' := by simpa using he
    exact h.mono fun a ha ↦ by simpa using ha
  | cons item items ih =>
    rw [List.foldlM_cons] at he
    obtain ⟨e₁, he₁, hrest⟩ := Option.bind_eq_some_iff.mp he
    refine ih (fun a ha ↦ hitems a (List.mem_cons_of_mem _ ha)) ?_ hrest
    refine (hstep item e e₁ _ (hitems item (by simp)) h he₁).mono ?_
    rintro a ⟨ha, hne⟩
    exact ha.imp_right fun hmem ↦ (List.mem_cons.mp hmem).resolve_left hne

/-- A re-evaluation leaves its item with a state that its dependencies give it. -/
theorem evaluate_sound {g : DependencyGraph} (hg : ErrorFree g) (depth : ℕ) (item : ItemType)
    (e e' : DependencyEvaluator) (pending : ItemType → Prop) (hitem : item ∈ g.inOrder)
    (h : Sound g pending e) (he : evaluate depth e item = some e') :
    Sound g (fun a ↦ pending a ∧ a ≠ item) e' := by
  induction depth generalizing item e e' pending with
  | zero => simp [evaluate] at he
  | succ depth ih =>
    -- A state that is not waiting does not have to be pending.
    have hdrop : e.stateOf item ≠ .waiting ∨ ((∀ b, DependsOn g.dependencies item b →
        ¬ Bad (e.stateOf b)) ∧ ∃ b, DependsOn g.dependencies item b ∧
          e.stateOf b ≠ .completed) → Sound g (fun a ↦ pending a ∧ a ≠ item) e := by
      intro hcause
      refine { h with waiting := fun a ha hpending hstate ↦ ?_ }
      by_cases hne : a = item
      · subst hne
        exact hcause.resolve_left (not_not.mpr hstate)
      · exact h.waiting a ha (fun hp ↦ hpending ⟨hp, hne⟩) hstate
    rcases evaluate_cases hg h.ofGraph hitem he with ⟨hwaiting, -, rfl⟩ |
      ⟨hstate, deps, hdeps, -, hscan⟩
    · exact hdrop (Or.inl hwaiting)
    have hold : e.stateOf item ≠ .completed ∧ ¬ Bad (e.stateOf item) := by
      rcases hstate with hstate | hstate <;> rw [hstate] <;> decide
    rcases scan_cases e false deps with ⟨hgood, heq⟩ | ⟨before, d, after, hsplit, -, hbad, heq⟩
    · rcases hscan with ⟨hfailed, -⟩ | ⟨hfree, rfl⟩ | ⟨hblocked, rfl⟩
      · rw [heq] at hfailed
        exact absurd hfailed (by simp)
      · -- Every dependency has completed: the item becomes ready.
        have hcompleted : ∀ b, DependsOn g.dependencies item b → e.stateOf b = .completed := by
          intro b hb
          rw [heq] at hfree
          simpa using List.any_eq_false.mp (congrArg Prod.snd hfree) b ((hdeps b).mpr hb)
        have hmark := h.mark (h.ofGraph.setItemState hitem .ready)
          (by rw [setItemState_propagateFailure, h.propagateFailure])
          (stateOf_setItemState e item .ready) hold (fun h ↦ by simp at h)
          (fun _ ↦ hcompleted) (by decide)
        -- The dependents of the item still wait for it, now that it is ready.
        refine { hmark with waiting := fun a ha hpending hwaiting ↦ ?_ }
        by_cases hdep : DependsOn g.dependencies a item
        · have hne : a ≠ item := by
            rintro rfl
            rw [stateOf_setItemState, if_pos rfl] at hwaiting
            exact absurd hwaiting (by decide)
          have hwaiting' : e.stateOf a = .waiting := by
            rwa [stateOf_setItemState, if_neg hne] at hwaiting
          obtain ⟨hnone, -⟩ := h.waiting a ha (fun hp ↦ hpending ⟨hp, hne⟩) hwaiting'
          refine ⟨fun b hab ↦ ?_, item, hdep, ?_⟩
          · rw [stateOf_setItemState]
            split_ifs
            · decide
            · exact hnone b hab
          · rw [stateOf_setItemState, if_pos rfl]
            decide
        · exact hmark.waiting a ha (not_or.mpr ⟨hpending, hdep⟩) hwaiting
      · -- Some dependency is unfinished: the item waits.
        refine hdrop (Or.inr ⟨fun b hb ↦ hgood b ((hdeps b).mpr hb), ?_⟩)
        rw [heq] at hblocked
        obtain ⟨b, hb, hne⟩ := List.any_eq_true.mp
          (show deps.any (e'.stateOf · ≠ .completed) = true from congrArg Prod.snd hblocked)
        exact ⟨b, (hdeps b).mp hb, by simpa using hne⟩
    · -- A dependency has failed: the item is depfailed, and its dependents follow.
      have hdep : DependsOn g.dependencies item d := (hdeps d).mp (by simp [hsplit])
      rw [h.propagateFailure] at heq
      rcases hscan with ⟨-, rdeps, hrdeps, hfold⟩ | ⟨hfree, -⟩ | ⟨hblocked, -⟩
      · have hmark := h.mark (h.ofGraph.setItemState hitem .depfailed)
          (by rw [setItemState_propagateFailure, h.propagateFailure])
          (stateOf_setItemState e item .depfailed) hold (fun _ ↦ ⟨d, hdep, hbad⟩)
          (fun hstarted ↦ absurd hstarted (by unfold Started; decide)) (by decide)
        refine foldlM_evaluate_sound ih rdeps
          (fun b hb ↦ hg.mem_inOrder_left ((hrdeps b).mp hb)) (hmark.mono ?_) hfold
        intro a ha
        exact ha.imp_right (hrdeps a).mpr
      · rw [heq] at hfree
        exact absurd (congrArg Prod.fst hfree) (by simp)
      · rw [heq] at hblocked
        exact absurd (congrArg Prod.fst hblocked) (by simp)

/-- Between calls no item is pending. -/
theorem Sound.call {g : DependencyGraph} (hg : ErrorFree g) {e e' : DependencyEvaluator}
    (h : Sound g (fun _ ↦ False) e) {c : Call} (hc : e.call c = some e') :
    Sound g (fun _ ↦ False) e' := by
  rcases call_cases hg h.ofGraph hc with ⟨item, rfl, hitem, hstate, rfl⟩ |
    ⟨item, state, hfinishes, hitem, hstate, rdeps, hrdeps, hfold⟩
  · have hmark := h.mark (h.ofGraph.markRunning hitem)
      (by unfold markRunning; rw [setItemState_propagateFailure, h.propagateFailure])
      (stateOf_markRunning e item) (by rw [hstate]; decide) (fun h ↦ by simp at h)
      (fun _ ↦ h.started item (by rw [hstate]; exact Or.inl rfl)) (by decide)
    -- The dependents of a running item wait as they did when it was ready.
    refine { hmark with waiting := fun a ha _ hwaiting ↦ ?_ }
    by_cases hdep : DependsOn g.dependencies a item
    · have hne : a ≠ item := by
        rintro rfl
        rw [stateOf_markRunning, if_pos rfl] at hwaiting
        exact absurd hwaiting (by decide)
      have hwaiting' : e.stateOf a = .waiting := by
        rwa [stateOf_markRunning, if_neg hne] at hwaiting
      obtain ⟨hnone, -⟩ := h.waiting a ha id hwaiting'
      refine ⟨fun b hab ↦ ?_, item, hdep, ?_⟩
      · rw [stateOf_markRunning]
        split_ifs
        · decide
        · exact hnone b hab
      · rw [stateOf_markRunning, if_pos rfl]
        decide
    · exact hmark.waiting a ha (by simp [hdep]) hwaiting
  · have hmark := h.mark (h.ofGraph.markFinished hitem state)
      (by unfold markFinished; rw [setItemState_propagateFailure, h.propagateFailure])
      (stateOf_markFinished e item state) (by rw [hstate]; decide)
      (by rcases hfinishes with ⟨-, rfl⟩ | ⟨-, rfl⟩ <;> exact fun h ↦ by simp at h)
      (fun _ ↦ h.started item (by rw [hstate]; exact Or.inr (Or.inl rfl)))
      (by rcases hfinishes with ⟨-, rfl⟩ | ⟨-, rfl⟩ <;> decide)
    refine foldlM_evaluate_sound (evaluate_sound hg _) rdeps
      (fun b hb ↦ hg.mem_inOrder_left ((hrdeps b).mp hb)) (hmark.mono ?_) hfold
    intro a ha
    rcases ha with ⟨hfalse, -⟩ | hdep
    · exact hfalse.elim
    · exact Or.inr ((hrdeps a).mpr hdep)

/-- The state of every item is the one that its dependencies give it, the count
of running items is right, and there is work to do unless all is done. -/
structure Consistent (g : DependencyGraph) (e : DependencyEvaluator) : Prop where
  known : ∀ a ∈ g.inOrder, e.getItemState a = some (e.stateOf a)
  depfailed_iff : ∀ a ∈ g.inOrder, e.stateOf a = .depfailed ↔
    ∃ b, DependsOn g.dependencies a b ∧ (e.stateOf b = .failed ∨ e.stateOf b = .depfailed)
  waiting_iff : ∀ a ∈ g.inOrder, e.stateOf a = .waiting ↔
    (¬ ∃ b, DependsOn g.dependencies a b ∧ (e.stateOf b = .failed ∨ e.stateOf b = .depfailed)) ∧
      ∃ b, DependsOn g.dependencies a b ∧ e.stateOf b ≠ .completed
  started : ∀ a ∈ g.inOrder, (e.stateOf a = .ready ∨ e.stateOf a = .running ∨
    e.stateOf a = .completed ∨ e.stateOf a = .failed) →
      ∀ b, DependsOn g.dependencies a b → e.stateOf b = .completed
  numRunning : e.numRunning = (g.inOrder.filter fun a ↦ e.stateOf a = .running).length
  active : (∀ a ∈ g.inOrder, (e.stateOf a).Terminal) ∨
    ∃ a ∈ g.inOrder, e.stateOf a = .ready ∨ e.stateOf a = .running

theorem Sound.consistent {g : DependencyGraph} (hg : ErrorFree g) {e : DependencyEvaluator}
    (h : Sound g (fun _ ↦ False) e) (hcount : Counted g e) : Consistent g e := by
  have hwaiting : ∀ a ∈ g.inOrder, e.stateOf a = .waiting →
      (∀ b, DependsOn g.dependencies a b → ¬ Bad (e.stateOf b)) ∧
        ∃ b, DependsOn g.dependencies a b ∧ e.stateOf b ≠ .completed :=
    fun a ha ↦ h.waiting a ha id
  -- A started item has no bad dependency and no unfinished one.
  have hcases : ∀ a, e.stateOf a = .waiting ∨ e.stateOf a = .depfailed ∨ Started (e.stateOf a) := by
    intro a
    unfold Started
    cases e.stateOf a <;> simp
  constructor
  · exact fun a ha ↦ h.ofGraph.getItemState ha
  · refine fun a ha ↦ ⟨h.depfailed a, fun ⟨b, hab, hb⟩ ↦ ?_⟩
    rcases hcases a with hstate | hstate | hstate
    · exact absurd hb ((hwaiting a ha hstate).1 b hab)
    · exact hstate
    · rw [h.started a hstate b hab] at hb
      exact absurd hb (by decide)
  · refine fun a ha ↦ ⟨fun hstate ↦ ?_, fun ⟨hnone, b, hab, hb⟩ ↦ ?_⟩
    · obtain ⟨hgood, hblocked⟩ := hwaiting a ha hstate
      exact ⟨fun ⟨b, hab, hb⟩ ↦ hgood b hab hb, hblocked⟩
    · rcases hcases a with hstate | hstate | hstate
      · exact hstate
      · exact absurd (h.depfailed a hstate) hnone
      · exact absurd (h.started a hstate b hab) hb
  · exact fun a _ hstarted ↦ h.started a hstarted
  · exact hcount
  · by_contra hidle
    rw [not_or] at hidle
    obtain ⟨hsome, hnone⟩ := hidle
    -- An unfinished item that needs no unfinished one is neither waiting nor anything else.
    have hexists : ∃ a ∈ g.inOrder, ¬ (e.stateOf a).Terminal := by
      by_contra hall
      exact hsome fun a ha ↦ by_contra fun hne ↦ hall ⟨a, ha, hne⟩
    obtain ⟨a, ha, hunfinished, hneeds⟩ := hg.ordered.exists_minimal hexists
    have hstate : e.stateOf a = .waiting := by
      rcases hcases a with hstate | hstate | hstate | hstate | hstate | hstate
      · exact hstate
      · exact absurd (Or.inr (Or.inr hstate)) hunfinished
      · exact absurd ⟨a, ha, Or.inl hstate⟩ hnone
      · exact absurd ⟨a, ha, Or.inr hstate⟩ hnone
      · exact absurd (Or.inl hstate) hunfinished
      · exact absurd (Or.inr (Or.inl hstate)) hunfinished
    obtain ⟨hgood, b, hab, hb⟩ := hwaiting a ha hstate
    rcases not_not.mp (hneeds b hab) with hterminal | hterminal
    · exact hb hterminal
    · exact hgood b hab hterminal

/-- The invariant of a sequence of calls. -/
theorem run_sound {g : DependencyGraph} (hg : ErrorFree g) {e e' : DependencyEvaluator}
    (h : Sound g (fun _ ↦ False) e) (hcount : Counted g e) {calls : List Call}
    (he : e.run calls = some e') : Sound g (fun _ ↦ False) e' ∧ Counted g e' := by
  unfold run at he
  induction calls generalizing e with
  | nil =>
    obtain rfl : e = e' := by simpa using he
    exact ⟨h, hcount⟩
  | cons c calls ih =>
    rw [List.foldlM_cons] at he
    obtain ⟨e₁, hc, hrest⟩ := Option.bind_eq_some_iff.mp he
    exact ih (h.call hg hc) (hcount.call hg h.ofGraph hc) hrest

theorem new_sound {g : DependencyGraph} (hg : ErrorFree g) :
    ∃ e, new g = some e ∧ Sound g (fun _ ↦ False) e ∧ Counted g e := by
  obtain ⟨e, hnew, hover, hpropagate, hcount, hinitial⟩ := new_spec hg
  have hstate : ∀ a, (e.stateOf a = .ready ∧ ∀ b, ¬ DependsOn g.dependencies a b) ∨
      e.stateOf a = .waiting := by
    intro a
    by_cases ha : a ∈ g.inOrder
    · exact (hinitial a ha).imp_right And.left
    · exact Or.inr (hover.stateOf_eq_waiting ha)
  refine ⟨e, hnew, ⟨hover, hpropagate, fun a ha ↦ ?_, fun a ha b hab ↦ ?_, ?_⟩, hcount⟩
  · rcases hstate a with ⟨hready, -⟩ | hwaiting
    · rw [hready] at ha
      exact absurd ha (by decide)
    · rw [hwaiting] at ha
      exact absurd ha (by decide)
  · rcases hstate a with ⟨-, hnone⟩ | hwaiting
    · exact absurd hab (hnone b)
    · rw [hwaiting] at ha
      exact absurd ha (by unfold Started; decide)
  · intro a ha _ hwaiting
    have hgood : ∀ b, ¬ Bad (e.stateOf b) ∧ e.stateOf b ≠ .completed := by
      intro b
      rcases hstate b with ⟨hb, -⟩ | hb <;> rw [hb] <;> decide
    rcases hinitial a ha with ⟨hready, -⟩ | ⟨-, b, hab⟩
    · rw [hready] at hwaiting
      exact absurd hwaiting (by decide)
    · exact ⟨fun c _ ↦ (hgood c).1, b, hab, (hgood b).2⟩

/-- With failure propagation on, every state that a sequence of legal calls
reaches is consistent; a call returns exactly when it is legal, and it changes no
item that is completed, failed or depfailed. -/
theorem run_consistent {g : DependencyGraph} (hg : ErrorFree g) :
    ∃ e₀, new g = some e₀ ∧ ∀ calls e, e₀.run calls = some e → Consistent g e ∧
      (∀ c, (∃ e', e.call c = some e') ↔ e.Legal c) ∧
      ∀ c e', e.call c = some e' → ∀ a, (e.stateOf a).Terminal → e'.stateOf a = e.stateOf a := by
  obtain ⟨e₀, hnew, hsound, hcount⟩ := new_sound hg
  refine ⟨e₀, hnew, fun calls e he ↦ ?_⟩
  obtain ⟨hsound', hcount'⟩ := run_sound hg hsound hcount he
  refine ⟨hsound'.consistent hg hcount', call_isSome_iff hg hsound'.ofGraph, ?_⟩
  exact fun c e' hc a ha ↦ call_terminal hg hsound'.ofGraph hc ha

theorem run_consistent_chain :
    ∃ g e₀, (build [.addItem "b", .addItem "a", .addDependency "b" "a"]).bind check =
        some (true, g) ∧ new g = some e₀ ∧
      ∀ calls e, e₀.run calls = some e → Consistent g e := by
  obtain ⟨⟨result, g⟩, hg⟩ := Option.isSome_iff_exists.mp
    (show ((build [.addItem "b", .addItem "a", .addDependency "b" "a"]).bind check).isSome by
      decide)
  have hresult : ((build [.addItem "b", .addItem "a", .addDependency "b" "a"]).bind check).map
      Prod.fst = some true := by decide
  rw [hg] at hresult
  obtain rfl : result = true := by simpa using hresult
  obtain ⟨e₀, hnew, hrun⟩ := run_consistent (errorFree_of_build hg)
  exact ⟨g, e₀, hg, hnew, fun calls e he ↦ (hrun calls e he).1⟩

end Abuild.DependencyEvaluator
