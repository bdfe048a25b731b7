import Abuild.BuildState.RunTarget
import Abuild.Library.Fallible
import Mathlib.Logic.Relation

/-!
Calls of `runTarget` from outside, one after the other, on a `BuildState` whose graph has no errors.
The exception of a target that is called while it is in progress is thrown through the run of every
target that waits for it as a dependency, and so is an exception that is not an `Exception`; these
targets are left in progress. `callAll_iff`: where neither happens, every call leaves all targets
with a result.
-/

set_option autoImplicit false
set_option relaxedAutoImplicit false

namespace Abuild

open Relation Fallible

/-! ### The graph -/

namespace GroovyDependencyGraph

variable {g g' : GroovyDependencyGraph}

theorem dependencies_topologicalSort (h : g.topologicalSort = some g') :
    g'.dependencies = g.dependencies := by
  obtain ⟨⟨sorted, report⟩, -, h⟩ := Option.bind_eq_some_iff.mp h
  obtain rfl := Option.some_inj.mp h
  rfl

theorem check_of_init (hinit : g.graphState = .init) (h : g.check = some (true, g')) :
    g'.graphState = .ready ∧
      ∀ item, item ∈ g.dependencies.keySet →
        g'.dependencies.get? item = g.dependencies.get? item := by
  unfold check at h
  rw [if_neg (not_not.mpr hinit)] at h
  dsimp only at h
  split_ifs at h with hroot
  obtain ⟨g₁, hsort, h⟩ := Option.bind_eq_some_iff.mp h
  obtain ⟨last, -, h⟩ := Option.bind_eq_some_iff.mp h
  split_ifs at h with hlast
  all_goals
    obtain ⟨hstate, rfl⟩ := Prod.mk.inj (Option.some_inj.mp h)
    refine ⟨of_decide_eq_true hstate, fun item hitem ↦ ?_⟩
    have hne : ¬ "" = item := by
      rintro rfl
      exact hroot (decide_eq_true hitem)
    rw [LinkedHashMap.get?_remove, if_neg hne, dependencies_topologicalSort hsort]
    show (addRoot g.dependencies).get? item = _
    unfold addRoot
    rw [LinkedHashMap.get?_put, if_neg hne]

end GroovyDependencyGraph

namespace BuildState

variable {υ : Type} {s s' s₁ : BuildState υ}

/-! ### Configuration -/

/-- A state from the first file that is loaded to the check of the graph. -/
structure Unstarted (s : BuildState υ) : Prop where
  targetsRun : s.targetsRun = .empty
  graphState : s.g.graphState = .init
  known : ∀ target, s.closures.containsKey target = true →
    s.g.dependencies.containsKey target = true
  output : ∀ e ∈ s.events, e.isOutput = true

theorem unstarted_new (keepGoing verbose : Bool) (world : υ) :
    Unstarted (new keepGoing verbose world) where
  targetsRun := rfl
  graphState := rfl
  known _ h := by cases h
  output _ h := by cases h

theorem Unstarted.error (h : Unstarted s) (message : String) : Unstarted (s.error message) where
  targetsRun := h.targetsRun
  graphState := h.graphState
  known := h.known
  output e he := by
    rcases List.mem_append.mp he with he | he
    · exact h.output e he
    · rw [List.mem_singleton.mp he]
      rfl

theorem Unstarted.put (h : Unstarted s) {name : String}
    (hname : s.g.dependencies.containsKey name = true) (cls : List (String × TargetClosure υ)) :
    Unstarted { s with closures := s.closures.put name cls } where
  targetsRun := h.targetsRun
  graphState := h.graphState
  known target htarget := by
    rw [LinkedHashMap.containsKey_eq, LinkedHashMap.get?_put] at htarget
    split_ifs at htarget with heq
    · exact heq ▸ hname
    · rw [← LinkedHashMap.containsKey_eq] at htarget
      exact h.known target htarget
  output := h.output

theorem containsKey_put {β : Type} {m : LinkedHashMap String β} {k k' : String} {v : β} :
    (m.put k v).containsKey k' = true ↔ k = k' ∨ m.containsKey k' = true := by
  rw [LinkedHashMap.containsKey_eq, LinkedHashMap.get?_put, LinkedHashMap.containsKey_eq]
  split_ifs with heq
  · exact iff_of_true rfl (Or.inl heq)
  · exact (or_iff_right heq).symm

/-- The graph is only added to. -/
theorem Unstarted.withGraph (h : Unstarted s) {g : GroovyDependencyGraph}
    (hstate : g.graphState = .init)
    (hkeys : ∀ item, s.g.dependencies.containsKey item = true →
      g.dependencies.containsKey item = true) : Unstarted { s with g } where
  targetsRun := h.targetsRun
  graphState := hstate
  known target htarget := hkeys target (h.known target htarget)
  output := h.output

theorem addDependency_keys {g g' : GroovyDependencyGraph} {item dep : String}
    (h : g.addDependency item dep = some g') :
    g'.graphState = .init ∧ ∀ a, g.dependencies.containsKey a = true →
      g'.dependencies.containsKey a = true := by
  unfold GroovyDependencyGraph.addDependency at h
  split_ifs at h
  obtain rfl := Option.some_inj.mp h
  exact ⟨rfl, fun a ha ↦ containsKey_put.mpr (Or.inr ha)⟩

theorem addItem_keys {g g' : GroovyDependencyGraph} {item : String}
    (h : g.addItem item = some g') :
    g'.graphState = .init ∧ g'.dependencies.containsKey item = true ∧
      ∀ a, g.dependencies.containsKey a = true → g'.dependencies.containsKey a = true := by
  unfold GroovyDependencyGraph.addItem at h
  split_ifs at h
  obtain rfl := Option.some_inj.mp h
  exact ⟨rfl, containsKey_put.mpr (Or.inl rfl), fun a ha ↦ containsKey_put.mpr (Or.inr ha)⟩

/-- What `configureTarget` keeps while it goes through the parameters of a known target. -/
def Configuring (name : String) (s : BuildState υ × Bool) : Prop :=
  Unstarted s.1 ∧ s.1.g.dependencies.containsKey name = true

theorem Configuring.applyParameter {name : String} {s s' : BuildState υ × Bool}
    {parameter : Parameter} (hs : Configuring name s)
    (h : applyParameter name s parameter = some s') : Configuring name s' := by
  obtain ⟨hunstarted, hname⟩ := hs
  cases parameter with
  | deps deps =>
    obtain ⟨g, hg, h⟩ := Option.bind_eq_some_iff.mp h
    obtain rfl := Option.some_inj.mp h
    have hadd : g.graphState = .init ∧ ∀ a, s.1.g.dependencies.containsKey a = true →
        g.dependencies.containsKey a = true := by
      refine foldlM_induction (motive := fun g ↦ g.graphState = .init ∧
        ∀ a, s.1.g.dependencies.containsKey a = true → g.dependencies.containsKey a = true) hg
        ⟨hunstarted.graphState, fun _ ha ↦ ha⟩ fun dep _ g g' hg hkeys ↦ ?_
      obtain ⟨hstate, hnext⟩ := addDependency_keys hg
      exact ⟨hstate, fun a ha ↦ hnext a (hkeys.2 a ha)⟩
    have hgraph := hunstarted.withGraph hadd.1 hadd.2
    unfold Configuring addOrigin
    cases s.1.curFile with
    | none => exact ⟨hgraph, hadd.2 name hname⟩
    | some curFile => exact ⟨⟨hgraph.targetsRun, hgraph.graphState, hgraph.known, hgraph.output⟩,
        hadd.2 name hname⟩
  | replaceClosures replaceClosures =>
    obtain rfl := Option.some_inj.mp h
    exact ⟨hunstarted, hname⟩
  | unknown key =>
    obtain rfl := Option.some_inj.mp h
    exact ⟨hunstarted.error _, hname⟩

theorem Unstarted.configureTarget (h : Unstarted s) {parameters : List Parameter} {name : String}
    {body : Option (TargetClosure υ)}
    (hconfigure : s.configureTarget parameters name body = some s') : Unstarted s' := by
  obtain ⟨s₁, hs₁, hconfigure⟩ := Option.bind_eq_some_iff.mp hconfigure
  obtain ⟨⟨s₂, replaceClosures⟩, hs₂, hconfigure⟩ := Option.bind_eq_some_iff.mp hconfigure
  have hstart : Configuring name (s₁, false) := by
    unfold addUnknownTarget at hs₁
    split_ifs at hs₁ with hname
    · obtain rfl := Option.some_inj.mp hs₁
      exact ⟨h, hname⟩
    · obtain ⟨g, hg, hs₁⟩ := Option.bind_eq_some_iff.mp hs₁
      obtain rfl := Option.some_inj.mp hs₁
      obtain ⟨hstate, hmem, hkeys⟩ := addItem_keys hg
      exact ⟨(h.withGraph hstate hkeys).put hmem [], hmem⟩
  obtain ⟨hunstarted, hname⟩ := foldlM_induction hs₂ hstart
    fun _ _ _ _ hstep hs ↦ hs.applyParameter hstep
  have hreplaced : Configuring name ((if replaceClosures = true then
      { s₂ with closures := s₂.closures.put name [] } else s₂), false) := by
    split_ifs
    · exact ⟨hunstarted.put hname [], hname⟩
    · exact ⟨hunstarted, hname⟩
  dsimp only at hconfigure
  generalize (if replaceClosures = true then
    { s₂ with closures := s₂.closures.put name [] } else s₂) = s₃ at hreplaced hconfigure
  cases body with
  | none =>
    obtain rfl := Option.some_inj.mp hconfigure
    exact hreplaced.1
  | some body =>
    obtain rfl := Option.some_inj.mp hconfigure
    exact hreplaced.1.put hreplaced.2 _

theorem Unstarted.setup (h : Unstarted s) {step : Setup υ} (hstep : s.setup step = some s') :
    Unstarted s' := by
  cases step with
  | configureTarget parameters name body => exact h.configureTarget hstep
  | error message =>
    obtain rfl := Option.some_inj.mp hstep
    exact h.error message
  | load file =>
    obtain rfl := Option.some_inj.mp hstep
    exact ⟨h.targetsRun, h.graphState, h.known, h.output⟩

/-- The files have been loaded and the graph has no errors. -/
def Configured (s : BuildState υ) : Prop :=
  ∃ keepGoing verbose world, ∃ steps : List (Setup υ), ∃ s₀,
    steps.foldlM setup (new keepGoing verbose world) = some s₀ ∧ s₀.checkGraph = some (true, s)

/-- No target has begun. -/
structure Started (s : BuildState υ) : Prop where
  consistent : Consistent s
  targetsRun : s.targetsRun = .empty
  output : ∀ e ∈ s.events, e.isOutput = true

theorem Configured.started (h : Configured s) : Started s := by
  obtain ⟨keepGoing, verbose, world, steps, s₀, hsteps, hcheck⟩ := h
  have hunstarted : Unstarted s₀ := foldlM_induction hsteps
    (unstarted_new keepGoing verbose world) fun _ _ _ _ hstep hs ↦ hs.setup hstep
  obtain ⟨⟨result, g⟩, hg, hcheck⟩ := Option.bind_eq_some_iff.mp hcheck
  cases result with
  | false => cases hcheck
  | true =>
    obtain rfl := (Prod.mk.inj (Option.some_inj.mp hcheck)).2
    obtain ⟨hstate, hdeps⟩ := GroovyDependencyGraph.check_of_init hunstarted.graphState hg
    have hnot : ∀ e, e.isOutput = false → e ∉ s₀.events := fun e hfalse he ↦ by
      rw [hunstarted.output e he] at hfalse
      cases hfalse
    have hnone : ∀ target, s₀.targetsRun.get? target = none := by
      rw [hunstarted.targetsRun]
      exact fun _ ↦ rfl
    refine ⟨⟨rfl, fun target closures hclosures ↦ ?_, fun target index hmem ↦ ?_, ?_,
      fun target status hget ↦ ?_, fun before e target deps hupTo hneeds ↦ ?_,
      fun target e hmem ↦ ?_, fun before target hupTo ↦ ?_⟩, hunstarted.targetsRun,
      hunstarted.output⟩
    · have hkey := hunstarted.known target (by rw [LinkedHashMap.containsKey_eq, hclosures]; rfl)
      obtain ⟨deps, hget⟩ := LinkedHashMap.mem_keySet_iff.mp (of_decide_eq_true hkey)
      refine ⟨deps, ?_⟩
      have hget' := (hdeps target (of_decide_eq_true hkey)).trans hget
      unfold GroovyDependencyGraph.getDirectDependencies GroovyDependencyGraph.assertChecked
      rw [hstate]
      exact hget'
    · exact absurd hmem (hnot _ rfl)
    · rw [List.filterMap_eq_nil_iff.mpr fun e he ↦ ?_]
      · exact List.nodup_nil
      · have houtput := hunstarted.output e he
        cases e with
        | println | error | printStackTrace => rfl
        | _ => cases houtput
    · rw [hnone] at hget
      cases hget
    · have hmem := hupTo.subset (List.mem_append_right before (List.mem_singleton_self e))
      have houtput := hunstarted.output e hmem
      cases e with
      | println | error | printStackTrace => cases hneeds
      | _ => cases houtput
    · exact absurd hmem (hnot _ rfl)
    · exact absurd (hupTo.subset (List.mem_append_right before (List.mem_singleton_self _)))
        (hnot _ rfl)

/-! ### Calls -/

theorem Consistent.call (h : Consistent s) (target : String) :
    ∃ result s', s.call target = some (result, s') ∧ Called s target result s' := by
  refine runTarget_spec _ s target h (Nat.lt_succ_of_le ?_)
  exact List.length_filter_le _ _

theorem Consistent.callAll (h : Consistent s) (targets : List String) :
    ∃ s', s.callAll targets = some s' ∧ Extends (fun _ ↦ False) s s' := by
  induction targets generalizing s with
  | nil => exact ⟨s, rfl, .refl h⟩
  | cons target targets ih =>
    obtain ⟨result, s₁, hs₁, hcalled⟩ := h.call target
    obtain ⟨s', hs', hext⟩ := ih hcalled.steps.consistent
    refine ⟨s', ?_, hcalled.steps.trans hext⟩
    unfold BuildState.callAll
    rw [foldlM_cons, hs₁]
    exact hs'

theorem callAll_append {targets targets' : List String} :
    s.callAll (targets ++ targets') = (s.callAll targets).bind fun s ↦ s.callAll targets' := by
  unfold callAll
  rw [List.foldlM_append]
  rfl

/-- A target has another one among its dependencies. -/
def TargetDependsOn (s : BuildState υ) (target dep : String) : Prop :=
  ∃ deps, s.g.getDirectDependencies target = some deps ∧ dep ∈ deps

/-- The run of a target has ended, and none of its closures has thrown an exception. -/
def Succeeded (events : List Event) (target : String) : Prop :=
  ∃ before, before ++ [.caches target true] <+: events ∧ ∀ e, .throws target e ∉ before

/-- Every closure is run at most once, and after every target that its target depends on. -/
structure RunsInOrder (s : BuildState υ) : Prop where
  once : (s.events.filterMap Event.closure?).Nodup
  after : ∀ before target index, before ++ [.runs target index] <+: s.events →
    ∀ dep, TransGen s.TargetDependsOn target dep → Succeeded before dep

/-- No target is left in progress, so that a call reports what a target has come to. -/
structure Settled (s : BuildState υ) : Prop where
  ended : ∀ target, ¬ s.InProgress target
  reported : ∀ target status, s.targetsRun.get? target = some (some status) →
    s.call target = some (.ok (status && !s.stops), s)

theorem Consistent.succeeded (h : Consistent s) {before : List Event}
    (hbefore : before <+: s.events)
    {target : String} (hcaches : .caches target true ∈ before) : Succeeded before target := by
  obtain ⟨first, rest, rfl⟩ := List.append_of_mem hcaches
  have hfirst : first ++ [.caches target true] <+: first ++ .caches target true :: rest :=
    ⟨rest, by rw [List.append_assoc, List.singleton_append]⟩
  exact ⟨first, hfirst, h.clean first target (hfirst.trans hbefore)⟩

/-- Where a target has gone on, those that it depends on have succeeded, however far they are. -/
theorem Consistent.after (h : Consistent s) {before : List Event} {e : Event} {target dep : String}
    (hupTo : before ++ [e] <+: s.events) (hneeds : e.needs = some target)
    (hdep : TransGen s.TargetDependsOn target dep) : .caches dep true ∈ before := by
  induction hdep using TransGen.head_induction_on generalizing before e with
  | single hdep =>
    obtain ⟨deps, hdeps, hmem⟩ := hdep
    exact h.ordered before e _ deps hupTo hneeds hdeps _ hmem
  | @head target middle hdep _ ih =>
    obtain ⟨deps, hdeps, hmem⟩ := hdep
    have hcaches := h.ordered before e _ deps hupTo hneeds hdeps _ hmem
    obtain ⟨first, rest, rfl⟩ := List.append_of_mem hcaches
    have hfirst : first ++ [.caches middle true] <+: s.events :=
      List.IsPrefix.trans ⟨rest ++ [e], by simp⟩ hupTo
    exact List.mem_append_left _ (ih hfirst rfl)

theorem Consistent.runsInOrder (h : Consistent s) : RunsInOrder s where
  once := h.once
  after before target index hupTo dep hdep := by
    have hbefore : before <+: s.events := (List.prefix_append _ _).trans hupTo
    exact h.succeeded hbefore (h.after hupTo rfl hdep)

theorem Consistent.call_of_cached (h : Consistent s) {target : String} {status : Bool}
    (hget : s.targetsRun.get? target = some (some status)) :
    s.call target = some (.ok (status && !s.stops), s) := by
  unfold BuildState.call runTarget
  rw [if_neg (not_not.mpr h.ready), hget]
  cases hstops : s.stops with
  | true => simp
  | false => simp

theorem Started.not_inProgress_iff (h : Started s) (hext : Extends (fun _ ↦ False) s s') :
    (∀ target, ¬ s'.InProgress target) ↔ ∀ e ∈ s'.events, e.uncaught = false := by
  have hleaves : LeavesInProgress s s' ↔ ∃ target, s'.InProgress target := by
    refine exists_congr fun target ↦ and_iff_right ?_
    rw [h.targetsRun]
    rfl
  have hleaks : Leaks s s' ↔ ∃ e ∈ s'.events, e.uncaught = true := by
    unfold Leaks
    rw [events_eq hext.grows.events]
    refine exists_congr fun e ↦ and_congr_left fun huncaught ↦ ?_
    rw [List.mem_append]
    refine (or_iff_right fun hold ↦ ?_).symm
    have houtput := h.output e hold
    cases e with
    | println | error | printStackTrace => cases huncaught
    | _ => cases houtput
  have hiff : (∃ target, s'.InProgress target) ↔ ∃ e ∈ s'.events, e.uncaught = true :=
    hleaves.symm.trans (Iff.trans hext.balanced hleaks)
  rw [← not_exists, hiff, not_exists]
  simp only [not_and, Bool.not_eq_true]

/-- In any sequence of calls, every closure is run at most once and in its place. After every call
no target is in progress exactly when no dependency is asked for while it is in progress, and no
closure throws anything but an `Exception`. -/
theorem callAll_iff (h : Configured s) (targets : List String) :
    ∃ s', s.callAll targets = some s' ∧
      ((RunsInOrder s' ∧ ∀ before, before <+: targets → ∀ s₁, s.callAll before = some s₁ →
        Settled s₁) ↔ ∀ e ∈ s'.events, e.uncaught = false) := by
  have hstarted := h.started
  obtain ⟨s', hs', hext⟩ := hstarted.consistent.callAll targets
  refine ⟨s', hs', fun hall ↦ ?_, fun huncaught ↦ ⟨hext.consistent.runsInOrder, ?_⟩⟩
  · exact (hstarted.not_inProgress_iff hext).mp (hall.2 targets List.prefix_rfl s' hs').ended
  · rintro before ⟨after, rfl⟩ s₁ hs₁
    obtain ⟨s₁', hs₁', hext₁⟩ := hstarted.consistent.callAll before
    obtain rfl := Option.some_inj.mp (hs₁'.symm.trans hs₁)
    obtain ⟨s₂, hs₂, hext₂⟩ := hext₁.consistent.callAll after
    rw [callAll_append, hs₁, Option.bind_some, hs₂] at hs'
    obtain rfl := Option.some_inj.mp hs'
    refine ⟨(hstarted.not_inProgress_iff hext₁).mpr fun e he ↦ ?_,
      fun target status hget ↦ hext₁.consistent.call_of_cached hget⟩
    exact huncaught e (hext₂.grows.events.subset he)

/-! ### Two targets -/

/-- The target `all` depends on `compile`, which has a closure. -/
def compileSetup (compile : TargetClosure Unit) : List (Setup Unit) :=
  [.configureTarget [.deps ["compile"]] "all" none, .configureTarget [] "compile" (some compile)]

/-- The state before any target is run. -/
def compileState (compile : TargetClosure Unit) : Option (BuildState Unit) :=
  ((compileSetup compile).foldlM setup (new true false ())).bind fun s ↦
    (s.checkGraph).bind fun (result, s) ↦ if result then some s else none

theorem configured_compileState {compile : TargetClosure Unit} {s : BuildState Unit}
    (h : compileState compile = some s) : Configured s := by
  obtain ⟨s₀, hsetup, h⟩ := Option.bind_eq_some_iff.mp h
  obtain ⟨⟨result, s'⟩, hcheck, h⟩ := Option.bind_eq_some_iff.mp h
  cases result with
  | false => cases h
  | true =>
    obtain rfl := Option.some_inj.mp h
    exact ⟨true, false, (), compileSetup compile, s₀, hsetup, hcheck⟩

/-- A target that fails. -/
theorem callAll_compile :
    ∃ s s' : BuildState Unit, Configured s ∧ s.callAll ["all", "compile"] = some s' ∧
      s'.targetsRun.entries = [("all", some false), ("compile", some false)] ∧
      RunsInOrder s' ∧ Settled s' := by
  have hsome : (compileState (.throw (.buildFailure "no compiler"))).isSome = true := by
    decide +kernel
  obtain ⟨s, hs⟩ := Option.isSome_iff_exists.mp hsome
  have hconfigured := configured_compileState hs
  obtain ⟨s', hs', hiff⟩ := callAll_iff hconfigured ["all", "compile"]
  have hrun : (compileState (.throw (.buildFailure "no compiler"))).bind
      (·.callAll ["all", "compile"]) = some s' := by
    rw [hs]
    exact hs'
  have hevents : ((compileState (.throw (.buildFailure "no compiler"))).bind
      (·.callAll ["all", "compile"])).map (fun s ↦
        (s.events.all (!·.uncaught), s.targetsRun.entries)) =
      some (true, [("all", some false), ("compile", some false)]) := by decide +kernel
  rw [hrun] at hevents
  obtain ⟨huncaught, hentries⟩ := Prod.mk.inj (Option.some_inj.mp hevents)
  have hall := hiff.mpr fun e he ↦ by
    simpa using List.all_eq_true.mp huncaught e he
  exact ⟨s, s', hconfigured, hs', hentries, hall.1,
    hall.2 ["all", "compile"] List.prefix_rfl s' hs'⟩

/-- A closure that runs `all`, and ends as that does. -/
def runAll : TargetClosure Unit :=
  .runTarget "all" fun
    | .error e => .throw e
    | .ok _ => .done

/-- A closure of `compile` runs `all`, which is left in progress. -/
theorem not_settled_all :
    ¬ ∀ (s s' : BuildState Unit) (targets : List String), Configured s →
      s.callAll targets = some s' → RunsInOrder s' ∧ Settled s' := by
  intro hall
  have hrun : ((compileState runAll).bind (·.callAll ["compile"])).map
      (·.targetsRun.get? "all") = some (some none) := by
    decide +kernel
  obtain ⟨s', hs', hget⟩ := Option.map_eq_some_iff.mp hrun
  obtain ⟨s, hs, hs'⟩ := Option.bind_eq_some_iff.mp hs'
  exact (hall s s' ["compile"] (configured_compileState hs) hs').2.ended "all" hget

end BuildState

end Abuild
