import Abuild.BuildRun
import Abuild.DependencyGraph.Build
import Abuild.Library.Fallible

/-!
The items of a build graph without errors, built one after the other. The interfaces of the
dependencies are always there where they are imported: an item is built only if all it depends on
has been, and without interfaces no item has any. What comes of an item depends on what has come of
its dependencies alone (`Settled`).
-/

set_option autoImplicit false
set_option relaxedAutoImplicit false

namespace Abuild

open Std (TreeMap TreeSet)
open DependencyGraph Precedence

variable {Parser : Type}

/-! ### The sections of a builder -/

theorem SharedBuild.interfaces_leave (s : SharedBuild Parser) (item : ItemType)
    (phase : BuilderPhase Parser) : (s.leave item phase).interfaces =
      phase.parser.elim s.interfaces (s.interfaces.insert item) := by
  unfold SharedBuild.leave
  cases phase.parser <;> rfl

theorem SharedBuild.getElem?_leave (s : SharedBuild Parser) (item : ItemType)
    (phase : BuilderPhase Parser) (a : ItemType) :
    (s.leave item phase).interfaces[a]? =
      if a = item then phase.parser.or s.interfaces[item]? else s.interfaces[a]? := by
  rw [SharedBuild.interfaces_leave]
  by_cases ha : a = item
  · subst ha
    rw [if_pos rfl]
    cases phase.parser with
    | none => rfl
    | some parser => exact TreeMap.getElem?_insert_self
  · rw [if_neg ha]
    cases phase.parser with
    | none => rfl
    | some parser =>
      rw [Option.elim_some, TreeMap.getElem?_insert,
        if_neg fun heq ↦ ha (compare_eq_iff_eq.mp heq).symm]

theorem SharedBuild.failedBuilds_leave (s : SharedBuild Parser) (item : ItemType)
    (phase : BuilderPhase Parser) : (s.leave item phase).failedBuilds =
      if phase.isFailure then s.failedBuilds ++ [item] else s.failedBuilds := rfl

theorem SharedBuild.count_leave (s : SharedBuild Parser) (item : ItemType)
    (phase : BuilderPhase Parser) (a : ItemType) : (s.leave item phase).failedBuilds.count a =
      s.failedBuilds.count a + if a = item ∧ phase.isFailure then 1 else 0 := by
  rw [SharedBuild.failedBuilds_leave]
  by_cases hfailure : phase.isFailure = true
  · rw [if_pos hfailure, List.count_append, List.count_singleton]
    by_cases ha : a = item
    · rw [if_pos (beq_iff_eq.mpr ha.symm), if_pos ⟨ha, hfailure⟩]
    · rw [if_neg fun heq ↦ ha (beq_iff_eq.mp heq).symm, if_neg fun h ↦ ha h.1]
  · rw [if_neg hfailure, if_neg fun h ↦ hfailure h.2, Nat.add_zero]

namespace ItemBuilder

variable {b : ItemBuilder Parser} {g : DependencyGraph}

/-- A builder reads the interfaces of the dependencies of its item. -/
theorem itemBuilder_congr {s s' : SharedBuild Parser} {item : ItemType}
    (h : ∀ deps, g.getDirectDependencies item = some deps → ∀ d ∈ deps,
      s.interfaces[d]? = s'.interfaces[d]?) (isDepFailure : Bool) :
    b.itemBuilder g s item isDepFailure = b.itemBuilder g s' item isDepFailure := by
  have hsame : dependencyInterfaces g s item = dependencyInterfaces g s' item := by
    unfold dependencyInterfaces
    cases hdeps : g.getDirectDependencies item with
    | none => rfl
    | some deps => exact Fallible.mapM_congr fun d hd ↦ h deps hdeps d hd
  unfold itemBuilder
  rw [hsame]

/-- The end of a builder keeps an interface where there is one. -/
theorem afterBuild_returned (item : ItemType) (parser : Option Parser) (status : Bool) :
    ∃ parser' status', b.afterBuild item parser status = .returned parser' status' ∧
      parser'.isSome = parser.isSome := by
  unfold afterBuild
  cases parser with
  | none => exact ⟨none, status, rfl, rfl⟩
  | some parser =>
    dsimp only
    split_ifs
    · exact ⟨_, _, rfl, rfl⟩
    · exact ⟨_, _, rfl, rfl⟩

/-- A builder has called a backend, or has returned. -/
theorem build_cases (item : ItemType) (isDepFailure : Bool) (parser : Option Parser)
    (status : Bool) :
    b.build item isDepFailure parser status = .invoking parser ∨
      ∃ parser' status', b.build item isDepFailure parser status = .returned parser' status' ∧
        parser'.isSome = parser.isSome := by
  unfold build
  split_ifs
  · exact Or.inr ⟨parser, false, rfl, rfl⟩
  · exact Or.inl rfl
  · exact Or.inr (afterBuild_returned item parser status)
  · exact Or.inr ⟨parser, _, rfl, rfl⟩

/-- A builder has an interface if interfaces are used for its item. -/
theorem itemBuilder_cases {s : SharedBuild Parser} {item : ItemType} {isDepFailure : Bool}
    {phase : BuilderPhase Parser} (h : b.itemBuilder g s item isDepFailure = some phase) :
    ∃ parser : Option Parser, parser.isSome = b.useInterfaces item isDepFailure ∧
      (phase = .invoking parser ∨ ∃ status, phase = .returned parser status) := by
  have hbuild : ∃ (parser : Option Parser) (status : Bool),
      parser.isSome = b.useInterfaces item isDepFailure ∧
        phase = b.build item isDepFailure parser status := by
    unfold itemBuilder at h
    split_ifs at h with huse
    · obtain ⟨imported, -, hphase⟩ := Option.bind_eq_some_iff.mp h
      exact ⟨some (b.createItemInterface item imported).1, (b.createItemInterface item imported).2,
        huse.symm, (Option.some_inj.mp hphase).symm⟩
    · exact ⟨none, true, (Bool.eq_false_iff.mpr huse).symm, (Option.some_inj.mp h).symm⟩
  obtain ⟨parser, status, huse, rfl⟩ := hbuild
  rcases build_cases item isDepFailure parser status with hinvoking | ⟨parser', status', hend,
    hsame⟩
  · exact ⟨parser, huse, Or.inl hinvoking⟩
  · exact ⟨parser', hsame.trans huse, Or.inr ⟨status', hend⟩⟩

/-- A builder that has begun returns after its second section at the latest. -/
theorem afterBackend_cases {s : SharedBuild Parser} {item : ItemType} {isDepFailure : Bool}
    {phase : BuilderPhase Parser} (h : b.itemBuilder g s item isDepFailure = some phase) :
    ∃ parser status, b.afterBackend item phase = .returned parser status ∧
      parser.isSome = phase.parser.isSome ∧ parser.isSome = b.useInterfaces item isDepFailure := by
  obtain ⟨parser, huse, rfl | ⟨status, rfl⟩⟩ := itemBuilder_cases h
  · obtain ⟨parser', status', hend, hsame⟩ :=
      afterBuild_returned (b := b) item parser (b.invokeBackend item parser)
    exact ⟨parser', status', hend, hsame, hsame.trans huse⟩
  · exact ⟨parser, status, rfl, rfl, huse⟩

/-- After the failure of a dependency nothing is done, but a forced failure is reported. -/
theorem itemBuilder_depFailure (s : SharedBuild Parser) (item : ItemType) :
    b.itemBuilder g s item true =
      some (.returned none (!b.forcedFailures.contains item)) := by
  have huse : b.useInterfaces item true = false := by simp [useInterfaces]
  have hcalls : b.callsBackend item true = false := by simp [callsBackend]
  unfold itemBuilder build
  rw [huse, hcalls]
  cases hforced : b.forcedFailures.contains item with
  | true => rfl
  | false =>
    cases b.hasBuildFile item with
    | true => rfl
    | false => rfl

/-- A forced failure is one. -/
theorem itemBuilder_forced {item : ItemType} (h : b.forcedFailures.contains item = true)
    (s : SharedBuild Parser) : b.itemBuilder g s item false = some (.returned none false) := by
  have huse : b.useInterfaces item false = false := by simp [useInterfaces, h]
  unfold itemBuilder build
  rw [huse, h]
  rfl

/-- Whether an item that has come to a state is among the failed builds. -/
def isReported (b : ItemBuilder Parser) (item : ItemType) (state : ItemState) : Bool :=
  decide (state = .failed) || decide (state = .depfailed) && b.forcedFailures.contains item

end ItemBuilder

namespace SerialBuild

/-- What has come of some items. It is told by what has come of their dependencies. -/
structure Settled (b : ItemBuilder Parser) (g : DependencyGraph) (done : ItemList)
    (s : SerialBuild Parser) : Prop where
  fresh : ∀ a ∉ done, s.states[a]? = none ∧ s.shared.interfaces[a]? = none
  depfailed : ∀ a ∈ done, ∀ deps, g.getDirectDependencies a = some deps →
    deps.any s.isFailure = true → s.stateOf a = .depfailed ∧ s.shared.interfaces[a]? = none
  built : ∀ a ∈ done, ∀ deps, g.getDirectDependencies a = some deps →
    deps.any s.isFailure = false → ∃ parser status,
      builderResult b g s.shared a false = some (.returned parser status) ∧
        s.shared.interfaces[a]? = parser ∧ s.stateOf a = if status then .completed else .failed
  failedBuilds : s.shared.failedBuilds = done.filter fun a ↦ b.isReported a (s.stateOf a)

section Order

variable {b : ItemBuilder Parser} {g : DependencyGraph} {done : ItemList} {s : SerialBuild Parser}

theorem settled_new (b : ItemBuilder Parser) (g : DependencyGraph) :
    Settled b g [] (new : SerialBuild Parser) where
  fresh _ _ := ⟨TreeMap.getElem?_emptyc, TreeMap.getElem?_emptyc⟩
  depfailed _ ha := absurd ha List.not_mem_nil
  built _ ha := absurd ha List.not_mem_nil
  failedBuilds := rfl

/-- A builder's result is told by the interfaces of the dependencies. -/
theorem builderResult_congr {s s' : SharedBuild Parser} {item : ItemType}
    (h : ∀ deps, g.getDirectDependencies item = some deps → ∀ d ∈ deps,
      s.interfaces[d]? = s'.interfaces[d]?) (isDepFailure : Bool) :
    builderResult b g s item isDepFailure = builderResult b g s' item isDepFailure := by
  unfold builderResult
  rw [ItemBuilder.itemBuilder_congr h]

/-- An item whose dependencies have been built finds all interfaces that it imports. -/
theorem Settled.exists_builderResult (hg : ErrorFree g) (h : Settled b g done s) {item : ItemType}
    {deps : ItemList} (hdeps : g.getDirectDependencies item = some deps)
    (hdone : ∀ d ∈ deps, d ∈ done) (hordered : ∀ a ∈ done, a ∈ g.inOrder)
    (hfailure : deps.any s.isFailure = false) :
    ∃ phase, b.itemBuilder g s.shared item false = some phase := by
  unfold ItemBuilder.itemBuilder
  split_ifs with huse
  · have hall : ∀ d ∈ deps, (s.shared.interfaces[d]?).isSome := by
      intro d hd
      have hok : ¬ (s.stateOf d = .failed ∨ s.stateOf d = .depfailed) := by
        simpa [isFailure] using List.any_eq_false.mp hfailure d hd
      obtain ⟨ddeps, hddeps, -⟩ := hg.getDirectDependencies (hordered d (hdone d hd))
      cases hany : ddeps.any s.isFailure with
      | true => exact absurd (Or.inr (h.depfailed d (hdone d hd) ddeps hddeps hany).1) hok
      | false =>
        obtain ⟨parser, status, hresult, hinterface, hstate⟩ :=
          h.built d (hdone d hd) ddeps hddeps hany
        obtain ⟨phase, hphase, hend⟩ := Option.bind_eq_some_iff.mp hresult
        have hforced : b.forcedFailures.contains d = false := by
          refine Bool.eq_false_iff.mpr fun hforced ↦ hok (Or.inl ?_)
          rw [ItemBuilder.itemBuilder_forced hforced] at hphase
          obtain rfl := Option.some_inj.mp hphase
          obtain ⟨-, rfl⟩ := BuilderPhase.returned.inj (Option.some_inj.mp hend)
          exact hstate
        obtain ⟨parser', status', hreturned, -, hsome⟩ := ItemBuilder.afterBackend_cases hphase
        obtain ⟨rfl, -⟩ := BuilderPhase.returned.inj
          (hreturned.symm.trans (Option.some_inj.mp hend))
        rw [hinterface, hsome]
        simp only [ItemBuilder.useInterfaces, hforced] at huse ⊢
        simp_all
    have hsome : (ItemBuilder.dependencyInterfaces g s.shared item).isSome := by
      unfold ItemBuilder.dependencyInterfaces
      rw [hdeps]
      exact Fallible.mapM_isSome_iff.mpr hall
    obtain ⟨imported, himported⟩ := Option.isSome_iff_exists.mp hsome
    rw [himported]
    exact ⟨_, rfl⟩
  · exact ⟨_, rfl⟩

/-- The state of an item whose builder has returned. -/
def stateAfter (isDepFailure status : Bool) : ItemState :=
  if isDepFailure then .depfailed else if status then .completed else .failed

/-- What a turn leaves of the items that have had theirs, and of the item whose turn it is. -/
theorem Settled.add (hg : ErrorFree g) (h : Settled b g done s) {item : ItemType}
    {deps : ItemList} (hdeps : g.getDirectDependencies item = some deps)
    (hneeds : ∀ d ∈ deps, d ∈ done) (hordered : Ordered (DependsOn g.dependencies) done)
    (hnew : item ∉ done) {parser : Option Parser} {status : Bool}
    (hresult : builderResult b g s.shared item (deps.any s.isFailure) =
      some (.returned parser status))
    (hfailure : deps.any s.isFailure = true →
      parser = none ∧ status = !b.forcedFailures.contains item) :
    Settled b g (done ++ [item])
      ⟨s.states.insert item (stateAfter (deps.any s.isFailure) status),
        s.shared.leave item (.returned parser status)⟩ := by
  let s' : SerialBuild Parser := ⟨s.states.insert item (stateAfter (deps.any s.isFailure) status),
    s.shared.leave item (.returned parser status)⟩
  have hstate : ∀ a, s'.stateOf a =
      if a = item then stateAfter (deps.any s.isFailure) status else s.stateOf a := by
    intro a
    show (s.states.insert item _).getD a .waiting = _
    rw [TreeMap.getD_insert]
    split_ifs with heq ha ha
    · rfl
    · exact absurd (compare_eq_iff_eq.mp heq).symm ha
    · exact absurd (compare_eq_iff_eq.mpr ha.symm) heq
    · rfl
  have hinterface : ∀ a, s'.shared.interfaces[a]? =
      if a = item then parser else s.shared.interfaces[a]? := by
    intro a
    refine (SharedBuild.getElem?_leave s.shared item (.returned parser status) a).trans ?_
    rw [(h.fresh item hnew).2, Option.or_none]
    rfl
  have hne : ∀ a ∈ done, a ≠ item := fun a ha heq ↦ hnew (heq ▸ ha)
  have hany : ∀ l : ItemList, (∀ d ∈ l, d ∈ done) → l.any s'.isFailure = l.any s.isFailure := by
    intro l hl
    rw [Bool.eq_iff_iff, List.any_eq_true, List.any_eq_true]
    refine exists_congr fun d ↦ and_congr_right fun hd ↦ ?_
    unfold isFailure
    rw [hstate, if_neg (hne d (hl d hd))]
  have hbuilder : ∀ a (adeps : ItemList), g.getDirectDependencies a = some adeps →
      (∀ d ∈ adeps, d ∈ done) → ∀ isDepFailure,
        builderResult b g s'.shared a isDepFailure = builderResult b g s.shared a isDepFailure := by
    intro a adeps hadeps hl isDepFailure
    refine builderResult_congr (fun adeps' hadeps' d hd ↦ ?_) isDepFailure
    obtain rfl := Option.some_inj.mp (hadeps.symm.trans hadeps')
    rw [hinterface, if_neg (hne d (hl d hd))]
  have hclosed : ∀ a ∈ done, ∀ adeps, g.getDirectDependencies a = some adeps →
      ∀ d ∈ adeps, d ∈ done := fun a ha adeps hadeps d hd ↦
    hordered.mem ha ((hg.mem_directDependencies hadeps d).mp hd)
  have hold : ∀ a ∈ done, s'.stateOf a = s.stateOf a ∧
      s'.shared.interfaces[a]? = s.shared.interfaces[a]? := fun a ha ↦ by
    rw [hstate, hinterface, if_neg (hne a ha), if_neg (hne a ha)]
    exact ⟨rfl, rfl⟩
  have hitem : s'.stateOf item = stateAfter (deps.any s.isFailure) status ∧
      s'.shared.interfaces[item]? = parser := by
    rw [hstate, hinterface, if_pos rfl, if_pos rfl]
    exact ⟨rfl, rfl⟩
  refine ⟨fun a ha ↦ ?_, fun a ha adeps hadeps hbad ↦ ?_, fun a ha adeps hadeps hgood ↦ ?_, ?_⟩
  · obtain ⟨hdone, hitem'⟩ := not_or.mp (mt List.mem_append.mpr ha)
    have hne' : a ≠ item := fun heq ↦ hitem' (heq ▸ List.mem_singleton_self item)
    refine ⟨?_, (hinterface a).trans ((if_neg hne').trans (h.fresh a hdone).2)⟩
    show (s.states.insert item _)[a]? = none
    rw [TreeMap.getElem?_insert, if_neg fun heq ↦ hne' (compare_eq_iff_eq.mp heq).symm]
    exact (h.fresh a hdone).1
  · rcases List.mem_append.mp ha with ha | ha
    · rw [(hold a ha).1, (hold a ha).2]
      exact h.depfailed a ha adeps hadeps ((hany adeps (hclosed a ha adeps hadeps)).symm.trans hbad)
    · obtain rfl := List.mem_singleton.mp ha
      obtain rfl := Option.some_inj.mp (hdeps.symm.trans hadeps)
      have hdepfailed := (hany deps hneeds).symm.trans hbad
      rw [hitem.1, hitem.2, hdepfailed]
      exact ⟨rfl, (hfailure hdepfailed).1⟩
  · rcases List.mem_append.mp ha with ha | ha
    · rw [(hold a ha).1, (hold a ha).2,
        hbuilder a adeps hadeps (hclosed a ha adeps hadeps)]
      exact h.built a ha adeps hadeps ((hany adeps (hclosed a ha adeps hadeps)).symm.trans hgood)
    · obtain rfl := List.mem_singleton.mp ha
      obtain rfl := Option.some_inj.mp (hdeps.symm.trans hadeps)
      have hok := (hany deps hneeds).symm.trans hgood
      rw [hok] at hresult
      rw [hitem.1, hitem.2, hok, hbuilder a deps hdeps hneeds]
      exact ⟨parser, status, hresult, rfl, rfl⟩
  · have hfailedBuilds : s'.shared.failedBuilds =
        s.shared.failedBuilds ++ if status then [] else [item] := by
      refine (SharedBuild.failedBuilds_leave s.shared item (.returned parser status)).trans ?_
      cases status with
      | true => exact (List.append_nil _).symm
      | false => rfl
    have hreported : b.isReported item (stateAfter (deps.any s.isFailure) status) = !status := by
      cases hdepfailed : deps.any s.isFailure with
      | true =>
        rw [(hfailure hdepfailed).2, Bool.not_not]
        rfl
      | false => cases status <;> rfl
    refine hfailedBuilds.trans ?_
    rw [List.filter_append, h.failedBuilds]
    congr 1
    · refine List.filter_congr fun a ha ↦ ?_
      rw [← (hold a ha).1]
    · show _ = [item].filter fun a ↦ b.isReported a (s'.stateOf a)
      rw [List.filter_singleton, hitem.1, hreported]
      cases status <;> rfl

theorem Settled.next (hg : ErrorFree g) (h : Settled b g done s) {item : ItemType}
    (hitem : item ∈ g.inOrder) (hnew : item ∉ done)
    (hneeds : ∀ d, DependsOn g.dependencies item d → d ∈ done)
    (hordered : Ordered (DependsOn g.dependencies) done) (hsub : ∀ a ∈ done, a ∈ g.inOrder) :
    ∃ s', buildNext b g s item = some s' ∧ Settled b g (done ++ [item]) s' := by
  obtain ⟨deps, hdeps, hmem⟩ := hg.getDirectDependencies hitem
  have hdone : ∀ d ∈ deps, d ∈ done := fun d hd ↦ hneeds d ((hmem d).mp hd)
  have hreturned : ∃ parser status,
      builderResult b g s.shared item (deps.any s.isFailure) = some (.returned parser status) ∧
        (deps.any s.isFailure = true →
          parser = none ∧ status = !b.forcedFailures.contains item) := by
    unfold builderResult
    cases hfailure : deps.any s.isFailure with
    | true =>
      rw [ItemBuilder.itemBuilder_depFailure]
      exact ⟨none, _, rfl, fun _ ↦ ⟨rfl, rfl⟩⟩
    | false =>
      obtain ⟨phase, hphase⟩ := h.exists_builderResult hg hdeps hdone hsub hfailure
      obtain ⟨parser, status, hend, -⟩ := ItemBuilder.afterBackend_cases hphase
      rw [hphase]
      exact ⟨parser, status, congrArg some hend, fun hfalse ↦ absurd hfalse Bool.false_ne_true⟩
  obtain ⟨parser, status, hresult, hfailure⟩ := hreturned
  refine ⟨_, ?_, h.add hg hdeps hdone hordered hnew hresult hfailure⟩
  unfold buildNext
  rw [hdeps]
  show (builderResult b g s.shared item (deps.any s.isFailure)).bind _ = _
  rw [hresult]
  cases status <;> rfl

/-- The items can be built one after the other, and what comes of them is settled. -/
theorem buildAll_settled (b : ItemBuilder Parser) (hg : ErrorFree g) :
    ∃ r, buildAll b g = some r ∧ Settled b g g.inOrder r := by
  have hrun : ∀ (rest done : ItemList) (s : SerialBuild Parser), done ++ rest = g.inOrder →
      Settled b g done s → ∃ r, rest.foldlM (buildNext b g) s = some r ∧
        Settled b g g.inOrder r := by
    intro rest
    induction rest with
    | nil =>
      intro done s hsplit h
      rw [List.append_nil] at hsplit
      exact ⟨s, rfl, hsplit ▸ h⟩
    | cons item rest ih =>
      intro done s hsplit h
      have hnodup : (done ++ item :: rest).Nodup := hsplit ▸ hg.checked.nodup
      have hnew : item ∉ done := fun hmem ↦
        (List.nodup_append.mp hnodup).2.2 item hmem item List.mem_cons_self rfl
      have hordered : Ordered (DependsOn g.dependencies) done := .of_append (hsplit ▸ hg.ordered)
      obtain ⟨s', hs', h'⟩ := h.next hg (hsplit ▸ List.mem_append_right _ List.mem_cons_self) hnew
        (hg.ordered done item rest hsplit.symm) hordered
        fun a ha ↦ hsplit ▸ List.mem_append_left _ ha
      rw [List.append_cons] at hsplit
      obtain ⟨r, hr, hsettled⟩ := ih (done ++ [item]) s' hsplit h'
      exact ⟨r, Option.bind_eq_some_iff.mpr ⟨s', hs', hr⟩, hsettled⟩
  obtain ⟨r, hr, hsettled⟩ := hrun g.inOrder [] new rfl (settled_new b g)
  refine ⟨r, ?_, hsettled⟩
  unfold buildAll
  rw [hg.getSortedGraph]
  exact hr

end Order

end SerialBuild

end Abuild
