import Abuild.PlatformTables.Check

/-!
Platform data that is checked several times, beside platform data with the same additions that is
checked once. All tables but the compatible platform types are set anew by a check; to these the
parents of every type are added once more, so that `check_again_iff` asks for no platform of a type
that has a parent and has been checked before.
-/

set_option autoImplicit false
set_option relaxedAutoImplicit false

namespace Abuild.PlatformTables

open Std (TreeMap)
open Relation Chain Fallible DependencyGraph

namespace Call

def isAddition : Call → Bool
  | .check _ _ => false
  | _ => true

/-- The names that a call declares have no spaces. -/
def Named : Call → Prop
  | .addPlatformType platformType _ _ => IsName platformType
  | .addPlatform platform _ _ => IsName platform
  | .check _ _ => True

end Call

/-! ### One call -/

/-- What the calls that do not fail keep. -/
structure Kept (d : PlatformTables) : Prop where
  sound : Sound d
  unspoiled : Unspoiled d.platformGraph

section Calls

variable {d d' d₀ : PlatformTables} {selectors : TreeMap String PlatformSelector}
  {unusedSelectors unusedSelectors' : TreeMap String String}

theorem Sound.uncheck (h : Sound d) : Sound { d with checked := false } :=
  ⟨h.name, h.mem, h.items, h.dependsOn, h.unique, h.platformTypes⟩

theorem Sound.congr (h : Sound d) (htypes : d'.targetTypes = d.targetTypes)
    (hplatforms : d'.platformTypes = d.platformTypes)
    (hgraph : d'.platformGraph.dependencies.Equiv d.platformGraph.dependencies) : Sound d' := by
  refine ⟨fun T hT ↦ h.name T (htypes ▸ hT), fun T hT ↦ hgraph.mem_iff.mpr (h.mem T (htypes ▸ hT)),
    fun a ha ↦ ?_, fun a b hab ↦ ?_, ?_, fun platform T hT ↦ ?_⟩
  · rw [htypes]
    exact h.items a (hgraph.mem_iff.mp ha)
  · rw [htypes]
    rw [DependsOn.congr hgraph] at hab
    exact h.dependsOn a b hab
  · rw [hasParent_congr hgraph]
    exact h.unique
  · rw [htypes]
    rw [hplatforms] at hT
    exact h.platformTypes platform T hT

theorem unspoiled_addItem {g g' : DependencyGraph} (h : Unspoiled g) {item : String}
    (hadd : g.addItem item = some g') : Unspoiled g' :=
  have hadd : g.add (.addItem item) = some g' := hadd
  h.add hadd

theorem unspoiled_addDependency {g g' : DependencyGraph} (h : Unspoiled g) {item dep : String}
    (hadd : g.addDependency item dep = some g') : Unspoiled g' :=
  have hadd : g.add (.addDependency item dep) = some g' := hadd
  h.add hadd

theorem Kept.addPlatformType (h : Kept d) {platformType parentPlatformType : String}
    {targetType : TargetType} {message : Option String} (hname : IsName platformType)
    (hadd : d.addPlatformType platformType targetType parentPlatformType = some (d', message)) :
    Kept d' := by
  rcases addPlatformType_cases hadd with rfl | ⟨hnew, g, hg, rfl | ⟨hparent, g', hg', rfl⟩⟩
  · exact ⟨h.sound.uncheck, h.unspoiled⟩
  · exact ⟨h.sound.withType hname hnew hg, unspoiled_addItem h.unspoiled hg⟩
  · have htype : Sound (d.withType platformType targetType parentPlatformType g) :=
      h.sound.withType hname hnew hg
    have hnone := (dependsOn_addItem hg).2.2
    have hin : platformType ∈ d.targetTypes.insert platformType targetType :=
      TreeMap.mem_insert_self
    exact ⟨htype.addParent hin hnone hparent hg',
      unspoiled_addDependency (unspoiled_addItem h.unspoiled hg) hg'⟩

theorem Kept.addPlatform (h : Kept d) {platform platformType : String} {lowpri : Bool}
    {message : Option String} (hname : IsName platform)
    (hadd : d.addPlatform platform platformType lowpri = some (d', message)) : Kept d' := by
  rcases addPlatform_cases hadd with rfl | ⟨n, g, hg, rfl | ⟨hin, g', hg', rfl⟩⟩
  · exact ⟨h.sound.uncheck, h.unspoiled⟩
  · exact ⟨h.sound.withPlatform hname hg, unspoiled_addItem h.unspoiled hg⟩
  · have hplatform : Sound (d.withPlatform platform n g) := h.sound.withPlatform hname hg
    exact ⟨hplatform.addToType hname hin hg',
      unspoiled_addDependency (unspoiled_addItem h.unspoiled hg) hg'⟩

/-- A check of `d`, by what it leaves. -/
structure CheckedTables (d d' : PlatformTables) (g : DependencyGraph) : Prop where
  tables : d' = { d with
    checked := true
    platformGraph := g
    platformsByType := d'.platformsByType
    compatiblePlatformTypes := d'.compatiblePlatformTypes }
  unspoiled : Unspoiled g
  state : g.graphState = .ready
  dependencies : g.dependencies.Equiv d.platformGraph.dependencies
  compatible : ∀ platformType : String, d'.compatiblePlatformTypes[platformType]? =
    if platformType ∈ d.targetTypes then
      some (d.compatiblePlatformTypes.getD platformType [] ++ d.parentsOf platformType)
    else d.compatiblePlatformTypes[platformType]?
  byType : ∀ platformType, platformType ∈ d'.platformsByType ↔ platformType ∈ d.targetTypes

theorem check_inv (h : d.check selectors unusedSelectors = some (d', unusedSelectors', none)) :
    ∃ g, d.platformGraph.check = some (true, g) ∧
      checkTypes selectors d.targetTypes.toList
        { d with checked := true, platformGraph := g, platformsByType := ∅ } unusedSelectors =
          some (d', unusedSelectors', none) := by
  obtain ⟨⟨result, g⟩, hcheck, h⟩ := Option.bind_eq_some_iff.mp h
  cases result with
  | false =>
    obtain ⟨⟨unknowns, cycles⟩, -, h⟩ := Option.bind_eq_some_iff.mp h
    cases h
  | true => exact ⟨g, hcheck, h⟩

theorem Kept.check (h : Kept d)
    (hcheck : d.check selectors unusedSelectors = some (d', unusedSelectors', none)) :
    ∃ g, CheckedTables d d' g := by
  obtain ⟨g, hg, htypes⟩ := check_inv hcheck
  obtain ⟨result, g', hg', -, hready⟩ := h.unspoiled.check
  obtain ⟨rfl, rfl⟩ := Prod.mk.inj (Option.some_inj.mp (hg'.symm.trans hg))
  obtain ⟨hunspoiled, hstate, hequiv⟩ := hready rfl
  have hkeys : ∀ platformType, platformType ∈ d.targetTypes.toList.map Prod.fst ↔
      platformType ∈ d.targetTypes := by
    intro platformType
    rw [TreeMap.map_fst_toList_eq_keys, TreeMap.mem_keys]
  have hnodup : (d.targetTypes.toList.map Prod.fst).Nodup := by
    rw [TreeMap.map_fst_toList_eq_keys]
    exact TreeMap.nodup_keys
  have hmem : ∀ p ∈ d.targetTypes.toList, platformTypeItem p.1 ∈ g'.dependencies := fun p hp ↦
    hequiv.mem_iff.mpr (h.sound.mem p.1 ((hkeys p.1).mp (List.mem_map_of_mem hp)))
  obtain ⟨htables, hcompatible, hbyType⟩ := checkTypes_spec ⟨hunspoiled, hstate⟩ hmem hnodup htypes
  refine ⟨g', htables, hunspoiled, hstate, hequiv, fun platformType ↦ ?_, fun platformType ↦ ?_⟩
  · rw [hcompatible]
    unfold parentsOf
    rw [sortedOf_congr hequiv]
    exact if_congr (hkeys platformType) rfl rfl
  · rw [hbyType, hkeys]
    exact or_iff_left TreeMap.not_mem_emptyc

theorem CheckedTables.kept {g : DependencyGraph} (hchecked : CheckedTables d d' g) (h : Kept d) :
    Kept d' := by
  have htables := hchecked.tables
  have hgraph : d'.platformGraph = g := by rw [htables]
  refine ⟨h.sound.congr (by rw [htables]) (by rw [htables]) ?_, hgraph ▸ hchecked.unspoiled⟩
  rw [hgraph]
  exact hchecked.dependencies

theorem CheckedTables.hasParent {g : DependencyGraph} (hchecked : CheckedTables d d' g) :
    d'.HasParent = d.HasParent := by
  refine hasParent_congr ?_
  rw [hchecked.tables]
  exact hchecked.dependencies

theorem call_check (h : d.call (.check selectors unusedSelectors) = some d') :
    ∃ unusedSelectors', d.check selectors unusedSelectors = some (d', unusedSelectors', none) := by
  unfold call at h
  dsimp only at h
  split at h
  · rename_i d'' unusedSelectors' hcheck
    exact ⟨unusedSelectors', Option.some_inj.mp h ▸ hcheck⟩
  · cases h

theorem call_addPlatformType {platformType parentPlatformType : String} {targetType : TargetType}
    (h : d.call (.addPlatformType platformType targetType parentPlatformType) = some d') :
    ∃ message, d.addPlatformType platformType targetType parentPlatformType =
      some (d', message) := by
  obtain ⟨⟨d'', message⟩, hadd, rfl⟩ := Option.map_eq_some_iff.mp h
  exact ⟨message, hadd⟩

theorem call_addPlatform {platform platformType : String} {lowpri : Bool}
    (h : d.call (.addPlatform platform platformType lowpri) = some d') :
    ∃ message, d.addPlatform platform platformType lowpri = some (d', message) := by
  obtain ⟨⟨d'', message⟩, hadd, rfl⟩ := Option.map_eq_some_iff.mp h
  exact ⟨message, hadd⟩

theorem Kept.call (h : Kept d) {c : Call} (hname : c.Named) (hcall : d.call c = some d') :
    Kept d' := by
  cases c with
  | addPlatformType platformType targetType parentPlatformType =>
    obtain ⟨message, hadd⟩ := call_addPlatformType hcall
    exact h.addPlatformType hname hadd
  | addPlatform platform platformType lowpri =>
    obtain ⟨message, hadd⟩ := call_addPlatform hcall
    exact h.addPlatform hname hadd
  | check selectors unusedSelectors =>
    obtain ⟨unusedSelectors', hcheck⟩ := call_check hcall
    obtain ⟨g, hchecked⟩ := h.check hcheck
    exact hchecked.kept h

end Calls

/-! ### Calls on a new `PlatformData` -/

section Run

variable {d d' d₀ : PlatformTables} {calls : List Call}
  {selectors : TreeMap String PlatformSelector} {unusedSelectors : TreeMap String String}

theorem Same.call {c : Call} (h : Same d d₀) (hc : c.isAddition = true) :
    Option.Rel Same (d.call c) (d₀.call c) := by
  cases c with
  | addPlatformType platformType targetType parentPlatformType =>
    show Option.Rel Same (Option.map Prod.fst _) (Option.map Prod.fst _)
    rw [Option.map_eq_bind, Option.map_eq_bind]
    exact rel_bind (h.addPlatformType platformType targetType parentPlatformType)
      fun _ _ hxy ↦ .some hxy
  | addPlatform platform platformType lowpri =>
    show Option.Rel Same (Option.map Prod.fst _) (Option.map Prod.fst _)
    rw [Option.map_eq_bind, Option.map_eq_bind]
    exact rel_bind (h.addPlatform platform platformType lowpri) fun _ _ hxy ↦ .some hxy
  | check selectors unusedSelectors => cases hc

/-- A check of `d` leaves it like the copy. -/
theorem Same.checked {g : DependencyGraph} (h : Same d d₀) (hchecked : CheckedTables d d' g) :
    Same d' d₀ := by
  have htables := hchecked.tables
  refine ⟨?_, ?_, ?_, ?_, ?_, ?_, h.compatible⟩
  · rw [htables]
    exact h.initializing
  · rw [htables]
    exact h.targetTypes
  · rw [htables]
    exact h.platformTypes
  · rw [htables]
    exact h.platformDeclaration
  · rw [htables]
    exact h.platformTypeParents
  · rw [htables]
    exact ⟨hchecked.unspoiled, h.platformGraph.unspoiled₀,
      hchecked.dependencies.trans h.platformGraph.dependencies⟩

theorem foldlM_same (h : Same d d₀) (hkept : Kept d) (hnames : ∀ c ∈ calls, c.Named)
    (hrun : calls.foldlM call d = some d') :
    ∃ d₀', (calls.filter Call.isAddition).foldlM call d₀ = some d₀' ∧ Same d' d₀' := by
  induction calls generalizing d d₀ with
  | nil =>
    obtain rfl : d = d' := Option.some_inj.mp hrun
    exact ⟨d₀, rfl, h⟩
  | cons c calls ih =>
    obtain ⟨hname, hrest⟩ := List.forall_mem_cons.mp hnames
    obtain ⟨d₁, hcall, hnext⟩ :=
      Option.bind_eq_some_iff.mp ((foldlM_cons c calls d).symm.trans hrun)
    have hkept₁ := hkept.call hname hcall
    cases hc : c.isAddition with
    | false =>
      cases c with
      | addPlatformType _ _ _ => cases hc
      | addPlatform _ _ _ => cases hc
      | check selectors unusedSelectors =>
        obtain ⟨unusedSelectors', hcheck⟩ := call_check hcall
        obtain ⟨g, hchecked⟩ := hkept.check hcheck
        exact ih (h.checked hchecked) hkept₁ hrest hnext
    | true =>
      obtain ⟨d₁₀, hcall₀, hsame⟩ := exists_of_rel (h.call hc) hcall
      rw [List.filter_cons_of_pos hc, foldlM_cons, hcall₀]
      exact ih hsame hkept₁ hrest hnext

/-- A check that comes last. -/
theorem Same.check (h : Same d d₀) (hkept : Kept d) (hkept₀ : Kept d₀)
    (hcheck : d.call (.check selectors unusedSelectors) = some d') :
    ∃ d₀' g g₀, d₀.call (.check selectors unusedSelectors) = some d₀' ∧
      CheckedTables d d' g ∧ CheckedTables d₀ d₀' g₀ ∧
      d'.platformsByType = d₀'.platformsByType := by
  obtain ⟨unusedSelectors', hcheck⟩ := call_check hcheck
  obtain ⟨g, hg, htypes⟩ := check_inv hcheck
  obtain ⟨g₀, hg₀, hgraph, hstate, hstate₀, hequiv⟩ := h.platformGraph.check hg
  have hmem : ∀ p ∈ d.targetTypes.toList, platformTypeItem p.1 ∈ g.dependencies := by
    intro p hp
    refine hequiv.mem_iff.mpr (hkept.sound.mem p.1 (TreeMap.mem_keys.mp ?_))
    rw [← TreeMap.map_fst_toList_eq_keys]
    exact List.mem_map_of_mem hp
  have hstart : SameGraph
      { d with checked := true, platformGraph := g, platformsByType := ∅ }.platformGraph
      { d₀ with checked := true, platformGraph := g₀, platformsByType := ∅ }.platformGraph := hgraph
  obtain ⟨d₀', htypes₀, hbyType⟩ := checkTypes_same hstart ⟨hgraph.unspoiled, hstate⟩
    ⟨hgraph.unspoiled₀, hstate₀⟩ h.platformDeclaration rfl hmem htypes
  have hcheck₀ : d₀.check selectors unusedSelectors = some (d₀', unusedSelectors', none) := by
    unfold PlatformTables.check
    dsimp only
    rw [hg₀, Option.bind_eq_bind, Option.bind_some, if_neg (not_not.mpr rfl)]
    rw [h.targetTypes] at htypes₀
    exact htypes₀
  obtain ⟨g', hchecked⟩ := hkept.check hcheck
  obtain ⟨g₀', hchecked₀⟩ := hkept₀.check hcheck₀
  refine ⟨d₀', g', g₀', ?_, hchecked, hchecked₀, hbyType⟩
  unfold PlatformTables.call
  dsimp only
  rw [hcheck₀]

theorem isName_of_mem_builtIn : ∀ c ∈ builtIn, c.Named := by
  have hindep : IsName PlatformData.ptIndep :=
    ⟨by decide, by simp [PlatformData.ptIndep, KeyVal.isSpace]⟩
  have hnative : IsName ptNative := ⟨by decide, by simp [ptNative, KeyVal.isSpace]⟩
  have hjava : IsName ptJava := ⟨by decide, by simp [ptJava, KeyVal.isSpace]⟩
  simp only [builtIn, List.forall_mem_cons]
  exact ⟨hindep, hnative, hjava, hindep, hjava, fun _ hc ↦ by cases hc⟩

theorem kept_initial : Kept initial where
  sound :=
    { name := fun _ h ↦ absurd h TreeMap.not_mem_emptyc
      mem := fun _ h ↦ absurd h TreeMap.not_mem_emptyc
      items := fun _ h ↦ absurd h TreeMap.not_mem_emptyc
      dependsOn := fun _ _ h ↦ absurd h.mem TreeMap.not_mem_emptyc
      unique := fun _ _ _ h ↦ absurd h.mem TreeMap.not_mem_emptyc
      platformTypes := fun _ _ h ↦ by cases TreeMap.getElem?_emptyc.symm.trans h }
  unspoiled := unspoiled_new

theorem same_initial : Same initial initial :=
  ⟨rfl, rfl, rfl, rfl, rfl, ⟨unspoiled_new, unspoiled_new, TreeMap.Equiv.rfl⟩, rfl⟩

theorem exists_new : ∃ d, new = some d ∧ Kept d ∧ Same d d ∧
    d.targetTypes[PlatformData.ptIndep]? = some .platformIndependent := by
  have hindep : new.bind (·.targetTypes[PlatformData.ptIndep]?) = some .platformIndependent := by
    decide +kernel
  obtain ⟨d, hnew, hindep⟩ := Option.bind_eq_some_iff.mp hindep
  obtain ⟨d', hrun, rfl⟩ := Option.map_eq_some_iff.mp hnew
  have hkept : Kept d' := foldlM_induction hrun kept_initial fun c hc _ _ hcall hkept ↦
    hkept.call (isName_of_mem_builtIn c hc) hcall
  have hsame : Option.Rel Same (builtIn.foldlM call initial) (builtIn.foldlM call initial) :=
    rel_foldlM same_initial fun c hc _ _ hst ↦
      hst.call (List.all_eq_true.mp (show builtIn.all Call.isAddition = true from rfl) c hc)
  rw [hrun] at hsame
  cases hsame with
  | some hsame =>
    refine ⟨_, hnew, ⟨?_, hkept.unspoiled⟩, ?_, hindep⟩
    · exact hkept.sound.congr rfl rfl TreeMap.Equiv.rfl
    · exact ⟨rfl, rfl, rfl, rfl, rfl, hsame.platformGraph, hsame.compatible⟩

theorem run_eq_some_iff {d₁ : PlatformTables} (hnew : new = some d₁) :
    run calls = some d ↔ calls.foldlM call d₁ = some d := by
  unfold run
  rw [hnew, Option.bind_some]

theorem run_append {calls' : List Call} :
    run (calls ++ calls') = (run calls).bind fun d ↦ calls'.foldlM call d := by
  unfold run
  cases new with
  | none => rfl
  | some d =>
    rw [Option.bind_some, Option.bind_some, List.foldlM_append]
    rfl

theorem run_concat {c : Call} : run (calls ++ [c]) = (run calls).bind fun d ↦ d.call c := by
  rw [run_append]
  congr
  funext d
  rw [foldlM_cons]
  exact Option.bind_fun_some _

theorem kept_of_run (hnames : ∀ c ∈ calls, c.Named) (hrun : run calls = some d) : Kept d := by
  obtain ⟨d₁, hnew, hkept, -⟩ := exists_new
  exact foldlM_induction ((run_eq_some_iff hnew).mp hrun) hkept fun c hc _ _ hcall hkept ↦
    hkept.call (hnames c hc) hcall

/-- Platform data that is only added to. -/
theorem same_of_run (hnames : ∀ c ∈ calls, c.Named) (hrun : run calls = some d) :
    ∃ d₀, run (calls.filter Call.isAddition) = some d₀ ∧ Same d d₀ := by
  obtain ⟨d₁, hnew, hkept, hsame, -⟩ := exists_new
  obtain ⟨d₀, hrun₀, hsame⟩ := foldlM_same hsame hkept hnames ((run_eq_some_iff hnew).mp hrun)
  exact ⟨d₀, (run_eq_some_iff hnew).mpr hrun₀, hsame⟩

/-- What the calls do to the tables that are not set anew by a check. -/
theorem compatiblePlatformTypes_call {c : Call} (hc : c.isAddition = true)
    (hcall : d.call c = some d') : d'.compatiblePlatformTypes = d.compatiblePlatformTypes := by
  cases c with
  | addPlatformType platformType targetType parentPlatformType =>
    obtain ⟨message, hadd⟩ := call_addPlatformType hcall
    rcases addPlatformType_cases hadd with rfl | ⟨-, g, -, rfl | ⟨-, g', -, rfl⟩⟩ <;> rfl
  | addPlatform platform platformType lowpri =>
    obtain ⟨message, hadd⟩ := call_addPlatform hcall
    rcases addPlatform_cases hadd with rfl | ⟨n, g, -, rfl | ⟨-, g', -, rfl⟩⟩ <;> rfl
  | check selectors unusedSelectors => cases hc

/-- A platform type stays what it is. -/
theorem targetTypes_call {c : Call} (hkept : Kept d) (hcall : d.call c = some d')
    {platformType : String} {targetType : TargetType}
    (htype : d.targetTypes[platformType]? = some targetType) :
    d'.targetTypes[platformType]? = some targetType := by
  cases c with
  | addPlatformType platformType' targetType' parentPlatformType =>
    have hinsert : platformType' ∉ d.targetTypes →
        (d.targetTypes.insert platformType' targetType')[platformType]? = some targetType := by
      intro hnew
      rw [TreeMap.getElem?_insert, if_neg, htype]
      intro hcompare
      refine hnew ?_
      rw [compare_eq_iff_eq.mp hcompare, TreeMap.mem_iff_isSome_getElem?, htype]
      rfl
    obtain ⟨message, hadd⟩ := call_addPlatformType hcall
    rcases addPlatformType_cases hadd with rfl | ⟨hnew, g, -, rfl | ⟨-, g', -, rfl⟩⟩
    · exact htype
    · exact hinsert hnew
    · exact hinsert hnew
  | addPlatform platform platformType' lowpri =>
    obtain ⟨message, hadd⟩ := call_addPlatform hcall
    rcases addPlatform_cases hadd with rfl | ⟨n, g, -, rfl | ⟨-, g', -, rfl⟩⟩
    · exact htype
    · exact htype
    · exact htype
  | check selectors unusedSelectors =>
    obtain ⟨unusedSelectors', hcheck⟩ := call_check hcall
    obtain ⟨g, hchecked⟩ := hkept.check hcheck
    rw [hchecked.tables]
    exact htype

theorem targetTypes_of_run (hnames : ∀ c ∈ calls, c.Named) (hrun : run calls = some d) :
    d.targetTypes[PlatformData.ptIndep]? = some .platformIndependent := by
  obtain ⟨d₁, hnew, hkept, -, hindep⟩ := exists_new
  refine (foldlM_induction (motive := fun s ↦ Kept s ∧
    s.targetTypes[PlatformData.ptIndep]? = some .platformIndependent)
    ((run_eq_some_iff hnew).mp hrun) ⟨hkept, hindep⟩ fun c hc s s' hcall hs ↦ ?_).2
  exact ⟨hs.1.call (hnames c hc) hcall, targetTypes_call hs.1 hcall hs.2⟩

/-- What a check finds above a platform type, from the tables that it has been given. -/
theorem CheckedTables.isChain {g : DependencyGraph} (hchecked : CheckedTables d d' g)
    (hkept : Kept d) {platformType : String} (hin : platformType ∈ d.targetTypes) :
    IsChain d.HasParent platformType (d.parentsOf platformType) ∧
      ∀ b, ¬ TransGen d.HasParent b b := by
  have hacyclic : Acyclic d.platformGraph.dependencies := by
    unfold Acyclic
    rw [← DependsOn.congr hchecked.dependencies]
    exact (hchecked.unspoiled.known hchecked.state).2
  exact ⟨hkept.sound.isChain_parentsOf hacyclic hkept.unspoiled.wf.proper hin,
    not_transGen_hasParent hacyclic⟩

/-- A check among the calls has found a parent of the platform type. -/
def FoundParent (calls : List Call) (platformType : String) : Prop :=
  ∃ before selectors unusedSelectors s parent,
    before ++ [Call.check selectors unusedSelectors] <+: calls ∧ run before = some s ∧
      s.HasParent platformType parent

theorem foundParent_concat {c : Call} {platformType : String} (hrun : run calls = some d) :
    FoundParent (calls ++ [c]) platformType ↔
      FoundParent calls platformType ∨
        (c.isAddition = false ∧ ∃ parent, d.HasParent platformType parent) := by
  constructor
  · rintro ⟨before, selectors, unusedSelectors, s, parent, hbefore, hs, hparent⟩
    rcases List.prefix_concat_iff.mp hbefore with heq | hbefore
    · obtain ⟨rfl, hc⟩ := List.append_inj' heq rfl
      obtain rfl := Option.some_inj.mp (hs.symm.trans hrun)
      obtain rfl := (List.cons.inj hc).1
      exact Or.inr ⟨rfl, parent, hparent⟩
    · exact Or.inl ⟨before, selectors, unusedSelectors, s, parent, hbefore, hs, hparent⟩
  · rintro (⟨before, selectors, unusedSelectors, s, parent, hbefore, hs, hparent⟩ |
      ⟨hc, parent, hparent⟩)
    · exact ⟨before, selectors, unusedSelectors, s, parent,
        hbefore.trans (List.prefix_append _ _), hs, hparent⟩
    · cases c with
      | addPlatformType _ _ _ => cases hc
      | addPlatform _ _ _ => cases hc
      | check selectors unusedSelectors =>
        exact ⟨calls, selectors, unusedSelectors, d, parent, List.prefix_rfl, hrun, hparent⟩

/-- The compatible types that have been found so far. -/
theorem compatible_eq_nil_iff (hnames : ∀ c ∈ calls, c.Named) (hrun : run calls = some d)
    (platformType : String) :
    d.compatiblePlatformTypes.getD platformType [] = [] ↔ ¬ FoundParent calls platformType := by
  induction calls using List.reverseRecOn generalizing d with
  | nil =>
    obtain ⟨d₁, hnew, -, hsame, -⟩ := exists_new
    obtain rfl := Option.some_inj.mp (hrun.symm.trans ((run_eq_some_iff hnew).mpr rfl))
    refine iff_of_true ?_ ?_
    · rw [hsame.compatible]
      exact TreeMap.getD_emptyc
    · rintro ⟨before, selectors, unusedSelectors, s, parent, hbefore, -⟩
      exact List.append_ne_nil_of_right_ne_nil _ (List.cons_ne_nil _ _) (List.prefix_nil.mp hbefore)
  | append_singleton calls c ih =>
    rw [run_concat] at hrun
    obtain ⟨d₁, hrun₁, hcall⟩ := Option.bind_eq_some_iff.mp hrun
    have hnames₁ : ∀ c ∈ calls, c.Named := fun c hc ↦ hnames c (List.mem_append_left _ hc)
    have hold := ih hnames₁ hrun₁
    have hkept := kept_of_run hnames₁ hrun₁
    rw [foundParent_concat hrun₁, not_or, ← hold]
    cases hc : c.isAddition with
    | true =>
      rw [compatiblePlatformTypes_call hc hcall]
      exact (and_iff_left fun hboth ↦ by cases hboth.1).symm
    | false =>
      cases c with
      | addPlatformType _ _ _ => cases hc
      | addPlatform _ _ _ => cases hc
      | check selectors unusedSelectors =>
        obtain ⟨unusedSelectors', hcheck⟩ := call_check hcall
        obtain ⟨g, hchecked⟩ := hkept.check hcheck
        rw [TreeMap.getD_eq_getD_getElem?, hchecked.compatible]
        by_cases hin : platformType ∈ d₁.targetTypes
        · have hchain := (hchecked.isChain hkept hin).1
          rw [if_pos hin, Option.getD_some, List.append_eq_nil_iff, hchain.eq_nil_iff]
          simp
        · have hnone : ¬ ∃ parent, d₁.HasParent platformType parent := fun ⟨parent, hparent⟩ ↦
            hin (hkept.sound.hasParent_mem hparent).1
          rw [if_neg hin, ← TreeMap.getD_eq_getD_getElem?]
          exact (and_iff_left fun hboth ↦ hnone hboth.2).symm

/-! ### The tables after the last check -/

/-- The answers of tables, about every type and every platform, are those of others. -/
structure AnswersAs (d d₀ : PlatformTables) : Prop where
  platforms : ∀ platformType, d.getPlatformsByType platformType = d₀.getPlatformsByType platformType
  compatible : ∀ platform,
    d.getCompatiblePlatformTypes platform = d₀.getCompatiblePlatformTypes platform

/-- The platform-independent type, which only its own platform does not have at the end. -/
def lastCompatible (platform : String) : List String :=
  if platform ≠ PlatformData.platformIndep then [PlatformData.ptIndep] else []

/-- The types that are compatible with a platform are the parents of its type, the nearest one
first, and the platform-independent one, each of them once. -/
def CompatibleWithParents (d : PlatformTables) : Prop :=
  ∀ platform platformType : String, d.platformTypes[platform]? = some platformType →
    ∃ parents, IsChain d.HasParent platformType parents ∧ platformType ∉ parents ∧
      d.getCompatiblePlatformTypes platform = some (parents ++ lastCompatible platform) ∧
      (parents ++ lastCompatible platform).Nodup

theorem CheckedTables.isPlatformTypeValid {g : DependencyGraph} (hchecked : CheckedTables d d' g)
    (platformType : String) :
    d'.isPlatformTypeValid platformType = some (d'.platformsByType.contains platformType) := by
  have htrue : d'.checked = true := by rw [hchecked.tables]
  unfold PlatformTables.isPlatformTypeValid
  rw [if_pos htrue]

theorem CheckedTables.getCompatiblePlatformTypes {g : DependencyGraph}
    (hchecked : CheckedTables d d' g) (hkept : Kept d) (platform : String) :
    d'.getCompatiblePlatformTypes platform =
      some ((d.platformTypes[platform]?.elim [] fun platformType ↦
        d.compatiblePlatformTypes.getD platformType [] ++ d.parentsOf platformType) ++
          lastCompatible platform) := by
  have hplatforms : d'.platformTypes = d.platformTypes := by rw [hchecked.tables]
  have hlast : ∀ compatible : List String,
      (if platform ≠ PlatformData.platformIndep then compatible ++ [PlatformData.ptIndep]
        else compatible) = compatible ++ lastCompatible platform := by
    intro compatible
    unfold lastCompatible
    split_ifs
    · rfl
    · rw [List.append_nil]
  unfold PlatformTables.getCompatiblePlatformTypes PlatformData.getCompatiblePlatformTypes
    platformData
  dsimp only
  rw [hplatforms]
  cases hplatform : d.platformTypes[platform]? with
  | none => exact congrArg some (hlast [])
  | some platformType =>
    have hin := hkept.sound.platformTypes platform platformType hplatform
    have hvalid : d'.platformsByType.contains platformType = true := (hchecked.byType _).mpr hin
    have hcompatible := hchecked.compatible platformType
    rw [if_pos hin] at hcompatible
    dsimp only
    rw [hchecked.isPlatformTypeValid, hvalid, hcompatible]
    exact congrArg some (hlast _)

/-- A check after others leaves the tables that a first one would have left, and no platform has a
compatible type twice, exactly when it finds no platform of a type of which an earlier check has
found a parent. -/
theorem check_again_iff (hnames : ∀ c ∈ calls, c.Named)
    (hrun : run (calls ++ [.check selectors unusedSelectors]) = some d) :
    ∃ d₀, run (calls.filter Call.isAddition ++ [.check selectors unusedSelectors]) = some d₀ ∧
      ((AnswersAs d d₀ ∧ CompatibleWithParents d) ↔
        ∀ platform platformType : String, d.platformTypes[platform]? = some platformType →
          ¬ FoundParent calls platformType) := by
  rw [run_concat] at hrun
  obtain ⟨d₁, hrun₁, hcall⟩ := Option.bind_eq_some_iff.mp hrun
  obtain ⟨d₁₀, hrun₁₀, hsame⟩ := same_of_run hnames hrun₁
  have hkept := kept_of_run hnames hrun₁
  have hkept₀ := kept_of_run (fun c hc ↦ hnames c (List.mem_of_mem_filter hc)) hrun₁₀
  obtain ⟨d₀, g, g₀, hcall₀, hchecked, hchecked₀, hbyType⟩ := hsame.check hkept hkept₀ hcall
  have hplatforms : d.platformTypes = d₁.platformTypes := by rw [hchecked.tables]
  have hparents : d₁₀.parentsOf = d₁.parentsOf := by
    unfold parentsOf
    rw [sortedOf_congr hsame.platformGraph.dependencies]
  refine ⟨d₀, ?_, ?_⟩
  · rw [run_concat, hrun₁₀]
    exact hcall₀
  -- What the answers about a platform are, here and after a first check.
  have hcompatible := hchecked.getCompatiblePlatformTypes hkept
  have hcompatible₀ : ∀ platform, d₀.getCompatiblePlatformTypes platform =
      some ((d₁.platformTypes[platform]?.elim [] d₁.parentsOf) ++ lastCompatible platform) := by
    intro platform
    rw [hchecked₀.getCompatiblePlatformTypes hkept₀, ← hsame.platformTypes, hparents,
      hsame.compatible]
    cases d₁.platformTypes[platform]? with
    | none => rfl
    | some platformType =>
      rw [Option.elim_some, Option.elim_some, TreeMap.getD_emptyc, List.nil_append]
  have hnil : ∀ platform platformType : String, d₁.platformTypes[platform]? = some platformType →
      (d.getCompatiblePlatformTypes platform = d₀.getCompatiblePlatformTypes platform ↔
        ¬ FoundParent calls platformType) := by
    intro platform platformType hplatform
    rw [hcompatible, hcompatible₀, hplatform, Option.elim_some, Option.elim_some,
      ← compatible_eq_nil_iff hnames hrun₁, Option.some_inj, List.append_left_inj,
      List.append_left_eq_self]
  rw [hplatforms]
  constructor
  · rintro ⟨hanswers, -⟩ platform platformType hplatform
    exact (hnil platform platformType hplatform).mp (hanswers.compatible platform)
  · intro hnone
    have hall : ∀ platform,
        d.getCompatiblePlatformTypes platform = d₀.getCompatiblePlatformTypes platform := by
      intro platform
      cases hplatform : d₁.platformTypes[platform]? with
      | none => rw [hcompatible, hcompatible₀, hplatform, Option.elim_none, Option.elim_none]
      | some platformType =>
        exact (hnil platform platformType hplatform).mpr (hnone platform platformType hplatform)
    refine ⟨⟨fun platformType ↦ ?_, hall⟩, fun platform platformType hplatform ↦ ?_⟩
    · unfold getPlatformsByType
      rw [hchecked.isPlatformTypeValid, hchecked₀.isPlatformTypeValid, hbyType]
    · rw [hplatforms] at hplatform
      have hin := hkept.sound.platformTypes platform platformType hplatform
      obtain ⟨hchain, hacyclic⟩ := hchecked.isChain hkept hin
      refine ⟨d₁.parentsOf platformType, ?_, fun hmem ↦ hacyclic _ (hchain.transGen hmem), ?_, ?_⟩
      · rw [hchecked.hasParent]
        exact hchain
      · rw [hall, hcompatible₀, hplatform, Option.elim_some]
      · refine List.nodup_append'.mpr ⟨hchain.nodup hacyclic, ?_, fun T hT hlast ↦ ?_⟩
        · unfold lastCompatible
          split_ifs
          · exact List.nodup_singleton _
          · exact List.nodup_nil
        · have hindep : T = PlatformData.ptIndep := by
            unfold lastCompatible at hlast
            split_ifs at hlast
            · exact List.mem_singleton.mp hlast
            · cases hlast
          subst hindep
          obtain ⟨_, -, hstep⟩ := TransGen.tail'_iff.mp (hchain.transGen hT)
          have hobject := (hkept.sound.hasParent_mem hstep).2
          rw [targetTypes_of_run hnames hrun₁] at hobject
          cases hobject

end Run

/-! ### A plugin's platforms -/

/-- A compiler for the native type, and after a check one for a type of its own. -/
def pluginCalls : List Call :=
  [.addPlatform "linux.ix86.gcc.gcc" ptNative false, .check ∅ ∅,
    .addPlatformType "embedded" .objectCode ptNative,
    .addPlatform "arm.rtos.gcc.gcc" "embedded" false]

theorem named_pluginCalls : ∀ c ∈ pluginCalls, c.Named := by
  have hlinux : IsName "linux.ix86.gcc.gcc" := ⟨by decide, by simp [KeyVal.isSpace]⟩
  have hembedded : IsName "embedded" := ⟨by decide, by simp [KeyVal.isSpace]⟩
  have harm : IsName "arm.rtos.gcc.gcc" := ⟨by decide, by simp [KeyVal.isSpace]⟩
  simp only [pluginCalls, List.forall_mem_cons]
  exact ⟨hlinux, trivial, hembedded, harm, fun _ hc ↦ by cases hc⟩

theorem check_again_pluginCalls :
    ∃ d d₀, run (pluginCalls ++ [.check ∅ ∅]) = some d ∧
      run (pluginCalls.filter Call.isAddition ++ [.check ∅ ∅]) = some d₀ ∧
      AnswersAs d d₀ ∧ CompatibleWithParents d := by
  have hempty : (run pluginCalls).map (·.compatiblePlatformTypes.toList.all (·.2 = [])) =
      some true := by decide +kernel
  have hsome : (run (pluginCalls ++ [.check ∅ ∅])).isSome = true := by decide +kernel
  obtain ⟨d, hrun⟩ := Option.isSome_iff_exists.mp hsome
  obtain ⟨d₀, hrun₀, hiff⟩ := check_again_iff named_pluginCalls hrun
  refine ⟨d, d₀, hrun, hrun₀, hiff.mpr fun platform platformType _ ↦ ?_⟩
  obtain ⟨d₁, hrun₁, hempty⟩ := Option.map_eq_some_iff.mp hempty
  refine (compatible_eq_nil_iff named_pluginCalls hrun₁ platformType).mp ?_
  rw [TreeMap.getD_eq_getD_getElem?]
  cases hget : d₁.compatiblePlatformTypes[platformType]? with
  | none => rfl
  | some compatible =>
    have hmem := TreeMap.mem_toList_iff_getElem?_eq_some.mpr hget
    exact of_decide_eq_true (List.all_eq_true.mp hempty _ hmem)

/-- Once the type of its own has been checked twice, it has its parent twice. -/
theorem not_answersAs_twice :
    ¬ ∀ calls : List Call, (∀ c ∈ calls, c.Named) → ∀ d d₀,
      run (calls ++ [.check ∅ ∅]) = some d →
        run (calls.filter Call.isAddition ++ [.check ∅ ∅]) = some d₀ →
          AnswersAs d d₀ ∧ CompatibleWithParents d := by
  intro hall
  have hnames : ∀ c ∈ pluginCalls ++ [Call.check ∅ ∅], c.Named := by
    intro c hc
    rcases List.mem_append.mp hc with hc | hc
    · exact named_pluginCalls c hc
    · rw [List.mem_singleton.mp hc]
      trivial
  have htwice : (run (pluginCalls ++ [Call.check ∅ ∅] ++ [.check ∅ ∅])).bind
      (·.getCompatiblePlatformTypes "arm.rtos.gcc.gcc") =
        some [ptNative, ptNative, PlatformData.ptIndep] := by decide +kernel
  have honce : (run ((pluginCalls ++ [Call.check ∅ ∅]).filter Call.isAddition ++ [.check ∅ ∅])).bind
      (·.getCompatiblePlatformTypes "arm.rtos.gcc.gcc") =
        some [ptNative, PlatformData.ptIndep] := by decide +kernel
  obtain ⟨d, hrun, htwice⟩ := Option.bind_eq_some_iff.mp htwice
  obtain ⟨d₀, hrun₀, honce⟩ := Option.bind_eq_some_iff.mp honce
  have hsame := (hall _ hnames d d₀ hrun hrun₀).1.compatible "arm.rtos.gcc.gcc"
  rw [htwice, honce] at hsame
  exact absurd hsame (by decide)

end Abuild.PlatformTables
