import Abuild.PlatformTables.Recheck

/-!
Additions that throw an exception. Their callers report the message and go on with what the addition
has left behind. `addPlatformType` and `addPlatform` look at the type that they depend on after they
have declared the new name, so that only an addition that is refused for its own name leaves the
tables as they were (`restored_iff`).
-/

set_option autoImplicit false
set_option relaxedAutoImplicit false

namespace Abuild.PlatformTables

open Std (TreeMap)
open Fallible DependencyGraph

/-- A call with the message of the exception that it throws. -/
def attempt (d : PlatformTables) : Call → Option (PlatformTables × Option String)
  | .addPlatformType platformType targetType parentPlatformType =>
    d.addPlatformType platformType targetType parentPlatformType
  | .addPlatform platform platformType lowpri => d.addPlatform platform platformType lowpri
  | .check selectors unusedSelectors =>
    (d.call (.check selectors unusedSelectors)).map fun d ↦ (d, none)

/-- The tables are as they were; that a check is due is not part of them. -/
def Restored (d d' : PlatformTables) : Prop := d' = { d with checked := d'.checked }

/-- What the call depends on is there, or else the call is refused for its own name. -/
def Call.Harmless (d : PlatformTables) : Call → Prop
  | .addPlatformType platformType targetType parentPlatformType =>
    d.RefusesType platformType targetType ∨ parentPlatformType = "" ∨
      d.KnownParent platformType targetType parentPlatformType
  | .addPlatform platform platformType _ =>
    platform ∈ d.platformDeclaration ∨ platformType ∈ d.targetTypes
  | .check _ _ => True

/-- The calls that throw no exception. -/
def succeeding : List Call → PlatformTables → List Call
  | [], _ => []
  | c :: calls, d =>
    match d.attempt c with
    | some (d, none) => c :: succeeding calls d
    | some (d, some _) => succeeding calls d
    | none => []

section Attempt

variable {d d' : PlatformTables} {message : Option String} {c : Call}

theorem call_eq_attempt (d : PlatformTables) (c : Call) :
    d.call c = (d.attempt c).map Prod.fst := by
  cases c with
  | check selectors unusedSelectors =>
    show d.call _ = ((d.call _).map fun d ↦ (d, none)).map Prod.fst
    rw [Option.map_map]
    exact Option.map_id'.symm
  | _ => rfl

/-- A name that is declared shows in the table. -/
theorem not_restored_withType {platformType parentPlatformType : String} {targetType : TargetType}
    {g : DependencyGraph} (hnew : platformType ∉ d.targetTypes) :
    ¬ Restored d (d.withType platformType targetType parentPlatformType g) := by
  intro h
  have htypes : d.targetTypes.insert platformType targetType = d.targetTypes :=
    congrArg PlatformTables.targetTypes h
  exact hnew (htypes ▸ TreeMap.mem_insert_self)

theorem not_restored_withPlatform {platform : String} {n : ℤ} {g : DependencyGraph}
    (hnew : platform ∉ d.platformDeclaration) : ¬ Restored d (d.withPlatform platform n g) := by
  intro h
  have hdeclared : d.platformDeclaration.insert platform n = d.platformDeclaration :=
    congrArg PlatformTables.platformDeclaration h
  exact hnew (hdeclared ▸ TreeMap.mem_insert_self)

/-- A call leaves the tables as they were if it throws an exception, exactly if it is harmless. -/
theorem harmless_iff (h : d.attempt c = some (d', message)) :
    c.Harmless d ↔ (message.isSome → Restored d d') := by
  cases c with
  | addPlatformType platformType targetType parentPlatformType =>
    rcases addPlatformType_spec h with ⟨hrefused, -, rfl⟩ | ⟨haccepts, g, -, hrest⟩
    · exact iff_of_true (Or.inl hrefused) fun _ ↦ rfl
    · rcases hrest with ⟨hparent, rfl, -⟩ | ⟨hparent, ⟨hunknown, hthrown, rfl⟩ | ⟨hknown, rfl, -⟩⟩
      · exact iff_of_true (Or.inr (Or.inl hparent)) fun hsome ↦ by cases hsome
      · refine iff_of_false ?_ fun hrestored ↦
          not_restored_withType (not_or.mp haccepts).2 (hrestored hthrown)
        exact not_or.mpr ⟨haccepts, not_or.mpr ⟨hparent, hunknown⟩⟩
      · exact iff_of_true (Or.inr (Or.inr hknown)) fun hsome ↦ by cases hsome
  | addPlatform platform platformType lowpri =>
    rcases addPlatform_spec h with ⟨hdeclared, -, rfl⟩ | ⟨hnew, g, -, hrest⟩
    · exact iff_of_true (Or.inl hdeclared) fun _ ↦ rfl
    · rcases hrest with ⟨hunknown, hthrown, rfl⟩ | ⟨hknown, rfl, -⟩
      · exact iff_of_false (not_or.mpr ⟨hnew, hunknown⟩) fun hrestored ↦
          not_restored_withPlatform hnew (hrestored hthrown)
      · exact iff_of_true (Or.inr hknown) fun hsome ↦ by cases hsome
  | check selectors unusedSelectors =>
    obtain ⟨d'', -, heq⟩ := Option.map_eq_some_iff.mp h
    cases heq
    exact iff_of_true trivial fun hsome ↦ by cases hsome

/-- That a check is due bears on no call. -/
theorem Restored.attempt (h : Restored d d') (c : Call) : d'.attempt c = d.attempt c := by
  rw [h]
  cases c <;> rfl

theorem Restored.refl (d : PlatformTables) : Restored d d := rfl

theorem Restored.trans {d'' : PlatformTables} (h : Restored d d') (h' : Restored d' d'') :
    Restored d d'' := by
  rw [h] at h'
  exact h'

end Attempt

/-! ### Sequences of calls -/

section Run

variable {calls : List Call} {d d' d₀ : PlatformTables}

/-- When every call is harmless, those that throw an exception could as well not have been made. -/
theorem foldlM_succeeding (h : Restored d₀ d)
    (hharmless : ∀ before c s, before ++ [c] <+: calls → before.foldlM call d = some s →
      c.Harmless s) (hrun : calls.foldlM call d = some d') :
    ∃ d₀', (succeeding calls d).foldlM call d₀ = some d₀' ∧ Restored d₀' d' := by
  induction calls generalizing d d₀ with
  | nil =>
    obtain rfl : d = d' := Option.some_inj.mp hrun
    exact ⟨d₀, rfl, h⟩
  | cons c calls ih =>
    obtain ⟨d₁, hcall, hnext⟩ :=
      Option.bind_eq_some_iff.mp ((foldlM_cons c calls d).symm.trans hrun)
    obtain ⟨⟨d₂, message⟩, hattempt, rfl⟩ :=
      Option.map_eq_some_iff.mp ((call_eq_attempt d c).symm.trans hcall)
    have hrest : ∀ before c' s, before ++ [c'] <+: calls → before.foldlM call d₂ = some s →
        c'.Harmless s := by
      intro before c' s hprefix hs
      refine hharmless (c :: before) c' s ((List.cons_prefix_cons).mpr ⟨rfl, hprefix⟩) ?_
      rw [foldlM_cons, hcall]
      exact hs
    have hfirst : c.Harmless d :=
      hharmless [] c d ((List.cons_prefix_cons).mpr ⟨rfl, List.nil_prefix⟩) rfl
    unfold succeeding
    rw [hattempt]
    cases message with
    | none =>
      obtain ⟨d₀', hrun₀, hrestored⟩ := ih (Restored.refl d₂) hrest hnext
      refine ⟨d₀', ?_, hrestored⟩
      rw [foldlM_cons, call_eq_attempt, ← h.attempt, hattempt]
      exact hrun₀
    | some message => exact ih (h.trans ((harmless_iff hattempt).mp hfirst rfl)) hrest hnext

/-- In a sequence of calls all exceptions leave the tables as they were exactly if every call is
harmless where it is made, and then the tables are what the other calls alone would have made. -/
theorem restored_iff (hrun : run calls = some d) :
    ((∀ before c s s' message, before ++ [c] <+: calls → run before = some s →
        s.attempt c = some (s', some message) → Restored s s') ↔
      ∀ before c s, before ++ [c] <+: calls → run before = some s → c.Harmless s) ∧
    ((∀ before c s, before ++ [c] <+: calls → run before = some s → c.Harmless s) →
      ∃ d₀, run (new.elim [] (succeeding calls)) = some d₀ ∧ Restored d₀ d) := by
  constructor
  · constructor
    · intro hrestored before c s hprefix hs
      obtain ⟨after, rfl⟩ := hprefix
      rw [run_append, run_concat, hs, Option.bind_some] at hrun
      obtain ⟨s', hcall, -⟩ := Option.bind_eq_some_iff.mp hrun
      obtain ⟨⟨s'', message⟩, hattempt, -⟩ :=
        Option.map_eq_some_iff.mp ((call_eq_attempt s c).symm.trans hcall)
      refine (harmless_iff hattempt).mpr fun hthrown ↦ ?_
      obtain ⟨message, rfl⟩ := Option.isSome_iff_exists.mp hthrown
      exact hrestored before c s s'' message (List.prefix_append _ _) hs hattempt
    · intro hharmless before c s s' message hprefix hs hattempt
      exact (harmless_iff hattempt).mp (hharmless before c s hprefix hs) rfl
  · intro hharmless
    obtain ⟨d₁, hnew, -⟩ := exists_new
    obtain ⟨d₀, hrun₀, hrestored⟩ := foldlM_succeeding (Restored.refl d₁)
      (fun before c s hprefix hs ↦ hharmless before c s hprefix ((run_eq_some_iff hnew).mpr hs))
      ((run_eq_some_iff hnew).mp hrun)
    refine ⟨d₀, ?_, hrestored⟩
    rw [hnew, run_eq_some_iff hnew]
    exact hrun₀

end Run

/-! ### A platform of an unknown type -/

/-- The type of the platform is declared too late. -/
def lateTypeCalls : List Call :=
  [.addPlatform "mips.gcc" "mips" false, .addPlatformType "mips" .objectCode ""]

theorem restored_lateTypeCalls :
    ∃ d, run lateTypeCalls = some d ∧
      ¬ ∀ before c s s' message, before ++ [c] <+: lateTypeCalls → run before = some s →
        s.attempt c = some (s', some message) → Restored s s' := by
  have hsome : (run lateTypeCalls).isSome = true := by
    decide +kernel
  obtain ⟨d, hrun⟩ := Option.isSome_iff_exists.mp hsome
  refine ⟨d, hrun, fun hall ↦ ?_⟩
  have hharmless := (restored_iff hrun).1.mp hall
  obtain ⟨d₁, hnew, -⟩ := exists_new
  have hunknown : new.map (fun d ↦ decide ("mips.gcc" ∈ d.platformDeclaration ∨
      "mips" ∈ d.targetTypes)) = some false := by
    decide +kernel
  rw [hnew, Option.map_some, Option.some_inj, decide_eq_false_iff_not] at hunknown
  exact hunknown (hharmless [] (.addPlatform "mips.gcc" "mips" false) d₁
    ((List.cons_prefix_cons).mpr ⟨rfl, List.nil_prefix⟩) ((run_eq_some_iff hnew).mpr rfl))

/-- The platform stays declared, so that it cannot be added once its type is known. -/
theorem not_restored_unknownType :
    ∃ d d' d'', run [] = some d ∧
      d.attempt (.addPlatform "mips.gcc" "mips" false) =
        some (d', some "platform mips.gcc belongs to unknown platform type mips") ∧
      "mips.gcc" ∉ d.platformDeclaration ∧ "mips.gcc" ∈ d'.platformDeclaration ∧
      ¬ Restored d d' ∧
      d'.attempt (.addPlatformType "mips" .objectCode "") = some (d'', none) ∧
      (d''.attempt (.addPlatform "mips.gcc" "mips" false)).map Prod.snd =
        some (some "platform mips.gcc has already been registered") := by
  have hfirst : ((run []).bind fun d ↦ (d.attempt (.addPlatform "mips.gcc" "mips" false)).map
      fun x ↦ (decide ("mips.gcc" ∈ d.platformDeclaration), x.2)) =
        some (false, some "platform mips.gcc belongs to unknown platform type mips") := by
    decide +kernel
  have hlater : ((run []).bind fun d ↦ (d.attempt (.addPlatform "mips.gcc" "mips" false)).bind
      fun x ↦ (x.1.attempt (.addPlatformType "mips" .objectCode "")).bind fun y ↦
        (y.1.attempt (.addPlatform "mips.gcc" "mips" false)).map fun z ↦
          (decide ("mips.gcc" ∈ x.1.platformDeclaration), y.2, z.2)) =
        some (true, none, some "platform mips.gcc has already been registered") := by
    decide +kernel
  obtain ⟨d, hrun, hadd⟩ := Option.bind_eq_some_iff.mp hfirst
  obtain ⟨⟨d', message⟩, hadd, heq⟩ := Option.map_eq_some_iff.mp hadd
  obtain ⟨hnew, rfl⟩ := Prod.mk.inj heq
  rw [hrun, Option.bind_some, hadd, Option.bind_some] at hlater
  obtain ⟨⟨d'', message⟩, htype, hagain⟩ := Option.bind_eq_some_iff.mp hlater
  obtain ⟨z, hagain, heq⟩ := Option.map_eq_some_iff.mp hagain
  obtain ⟨hold, heq⟩ := Prod.mk.inj heq
  obtain ⟨rfl, hz⟩ := Prod.mk.inj heq
  have hnot : "mips.gcc" ∉ d.platformDeclaration := of_decide_eq_false hnew
  have hmem : "mips.gcc" ∈ d'.platformDeclaration := of_decide_eq_true hold
  refine ⟨d, d', d'', hrun, hadd, hnot, hmem, fun hrestored ↦ hnot ?_, htype, ?_⟩
  · rw [hrestored] at hmem
    exact hmem
  · rw [hagain, Option.map_some]
    exact congrArg some hz

end Abuild.PlatformTables
