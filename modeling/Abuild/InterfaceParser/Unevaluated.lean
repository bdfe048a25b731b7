import Abuild.InterfaceParser

/-!
Blocks that are walked without being evaluated, as in a clause that is not taken. Each kind of
statement then reports errors at most (`ReportsOnly`); an if block evaluates none of its clauses,
since no condition counts as true (`chooseClauses_eq_false`).
-/

set_option autoImplicit false
set_option relaxedAutoImplicit false

namespace Abuild.InterfaceParser

open Std (TreeMap TreeSet)

variable {getEnv : String → Option String} {regex : String → Option (String → Bool)}
  {canonicalizePath : String → String}

/-- The second state is the first, with more errors reported. -/
def ReportsOnly (p p' : InterfaceParser) : Prop :=
  ∃ errors, p' = { p with errors := p.errors ++ errors }

theorem ReportsOnly.refl (p : InterfaceParser) : ReportsOnly p p :=
  ⟨[], by rw [List.append_nil]⟩

theorem ReportsOnly.trans {p p' p'' : InterfaceParser} (h : ReportsOnly p p')
    (h' : ReportsOnly p' p'') : ReportsOnly p p'' := by
  obtain ⟨errors, rfl⟩ := h
  obtain ⟨errors', rfl⟩ := h'
  exact ⟨errors ++ errors', by rw [← List.append_assoc]⟩

theorem reportsOnly_run {α : Type} (p : InterfaceParser) (check : Check α) :
    ReportsOnly p (p.run check).2 :=
  ⟨check.errors, rfl⟩

/-! ### Statements -/

section Statements

variable (p : InterfaceParser)

theorem evaluateAssignment_false (assignment : NtAssignment) :
    ∃ p', evaluateAssignment getEnv canonicalizePath assignment false p = some p' ∧
      ReportsOnly p p' :=
  ⟨_, rfl, reportsOnly_run p _⟩

theorem evaluateAfterBuild_false (afterBuild : NtAfterBuild) :
    ∃ p', evaluateAfterBuild getEnv canonicalizePath afterBuild false p = some p' ∧
      ReportsOnly p p' := by
  refine ⟨_, rfl, ?_⟩
  split_ifs
  · exact ReportsOnly.refl p
  · exact reportsOnly_run p _

theorem evaluateTargetType_false (targetType : NtTargetType) :
    ∃ p', evaluateTargetType targetType false p = some p' ∧ ReportsOnly p p' := by
  unfold evaluateTargetType
  dsimp only
  rw [targetType.nonempty, if_neg Bool.false_ne_true]
  have hrun := reportsOnly_run p (targetTypeValue p targetType.token false)
  generalize p.run (targetTypeValue p targetType.token false) = result at hrun ⊢
  obtain ⟨⟨check, value⟩, p'⟩ := result
  dsimp only at hrun ⊢
  by_cases hinvalid : check = true ∧ ¬ TargetType.isValid value = true
  · rw [if_pos hinvalid]
    exact ⟨_, rfl, hrun.trans (reportsOnly_run p' _)⟩
  · rw [if_neg hinvalid]
    exact ⟨p', rfl, hrun⟩

end Statements

/-! ### Clauses -/

section Clauses

variable {p : InterfaceParser}

theorem evaluateConditional_false (conditional : Option NtConditional) :
    (evaluateConditional getEnv regex p false conditional).value.getD false = false := by
  cases conditional with
  | none => rfl
  | some conditional =>
    unfold evaluateConditional
    rw [Reporting.value_bind, Reporting.value_pure]
    generalize (evaluateBooleanOrFunction getEnv regex p false conditional).value = value
    cases value <;> rfl

/-- No condition counts as true. -/
theorem evaluateConditionals_false : ∀ clauses : NtIfClauses,
    ∀ value ∈ (evaluateConditionals getEnv regex p false clauses).value,
      value.getD false = false
  | .endif => fun value hvalue ↦ by cases hvalue
  | .elseclause _ => fun value hvalue ↦ by
    rw [List.mem_singleton.mp hvalue]
    exact evaluateConditional_false none
  | .cons none _ rest => fun value hvalue ↦ by
    rcases List.mem_cons.mp hvalue with rfl | hvalue
    · rfl
    · exact evaluateConditionals_false rest value hvalue
  | .cons (some conditional) _ rest => fun value hvalue ↦ by
    rcases List.mem_cons.mp hvalue with rfl | hvalue
    · exact evaluateConditional_false (some conditional)
    · exact evaluateConditionals_false rest value hvalue

theorem firstTrue_eq_false {anyTrue : Bool} {values : List Bool}
    (h : ∀ value ∈ values, value = false) : ∀ flag ∈ firstTrue anyTrue values, flag = false := by
  induction values generalizing anyTrue with
  | nil => exact fun flag hflag ↦ by cases hflag
  | cons value values ih =>
    obtain ⟨hvalue, hvalues⟩ := List.forall_mem_cons.mp h
    intro flag hflag
    rcases List.mem_cons.mp hflag with rfl | hflag
    · rw [hvalue, Bool.and_false]
    · exact ih hvalues flag hflag

theorem chooseClauses_eq_false {values : List (Option Bool)}
    (h : ∀ value ∈ values, value.getD false = false) :
    ∀ flag ∈ chooseClauses values, flag = false := by
  unfold chooseClauses
  split_ifs
  · intro flag hflag
    obtain ⟨_, -, rfl⟩ := List.mem_map.mp hflag
    rfl
  · refine firstTrue_eq_false fun value hvalue ↦ ?_
    obtain ⟨value, hmem, rfl⟩ := List.mem_map.mp hvalue
    exact h value hmem

theorem headD_eq_false {flags : List Bool} (h : ∀ flag ∈ flags, flag = false) :
    flags.headD false = false := by
  cases flags with
  | nil => rfl
  | cons flag flags => exact h flag List.mem_cons_self

end Clauses

/-! ### Blocks -/

mutual

theorem evaluateBlock_false : ∀ (block : NtBlock) (p : InterfaceParser),
    ∃ p', evaluateBlock getEnv regex canonicalizePath false block p = some p' ∧ ReportsOnly p p'
  | .ifblock clauses, p => by
    have hflags : ∀ flag ∈ chooseClauses (evaluateConditionals getEnv regex p false clauses).value,
        flag = false := chooseClauses_eq_false (evaluateConditionals_false clauses)
    obtain ⟨p', hclauses, hreports⟩ := evaluateClauses_false clauses _ hflags
      (p.run (evaluateConditionals getEnv regex p false clauses)).2
    exact ⟨p', hclauses, (reportsOnly_run p _).trans hreports⟩
  | .reset _, p => ⟨p, rfl, ReportsOnly.refl p⟩
  | .assignment assignment, p => by
    unfold evaluateBlock
    exact evaluateAssignment_false p assignment
  | .declaration _, p => ⟨p, rfl, ReportsOnly.refl p⟩
  | .afterBuild afterBuild, p => by
    unfold evaluateBlock
    exact evaluateAfterBuild_false p afterBuild
  | .targetType targetType, p => evaluateTargetType_false p targetType

theorem evaluateClauses_false : ∀ (clauses : NtIfClauses) (flags : List Bool),
    (∀ flag ∈ flags, flag = false) → ∀ p : InterfaceParser,
    ∃ p', evaluateClauses getEnv regex canonicalizePath clauses flags p = some p' ∧
      ReportsOnly p p'
  | .endif, _, _, p => ⟨p, rfl, ReportsOnly.refl p⟩
  | .elseclause blocks, flags, hflags, p => by
    unfold evaluateClauses
    rw [headD_eq_false hflags]
    exact evaluateBlocks_false blocks p
  | .cons _ blocks rest, flags, hflags, p => by
    obtain ⟨p₁, hblocks, hreports⟩ := evaluateBlocks_false blocks p
    obtain ⟨p', hrest, hreports'⟩ := evaluateClauses_false rest flags.tail
      (fun flag hflag ↦ hflags flag (List.mem_of_mem_tail hflag)) p₁
    refine ⟨p', ?_, hreports.trans hreports'⟩
    unfold evaluateClauses
    rw [headD_eq_false hflags, hblocks]
    exact hrest

theorem evaluateBlocks_false : ∀ (blocks : NtBlocks) (p : InterfaceParser),
    ∃ p', evaluateBlocks getEnv regex canonicalizePath false blocks p = some p' ∧
      ReportsOnly p p'
  | .nil, p => ⟨p, rfl, ReportsOnly.refl p⟩
  | .cons block rest, p => by
    obtain ⟨p₁, hblock, hreports⟩ := evaluateBlock_false block p
    obtain ⟨p', hrest, hreports'⟩ := evaluateBlocks_false rest p₁
    refine ⟨p', ?_, hreports.trans hreports'⟩
    unfold evaluateBlocks
    rw [hblock]
    exact hrest

end

/-- Blocks that are only checked leave everything but the errors as it was. -/
theorem evaluateBlocks_frame (blocks : NtBlocks) (p : InterfaceParser) :
    ∃ p', evaluateBlocks getEnv regex canonicalizePath false blocks p = some p' ∧
      p'.interface = p.interface ∧ p'.afterBuilds = p.afterBuilds ∧
      p'.protectedFromReset = p.protectedFromReset := by
  obtain ⟨p', hblocks, errors, rfl⟩ := evaluateBlocks_false blocks p
  exact ⟨_, hblocks, rfl, rfl, rfl⟩

end Abuild.InterfaceParser
