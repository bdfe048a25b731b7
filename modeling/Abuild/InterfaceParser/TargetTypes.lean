import Abuild.InterfaceParser.Unevaluated

/-!
Target-type statements. A statement that is evaluated names a target type or a variable. What it
does with a variable that it cannot use depends on why: one that is unknown or has no value is
reported and taken for a name, which is not valid; one that is not a string scalar is reported,
and then its token is looked up as the name of a target type. `evaluateTargetType_iff` says that a
statement sets a valid target type or reports an error exactly where this does not happen.
-/

set_option autoImplicit false
set_option relaxedAutoImplicit false

namespace Abuild.InterfaceParser

open Std (TreeMap TreeSet)

variable {p : InterfaceParser} {token : Token}

def IsVariable (token : Token) : Prop := token.value.toList.head? = some '$'

/-- The variable of a token has a value. -/
def HasInfo (p : InterfaceParser) (token : Token) (info : Interface.VariableInfo) : Prop :=
  p.interface.getVariable (getVariableName token) .empty = some info ∧ info.initialized = true

def IsStringScalar (info : Interface.VariableInfo) : Prop :=
  info.listType = .scalar ∧ info.type = .string

/-- The name of the literal, or the value of the string scalar. -/
def Names (p : InterfaceParser) (token : Token) (name : String) : Prop :=
  (¬ IsVariable token ∧ name = token.value) ∨
    (IsVariable token ∧ ∃ info, HasInfo p token info ∧ IsStringScalar info ∧
      info.value.head? = some name)

/-- The variable has a value and is not a string scalar. -/
def NamesOtherVariable (p : InterfaceParser) (token : Token) : Prop :=
  IsVariable token ∧ ∃ info, HasInfo p token info ∧ ¬ IsStringScalar info

/-- The target type is set to the valid one that is named. -/
def SetsTargetType (p : InterfaceParser) (token : Token) (p' : InterfaceParser) : Prop :=
  ∃ name id, Names p token name ∧ TargetType.isValid name = true ∧
    TargetType.getID name = some id ∧
      p' = { p with interface := { p.interface with targetType := id } }

/-- An error is reported, and nothing else is done. -/
def OnlyReports (p p' : InterfaceParser) : Prop :=
  ∃ errors, errors ≠ [] ∧ p' = { p with errors := p.errors ++ errors }

theorem getID_of_isVariable (h : IsVariable token) : TargetType.getID token.value = none := by
  unfold IsVariable at h
  unfold TargetType.getID
  split
  all_goals first
    | rfl
    | (rename_i heq; rw [heq] at h; cases h)

theorem isValid_iff {name : String} :
    TargetType.isValid name = true ↔ ∃ id, TargetType.getID name = some id ∧ id ≠ .unknown := by
  unfold TargetType.isValid
  cases hid : TargetType.getID name with
  | none => simp
  | some id => cases id <;> simp

/-- A variable that has no value is reported. -/
theorem withVariable_cases (p : InterfaceParser) (token : Token) :
    (∃ info, HasInfo p token info ∧ withVariable p token = ⟨some info, []⟩) ∨
      ((∀ info, ¬ HasInfo p token info) ∧ ∃ error, withVariable p token = ⟨none, [error]⟩) := by
  unfold HasInfo withVariable
  dsimp only
  cases hinfo : p.interface.getVariable (getVariableName token) .empty with
  | none => exact Or.inr ⟨fun info h ↦ (by cases h.1), _, rfl⟩
  | some info =>
    by_cases hinitialized : info.initialized = true
    · exact Or.inl ⟨info, ⟨rfl, hinitialized⟩, if_pos hinitialized⟩
    · refine Or.inr ⟨fun other h ↦ hinitialized ?_, _, if_neg hinitialized⟩
      rw [Option.some_inj.mp h.1]
      exact h.2

/-- The token of a variable is not the name of a target type. -/
theorem not_isValid_of_isVariable (hvariable : IsVariable token) :
    ¬ TargetType.isValid token.value = true := by
  intro hvalid
  obtain ⟨id, hid, -⟩ := isValid_iff.mp hvalid
  rw [getID_of_isVariable hvariable] at hid
  cases hid

/-! ### The value of a token -/

section Value

variable {info : Interface.VariableInfo}

/-- A variable that has a value is checked to be a string scalar. -/
theorem targetTypeValue_of_info (hvariable : IsVariable token)
    (hwith : withVariable p token = ⟨some info, []⟩) :
    targetTypeValue p token true =
      (checkStringOrFilenameVariable true token info >>= fun value ↦
        pure (value.elim (false, token.value) ((true, ·)))) := by
  have hhead : token.value.toList.head? = some '$' := hvariable
  unfold targetTypeValue
  rw [if_pos hhead, if_pos rfl, hwith]
  rfl

theorem targetTypeValue_string (hvariable : IsVariable token)
    (hwith : withVariable p token = ⟨some info, []⟩) (hstring : IsStringScalar info) :
    targetTypeValue p token true = ⟨(true, info.value.headD ""), []⟩ := by
  have hcheck : checkStringOrFilenameVariable true token info =
      ⟨some (info.value.headD ""), []⟩ := if_pos hstring
  rw [targetTypeValue_of_info hvariable hwith, hcheck]
  rfl

theorem targetTypeValue_other (hvariable : IsVariable token)
    (hwith : withVariable p token = ⟨some info, []⟩) (hstring : ¬ IsStringScalar info) :
    ∃ errors, targetTypeValue p token true = ⟨(false, token.value), errors⟩ := by
  have hcheck : ∃ errors, checkStringOrFilenameVariable true token info = ⟨none, errors⟩ :=
    ⟨_, if_neg hstring⟩
  obtain ⟨errors, hcheck⟩ := hcheck
  refine ⟨errors ++ [], ?_⟩
  rw [targetTypeValue_of_info hvariable hwith, hcheck]
  rfl

theorem targetTypeValue_unknown (hvariable : IsVariable token) {error : ErrorMessage}
    (hwith : withVariable p token = ⟨none, [error]⟩) :
    targetTypeValue p token true = ⟨(true, token.value), [error]⟩ := by
  have hhead : token.value.toList.head? = some '$' := hvariable
  unfold targetTypeValue
  rw [if_pos hhead, if_pos rfl, hwith]
  rfl

/-- The value of a string scalar is the name that the token stands for. -/
theorem names_of_string (hvariable : IsVariable token) (hinfo : HasInfo p token info)
    (hstring : IsStringScalar info) (hvalid : TargetType.isValid (info.value.headD "") = true) :
    Names p token (info.value.headD "") := by
  refine Or.inr ⟨hvariable, info, hinfo, hstring, ?_⟩
  cases hfront : info.value with
  | nil =>
    rw [hfront] at hvalid
    cases hvalid
  | cons front rest => rfl

end Value

/-! ### The statement -/

/-- A value that is checked: it is set if it is valid, and reported if it is not. -/
theorem settled_of_value {value : String} (targetType : NtTargetType) {errors : List ErrorMessage}
    (hvalue : targetTypeValue p targetType.token true = ⟨(true, value), errors⟩)
    (hnames : TargetType.isValid value = true → errors = [] ∧ Names p targetType.token value) :
    ∃ p', evaluateTargetType targetType true p = some p' ∧
      (SetsTargetType p targetType.token p' ∨ OnlyReports p p') := by
  unfold evaluateTargetType
  dsimp only
  rw [targetType.nonempty, if_neg Bool.false_ne_true, InterfaceParser.run, hvalue]
  dsimp only
  by_cases hvalid : TargetType.isValid value = true
  · obtain ⟨rfl, hname⟩ := hnames hvalid
    obtain ⟨id, hid, -⟩ := isValid_iff.mp hvalid
    rw [if_neg fun h ↦ h.2 hvalid, if_pos rfl, hid]
    refine ⟨_, rfl, Or.inl ⟨value, id, hname, hvalid, hid, ?_⟩⟩
    rw [List.append_nil]
    rfl
  · rw [if_pos ⟨rfl, hvalid⟩]
    have hne : ∀ check : Check Unit, check.errors ≠ [] → OnlyReports p
        (InterfaceParser.run { p with errors := p.errors ++ errors } check).2 := by
      intro check hcheck
      refine ⟨errors ++ check.errors, List.append_ne_nil_of_right_ne_nil _ hcheck, ?_⟩
      rw [← List.append_assoc]
      rfl
    exact ⟨_, rfl, Or.inr (hne _ (List.cons_ne_nil _ _))⟩

/-- A value that is not checked: the token of the variable is looked up all the same. -/
theorem evaluateTargetType_of_unchecked (targetType : NtTargetType) {errors : List ErrorMessage}
    (hvariable : IsVariable targetType.token)
    (hvalue : targetTypeValue p targetType.token true =
      ⟨(false, targetType.token.value), errors⟩) :
    evaluateTargetType targetType true p = none := by
  unfold evaluateTargetType
  dsimp only
  rw [targetType.nonempty, if_neg Bool.false_ne_true, InterfaceParser.run, hvalue]
  dsimp only
  rw [if_neg fun h ↦ Bool.false_ne_true h.1, if_pos rfl, getID_of_isVariable hvariable]
  rfl

/-- A statement that is evaluated sets the valid target type that it names, or reports an error,
unless it names a variable that has a value and is not a string scalar. Then the token of the
variable is looked up, which is not the name of a target type. -/
theorem evaluateTargetType_iff (p : InterfaceParser) (targetType : NtTargetType) :
    (∃ p', evaluateTargetType targetType true p = some p' ∧
      (SetsTargetType p targetType.token p' ∨ OnlyReports p p')) ↔
      ¬ NamesOtherVariable p targetType.token := by
  by_cases hvariable : IsVariable targetType.token
  · rcases withVariable_cases p targetType.token with ⟨info, hinfo, hwith⟩ | ⟨hnone, error, hwith⟩
    · by_cases hstring : IsStringScalar info
      · have hvalue := targetTypeValue_string hvariable hwith hstring
        refine iff_of_true (settled_of_value targetType hvalue fun hvalid ↦
          ⟨rfl, names_of_string hvariable hinfo hstring hvalid⟩) ?_
        rintro ⟨-, other, hother, hnot⟩
        obtain rfl := Option.some_inj.mp (hinfo.1.symm.trans hother.1)
        exact hnot hstring
      · obtain ⟨errors, hvalue⟩ := targetTypeValue_other hvariable hwith hstring
        refine iff_of_false ?_ fun h ↦ h ⟨hvariable, info, hinfo, hstring⟩
        rintro ⟨p', hp', -⟩
        rw [evaluateTargetType_of_unchecked targetType hvariable hvalue] at hp'
        cases hp'
    · have hvalue := targetTypeValue_unknown hvariable hwith
      refine iff_of_true (settled_of_value targetType hvalue fun hvalid ↦
        absurd hvalid (not_isValid_of_isVariable hvariable)) ?_
      rintro ⟨-, info, hinfo, -⟩
      exact hnone info hinfo
  · have hvalue : targetTypeValue p targetType.token true =
        ⟨(true, targetType.token.value), []⟩ := if_neg hvariable
    refine iff_of_true
      (settled_of_value targetType hvalue fun _ ↦ ⟨rfl, Or.inl ⟨hvariable, rfl⟩⟩) ?_
    exact fun h ↦ hvariable h.1

/-- `declare l list string append = x` -/
def declareList : NtDeclaration where
  location := .empty
  variableName := "l"
  scope := .recursive
  type := .string
  listType := .append
  initializer := some ⟨.empty, [⟨[(⟨"x", .empty⟩, .string)]⟩]⟩

/-- `target-type $(l)` -/
def targetTypeOfList : NtTargetType := ⟨⟨"$(l)", .empty⟩, by decide⟩

set_option maxRecDepth 4000 in
/-- A list is declared and then named, and the lookup of the token fails. -/
theorem evaluateTargetType_list :
    ∃ interface p, Interface.new "item" "indep" "/item" = some interface ∧
      evaluateDeclaration (fun _ ↦ none) id declareList true ⟨interface, [], ∅, false, ∅, ∅, []⟩ =
        some p ∧ p.errors = [] ∧
      ¬ ∃ p', evaluateTargetType targetTypeOfList true p = some p' ∧
        (SetsTargetType p targetTypeOfList.token p' ∨ OnlyReports p p') := by
  have hrun : ((Interface.new "item" "indep" "/item").bind fun interface ↦
      (evaluateDeclaration (fun _ ↦ none) id declareList true
        ⟨interface, [], ∅, false, ∅, ∅, []⟩).map fun p ↦
          decide (p.errors = [] ∧ (evaluateTargetType targetTypeOfList true p).isNone)) =
      some true := by decide
  obtain ⟨interface, hinterface, hrun⟩ := Option.bind_eq_some_iff.mp hrun
  obtain ⟨p, hp, hrun⟩ := Option.map_eq_some_iff.mp hrun
  obtain ⟨herrors, hnone⟩ := of_decide_eq_true hrun
  refine ⟨interface, p, hinterface, hp, herrors, ?_⟩
  rintro ⟨p', hp', -⟩
  rw [Option.isNone_iff_eq_none.mp hnone] at hp'
  cases hp'

end Abuild.InterfaceParser
