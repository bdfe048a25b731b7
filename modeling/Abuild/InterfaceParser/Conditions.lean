import Abuild.InterfaceParser.Unevaluated

/-!
What the conditions of the interface language mean, and which clauses of an if block are
evaluated. A condition has a meaning when it is valid (`functionMeaning`), and then it is
evaluated without an error exactly when no name is missing in it (`MissingInFunction`). An
unknown name that stands for a boolean, and one in a text, are reported without the condition
being found invalid, so that the clauses are decided as if it were false, or empty:
`decidesClauses_iff`.
-/

set_option autoImplicit false
set_option relaxedAutoImplicit false

namespace Abuild.InterfaceParser

open Std (TreeMap TreeSet)

variable (getEnv : String → Option String) (regex : String → Option (String → Bool))
  (p : InterfaceParser)

/-! ### Names -/

/-- The variable that a token names, when it is known and initialized. -/
def lookup (token : Token) : Option Interface.VariableInfo :=
  (p.interface.getVariable (getVariableName token) .empty).filter (·.initialized)

def environmentText (token : Token) : Option String :=
  let (name, dfault) := getFirstAndSecondMatch "$(ENV:" token
  (getEnv name).or dfault

def parameterText (token : Token) : Option String :=
  let (name, dfault) := getFirstAndSecondMatch "$(PARAM:" token
  p.parameters[name]?.or dfault

/-- A name that a word refers to is not known. -/
def MissingToken : Token × WordType → Prop
  | (token, .variable) => lookup p token = none
  | (token, .environment) => environmentText getEnv token = none
  | (token, .parameter) => parameterText p token = none
  | (_, .string) => False

/-- The same in a text, of which an unknown variable is no valid part. -/
def MissingText : Token × WordType → Prop
  | (_, .variable) => False
  | token => MissingToken getEnv p token

/-! ### The meaning of a condition -/

/-- The value of a variable that stands for a boolean. One that is not known is false. -/
def booleanMeaning (token : Token) : Option Bool :=
  match lookup p token with
  | none => some false
  | some info =>
    if info.listType = .scalar ∧ info.type = .boolean then some (info.value.headD "" = "1")
    else none

/-- The text of a token. An unknown environment variable or parameter has no text. -/
def tokenText : Token × WordType → Option String
  | (token, .variable) =>
    (lookup p token).bind fun info ↦
      if info.listType = .scalar ∧ info.type = .string then some (info.value.headD "") else none
  | (token, .environment) => some ((environmentText getEnv token).getD "")
  | (token, .parameter) => some ((parameterText p token).getD "")
  | (token, .string) => some (evaluateToken token)

def wordText (word : NtWord) : Option String :=
  word.tokens.foldr (fun token text ↦ Option.map₂ (· ++ ·) (tokenText getEnv p token) text)
    (some "")

def textMeaning (argument : NtArgument) : Option String :=
  (singleWord argument).bind (wordText getEnv p)

def matchMeaning (words : List String) (expression : String) : Option Bool :=
  (regex expression).map fun isMatch ↦ words.any isMatch

def wordsMeaning : NtArgument → Option (List String)
  | .words words => some (evaluateWords getEnv p words).value
  | .function _ => none

mutual

def functionMeaning : NtFunction → Option Bool
  | .mk function arguments =>
    (functionEvaluators (getFunctionName function)).bind fun name ↦
      if arguments.size = functionNumArguments name then callMeaning name arguments else none

def callMeaning : FunctionName → NtArguments → Option Bool
  | .and, .cons arg1 (.cons arg2 _) =>
    Option.map₂ (· && ·) (argumentMeaning arg1) (argumentMeaning arg2)
  | .or, .cons arg1 (.cons arg2 _) =>
    Option.map₂ (· || ·) (argumentMeaning arg1) (argumentMeaning arg2)
  | .not, .cons arg _ => (argumentMeaning arg).map (!·)
  | .equals, .cons arg1 (.cons arg2 _) =>
    Option.map₂ (fun text1 text2 ↦ decide (text1 = text2)) (textMeaning getEnv p arg1)
      (textMeaning getEnv p arg2)
  | .matches, .cons arg1 (.cons arg2 _) => do
    matchMeaning regex [← textMeaning getEnv p arg1] (← textMeaning getEnv p arg2)
  | .contains, .cons arg1 (.cons arg2 _) =>
    Option.map₂ (fun words text ↦ words.any (text = ·)) (wordsMeaning getEnv p arg1)
      (textMeaning getEnv p arg2)
  | .containsmatch, .cons arg1 (.cons arg2 _) => do
    matchMeaning regex (← wordsMeaning getEnv p arg1) (← textMeaning getEnv p arg2)
  | _, _ => none

def argumentMeaning : NtArgument → Option Bool
  | .function function => functionMeaning function
  | .words words => (singleVariable words).bind (booleanMeaning p)

end

/-! ### Names that are missing -/

def MissingInText (argument : NtArgument) : Prop :=
  ∃ word ∈ singleWord argument, ∃ token ∈ word.tokens, MissingText getEnv p token

def MissingInWords : NtArgument → Prop
  | .words words => ∃ word ∈ words.words, ∃ token ∈ word.tokens, MissingToken getEnv p token
  | .function _ => False

mutual

/-- A name that is not known is read in a function, without making it invalid. -/
def MissingInFunction : NtFunction → Prop
  | .mk function arguments =>
    ∃ name ∈ functionEvaluators (getFunctionName function), MissingInCall name arguments

def MissingInCall : FunctionName → NtArguments → Prop
  | .and, .cons arg1 (.cons arg2 _) => MissingInArgument arg1 ∨ MissingInArgument arg2
  | .or, .cons arg1 (.cons arg2 _) => MissingInArgument arg1 ∨ MissingInArgument arg2
  | .not, .cons arg _ => MissingInArgument arg
  | .equals, .cons arg1 (.cons arg2 _) =>
    MissingInText getEnv p arg1 ∨ MissingInText getEnv p arg2
  | .matches, .cons arg1 (.cons arg2 _) =>
    MissingInText getEnv p arg1 ∨ MissingInText getEnv p arg2
  | .contains, .cons arg1 (.cons arg2 _) =>
    MissingInWords getEnv p arg1 ∨ MissingInText getEnv p arg2
  | .containsmatch, .cons arg1 (.cons arg2 _) =>
    MissingInWords getEnv p arg1 ∨ MissingInText getEnv p arg2
  | _, _ => False

def MissingInArgument : NtArgument → Prop
  | .function function => MissingInFunction function
  | .words words => ∃ token ∈ singleVariable words, lookup p token = none

end

/-! ### Checks that find what is meant -/

/-- A check returns a meaning, and reports no error exactly when there is one and no name is
missing. -/
structure Judges {α : Type} (check : Check (Option α)) (meaning : Option α) (missing : Prop) :
    Prop where
  value : check.value = meaning
  errors : check.errors = [] ↔ meaning.isSome ∧ ¬ missing

variable {getEnv regex p}

theorem errors_error_bind {α : Type} {location : FileLocation} {message : String}
    {f : Unit → Check α} : (error location message >>= f).errors ≠ [] := by
  rw [Reporting.errors_bind]
  exact List.cons_ne_nil _ _

theorem judges_invalid {α : Type} {location : FileLocation} {message : String} {missing : Prop} :
    Judges (do error location message; pure (none : Option α)) none missing :=
  ⟨rfl, iff_of_false errors_error_bind fun h ↦ Bool.false_ne_true h.1⟩

theorem judges_pure {α : Type} (a : α) : Judges (pure (some a)) (some a) False :=
  ⟨rfl, iff_of_true rfl ⟨rfl, id⟩⟩

theorem Judges.congr {α : Type} {check : Check (Option α)} {meaning meaning' : Option α}
    {missing missing' : Prop} (h : Judges check meaning missing) (heq : meaning = meaning')
    (hiff : missing ↔ missing') : Judges check meaning' missing' := by
  subst heq
  exact ⟨h.value, h.errors.trans (and_congr_right fun _ ↦ not_congr hiff)⟩

/-- Where there is no meaning, it does not matter what is missing. -/
theorem Judges.invalid {α : Type} {check : Check (Option α)} {missing missing' : Prop}
    (h : Judges check none missing) : Judges check none missing' :=
  ⟨h.value, h.errors.trans (and_congr_right fun hsome ↦ absurd hsome Bool.false_ne_true)⟩

/-- A check that goes on from another one, and is not valid where the other one is not. -/
theorem Judges.bind {α β : Type} {check : Check (Option α)} {meaning : Option α}
    {missing q : Prop} (h : Judges check meaning missing)
    {f : Option α → Check (Option β)} {g : α → Option β} (hnone : (f none).value = none)
    (hsome : ∀ a ∈ meaning, Judges (f (some a)) (g a) q) :
    Judges (check >>= f) (meaning.bind g) (missing ∨ q) := by
  cases meaning with
  | none =>
    refine ⟨?_, iff_of_false (fun hnil ↦ ?_) fun hvalid ↦ Bool.false_ne_true hvalid.1⟩
    · rw [Reporting.value_bind, h.value, hnone]
      rfl
    · exact Bool.false_ne_true (h.errors.mp (List.append_eq_nil_iff.mp hnil).1).1
  | some a =>
    have hf := hsome a rfl
    refine ⟨?_, ?_⟩
    · rw [Reporting.value_bind, h.value, hf.value]
      rfl
    · rw [Reporting.errors_bind, List.append_eq_nil_iff, h.value, h.errors, hf.errors,
        Option.bind_some, not_or, Option.isSome_some, and_iff_right rfl, and_left_comm]

theorem Judges.map {α β : Type} {check : Check (Option α)} {meaning : Option α} {missing : Prop}
    (h : Judges check meaning missing) (f : α → β) :
    Judges (do let a ← check; pure (a.map f)) (meaning.map f) missing := by
  refine (h.bind (g := fun a ↦ some (f a)) (q := False) rfl fun a _ ↦
    judges_pure (f a)).congr Option.map_eq_bind.symm (or_iff_left id)

theorem Judges.map₂ {α β γ : Type} {check : Check (Option α)} {check' : Check (Option β)}
    {meaning : Option α} {meaning' : Option β} {missing missing' : Prop}
    (h : Judges check meaning missing) (h' : Judges check' meaning' missing') (f : α → β → γ) :
    Judges (do let a ← check; let b ← check'; pure (Option.map₂ f a b))
      (Option.map₂ f meaning meaning') (missing ∨ missing') :=
  h.bind rfl fun a _ ↦ h'.map (f a)

theorem Judges.both {α β : Type} {check : Check (Option α)} {check' : Check (Option β)}
    {meaning : Option α} {meaning' : Option β} {missing missing' : Prop}
    (h : Judges check meaning missing) (h' : Judges check' meaning' missing') :
    Judges (checkBoth check check') (Option.map₂ Prod.mk meaning meaning') (missing ∨ missing') :=
  h.map₂ h' Prod.mk

theorem judges_withVariable (token : Token) :
    Judges (withVariable p token) (lookup p token) False := by
  unfold withVariable lookup
  dsimp only
  cases p.interface.getVariable (getVariableName token) .empty with
  | none => exact judges_invalid
  | some info =>
    rw [Option.filter_some]
    dsimp only
    split_ifs
    · exact judges_pure info
    · exact judges_invalid

variable (getEnv) in
theorem evaluateEnvironment_spec (token : Token) :
    (evaluateEnvironment getEnv token).value = (environmentText getEnv token).getD "" ∧
      ((evaluateEnvironment getEnv token).errors = [] ↔ environmentText getEnv token ≠ none) := by
  unfold evaluateEnvironment environmentText
  obtain ⟨name, dfault⟩ := getFirstAndSecondMatch "$(ENV:" token
  dsimp only
  cases getEnv name with
  | some value => exact ⟨rfl, iff_of_true rfl (Option.some_ne_none value)⟩
  | none =>
    cases dfault with
    | some dfault => exact ⟨rfl, iff_of_true rfl (Option.some_ne_none dfault)⟩
    | none => exact ⟨rfl, iff_of_false errors_error_bind fun h ↦ h rfl⟩

variable (p) in
theorem evaluateParameter_spec (token : Token) :
    (evaluateParameter p token).value = (parameterText p token).getD "" ∧
      ((evaluateParameter p token).errors = [] ↔ parameterText p token ≠ none) := by
  unfold evaluateParameter parameterText
  obtain ⟨name, dfault⟩ := getFirstAndSecondMatch "$(PARAM:" token
  dsimp only
  cases p.parameters[name]? with
  | some value => exact ⟨rfl, iff_of_true rfl (Option.some_ne_none value)⟩
  | none =>
    cases dfault with
    | some dfault => exact ⟨rfl, iff_of_true rfl (Option.some_ne_none dfault)⟩
    | none => exact ⟨rfl, iff_of_false errors_error_bind fun h ↦ h rfl⟩

theorem errors_bind_pure {α β : Type} (check : Check α) (f : α → β) :
    (do let a ← check; pure (f a)).errors = check.errors :=
  List.append_nil _

/-! ### Words -/

theorem evaluateWordToken_errors (result : List String) : ∀ token : Token × WordType,
    (evaluateWordToken getEnv p result token).errors = [] ↔ ¬ MissingToken getEnv p token
  | (token, .variable) => by
    rw [evaluateWordToken, errors_bind_pure, (judges_withVariable token).errors]
    show (lookup p token).isSome ∧ ¬ False ↔ lookup p token ≠ none
    rw [and_iff_left not_false, Option.isSome_iff_ne_none]
  | (token, .environment) => by
    rw [evaluateWordToken, errors_bind_pure, (evaluateEnvironment_spec getEnv token).2]
    rfl
  | (token, .parameter) => by
    rw [evaluateWordToken, errors_bind_pure, (evaluateParameter_spec p token).2]
    rfl
  | (_, .string) => iff_of_true rfl id

theorem errors_foldlM {α β : Type} {f : β → α → Check β} {missing : α → Prop}
    (h : ∀ b a, (f b a).errors = [] ↔ ¬ missing a) (l : List α) (b : β) :
    (l.foldlM f b).errors = [] ↔ ¬ ∃ a ∈ l, missing a := by
  induction l generalizing b with
  | nil => exact iff_of_true rfl fun ⟨a, ha, _⟩ ↦ by cases ha
  | cons a l ih =>
    rw [List.foldlM_cons, Reporting.errors_bind, List.append_eq_nil_iff, h, ih,
      List.exists_mem_cons_iff, not_or]

theorem evaluateWords_errors (words : NtWords) :
    (evaluateWords getEnv p words).errors = [] ↔ ¬ MissingInWords getEnv p (.words words) :=
  errors_foldlM (fun _ word ↦ errors_foldlM evaluateWordToken_errors word.tokens _) words.words []

/-! ### Texts -/

theorem judges_checkArgumentToken : ∀ token : Token × WordType,
    Judges (checkArgumentToken getEnv p true token) (tokenText getEnv p token)
      (MissingText getEnv p token)
  | (token, .variable) => by
    refine ((judges_withVariable token).bind (q := False) rfl fun info _ ↦ ?_).congr rfl
      (or_iff_left id)
    show Judges (checkStringOrFilenameVariable true token info) _ _
    unfold checkStringOrFilenameVariable
    simp only [if_true]
    split_ifs
    · exact judges_pure _
    · exact judges_invalid
  | (token, .environment) => by
    obtain ⟨hvalue, herrors⟩ := evaluateEnvironment_spec getEnv token
    refine ⟨congrArg some hvalue, ?_⟩
    rw [checkArgumentToken, errors_bind_pure, herrors]
    exact (and_iff_right rfl).symm
  | (token, .parameter) => by
    obtain ⟨hvalue, herrors⟩ := evaluateParameter_spec p token
    refine ⟨congrArg some hvalue, ?_⟩
    rw [checkArgumentToken, errors_bind_pure, herrors]
    exact (and_iff_right rfl).symm
  | (_, .string) => judges_pure _

theorem judges_checkArgumentTokens (tokens : List (Token × WordType)) :
    Judges (checkArgumentTokens getEnv p true tokens)
      (tokens.foldr (fun token text ↦ Option.map₂ (· ++ ·) (tokenText getEnv p token) text)
        (some ""))
      (∃ token ∈ tokens, MissingText getEnv p token) := by
  induction tokens with
  | nil => exact (judges_pure "").congr rfl (iff_of_false id fun ⟨_, h, _⟩ ↦ by cases h)
  | cons token tokens ih =>
    exact ((judges_checkArgumentToken token).map₂ ih _).congr rfl
      (List.exists_mem_cons_iff _ _ _).symm

theorem exists_mem_some {α : Type} {a : α} {P : α → Prop} : (∃ x ∈ some a, P x) ↔ P a := by
  simp

theorem judges_checkStringArgument (argument : NtArgument) :
    Judges (checkStringArgument getEnv p argument) (textMeaning getEnv p argument)
      (MissingInText getEnv p argument) := by
  unfold checkStringArgument checkStringOrFilenameArgument textMeaning MissingInText
  cases singleWord argument with
  | none => exact judges_invalid
  | some word =>
    show Judges (checkArgumentTokens getEnv p true word.tokens >>= _) (wordText getEnv p word) _
    refine ((judges_checkArgumentTokens word.tokens).bind (f := requireArgument true argument)
      (g := some) rfl fun text _ ↦ judges_pure text).congr ?_ ?_
    · exact Option.bind_fun_some _
    · rw [exists_mem_some]
      exact or_iff_left id

theorem judges_containsMatch (location : FileLocation) (words : List String) (expression : String) :
    Judges (containsMatch regex location words expression) (matchMeaning regex words expression)
      False := by
  unfold containsMatch matchMeaning
  cases regex expression with
  | some isMatch => exact judges_pure _
  | none => exact judges_invalid

/-! ### Functions -/

theorem judges_checkBooleanVariable (token : Token) (info : Interface.VariableInfo) :
    Judges (checkBooleanVariable token info)
      (if info.listType = .scalar ∧ info.type = .boolean then some (info.value.headD "" = "1")
        else none) False := by
  unfold checkBooleanVariable
  split_ifs
  · exact judges_pure _
  · exact judges_invalid

theorem judges_booleanVariable (token : Token) :
    Judges (evaluateBooleanVariable p true token) (booleanMeaning p token)
      (lookup p token = none) := by
  have hvariable : Judges (withVariable p token) (lookup p token) False := judges_withVariable token
  unfold evaluateBooleanVariable booleanMeaning
  rw [if_pos rfl]
  cases hlookup : lookup p token with
  | none =>
    rw [hlookup] at hvariable
    refine ⟨?_, iff_of_false (fun hnil ↦ ?_) fun h ↦ h.2 rfl⟩
    · rw [Reporting.value_bind, hvariable.value]
      rfl
    · exact Bool.false_ne_true (hvariable.errors.mp (List.append_eq_nil_iff.mp hnil).1).1
  | some info =>
    rw [hlookup] at hvariable
    have hcheck := judges_checkBooleanVariable token info
    refine ⟨?_, ?_⟩
    · rw [Reporting.value_bind, hvariable.value]
      exact hcheck.value
    · rw [Reporting.errors_bind, List.append_eq_nil_iff, hvariable.value, hvariable.errors]
      rw [and_iff_right ⟨rfl, id⟩]
      exact hcheck.errors.trans (and_congr_right fun _ ↦ iff_of_true id (Option.some_ne_none info))

/-- The words of an argument that is no function call. -/
def wordsArgument : NtArgument → Option NtWords
  | .words words => some words
  | .function _ => none

/-- The functions that search the words of their first argument. -/
theorem judges_searchWords {list : Check (Option NtWords)} {arg1 : NtArgument}
    (hlist : Judges list (wordsArgument arg1) False) (arg2 : NtArgument)
    {search : List String → String → Check (Option Bool)} {g : List String → String → Option Bool}
    (hsearch : ∀ words text, Judges (search words text) (g words text) False) :
    Judges (searchWords getEnv p search list arg2)
      ((wordsMeaning getEnv p arg1).bind fun words ↦ (textMeaning getEnv p arg2).bind (g words))
      (MissingInWords getEnv p arg1 ∨ MissingInText getEnv p arg2) := by
  have harg2 : Judges (checkStringArgument getEnv p arg2) _ _ := judges_checkStringArgument arg2
  have hboth := hlist.both harg2
  unfold searchWords
  cases arg1 with
  | function function =>
    exact (hboth.bind (g := fun _ ↦ none) (q := False) rfl fun values hvalues ↦ by
      cases hvalues).invalid
  | words words =>
    refine (hboth.bind (q := MissingInWords getEnv p (.words words))
      (g := fun values ↦ g (evaluateWords getEnv p words).value values.2) rfl
      fun values hvalues ↦ ?_).congr ?_ ?_
    · obtain ⟨text, -, rfl⟩ := Option.map_eq_some_iff.mp hvalues
      have hlast := hsearch (evaluateWords getEnv p words).value text
      refine ⟨hlast.value, ?_⟩
      show (_ ++ _ : List ErrorMessage) = [] ↔ _
      rw [List.append_eq_nil_iff, hlast.errors, evaluateWords_errors, and_iff_left not_false,
        and_comm]
    · cases textMeaning getEnv p arg2 <;> rfl
    · rw [false_or, or_comm]

mutual

theorem judges_function : ∀ function : NtFunction,
    Judges (evaluateFunction getEnv regex p true function) (functionMeaning getEnv regex p function)
      (MissingInFunction getEnv p function)
  | .mk function arguments => by
    unfold evaluateFunction functionMeaning MissingInFunction
    cases functionEvaluators (getFunctionName function) with
    | none =>
      exact ⟨rfl, iff_of_false errors_error_bind fun h ↦ Bool.false_ne_true h.1⟩
    | some name =>
      by_cases hsize : arguments.size = functionNumArguments name
      · have hcall := judges_call name arguments hsize
        dsimp only [Option.bind_some]
        rw [if_pos hsize, if_pos hsize, if_pos rfl]
        exact hcall.congr rfl (by rw [exists_mem_some])
      · dsimp only [Option.bind_some]
        rw [if_neg hsize, if_neg hsize]
        exact ⟨rfl, iff_of_false errors_error_bind fun h ↦ Bool.false_ne_true h.1⟩

theorem judges_call : ∀ (name : FunctionName) (arguments : NtArguments),
    arguments.size = functionNumArguments name →
    Judges (callFunction getEnv regex p name arguments) (callMeaning getEnv regex p name arguments)
      (MissingInCall getEnv p name arguments)
  | .and, .cons arg1 (.cons arg2 _), _ => by
    unfold callFunction callMeaning MissingInCall
    exact (((judges_argument arg1).both (judges_argument arg2)).map _).congr
      (Option.map_map₂ _ _) Iff.rfl
  | .or, .cons arg1 (.cons arg2 _), _ => by
    unfold callFunction callMeaning MissingInCall
    exact (((judges_argument arg1).both (judges_argument arg2)).map _).congr
      (Option.map_map₂ _ _) Iff.rfl
  | .not, .cons arg _, _ => by
    unfold callFunction callMeaning MissingInCall
    exact (judges_argument arg).map _
  | .equals, .cons arg1 (.cons arg2 _), _ => by
    unfold callFunction callMeaning MissingInCall
    exact (((judges_checkStringArgument arg1).both (judges_checkStringArgument arg2)).map _).congr
      (Option.map_map₂ _ _) Iff.rfl
  | .matches, .cons arg1 (.cons arg2 _), _ => by
    unfold callFunction callMeaning MissingInCall
    refine (((judges_checkStringArgument arg1).both (judges_checkStringArgument arg2)).bind
      (g := fun values ↦ matchMeaning regex [values.1] values.2) rfl fun values _ ↦
        judges_containsMatch arg2.location [values.1] values.2).congr ?_ (or_iff_left id)
    cases textMeaning getEnv p arg1 <;> cases textMeaning getEnv p arg2 <;> rfl
  | .contains, .cons arg1 (.cons arg2 _), _ => by
    unfold callFunction callMeaning MissingInCall
    refine (judges_searchWords (judges_words arg1) arg2 fun words text ↦
      judges_pure (words.any (text = ·))).congr ?_ Iff.rfl
    cases wordsMeaning getEnv p arg1 <;> cases textMeaning getEnv p arg2 <;> rfl
  | .containsmatch, .cons arg1 (.cons arg2 _), _ => by
    unfold callFunction callMeaning MissingInCall
    exact judges_searchWords (judges_words arg1) arg2 (judges_containsMatch arg2.location)
  | .and, .nil, hsize | .or, .nil, hsize | .not, .nil, hsize | .equals, .nil, hsize
  | .matches, .nil, hsize | .contains, .nil, hsize | .containsmatch, .nil, hsize => by cases hsize
  | .and, .cons _ .nil, hsize | .or, .cons _ .nil, hsize | .equals, .cons _ .nil, hsize
  | .matches, .cons _ .nil, hsize | .contains, .cons _ .nil, hsize
  | .containsmatch, .cons _ .nil, hsize => by cases hsize

theorem judges_argument : ∀ argument : NtArgument,
    Judges (checkBooleanArgument getEnv regex p argument) (argumentMeaning getEnv regex p argument)
      (MissingInArgument getEnv p argument)
  | .function function => by
    unfold checkBooleanArgument argumentMeaning MissingInArgument
    exact judges_function function
  | .words words => by
    unfold checkBooleanArgument argumentMeaning MissingInArgument
    cases singleVariable words with
    | none => exact judges_invalid
    | some token => exact (judges_booleanVariable token).congr rfl (by rw [exists_mem_some])

theorem judges_words : ∀ argument : NtArgument,
    Judges (checkWordsArgument getEnv regex p argument) (wordsArgument argument) False
  | .words words => by
    unfold checkWordsArgument
    exact judges_pure words
  | .function function => by
    unfold checkWordsArgument
    exact ⟨rfl, iff_of_false errors_error_bind fun h ↦ Bool.false_ne_true h.1⟩

end

/-! ### Clauses -/

section Clauses

variable (getEnv regex p)

def conditionalMeaning : NtConditional → Option Bool
  | .variable token => booleanMeaning p token
  | .function function => functionMeaning getEnv regex p function

def MissingInConditional : NtConditional → Prop
  | .variable token => lookup p token = none
  | .function function => MissingInFunction getEnv p function

/-- The meanings of the conditions. One that could not be parsed has none, and that of an else
clause is true. -/
def clauseMeanings : NtIfClauses → List (Option Bool)
  | .endif => []
  | .elseclause _ => [some true]
  | .cons conditional _ rest =>
    conditional.bind (conditionalMeaning getEnv regex p) :: clauseMeanings rest

/-- A name is missing in one of the conditions. -/
def MissingInClauses : NtIfClauses → Prop
  | .endif => False
  | .elseclause _ => False
  | .cons conditional _ rest =>
    (∃ c ∈ conditional, MissingInConditional getEnv p c) ∨ MissingInClauses rest

/-- An error has been reported when one of the conditions was parsed. -/
def Unparsed : NtIfClauses → Prop
  | .endif => False
  | .elseclause _ => False
  | .cons conditional _ rest => conditional = none ∨ Unparsed rest

/-- An error is reported about one of the conditions of an if block that is evaluated. -/
def ReportsError (clauses : NtIfClauses) : Prop :=
  Unparsed clauses ∨ (evaluateConditionals getEnv regex p true clauses).errors ≠ []

/-- Which clauses of an if block are evaluated. -/
def clauseFlags (clauses : NtIfClauses) : List Bool :=
  chooseClauses (evaluateConditionals getEnv regex p true clauses).value

/-- No clause is evaluated when an error is reported about a condition, and otherwise exactly the
first one whose condition is true. -/
structure DecidesClauses (clauses : NtIfClauses) : Prop where
  error : ReportsError getEnv regex p clauses → ∀ flag ∈ clauseFlags getEnv regex p clauses,
    flag = false
  first : ¬ ReportsError getEnv regex p clauses → ∀ i : ℕ,
    (clauseFlags getEnv regex p clauses)[i]? = some true ↔
      (clauseMeanings getEnv regex p clauses)[i]? = some (some true) ∧
        ∀ j < i, (clauseMeanings getEnv regex p clauses)[j]? ≠ some (some true)

variable {getEnv regex p}

theorem judges_conditional (conditional : NtConditional) :
    Judges (evaluateConditional getEnv regex p true (some conditional))
      (conditionalMeaning getEnv regex p conditional)
      (MissingInConditional getEnv p conditional) := by
  unfold evaluateConditional
  have hjudges : Judges (evaluateBooleanOrFunction getEnv regex p true conditional)
      (conditionalMeaning getEnv regex p conditional)
      (MissingInConditional getEnv p conditional) := by
    match conditional with
    | .variable token => exact judges_booleanVariable token
    | .function function => exact judges_function function
  refine (hjudges.map (true && ·)).congr ?_ Iff.rfl
  simp only [Bool.true_and, Option.map_id']

theorem evaluateConditionals_value : ∀ clauses : NtIfClauses,
    (evaluateConditionals getEnv regex p true clauses).value = clauseMeanings getEnv regex p clauses
  | .endif => rfl
  | .elseclause _ => rfl
  | .cons none _ rest => congrArg (none :: ·) (evaluateConditionals_value rest)
  | .cons (some conditional) _ rest => congrArg₂ List.cons (judges_conditional conditional).value
      (evaluateConditionals_value rest)

theorem none_notMem_clauseMeanings_cons (conditional : NtConditional) (blocks : NtBlocks)
    (rest : NtIfClauses) :
    none ∉ clauseMeanings getEnv regex p (.cons (some conditional) blocks rest) ↔
      (conditionalMeaning getEnv regex p conditional).isSome ∧
        none ∉ clauseMeanings getEnv regex p rest := by
  show none ∉ conditionalMeaning getEnv regex p conditional :: _ ↔ _
  rw [List.mem_cons, not_or, eq_comm, Option.isSome_iff_ne_none]

theorem missingInClauses_cons (conditional : NtConditional) (blocks : NtBlocks)
    (rest : NtIfClauses) :
    MissingInClauses getEnv p (.cons (some conditional) blocks rest) ↔
      MissingInConditional getEnv p conditional ∨ MissingInClauses getEnv p rest :=
  or_congr_left exists_mem_some

theorem reportsError_cons (conditional : NtConditional) (blocks : NtBlocks)
    (rest : NtIfClauses) :
    ReportsError getEnv regex p (.cons (some conditional) blocks rest) ↔
      (evaluateConditional getEnv regex p true (some conditional)).errors ≠ [] ∨
        ReportsError getEnv regex p rest := by
  unfold ReportsError
  rw [evaluateConditionals, Reporting.errors_bind, errors_bind_pure, ne_eq,
    List.append_eq_nil_iff, not_and_or, Unparsed, or_iff_right (Option.some_ne_none conditional),
    or_left_comm]

/-- No error is reported exactly when all conditions have a meaning and no name is missing. -/
theorem not_reportsError_iff : ∀ clauses : NtIfClauses, ¬ ReportsError getEnv regex p clauses ↔
    none ∉ clauseMeanings getEnv regex p clauses ∧ ¬ MissingInClauses getEnv p clauses
  | .endif => iff_of_true (fun h ↦ h.elim id fun hne ↦ hne rfl) ⟨by simp [clauseMeanings], id⟩
  | .elseclause _ =>
    iff_of_true (fun h ↦ h.elim id fun hne ↦ hne rfl) ⟨by simp [clauseMeanings], id⟩
  | .cons none _ rest =>
    iff_of_false (fun h ↦ h (Or.inl (Or.inl rfl))) fun h ↦ h.1 List.mem_cons_self
  | .cons (some conditional) blocks rest => by
    rw [reportsError_cons, none_notMem_clauseMeanings_cons, missingInClauses_cons, not_or, not_or,
      not_ne_iff, (judges_conditional conditional).errors, not_reportsError_iff rest]
    exact and_and_and_comm

theorem clauseFlags_eq (clauses : NtIfClauses) : clauseFlags getEnv regex p clauses =
    chooseClauses (clauseMeanings getEnv regex p clauses) :=
  congrArg chooseClauses (evaluateConditionals_value clauses)

theorem getElem?_firstTrue_true (values : List Bool) (i : ℕ) :
    (firstTrue true values)[i]? ≠ some true := by
  induction values generalizing i with
  | nil => exact fun h ↦ by cases h
  | cons value values ih =>
    cases i with
    | zero => exact fun h ↦ by cases h
    | succ i => exact ih i

/-- The first of some values that is true stays true. -/
theorem getElem?_firstTrue (values : List Bool) (i : ℕ) :
    (firstTrue false values)[i]? = some true ↔
      values[i]? = some true ∧ ∀ j < i, values[j]? ≠ some true := by
  induction values generalizing i with
  | nil => exact iff_of_false (fun h ↦ by cases h) fun h ↦ by cases h.1
  | cons value values ih =>
    cases i with
    | zero =>
      show some value = some true ↔ some value = some true ∧ _
      exact (and_iff_left fun j hj ↦ absurd hj (Nat.not_lt_zero j)).symm
    | succ i =>
      cases value with
      | true =>
        exact iff_of_false (getElem?_firstTrue_true values i) fun h ↦ h.2 0 (Nat.succ_pos i) rfl
      | false =>
        show (firstTrue false values)[i]? = some true ↔ values[i]? = some true ∧ _
        refine (ih i).trans (and_congr_right fun _ ↦ ⟨fun h j hj ↦ ?_, fun h j hj ↦ ?_⟩)
        · cases j with
          | zero => exact fun hfalse ↦ by cases hfalse
          | succ j => exact h j (Nat.lt_of_succ_lt_succ hj)
        · exact h (j + 1) (Nat.succ_lt_succ hj)

theorem getElem?_chooseClauses {values : List (Option Bool)} (h : none ∉ values) (i : ℕ) :
    (chooseClauses values)[i]? = some true ↔
      values[i]? = some (some true) ∧ ∀ j < i, values[j]? ≠ some (some true) := by
  have hget : ∀ j : ℕ, (values.map fun value ↦ value.getD false)[j]? = some true ↔
      values[j]? = some (some true) := by
    intro j
    rw [List.getElem?_map]
    rcases values[j]? with _ | _ | _ | _ <;> simp
  unfold chooseClauses
  rw [if_neg h, getElem?_firstTrue, hget]
  exact and_congr_right fun _ ↦ forall₂_congr fun j _ ↦ not_congr (hget j)

/-- Some clause is chosen when one of the conditions is true and none is invalid. -/
theorem exists_chooseClauses {values : List (Option Bool)} (h : none ∉ values)
    (htrue : some true ∈ values) : true ∈ chooseClauses values := by
  classical
  have hexists : ∃ i : ℕ, values[i]? = some (some true) := List.getElem?_of_mem htrue
  refine List.mem_of_getElem? ((getElem?_chooseClauses h (Nat.find hexists)).mpr ?_)
  exact ⟨Nat.find_spec hexists, fun j hj ↦ Nat.find_min hexists hj⟩

/-- An invalid condition is false, as are all the others then. -/
theorem chooseClauses_invalid {values : List (Option Bool)} (h : none ∈ values) :
    ∀ flag ∈ chooseClauses values, flag = false := by
  unfold chooseClauses
  rw [if_pos h]
  intro flag hflag
  obtain ⟨_, -, rfl⟩ := List.mem_map.mp hflag
  rfl

theorem chooseClauses_valid {values : List (Option Bool)} (h : none ∉ values) :
    (∀ flag ∈ chooseClauses values, flag = false) ↔ some true ∉ values := by
  refine ⟨fun hfalse htrue ↦ ?_, fun htrue flag hflag ↦ ?_⟩
  · exact Bool.false_ne_true (hfalse true (exists_chooseClauses h htrue)).symm
  · obtain ⟨i, hi⟩ := List.getElem?_of_mem hflag
    refine Bool.eq_false_of_not_eq_true fun heq ↦ htrue ?_
    rw [heq] at hi
    exact List.mem_of_getElem? ((getElem?_chooseClauses h i).mp hi).1

end Clauses

variable (getEnv regex p) in
/-- The clauses of an if block are decided as they should be, unless all its conditions are valid,
a name is missing in one of them, and one of them is true. -/
theorem decidesClauses_iff (canonicalizePath : String → String) (clauses : NtIfClauses) :
    (evaluateBlock getEnv regex canonicalizePath true (.ifblock clauses) p =
      evaluateClauses getEnv regex canonicalizePath clauses (clauseFlags getEnv regex p clauses)
        (p.run (evaluateConditionals getEnv regex p true clauses)).2) ∧
    ((∀ flag ∈ clauseFlags getEnv regex p clauses, flag = false) →
      ∃ p', evaluateBlock getEnv regex canonicalizePath true (.ifblock clauses) p = some p' ∧
        ReportsOnly p p') ∧
    (DecidesClauses getEnv regex p clauses ↔
      none ∈ clauseMeanings getEnv regex p clauses ∨ ¬ MissingInClauses getEnv p clauses ∨
        some true ∉ clauseMeanings getEnv regex p clauses) := by
  refine ⟨rfl, fun hflags ↦ ?_, ?_⟩
  · obtain ⟨p', hclauses, hreports⟩ := evaluateClauses_false clauses _ hflags
      (p.run (evaluateConditionals getEnv regex p true clauses)).2
    exact ⟨p', hclauses, (reportsOnly_run p _).trans hreports⟩
  · have hreports : ¬ ReportsError getEnv regex p clauses ↔ _ := not_reportsError_iff clauses
    by_cases hnone : none ∈ clauseMeanings getEnv regex p clauses
    · refine iff_of_true ⟨fun _ ↦ ?_, fun h ↦ absurd hnone (hreports.mp h).1⟩ (Or.inl hnone)
      rw [clauseFlags_eq]
      exact chooseClauses_invalid hnone
    · have hfirst : ∀ i : ℕ, _ := getElem?_chooseClauses hnone
      have hfalse := chooseClauses_valid hnone
      rw [← clauseFlags_eq] at hfirst hfalse
      rw [or_iff_right hnone, ← hfalse]
      refine ⟨fun h ↦ ?_, fun h ↦ ⟨fun herror ↦ ?_, fun _ ↦ hfirst⟩⟩
      · exact or_iff_not_imp_left.mpr fun hmissing ↦
          h.error (not_not.mp fun hreport ↦ hmissing (hreports.mp hreport).2)
      · exact h.resolve_left fun hmissing ↦ hreports.mpr ⟨hnone, hmissing⟩ herror

/-- `if ($(X)) else target-type java endif`. -/
def unknownCondition : NtIfClauses :=
  .cons (some (.variable ⟨"$(X)", .empty⟩)) .nil
    (.elseclause (.cons (.targetType ⟨⟨"java", .empty⟩, by decide⟩) .nil))

def noVariables : InterfaceParser where
  interface := ⟨"A", "indep", ∅, "", .platformIndependent⟩
  afterBuilds := []
  protectedFromReset := ∅
  allowAfterBuild := true
  supportedFlags := ∅
  parameters := ∅
  errors := []

/-- The else clause takes effect after an error in the condition. -/
theorem unknownCondition_takes_effect :
    ReportsError (fun _ ↦ none) (fun _ ↦ none) noVariables unknownCondition ∧
      ¬ DecidesClauses (fun _ ↦ none) (fun _ ↦ none) noVariables unknownCondition ∧
      (evaluateBlock (fun _ ↦ none) (fun _ ↦ none) id true (.ifblock unknownCondition)
        noVariables).map (·.interface.targetType) = some .java := by
  have hreport : ReportsError (fun _ ↦ none) (fun _ ↦ none) noVariables unknownCondition := by
    refine Or.inr fun hnil ↦ ?_
    exact absurd (congrArg List.length hnil) (by decide)
  refine ⟨hreport, fun h ↦ ?_, by decide⟩
  exact absurd (h.error hreport true) (by decide)

end Abuild.InterfaceParser
