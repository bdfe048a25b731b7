import Abuild.Interface
import Abuild.Library.Reporting

/-!
The evaluation of the interface language, from `InterfaceParser.cc`: conditions, which are
function calls over words and variables, and the blocks of a file, of which those in the clauses
of an if block that is not taken are only checked. The environment, the regular expressions and
the canonical form of a path are parameters. A check returns what it found together with the
errors it reported; a block is evaluated on the state of the parser, and there is no state after
an assertion that fails.
-/

set_option autoImplicit false
set_option relaxedAutoImplicit false

namespace Abuild

open Std (TreeMap TreeSet)

/-! ### The parse tree -/

structure Token where
  value : String
  location : FileLocation
deriving DecidableEq, Repr

inductive WordType
  | string
  | variable
  | environment
  | parameter
deriving DecidableEq, Repr

structure NtWord where
  tokens : List (Token × WordType)

/-- A word is where its first token is. -/
def NtWord.location (word : NtWord) : FileLocation :=
  match word.tokens with
  | [] => .empty
  | (token, _) :: _ => token.location

structure NtWords where
  location : FileLocation
  words : List NtWord

mutual

inductive NtFunction
  | mk (function : Token) (arguments : NtArguments)

inductive NtArgument
  | function (function : NtFunction)
  | words (words : NtWords)

inductive NtArguments
  | nil
  | cons (argument : NtArgument) (rest : NtArguments)

end

def NtFunction.location : NtFunction → FileLocation
  | .mk token _ => token.location

def NtArgument.location : NtArgument → FileLocation
  | .function f => f.location
  | .words ws => ws.location

def NtArguments.size : NtArguments → ℕ
  | .nil => 0
  | .cons _ rest => rest.size + 1

inductive NtConditional
  | variable (token : Token)
  | function (function : NtFunction)

/-- Without an identifier all variables are reset. -/
structure NtReset where
  location : FileLocation
  identifier : String
  negate : Bool
  named : negate = true → identifier.isEmpty = false

structure NtAssignment where
  location : FileLocation
  identifier : String
  flag : Option Token
  words : NtWords
  assignmentType : Interface.AssignType

structure NtDeclaration where
  location : FileLocation
  variableName : String
  scope : Interface.Scope
  type : Interface.VariableType
  listType : Interface.ListType
  initializer : Option NtWords

structure NtAfterBuild where
  argument : NtWord

/-- The token is an identifier or a variable. -/
structure NtTargetType where
  token : Token
  nonempty : token.value.isEmpty = false

mutual

inductive NtBlock
  | ifblock (clauses : NtIfClauses)
  | reset (reset : NtReset)
  | assignment (assignment : NtAssignment)
  | declaration (declaration : NtDeclaration)
  | afterBuild (afterBuild : NtAfterBuild)
  | targetType (targetType : NtTargetType)

/-- The clauses of an if block. An `if` or `elseif` has no condition when the parser could not
parse it; an else clause comes last. -/
inductive NtIfClauses
  | endif
  | elseclause (blocks : NtBlocks)
  | cons (conditional : Option NtConditional) (blocks : NtBlocks) (rest : NtIfClauses)

inductive NtBlocks
  | nil
  | cons (block : NtBlock) (rest : NtBlocks)

end

/-! ### The parser -/

structure InterfaceParser where
  interface : Interface
  afterBuilds : List String
  protectedFromReset : TreeSet String
  allowAfterBuild : Bool
  supportedFlags : TreeSet String
  parameters : TreeMap String String
  errors : List ErrorMessage

namespace InterfaceParser

abbrev Check := Reporting ErrorMessage

def error (location : FileLocation) (message : String) : Check Unit :=
  .report (location, message)

/-! ### Tokens

The tokens of the lexer are certain to match the expressions of the source. -/

/-- The name in `$(name)`. -/
def getVariableName (token : Token) : String :=
  String.ofList (token.value.toList.drop 2).dropLast

/-- The name before the parenthesis that opens the arguments. -/
def getFunctionName (token : Token) : String :=
  String.ofList (token.value.toList.takeWhile fun c ↦ c ≠ ' ' ∧ c ≠ '\t' ∧ c ≠ '(')

/-- The name, and the default when there is one, in `$(ENV:name:default)`. -/
def getFirstAndSecondMatch (opening : String) (token : Token) : String × Option String :=
  let text := (token.value.toList.drop opening.length).dropLast
  (String.ofList (text.takeWhile (· ≠ ':')),
    match text.dropWhile (· ≠ ':') with
    | [] => none
    | _ :: dfault => some (String.ofList dfault))

/-- A character that is quoted stands for itself. -/
def evaluateToken (token : Token) : String :=
  match token.value.toList with
  | ['\\', c] => String.ofList [c]
  | _ => token.value

/-! ### Functions -/

inductive FunctionName
  | and
  | or
  | not
  | equals
  | matches
  | contains
  | containsmatch
deriving DecidableEq, Repr

def functionEvaluators : String → Option FunctionName
  | "and" => some .and
  | "or" => some .or
  | "not" => some .not
  | "equals" => some .equals
  | "matches" => some .matches
  | "contains" => some .contains
  | "containsmatch" => some .containsmatch
  | _ => none

def functionNumArguments : FunctionName → ℕ
  | .and => 2
  | .or => 2
  | .not => 1
  | .equals => 2
  | .matches => 2
  | .contains => 2
  | .containsmatch => 2

section Evaluate

variable (getEnv : String → Option String) (regex : String → Option (String → Bool))
  (canonicalizePath : String → String)

section Conditions

variable (p : InterfaceParser)

/-! ### Variables and words -/

/-- The variable, when it is known and initialized. -/
def withVariable (token : Token) : Check (Option Interface.VariableInfo) :=
  let variableName := getVariableName token
  match p.interface.getVariable variableName .empty with
  | none => do
    error token.location ("unknown variable " ++ variableName)
    pure none
  | some info =>
    if info.initialized then pure (some info)
    else do
      error token.location ("variable " ++ variableName ++ " is not initialized")
      pure none

def evaluateEnvironment (token : Token) : Check String :=
  let (name, dfault) := getFirstAndSecondMatch "$(ENV:" token
  match getEnv name, dfault with
  | some value, _ => pure value
  | none, some dfault => pure dfault
  | none, none => do
    error token.location ("unknown environment variable " ++ name)
    pure ""

def evaluateParameter (token : Token) : Check String :=
  let (parameter, dfault) := getFirstAndSecondMatch "$(PARAM:" token
  match p.parameters[parameter]?, dfault with
  | some value, _ => pure value
  | none, some dfault => pure dfault
  | none, none => do
    error token.location ("unknown parameter " ++ parameter)
    pure ""

/-- The last word of the result with some text added. -/
def appendBack (result : List String) (text : String) : List String :=
  result.dropLast ++ [result.getLastD "" ++ text]

/-- The first word of the value goes on the current word. -/
def appendVariableValue (result : List String) (info : Interface.VariableInfo) : List String :=
  match info.value with
  | [] => result
  | word :: words => appendBack result word ++ words

def evaluateWordToken (result : List String) : Token × WordType → Check (List String)
  | (token, .variable) => do
    let info ← withVariable p token
    pure (info.elim result (appendVariableValue result))
  | (token, .environment) => do
    let text ← evaluateEnvironment getEnv token
    pure (appendBack result text)
  | (token, .parameter) => do
    let text ← evaluateParameter p token
    pure (appendBack result text)
  | (token, .string) => pure (appendBack result (evaluateToken token))

def evaluateWord (result : List String) (word : NtWord) : Check (List String) :=
  word.tokens.foldlM (evaluateWordToken getEnv p) (result ++ [""])

def evaluateWords (words : NtWords) : Check (List String) :=
  words.words.foldlM (evaluateWord getEnv p) []

/-! ### Arguments -/

/-- The value of a boolean scalar. Booleans are stored as `0` and `1`. -/
def checkBooleanVariable (token : Token) (info : Interface.VariableInfo) : Check (Option Bool) :=
  if info.listType = .scalar ∧ info.type = .boolean then
    pure (some (info.value.headD "" = "1"))
  else do
    error token.location ("variable " ++ getVariableName token ++ " is not a boolean scalar")
    pure none

/-- The value of a condition, or nothing when it is not valid. -/
def evaluateBooleanVariable (evaluating : Bool) (token : Token) : Check (Option Bool) :=
  if evaluating then do
    let info ← withVariable p token
    info.elim (pure (some false)) (checkBooleanVariable token)
  else pure (some false)

def checkStringOrFilenameVariable (string : Bool) (token : Token) (info : Interface.VariableInfo) :
    Check (Option String) :=
  if info.listType = .scalar ∧ info.type = (if string then .string else .filename) then
    pure (some (info.value.headD ""))
  else do
    error token.location ("variable " ++ getVariableName token ++ " is not a " ++
      (if string then "string" else "filename") ++ " scalar")
    pure none

/-- The text of a token in an argument, when it is valid. -/
def checkArgumentToken (string : Bool) : Token × WordType → Check (Option String)
  | (token, .variable) => do
    let info ← withVariable p token
    info.elim (pure none) (checkStringOrFilenameVariable string token)
  | (token, .environment) => do
    let text ← evaluateEnvironment getEnv token
    pure (some text)
  | (token, .parameter) => do
    let text ← evaluateParameter p token
    pure (some text)
  | (token, .string) => pure (some (evaluateToken token))

/-- The text of a word, when all its tokens are valid. -/
def checkArgumentTokens (string : Bool) : List (Token × WordType) → Check (Option String)
  | [] => pure (some "")
  | token :: tokens => do
    let text ← checkArgumentToken getEnv p string token
    let texts ← checkArgumentTokens string tokens
    pure (Option.map₂ (· ++ ·) text texts)

/-- The variable, of words that are a single variable. -/
def singleVariable : NtWords → Option Token
  | ⟨_, [⟨[(token, .variable)]⟩]⟩ => some token
  | _ => none

/-- The word of an argument that is a single word. -/
def singleWord : NtArgument → Option NtWord
  | .words ⟨_, [word]⟩ => some word
  | _ => none

/-- An argument that is not valid is an error of its own. -/
def requireArgument (string : Bool) (argument : NtArgument) :
    Option String → Check (Option String)
  | some value => pure (some value)
  | none => do
    error argument.location ("this argument must be a " ++
      (if string then "string" else "filename"))
    pure none

def checkStringOrFilenameArgument (string : Bool) (argument : NtArgument) :
    Check (Option String) := do
  let value ← (singleWord argument).elim (pure none) fun word ↦
    checkArgumentTokens getEnv p string word.tokens
  requireArgument string argument value

def checkStringArgument : NtArgument → Check (Option String) :=
  checkStringOrFilenameArgument getEnv p true

def checkFilenameArgument : NtArgument → Check (Option String) :=
  checkStringOrFilenameArgument getEnv p false

/-- Whether one of some words matches an expression, when it is an expression. -/
def containsMatch (location : FileLocation) (words : List String) (expression : String) :
    Check (Option Bool) :=
  match regex expression with
  | some isMatch => pure (some (words.any isMatch))
  | none => do
    error location ("invalid regular expression " ++ expression)
    pure none

/-! ### Conditions -/

/-- Two arguments, both of which are checked even if the first one is not valid. -/
def checkBoth {α β : Type} (arg1 : Check (Option α)) (arg2 : Check (Option β)) :
    Check (Option (α × β)) := do
  let value1 ← arg1
  let value2 ← arg2
  pure (Option.map₂ Prod.mk value1 value2)

def evaluateFunctionAnd (arg1 arg2 : Check (Option Bool)) : Check (Option Bool) := do
  let values ← checkBoth arg1 arg2
  pure (values.map fun (value1, value2) ↦ value1 && value2)

def evaluateFunctionOr (arg1 arg2 : Check (Option Bool)) : Check (Option Bool) := do
  let values ← checkBoth arg1 arg2
  pure (values.map fun (value1, value2) ↦ value1 || value2)

def evaluateFunctionNot (arg : Check (Option Bool)) : Check (Option Bool) := do
  let value ← arg
  pure (value.map (!·))

def evaluateFunctionEquals (arg1 arg2 : NtArgument) : Check (Option Bool) := do
  let values ← checkBoth (checkStringArgument getEnv p arg1) (checkStringArgument getEnv p arg2)
  pure (values.map fun (value1, value2) ↦ decide (value1 = value2))

def evaluateFunctionMatches (arg1 arg2 : NtArgument) : Check (Option Bool) := do
  let values ← checkBoth (checkStringArgument getEnv p arg1) (checkStringArgument getEnv p arg2)
  values.elim (pure none) fun (str, expression) ↦
    containsMatch regex arg2.location [str] expression

/-- The words of a list are searched even if there are errors in evaluating them. -/
def searchWords (search : List String → String → Check (Option Bool))
    (arg1 : Check (Option NtWords)) (arg2 : NtArgument) : Check (Option Bool) := do
  let values ← checkBoth arg1 (checkStringArgument getEnv p arg2)
  values.elim (pure none) fun (list, str) ↦ do
    let words ← evaluateWords getEnv p list
    search words str

def evaluateFunctionContains (arg1 : Check (Option NtWords)) (arg2 : NtArgument) :
    Check (Option Bool) :=
  searchWords getEnv p (fun words str ↦ pure (some (words.any (str = ·)))) arg1 arg2

def evaluateFunctionContainsmatch (arg1 : Check (Option NtWords)) (arg2 : NtArgument) :
    Check (Option Bool) :=
  searchWords getEnv p (containsMatch regex arg2.location) arg1 arg2

mutual

/-- When not evaluating, only the name of a function and the number of its arguments are
checked, and those of the functions in its arguments. -/
def evaluateFunction (evaluating : Bool) : NtFunction → Check (Option Bool)
  | .mk function arguments =>
    match functionEvaluators (getFunctionName function) with
    | some name =>
      if arguments.size = functionNumArguments name then
        if evaluating then callFunction name arguments
        else do
          let valid ← checkNestedFunctions arguments
          pure (if valid then some false else none)
      else do
        error function.location ("function \"" ++ getFunctionName function ++ "\" takes " ++
          toString (functionNumArguments name) ++ " argument" ++
          (if functionNumArguments name = 1 then "" else "s"))
        let _ ← checkNestedFunctions arguments
        pure none
    | none => do
      error function.location ("unknown function " ++ getFunctionName function)
      let _ ← checkNestedFunctions arguments
      pure none

/-- The evaluators of the functions, which have the right number of arguments. -/
def callFunction : FunctionName → NtArguments → Check (Option Bool)
  | .and, .cons arg1 (.cons arg2 _) =>
    evaluateFunctionAnd (checkBooleanArgument arg1) (checkBooleanArgument arg2)
  | .or, .cons arg1 (.cons arg2 _) =>
    evaluateFunctionOr (checkBooleanArgument arg1) (checkBooleanArgument arg2)
  | .not, .cons arg _ => evaluateFunctionNot (checkBooleanArgument arg)
  | .equals, .cons arg1 (.cons arg2 _) => evaluateFunctionEquals getEnv p arg1 arg2
  | .matches, .cons arg1 (.cons arg2 _) => evaluateFunctionMatches getEnv regex p arg1 arg2
  | .contains, .cons arg1 (.cons arg2 _) =>
    evaluateFunctionContains getEnv p (checkWordsArgument arg1) arg2
  | .containsmatch, .cons arg1 (.cons arg2 _) =>
    evaluateFunctionContainsmatch getEnv regex p (checkWordsArgument arg1) arg2
  | _, _ => pure none

/-- A boolean argument is a boolean variable or a function call. -/
def checkBooleanArgument : NtArgument → Check (Option Bool)
  | .function function => evaluateFunction true function
  | .words words =>
    match singleVariable words with
    | some token => evaluateBooleanVariable p true token
    | none => do
      error words.location "this argument must be a function call or a boolean variable"
      pure none

def checkWordsArgument : NtArgument → Check (Option NtWords)
  | .words words => pure (some words)
  | .function function => do
    error function.location "this argument may not be a function"
    let _ ← evaluateFunction true function
    pure none

def checkNestedFunctions : NtArguments → Check Bool
  | .nil => pure true
  | .cons (.function function) rest => do
    let value ← evaluateFunction false function
    let valid ← checkNestedFunctions rest
    pure (value.isSome && valid)
  | .cons (.words _) rest => checkNestedFunctions rest

end

def evaluateBooleanOrFunction (evaluating : Bool) : NtConditional → Check (Option Bool)
  | .variable token => evaluateBooleanVariable p evaluating token
  | .function function => evaluateFunction getEnv regex p evaluating function

/-- The condition of an else clause, which has none, is true. Whatever is found, a condition is
false when not evaluating. -/
def evaluateConditional (evaluating : Bool) : Option NtConditional → Check (Option Bool)
  | none => pure (some evaluating)
  | some conditional => do
    let value ← evaluateBooleanOrFunction getEnv regex p evaluating conditional
    pure (value.map (evaluating && ·))

/-- The conditions of the clauses, each with its value when it is valid. -/
def evaluateConditionals (evaluating : Bool) : NtIfClauses → Check (List (Option Bool))
  | .endif => pure []
  | .elseclause _ => do
    let value ← evaluateConditional getEnv regex p evaluating none
    pure [value]
  | .cons none _ rest => do
    let values ← evaluateConditionals evaluating rest
    pure (none :: values)
  | .cons (some conditional) _ rest => do
    let value ← evaluateConditional getEnv regex p evaluating (some conditional)
    let values ← evaluateConditionals evaluating rest
    pure (value :: values)

end Conditions

/-- All but the first true condition are set to false. -/
def firstTrue : Bool → List Bool → List Bool
  | _, [] => []
  | anyTrue, value :: values => (!anyTrue && value) :: firstTrue (anyTrue || value) values

/-- Which clauses are evaluated: none if any of the conditions are not valid. -/
def chooseClauses (values : List (Option Bool)) : List Bool :=
  if none ∈ values then values.map fun _ ↦ false
  else firstTrue false (values.map fun value ↦ value.getD false)

/-! ### Blocks -/

/-- The result of a check, and the state in which its errors have been reported. -/
def run {α : Type} (p : InterfaceParser) (check : Check α) : α × InterfaceParser :=
  (check.value, { p with errors := p.errors ++ check.errors })

/-- The state after a call on the interface. -/
def leave (p : InterfaceParser) (outcome : Interface.Outcome) : InterfaceParser :=
  { p with interface := outcome.interface, errors := p.errors ++ outcome.errors }

def resetVariables (location : FileLocation) (p : InterfaceParser) (toReset : List String) :
    InterfaceParser :=
  toReset.foldl (fun p name ↦
    if p.protectedFromReset.contains name then p
    else p.leave (p.interface.resetVariable location name)) p

def evaluateReset (reset : NtReset) (evaluating : Bool) (p : InterfaceParser) :
    Option InterfaceParser :=
  if evaluating then
    if reset.negate then
      if reset.identifier.isEmpty then none
      else if (p.interface.getVariable reset.identifier .empty).isSome then
        some { p with protectedFromReset := p.protectedFromReset.insert reset.identifier }
      else
        some (p.run (error reset.location ("unknown variable " ++ reset.identifier))).2
    else
      let toReset :=
        if reset.identifier.isEmpty then p.interface.symbolTable.keys else [reset.identifier]
      some { resetVariables reset.location p toReset with protectedFromReset := ∅ }
  else some p

/-- The flag of an assignment is checked whether or not we are evaluating. -/
def checkFlag (p : InterfaceParser) (flag : Option Token) : Check String :=
  match flag with
  | none => pure ""
  | some token =>
    if p.supportedFlags.contains token.value then pure token.value
    else do
      error token.location ("flag " ++ token.value ++ " is not supported by this build item")
      pure token.value

def evaluateAssignment (assignment : NtAssignment) (evaluating : Bool) (p : InterfaceParser) :
    Option InterfaceParser := do
  let (flag, p) := p.run (checkFlag p assignment.flag)
  if evaluating then
    let (value, p) := p.run (evaluateWords getEnv p assignment.words)
    let outcome ← p.interface.assignVariable canonicalizePath assignment.location
      assignment.identifier value assignment.assignmentType flag
    some (p.leave outcome)
  else some p

def evaluateDeclaration (declaration : NtDeclaration) (evaluating : Bool) (p : InterfaceParser) :
    Option InterfaceParser :=
  if evaluating then do
    let p := p.leave (p.interface.declareVariable declaration.location declaration.variableName
      declaration.scope declaration.type declaration.listType)
    match declaration.initializer with
    | none => some p
    | some words => do
      let (value, p) := p.run (evaluateWords getEnv p words)
      let outcome ← p.interface.assignVariable canonicalizePath words.location
        declaration.variableName value .normal ""
      some (p.leave outcome)
  else some p

def evaluateAfterBuild (afterBuild : NtAfterBuild) (evaluating : Bool) (p : InterfaceParser) :
    Option InterfaceParser := do
  let word := afterBuild.argument
  let p :=
    if p.allowAfterBuild then p
    else (p.run (error word.location
      "after-build files are not permitted in this interface file")).2
  if evaluating then
    let (filename, p) := p.run
      (checkFilenameArgument getEnv p (.words ⟨word.location, [word]⟩))
    match filename with
    | none => some p
    | some filename => do
      let filename ← p.interface.normalizeFilename canonicalizePath filename
      some { p with afterBuilds := p.afterBuilds ++ [filename] }
  else some p

/-- Whether to check the value of a target-type statement, and the value. A variable that is not
known leaves the token as it is. -/
def targetTypeValue (p : InterfaceParser) (token : Token) (evaluating : Bool) :
    Check (Bool × String) :=
  if token.value.toList.head? = some '$' then
    if evaluating then do
      let info ← withVariable p token
      match info with
      | none => pure (true, token.value)
      | some info => do
        let value ← checkStringOrFilenameVariable true token info
        pure (value.elim (false, token.value) ((true, ·)))
    else pure (false, token.value)
  else pure (true, token.value)

def evaluateTargetType (targetType : NtTargetType) (evaluating : Bool) (p : InterfaceParser) :
    Option InterfaceParser := do
  let token := targetType.token
  if token.value.isEmpty then none
  else
    let ((check, value), p) := p.run (targetTypeValue p token evaluating)
    if check ∧ ¬ TargetType.isValid value then
      let value := if value.isEmpty then "the empty string" else value
      some (p.run (error token.location (value ++ " is not a valid target type"))).2
    else if evaluating then do
      let id ← TargetType.getID value
      some { p with interface := p.interface.setTargetType id }
    else some p

mutual

def evaluateBlock (evaluating : Bool) : NtBlock → InterfaceParser → Option InterfaceParser
  | .ifblock clauses, p =>
    let (values, p) := p.run (evaluateConditionals getEnv regex p evaluating clauses)
    evaluateClauses clauses (chooseClauses values) p
  | .reset reset, p => evaluateReset reset evaluating p
  | .assignment assignment, p =>
    evaluateAssignment getEnv canonicalizePath assignment evaluating p
  | .declaration declaration, p =>
    evaluateDeclaration getEnv canonicalizePath declaration evaluating p
  | .afterBuild afterBuild, p =>
    evaluateAfterBuild getEnv canonicalizePath afterBuild evaluating p
  | .targetType targetType, p => evaluateTargetType targetType evaluating p

/-- The clauses of an if block, each with whether it is evaluated. -/
def evaluateClauses : NtIfClauses → List Bool → InterfaceParser → Option InterfaceParser
  | .endif, _, p => some p
  | .elseclause blocks, flags, p => evaluateBlocks (flags.headD false) blocks p
  | .cons _ blocks rest, flags, p => do
    let p ← evaluateBlocks (flags.headD false) blocks p
    evaluateClauses rest flags.tail p

def evaluateBlocks (evaluating : Bool) : NtBlocks → InterfaceParser → Option InterfaceParser
  | .nil, p => some p
  | .cons block rest, p => do
    let p ← evaluateBlock evaluating block p
    evaluateBlocks evaluating rest p

end

/-- The blocks of a whole file. -/
def evaluateParseTree (parseTree : NtBlocks) : InterfaceParser → Option InterfaceParser :=
  evaluateBlocks getEnv regex canonicalizePath true parseTree

end Evaluate

end InterfaceParser

end Abuild
