import Abuild.Library.Fallible
import Abuild.Interface.LinkOrder

/-!
Networks of interfaces. The interfaces of a network are called on and import each
other in any order, and every call succeeds. A call is one move on one interface; what
an interface imports from another one is a list of moves, which declare, reset and
assign the variables of the other one again (`succeeded_importInterface`). What a move
does is said once (`Changes`), and what holds in a network is told from it.
-/

set_option autoImplicit false
set_option relaxedAutoImplicit false

namespace Abuild.Interface

open Std (TreeMap TreeSet)

/-! ### Moves -/

/-- A call on an interface, with everything that it depends on. -/
inductive Move
  | setLocalDirectory (localDir : String)
  | setTargetType (targetType : TargetType)
  | declare (location : FileLocation) (targetType : TargetType) (name : String) (scope : Scope)
      (type : VariableType) (listType : ListType)
  | reset (location : FileLocation) (name itemName itemPlatform : String) (clear : Bool)
  | assign (location : FileLocation) (name : String) (values : List String)
      (assignmentType : AssignType) (flag itemName itemPlatform : String)
deriving DecidableEq, Repr

section Moves

variable (canonicalizePath : String → String)

def Move.call (move : Move) (i : Interface) : Option Outcome :=
  match move with
  | .setLocalDirectory localDir => (i.setLocalDirectory localDir).map fun i ↦ ⟨true, i, []⟩
  | .setTargetType targetType => some ⟨true, i.setTargetType targetType, []⟩
  | .declare location targetType name scope type listType =>
    some (i.declareVariableAs location targetType name scope type listType)
  | .reset location name itemName itemPlatform clear =>
    some (i.resetVariableAs location name itemName itemPlatform clear)
  | .assign location name values assignmentType flag itemName itemPlatform =>
    i.assignVariableAs canonicalizePath location name values assignmentType flag itemName
      itemPlatform

/-- The interface that a call leaves when it succeeds. -/
def succeeded (o : Option Outcome) : Option Interface :=
  o.bind fun o ↦ if o.status then some o.interface else none

def Move.succeed (move : Move) (i : Interface) : Option Interface :=
  succeeded (move.call canonicalizePath i)

def runMoves (moves : List Move) (i : Interface) : Option Interface :=
  moves.foldlM (fun i move ↦ move.succeed canonicalizePath i) i

/-- The move that a call on an interface makes. -/
def Statement.move (statement : Statement) (i : Interface) : Move :=
  match statement with
  | .setLocalDirectory localDir => .setLocalDirectory localDir
  | .setTargetType targetType => .setTargetType targetType
  | .declare location name scope type listType =>
    .declare location i.targetType name scope type listType
  | .reset location name => .reset location name i.itemName i.itemPlatform true
  | .assign location name values assignmentType flag =>
    .assign location name values assignmentType flag i.itemName i.itemPlatform

theorem Statement.call_eq (statement : Statement) (i : Interface) :
    statement.call canonicalizePath i = (statement.move i).call canonicalizePath i := by
  cases statement <;> rfl

def variableMoves (otherName : String) (var : Variable) : List Move :=
  if var.scope = .local then []
  else
    .declare var.declareLocation var.targetType var.name var.scope var.type var.listType ::
      (var.resetHistory.map fun reset ↦
        .reset reset.location var.name reset.itemName reset.itemPlatform false) ++
      (importedAssignments otherName var).map fun a ↦
        .assign a.location var.name a.value a.assignmentType a.flag a.itemName a.itemPlatform

/-- The moves of an import of an interface. -/
def importMoves (other : Interface) : List Move :=
  other.symbolTable.toList.flatMap fun (_, var) ↦ variableMoves other.itemName var

theorem succeeded_foldlM {β : Type} (f : β → Interface → Option Outcome) (items : List β)
    (o : Outcome) : succeeded (items.foldlM (fun o b ↦ o.andThen (f b)) o) =
      if o.status then items.foldlM (fun i b ↦ succeeded (f b i)) o.interface else none := by
  induction items generalizing o with
  | nil => rfl
  | cons b items ih =>
    rw [List.foldlM_cons, List.foldlM_cons]
    cases hb : f b o.interface with
    | none => simp [Outcome.andThen, succeeded, hb]
    | some o' =>
      have hthen : o.andThen (f b) = some ⟨o.status && o'.status, o'.interface,
          o.errors ++ o'.errors⟩ := by simp [Outcome.andThen, hb]
      have hsucceeded : succeeded (some o') = if o'.status then some o'.interface else none := rfl
      rw [hthen, Option.bind_eq_bind, Option.bind_some, ih, hsucceeded]
      cases o.status
      · rfl
      · cases o'.status <;> rfl

theorem succeeded_bind_foldlM {β : Type} (f : β → Interface → Option Outcome) (items : List β)
    (x : Option Outcome) : succeeded (x.bind (items.foldlM (fun o b ↦ o.andThen (f b)))) =
      (succeeded x).bind (items.foldlM fun i b ↦ succeeded (f b i)) := by
  cases x with
  | none => rfl
  | some o =>
    have hsucceeded : succeeded (some o) = if o.status then some o.interface else none := rfl
    rw [Option.bind_some, succeeded_foldlM, hsucceeded]
    cases o.status <;> rfl

theorem succeeded_importVariable (otherName : String) (var : Variable) (i : Interface) :
    succeeded (importVariable canonicalizePath otherName var i) =
      runMoves canonicalizePath (variableMoves otherName var) i := by
  unfold importVariable variableMoves
  by_cases hscope : var.scope = .local
  · rw [if_pos hscope, if_pos hscope]
    rfl
  · rw [if_neg hscope, if_neg hscope]
    simp only [runMoves, List.cons_append, List.foldlM_cons, List.foldlM_append, List.foldlM_map]
    unfold Move.succeed Move.call
    have hdeclared : ∀ o : Outcome, succeeded (some o) =
        if o.status then some o.interface else none := fun _ ↦ rfl
    by_cases hstatus : (i.declareVariableAs var.declareLocation var.targetType var.name var.scope
        var.type var.listType).status
    · rw [if_pos hstatus, hdeclared, if_pos hstatus, Option.bind_eq_bind]
      rw [succeeded_bind_foldlM, succeeded_foldlM, if_pos hstatus]
      rfl
    · rw [if_neg hstatus, hdeclared, if_neg hstatus]
      rfl

/-- An import succeeds where its moves do, and leaves what they leave. -/
theorem succeeded_importInterface (i other : Interface) :
    succeeded (importInterface canonicalizePath i other) =
      runMoves canonicalizePath (importMoves other) i := by
  unfold importInterface
  rw [succeeded_foldlM (fun (p : String × Variable) i ↦
    importVariable canonicalizePath other.itemName p.2 i) _ ⟨true, i, []⟩, if_pos rfl]
  unfold importMoves runMoves
  generalize other.symbolTable.toList = table
  induction table generalizing i with
  | nil => rfl
  | cons p table ih =>
    rw [List.foldlM_cons, List.flatMap_cons, List.foldlM_append, succeeded_importVariable]
    exact bind_congr fun j ↦ ih j

/-! ### What a move does -/

/-- The interface with another variable of a name. -/
def setVariable (i : Interface) (name : String) (var : Variable) : Interface :=
  { i with symbolTable := i.symbolTable.insert name var }

/-- The values of an assignment; an empty one to a scalar is an empty word. -/
def assignedWords (var : Variable) (values : List String) : List String :=
  if var.listType = .scalar ∧ values = [] then [""] else values

def findAssignment (var : Variable) (location : FileLocation) (itemPlatform : String) :
    Option Assignment :=
  var.assignmentHistory.find? fun a ↦ a.location = location ∧ a.itemPlatform = itemPlatform

def recordReset (var : Variable) (reset : Reset) (clear : Bool) : Variable :=
  { var with
    resetHistory :=
      if reset ∈ var.resetHistory then var.resetHistory else var.resetHistory ++ [reset]
    assignmentHistory := if clear then [] else var.assignmentHistory }

/-- A move on an interface that succeeds, and the interface that it leaves. -/
inductive Changes (i : Interface) : Move → Interface → Prop
  | setLocalDirectory (localDir : String) (habsolute : Util.isAbsolutePath localDir = true) :
    Changes i (.setLocalDirectory localDir)
      { i with localDirectory := Util.normalizePathSeparators localDir }
  | setTargetType (targetType : TargetType) :
    Changes i (.setTargetType targetType) { i with targetType }
  | redeclared (targetType : TargetType) (name : String) (scope : Scope) (type : VariableType)
      (listType : ListType) (var : Variable) (hvar : i.symbolTable[name]? = some var) :
    Changes i (.declare var.declareLocation targetType name scope type listType) i
  | declared (location : FileLocation) (targetType : TargetType) (name : String) (scope : Scope)
      (type : VariableType) (listType : ListType) (hnone : i.symbolTable[name]? = none) :
    Changes i (.declare location targetType name scope type listType)
      (i.setVariable name ⟨name, location, targetType, scope, type, listType, [], []⟩)
  | reset (location : FileLocation) (name itemName itemPlatform : String) (clear : Bool)
      (var : Variable) (hvar : i.symbolTable[name]? = some var) :
    Changes i (.reset location name itemName itemPlatform clear)
      (i.setVariable name (recordReset var ⟨location, itemName, itemPlatform⟩ clear))
  | repeated (location : FileLocation) (name : String) (values : List String)
      (assignmentType : AssignType) (flag itemName itemPlatform : String) (var : Variable)
      (old : Assignment) (errors : List ErrorMessage) (hvar : i.symbolTable[name]? = some var)
      (hold : findAssignment var location itemPlatform = some old)
      (hvalue : i.checkValues canonicalizePath location var (assignedWords var values) =
        some (old.value, errors)) :
    Changes i (.assign location name values assignmentType flag itemName itemPlatform) i
  | recorded (location : FileLocation) (name : String) (values : List String)
      (assignmentType : AssignType) (flag itemName itemPlatform : String) (var : Variable)
      (stored : List String) (hvar : i.symbolTable[name]? = some var)
      (hnew : findAssignment var location itemPlatform = none)
      (hvalue : i.checkValues canonicalizePath location var (assignedWords var values) =
        some (stored, []))
      (hword : var.listType = .scalar → (assignedWords var values).length = 1)
      (hcheck : checkAssignment var
        ⟨location, assignmentType, flag, itemName, itemPlatform, stored⟩ = []) :
    Changes i (.assign location name values assignmentType flag itemName itemPlatform)
      (i.setVariable name
        (record var ⟨location, assignmentType, flag, itemName, itemPlatform, stored⟩))

theorem succeeded_eq_some {o : Option Outcome} {j : Interface} :
    succeeded o = some j ↔ ∃ o', o = some o' ∧ o'.status = true ∧ o'.interface = j := by
  unfold succeeded
  constructor
  · intro h
    obtain ⟨o', ho', h⟩ := Option.bind_eq_some_iff.mp h
    split_ifs at h with hstatus
    exact ⟨o', ho', hstatus, Option.some_inj.mp h⟩
  · rintro ⟨o', rfl, hstatus, rfl⟩
    rw [Option.bind_some, if_pos hstatus]

def multiwordErrors (var : Variable) (location : FileLocation) (name : String)
    (values : List String) : List ErrorMessage :=
  if var.listType = .scalar ∧ (assignedWords var values).length ≠ 1 then
    [(location, "multiple words may not be assigned to scalar variable " ++ name)]
  else []

/-- An assignment to a variable that is known. -/
theorem assignVariableAs_eq {i : Interface} {location : FileLocation} {name : String}
    {values : List String} {assignmentType : AssignType} {flag itemName itemPlatform : String}
    {var : Variable} (hvar : i.symbolTable[name]? = some var) :
    i.assignVariableAs canonicalizePath location name values assignmentType flag itemName
      itemPlatform =
    (i.checkValues canonicalizePath location var (assignedWords var values)).bind
      fun (stored, valueErrors) ↦
        match findAssignment var location itemPlatform with
        | some old =>
          if old.value = stored then
            some ⟨true, i, multiwordErrors var location name values ++ valueErrors⟩
          else none
        | none =>
          let assignment := ⟨location, assignmentType, flag, itemName, itemPlatform, stored⟩
          let errors := multiwordErrors var location name values ++ valueErrors ++
            checkAssignment var assignment
          some ⟨errors.isEmpty, i.setVariable name (record var assignment), errors⟩ := by
  unfold assignVariableAs
  rw [hvar]
  rfl

theorem succeed_assign_iff {i j : Interface} {location : FileLocation} {name : String}
    {values : List String} {assignmentType : AssignType} {flag itemName itemPlatform : String} :
    (Move.assign location name values assignmentType flag itemName itemPlatform).succeed
      canonicalizePath i = some j ↔
    Changes canonicalizePath i
      (.assign location name values assignmentType flag itemName itemPlatform) j := by
  unfold Move.succeed Move.call
  dsimp only
  rw [succeeded_eq_some]
  constructor
  · rintro ⟨o, ho, hstatus, rfl⟩
    obtain ⟨var, hvar⟩ := assignVariableAs_known ho hstatus
    rw [assignVariableAs_eq canonicalizePath hvar] at ho
    obtain ⟨⟨stored, errors⟩, hvalue, ho⟩ := Option.bind_eq_some_iff.mp ho
    cases hold : findAssignment var location itemPlatform with
    | some old =>
      simp only [hold] at ho
      by_cases hsame : old.value = stored
      · rw [if_pos hsame] at ho
        cases ho
        exact .repeated location name values assignmentType flag itemName itemPlatform var old
          errors hvar hold (hsame ▸ hvalue)
      · rw [if_neg hsame] at ho
        cases ho
    | none =>
      simp only [hold] at ho
      cases ho
      obtain ⟨herrors, hcheck⟩ := List.append_eq_nil_iff.mp (List.isEmpty_iff.mp hstatus)
      obtain ⟨hword, rfl⟩ := List.append_eq_nil_iff.mp herrors
      refine .recorded location name values assignmentType flag itemName itemPlatform var
        stored hvar hold hvalue (fun hscalar ↦ ?_) hcheck
      by_contra hlength
      unfold multiwordErrors at hword
      rw [if_pos ⟨hscalar, hlength⟩] at hword
      cases hword
  · rintro ⟨⟩
    · next var old errors hvar hold hvalue =>
      refine ⟨⟨true, i, multiwordErrors var location name values ++ errors⟩, ?_, rfl, rfl⟩
      rw [assignVariableAs_eq canonicalizePath hvar, hvalue]
      simp only [Option.bind_some, hold, if_true]
    · next var stored hvar hword hvalue hnew hcheck =>
      refine ⟨⟨true, _, []⟩, ?_, rfl, rfl⟩
      have hmulti : multiwordErrors var location name values = [] :=
        if_neg fun h ↦ h.2 (hword h.1)
      rw [assignVariableAs_eq canonicalizePath hvar, hvalue]
      simp only [Option.bind_some, hnew, hmulti, hcheck, List.append_nil, List.isEmpty_nil]
      rfl

/-- The moves that succeed. -/
theorem succeed_iff {move : Move} {i j : Interface} :
    move.succeed canonicalizePath i = some j ↔ Changes canonicalizePath i move j := by
  cases move with
  | setLocalDirectory localDir =>
    unfold Move.succeed Move.call setLocalDirectory
    dsimp only
    rw [succeeded_eq_some]
    constructor
    · rintro ⟨o, ho, -, rfl⟩
      obtain ⟨i', hi', rfl⟩ := Option.map_eq_some_iff.mp ho
      split_ifs at hi' with habsolute
      cases hi'
      exact .setLocalDirectory localDir habsolute
    · rintro ⟨⟩
      next habsolute =>
        exact ⟨⟨true, _, []⟩, by rw [if_pos habsolute, Option.map_some], rfl, rfl⟩
  | setTargetType targetType =>
    constructor
    · intro h
      cases h
      exact .setTargetType targetType
    · rintro ⟨⟩
      rfl
  | declare location targetType name scope type listType =>
    unfold Move.succeed Move.call declareVariableAs
    dsimp only
    rw [succeeded_eq_some]
    constructor
    · rintro ⟨o, ho, hstatus, rfl⟩
      split at ho
      · next var hvar =>
        split_ifs at ho with hlocation
        · cases ho
          subst hlocation
          exact .redeclared targetType name scope type listType var hvar
        · cases ho
          cases hstatus
      · next hnone =>
        cases ho
        exact .declared location targetType name scope type listType hnone
    · rintro ⟨⟩
      · next var hvar => exact ⟨_, by rw [hvar], by simp, by simp⟩
      · next hnone => exact ⟨_, by rw [hnone], rfl, rfl⟩
  | reset location name itemName itemPlatform clear =>
    unfold Move.succeed Move.call resetVariableAs
    dsimp only
    rw [succeeded_eq_some]
    constructor
    · rintro ⟨o, ho, hstatus, rfl⟩
      split at ho
      · cases ho
        cases hstatus
      · next var hvar =>
        cases ho
        exact .reset location name itemName itemPlatform clear var hvar
    · rintro ⟨⟩
      next var hvar => exact ⟨_, by rw [hvar], rfl, rfl⟩
  | assign location name values assignmentType flag itemName itemPlatform =>
    exact succeed_assign_iff canonicalizePath

end Moves

section Changes

variable {canonicalizePath : String → String} {i j : Interface} {move : Move}

theorem setVariable_getElem? (i : Interface) (name k : String) (var : Variable) :
    (i.setVariable name var).symbolTable[k]? =
      if k = name then some var else i.symbolTable[k]? := by
  unfold setVariable
  simp only [TreeMap.getElem?_insert, compare_eq_iff_eq, @eq_comm _ k name]

theorem setVariable_self (i : Interface) (name : String) (var : Variable) :
    (i.setVariable name var).symbolTable[name]? = some var := by
  rw [setVariable_getElem?, if_pos rfl]

theorem Changes.names (h : Changes canonicalizePath i move j) :
    j.itemName = i.itemName ∧ j.itemPlatform = i.itemPlatform := by
  cases h <;> exact ⟨rfl, rfl⟩

/-- What holds of all variables still does after a move. -/
theorem Changes.each (h : Changes canonicalizePath i move j) {P : String → Variable → Prop}
    (declared : ∀ location targetType name scope type listType,
      move = .declare location targetType name scope type listType →
      i.symbolTable[name]? = none →
      P name ⟨name, location, targetType, scope, type, listType, [], []⟩)
    (reset : ∀ location name itemName itemPlatform clear var,
      move = .reset location name itemName itemPlatform clear →
      i.symbolTable[name]? = some var → P name var →
      P name (recordReset var ⟨location, itemName, itemPlatform⟩ clear))
    (recorded : ∀ location name values assignmentType flag itemName itemPlatform var stored,
      move = .assign location name values assignmentType flag itemName itemPlatform →
      i.symbolTable[name]? = some var → findAssignment var location itemPlatform = none →
      i.checkValues canonicalizePath location var (assignedWords var values) = some (stored, []) →
      checkAssignment var ⟨location, assignmentType, flag, itemName, itemPlatform, stored⟩ = [] →
      P name var →
      P name (record var ⟨location, assignmentType, flag, itemName, itemPlatform, stored⟩))
    (hall : ∀ (name : String) (var : Variable), i.symbolTable[name]? = some var → P name var)
    (name : String) (var : Variable) (hvar : j.symbolTable[name]? = some var) : P name var := by
  have hset : ∀ (k : String) (new : Variable), P k new →
      (i.setVariable k new).symbolTable[name]? = some var → P name var := by
    intro k new hnew hvar
    rw [setVariable_getElem?] at hvar
    split_ifs at hvar with hname
    · rw [hname, ← Option.some_inj.mp hvar]
      exact hnew
    · exact hall name var hvar
  cases h with
  | setLocalDirectory => exact hall name var hvar
  | setTargetType => exact hall name var hvar
  | redeclared => exact hall name var hvar
  | declared location targetType k scope type listType hnone =>
    exact hset k _ (declared location targetType k scope type listType rfl hnone) hvar
  | reset location k itemName itemPlatform clear old hold =>
    exact hset k _
      (reset location k itemName itemPlatform clear old rfl hold (hall k old hold)) hvar
  | repeated => exact hall name var hvar
  | recorded location k values assignmentType flag itemName itemPlatform old stored hold hnew
      hvalue hword hcheck =>
    exact hset k _ (recorded location k values assignmentType flag itemName itemPlatform old
      stored rfl hold hnew hvalue hcheck (hall k old hold)) hvar

theorem runMoves_cons (move : Move) (moves : List Move) (i : Interface) :
    runMoves canonicalizePath (move :: moves) i =
      (move.succeed canonicalizePath i).bind (runMoves canonicalizePath moves) := rfl

/-- What every move keeps is kept by a list of them. -/
theorem runMoves_induction {motive : Interface → Prop} {moves : List Move}
    (h : runMoves canonicalizePath moves i = some j) (start : motive i)
    (step : ∀ move ∈ moves, ∀ i j, Changes canonicalizePath i move j → motive i → motive j) :
    motive j :=
  Fallible.foldlM_induction h start fun move hmove i j hj ↦
    step move hmove i j ((succeed_iff canonicalizePath).mp hj)

end Changes

/-! ### Networks -/

/-- A call on an interface of a network, or an import of another one. -/
inductive Action (ι : Type)
  | call (k : ι) (statement : Statement)
  | importInterface (k other : ι)
deriving DecidableEq, Repr

namespace Action

variable {ι : Type} (canonicalizePath : String → String)

def target : Action ι → ι
  | call k _ => k
  | importInterface k _ => k

def moves (action : Action ι) (net : ι → Interface) : List Move :=
  match action with
  | call k statement => [statement.move (net k)]
  | importInterface _ other => importMoves (net other)

variable [DecidableEq ι]

/-- The network after an action that succeeds. -/
def run (action : Action ι) (net : ι → Interface) : Option (ι → Interface) :=
  match action with
  | call k statement =>
    (succeeded (statement.call canonicalizePath (net k))).map (Function.update net k)
  | importInterface k other =>
    (succeeded (Interface.importInterface canonicalizePath (net k) (net other))).map
      (Function.update net k)

theorem run_eq (action : Action ι) (net : ι → Interface) : action.run canonicalizePath net =
    (runMoves canonicalizePath (action.moves net) (net action.target)).map
      (Function.update net action.target) := by
  cases action with
  | call k statement =>
    show (succeeded (statement.call canonicalizePath (net k))).map _ = _
    rw [Statement.call_eq]
    show _ = (((statement.move (net k)).succeed canonicalizePath (net k)).bind some).map _
    rw [Option.bind_fun_some]
    rfl
  | importInterface k other =>
    show (succeeded (Interface.importInterface canonicalizePath (net k) (net other))).map _ = _
    rw [succeeded_importInterface]
    rfl

end Action

section Network

variable {ι : Type} [DecidableEq ι] (canonicalizePath : String → String)

def runActions (actions : List (Action ι)) (net : ι → Interface) : Option (ι → Interface) :=
  actions.foldlM (fun net action ↦ action.run canonicalizePath net) net

variable {canonicalizePath} {actions : List (Action ι)} {net net' : ι → Interface}

theorem runActions_cons (action : Action ι) (actions : List (Action ι)) (net : ι → Interface) :
    runActions canonicalizePath (action :: actions) net =
      (action.run canonicalizePath net).bind (runActions canonicalizePath actions) := rfl

theorem runActions_induction {motive : (ι → Interface) → Prop}
    (h : runActions canonicalizePath actions net = some net') (start : motive net)
    (step : ∀ action ∈ actions, ∀ net net', action.run canonicalizePath net = some net' →
      motive net → motive net') : motive net' :=
  Fallible.foldlM_induction h start step

/-- What every move on an interface keeps is kept by an action. -/
theorem Action.run_each {motive : ι → Interface → Prop} {action : Action ι}
    (h : action.run canonicalizePath net = some net') (start : ∀ k, motive k (net k))
    (step : ∀ k move i j, Changes canonicalizePath i move j → motive k i → motive k j) (k : ι) :
    motive k (net' k) := by
  rw [Action.run_eq] at h
  obtain ⟨j, hj, rfl⟩ := Option.map_eq_some_iff.mp h
  by_cases hk : k = action.target
  · subst hk
    rw [Function.update_self]
    exact runMoves_induction hj (start _) fun move _ ↦ step _ move
  · rw [Function.update_of_ne hk]
    exact start k

/-- What every move on an interface keeps holds of all interfaces of a network. -/
theorem runActions_each {motive : ι → Interface → Prop}
    (h : runActions canonicalizePath actions net = some net') (start : ∀ k, motive k (net k))
    (step : ∀ k move i j, Changes canonicalizePath i move j → motive k i → motive k j) (k : ι) :
    motive k (net' k) :=
  runActions_induction (motive := fun net ↦ ∀ k, motive k (net k)) h start
    (fun _ _ _ _ hrun hall ↦ Action.run_each hrun hall step) k

end Network

end Abuild.Interface
