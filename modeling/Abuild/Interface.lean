import Abuild.Basic

/-!
The interface of a build item, from `Interface.cc`: a symbol table of variables,
each with the histories of its resets and of its assignments. An interface
imports another by declaring and assigning its variables again, at the places
where they were declared and assigned, so that what was imported on several paths
is recognised. A call returns whether it succeeded, with the interface and the
errors it reported; it returns nothing when an assertion fails. The canonical form
of a path depends on the file system and is a parameter.
-/

set_option autoImplicit false
set_option relaxedAutoImplicit false

namespace Abuild

open Std (TreeMap TreeSet)

namespace Interface

inductive VariableType
  | boolean
  | string
  | filename
deriving DecidableEq, Repr

inductive ListType
  | scalar
  | append
  | prepend
deriving DecidableEq, Repr

inductive AssignType
  | normal
  | override
  | fallback
deriving DecidableEq, Repr

inductive Scope
  | recursive
  | nonrecursive
  | local
deriving DecidableEq, Repr

structure Assignment where
  location : FileLocation
  assignmentType : AssignType
  flag : String
  itemName : String
  itemPlatform : String
  value : List String
deriving DecidableEq, Repr

structure Reset where
  location : FileLocation
  itemName : String
  itemPlatform : String
deriving DecidableEq, Repr

structure Variable where
  name : String
  declareLocation : FileLocation
  targetType : TargetType
  scope : Scope
  type : VariableType
  listType : ListType
  resetHistory : List Reset
  assignmentHistory : List Assignment
deriving DecidableEq, Repr

structure VariableInfo where
  targetType : TargetType
  type : VariableType
  listType : ListType
  scope : Scope
  initialized : Bool
  value : List String
deriving DecidableEq, Repr

end Interface

open Interface

structure Interface where
  itemName : String
  itemPlatform : String
  symbolTable : TreeMap String Variable
  localDirectory : String
  targetType : TargetType

namespace Interface

/-- What a call returns, the interface it leaves and the errors it reported. -/
structure Outcome where
  status : Bool
  interface : Interface
  errors : List ErrorMessage

/-- The outcome of a call after which another one is made, whatever its status. -/
def Outcome.andThen (o : Outcome) (f : Interface → Option Outcome) : Option Outcome := do
  let o' ← f o.interface
  some ⟨o.status && o'.status, o'.interface, o.errors ++ o'.errors⟩

def setLocalDirectory (i : Interface) (localDir : String) : Option Interface :=
  if Util.isAbsolutePath localDir then
    some { i with localDirectory := Util.normalizePathSeparators localDir }
  else none

def new (itemName itemPlatform localDir : String) : Option Interface :=
  setLocalDirectory
    { itemName
      itemPlatform
      symbolTable := ∅
      localDirectory := ""
      targetType := .all } localDir

def setTargetType (i : Interface) (targetType : TargetType) : Interface :=
  { i with targetType }

/-! ### Declarations and resets -/

def declareVariableAs (i : Interface) (location : FileLocation) (targetType : TargetType)
    (variableName : String) (scope : Scope) (type : VariableType) (listType : ListType) :
    Outcome :=
  match i.symbolTable[variableName]? with
  | some var =>
    if var.declareLocation = location then ⟨true, i, []⟩
    else
      ⟨false, i,
        [(location, "variable " ++ variableName ++ " has already been declared"),
          (var.declareLocation, "here is the previous declaration")]⟩
  | none =>
    let var : Variable :=
      { name := variableName
        declareLocation := location
        targetType
        scope
        type
        listType
        resetHistory := []
        assignmentHistory := [] }
    ⟨true, { i with symbolTable := i.symbolTable.insert variableName var }, []⟩

def declareVariable (i : Interface) (location : FileLocation) (variableName : String)
    (scope : Scope) (type : VariableType) (listType : ListType) : Outcome :=
  i.declareVariableAs location i.targetType variableName scope type listType

def resetVariableAs (i : Interface) (location : FileLocation)
    (variableName interfaceItemName interfaceItemPlatform : String)
    (clearAssignmentHistory : Bool) : Outcome :=
  match i.symbolTable[variableName]? with
  | none => ⟨false, i, [(location, "resetting unknown variable " ++ variableName)]⟩
  | some var =>
    let reset : Reset := ⟨location, interfaceItemName, interfaceItemPlatform⟩
    let var : Variable := { var with
      resetHistory :=
        if reset ∈ var.resetHistory then var.resetHistory else var.resetHistory ++ [reset]
      assignmentHistory := if clearAssignmentHistory then [] else var.assignmentHistory }
    ⟨true, { i with symbolTable := i.symbolTable.insert variableName var }, []⟩

def resetVariable (i : Interface) (location : FileLocation) (variableName : String) : Outcome :=
  i.resetVariableAs location variableName i.itemName i.itemPlatform true

/-! ### Assignments -/

section Assign

variable (canonicalizePath : String → String)

def normalizeFilename (i : Interface) (filename : String) : Option String :=
  let filename := Util.normalizePathSeparators filename
  if filename.isEmpty then none
  else
    let filename :=
      if Util.isAbsolutePath filename then filename
      else if filename = "." then i.localDirectory
      else i.localDirectory ++ "/" ++ filename
    some (canonicalizePath filename)

/-- A value as the type of the variable has it, and the errors of the check. -/
def checkValue (i : Interface) (location : FileLocation) (var : Variable) (value : String) :
    Option (String × List ErrorMessage) :=
  match var.type with
  | .boolean =>
    if value = "1" ∨ value = "0" then some (value, [])
    else if value = "true" then some ("1", [])
    else if value = "false" then some ("0", [])
    else
      some (value, [(location,
        "value " ++ value ++ " is invalid for boolean variable " ++ var.name)])
  | .filename =>
    if value.isEmpty then
      some (value, [(location,
        "the empty string may not be used as a value for filename variable " ++ var.name)])
    else do
      let value ← i.normalizeFilename canonicalizePath value
      some (value, [])
  | .string => some (value, [])

def checkValues (i : Interface) (location : FileLocation) (var : Variable) :
    List String → Option (List String × List ErrorMessage)
  | [] => some ([], [])
  | value :: values => do
    let (value, errors) ← i.checkValue canonicalizePath location var value
    let (values, moreErrors) ← i.checkValues location var values
    some (value :: values, errors ++ moreErrors)

/-- The conflicts of a new assignment with the kind of the variable and with a
normal assignment at the front of its history. -/
def checkAssignment (var : Variable) (assignment : Assignment) : List ErrorMessage :=
  if var.listType = .scalar then
    match assignment.assignmentType, var.assignmentHistory.head? with
    | .normal, some previous =>
      if previous.assignmentType ≠ .normal then []
      else if previous.location = assignment.location then
        if assignment.value = previous.value then []
        else
          [(assignment.location, "variable " ++ var.name ++ " already has a value"),
            (assignment.location,
              "conflicting assignment was made by this build item's instance on platform " ++
              previous.itemPlatform ++ "; see \"Interface Errors\" subsection of the " ++
              "\"Explicit Cross-Platform Dependencies\" section of the manual for an " ++
              "explanation and list of remedies")]
      else
        [(assignment.location, "variable " ++ var.name ++ " already has a value"),
          (previous.location, "here is the previous assignment")]
    | _, _ => []
  else if assignment.assignmentType ≠ .normal then
    [(assignment.location, "fallback and override assignments are not valid for list variables")]
  else []

/-- The history of the variable with a new assignment. -/
def record (var : Variable) (assignment : Assignment) : Variable :=
  { var with
    assignmentHistory :=
      if var.listType = .scalar ∧ assignment.assignmentType = .fallback then
        assignment :: var.assignmentHistory
      else var.assignmentHistory ++ [assignment] }

def assignVariableAs (i : Interface) (location : FileLocation) (variableName : String)
    (ovalues : List String) (assignmentType : AssignType)
    (flag interfaceItemName interfaceItemPlatform : String) : Option Outcome :=
  match i.symbolTable[variableName]? with
  | none => some ⟨false, i, [(location, "assigning to unknown variable " ++ variableName)]⟩
  | some var => do
    let oldAssignment := var.assignmentHistory.find? fun a ↦
      a.location = location ∧ a.itemPlatform = interfaceItemPlatform
    let values := if var.listType = .scalar ∧ ovalues = [] then [""] else ovalues
    let multiword : List ErrorMessage :=
      if var.listType = .scalar ∧ values.length ≠ 1 then
        [(location, "multiple words may not be assigned to scalar variable " ++ variableName)]
      else []
    let (values, valueErrors) ← i.checkValues canonicalizePath location var values
    let assignment : Assignment :=
      { location
        assignmentType
        flag
        itemName := interfaceItemName
        itemPlatform := interfaceItemPlatform
        value := values }
    match oldAssignment with
    | some old =>
      if old.value = values then some ⟨true, i, multiword ++ valueErrors⟩ else none
    | none =>
      let errors := multiword ++ valueErrors ++ checkAssignment var assignment
      some
        ⟨errors.isEmpty,
          { i with symbolTable := i.symbolTable.insert variableName (record var assignment) },
          errors⟩

def assignVariable (i : Interface) (location : FileLocation) (variableName : String)
    (values : List String) (assignmentType : AssignType) (flag : String) : Option Outcome :=
  i.assignVariableAs canonicalizePath location variableName values assignmentType flag
    i.itemName i.itemPlatform

/-! ### Imports -/

def importReset (var : Variable) (i : Interface) (reset : Reset) : Outcome :=
  i.resetVariableAs reset.location var.name reset.itemName reset.itemPlatform false

def importAssignment (var : Variable) (i : Interface) (assignment : Assignment) :
    Option Outcome :=
  i.assignVariableAs canonicalizePath assignment.location var.name assignment.value
    assignment.assignmentType assignment.flag assignment.itemName assignment.itemPlatform

/-- The assignments that are seen by an importer of the item. -/
def importedAssignments (itemName : String) (var : Variable) : List Assignment :=
  var.assignmentHistory.filter fun a ↦ var.scope = .recursive ∨ a.itemName = itemName

def importVariable (otherName : String) (var : Variable) (i : Interface) : Option Outcome :=
  if var.scope = .local then some ⟨true, i, []⟩
  else
    let declared := i.declareVariableAs var.declareLocation var.targetType var.name var.scope
      var.type var.listType
    if declared.status then do
      let o ← var.resetHistory.foldlM
        (fun o reset ↦ o.andThen fun i ↦ some (importReset var i reset)) declared
      (importedAssignments otherName var).foldlM
        (fun o a ↦ o.andThen fun i ↦ importAssignment canonicalizePath var i a) o
    else some declared

def importInterface (i other : Interface) : Option Outcome :=
  other.symbolTable.toList.foldlM
    (fun o (_, var) ↦ o.andThen fun i ↦ importVariable canonicalizePath other.itemName var i)
    ⟨true, i, []⟩

end Assign

/-! ### Values -/

/-- The assignments to a variable that are seen with some flags. -/
def visibleAssignments (flagData : FlagData) (var : Variable) : List Assignment :=
  var.assignmentHistory.filter fun a ↦ a.flag.isEmpty ∨ flagData.isSet a.itemName a.flag

def valueOf (listType : ListType) (assignments : List Assignment) : List String :=
  match listType with
  | .scalar => match assignments.getLast? with
    | some a => a.value
    | none => []
  | .append => assignments.foldl (fun value a ↦ value ++ a.value) []
  | .prepend => assignments.foldl (fun value a ↦ a.value ++ value) []

def getVariable (i : Interface) (variableName : String) (flagData : FlagData) :
    Option VariableInfo :=
  match i.symbolTable[variableName]? with
  | none => none
  | some var =>
    let assignments := visibleAssignments flagData var
    some
      { targetType := var.targetType
        type := var.type
        listType := var.listType
        scope := var.scope
        initialized := !assignments.isEmpty
        value := valueOf var.listType assignments }

end Interface

end Abuild
