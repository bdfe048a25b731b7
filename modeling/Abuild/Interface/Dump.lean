import Abuild.Interface
import Abuild.Library.Xml

/-!
`Interface::dump`, which writes the variables of an interface with their histories as an XML
element, beside a reader that takes from the element what `interface_dump.dtd` says is in it.
Locations are read as the texts that they are written as. The tag of a reset lacks a quotation mark,
so that a dump is well-formed only if nothing has been reset (`dumps_iff`).
-/

set_option autoImplicit false
set_option relaxedAutoImplicit false

namespace Abuild

open Std (TreeMap)

/-- The conversion of a location to a string. -/
def FileLocation.text (l : FileLocation) : String :=
  l.filename ++
    if l.lineno ≠ 0 then
      (if l.filename.isEmpty then "" else ":") ++ toString l.lineno ++
        if l.colno ≠ 0 then ":" ++ toString l.colno else ""
    else ""

namespace Util

def xmlifyChar (isAttribute : Bool) : Char → List Char
  | '<' => "&lt;".toList
  | '>' => "&gt;".toList
  | '&' => "&amp;".toList
  | '\'' => if isAttribute then "&apos;".toList else "'".toList
  | '"' => if isAttribute then "&quot;".toList else "\"".toList
  | '\r' => if isAttribute then [] else ['\r']
  | '\n' => if isAttribute then [' '] else ['\n']
  | ch => [ch]

def xmlify (str : String) (isAttribute : Bool) : String :=
  String.ofList (str.toList.flatMap (xmlifyChar isAttribute))

end Util

namespace Interface

open Util (xmlify)

/-! ### The writer -/

def unparseType (scope : Scope) (type : VariableType) (listType : ListType) : String :=
  (match scope with
    | .recursive => ""
    | .nonrecursive => "non-recursive "
    | .local => "local ") ++
  (if listType ≠ .scalar then "list " else "") ++
  (match type with
    | .string => "string"
    | .boolean => "boolean"
    | .filename => "filename") ++
  match listType with
    | .scalar => ""
    | .append => " append"
    | .prepend => " prepend"

def unparseAssignmentType : AssignType → String
  | .normal => "normal"
  | .override => "override"
  | .fallback => "fallback"

def dumpReset (r : Reset) : String :=
  "   <reset item-name=\"" ++ xmlify r.itemName true ++ "\" item-platform=\"" ++
    xmlify r.itemPlatform true ++ "\" location=\"" ++ xmlify r.location.text true ++ "/>" ++ "\n"

def dumpValue (value : String) : String :=
  "    <value value=\"" ++ xmlify value true ++ "\"/>" ++ "\n"

def dumpAssignment (assignment : Assignment) : String :=
  "   <assignment assignment-type=\"" ++ unparseAssignmentType assignment.assignmentType ++
    "\" item-name=\"" ++ xmlify assignment.itemName true ++ "\" item-platform=\"" ++
    xmlify assignment.itemPlatform true ++ "\" location=\"" ++
    xmlify assignment.location.text true ++ "\"" ++
    (if assignment.flag.isEmpty then "" else " flag=\"" ++ xmlify assignment.flag true ++ "\"") ++
    ">" ++ "\n" ++ String.join (assignment.value.map dumpValue) ++ "   </assignment>" ++ "\n"

def dumpResets (resets : List Reset) : String :=
  if resets.isEmpty then ""
  else "  <reset-history>" ++ "\n" ++ String.join (resets.map dumpReset) ++
    "  </reset-history>" ++ "\n"

def dumpAssignments (assignments : List Assignment) : String :=
  if assignments.isEmpty then ""
  else "  <assignment-history>" ++ "\n" ++ String.join (assignments.map dumpAssignment) ++
    "  </assignment-history>" ++ "\n"

def dumpVariable (variableName : String) (var : Variable) : String :=
  " <variable name=\"" ++ xmlify variableName true ++ "\" type=\"" ++
    unparseType var.scope var.type var.listType ++ "\" target-type=\"" ++ var.targetType.getName ++
    "\" declaration-location=\"" ++ xmlify var.declareLocation.text true ++ "\">" ++ "\n" ++
    dumpResets var.resetHistory ++ dumpAssignments var.assignmentHistory ++ " </variable>" ++ "\n"

def dump (i : Interface) : String :=
  "<?xml version=\"1.0\"?>" ++ "\n" ++
    "<interface version=\"1\" item-name=\"" ++ xmlify i.itemName true ++ "\" item-platform=\"" ++
    xmlify i.itemPlatform true ++ "\">" ++ "\n" ++
    String.join (i.symbolTable.toList.map fun (variableName, var) ↦
      dumpVariable variableName var) ++
    "</interface>" ++ "\n"

/-! ### The reader -/

structure ResetRecord where
  location : String
  itemName : String
  itemPlatform : String

structure AssignmentRecord where
  location : String
  assignmentType : AssignType
  flag : String
  itemName : String
  itemPlatform : String
  value : List String

structure VariableRecord where
  name : String
  declareLocation : String
  targetType : TargetType
  scope : Scope
  type : VariableType
  listType : ListType
  resetHistory : List ResetRecord
  assignmentHistory : List AssignmentRecord

structure InterfaceRecord where
  itemName : String
  itemPlatform : String
  declared : List VariableRecord

def variableTypes : List (Scope × VariableType × ListType) :=
  [.recursive, .nonrecursive, .local] ×ˢ [.boolean, .string, .filename] ×ˢ
    [.scalar, .append, .prepend]

def parseType (type : String) : Option (Scope × VariableType × ListType) :=
  variableTypes.find? fun (scope, variableType, listType) ↦
    unparseType scope variableType listType = type

def parseAssignmentType (assignmentType : String) : Option AssignType :=
  [.normal, .override, .fallback].find? (unparseAssignmentType · = assignmentType)

/-- The attributes and the contents of the elements of a name. -/
def elements (name : String) (nodes : List Xml.Node) :
    List (List (String × String) × List Xml.Node) :=
  nodes.filterMap fun
    | .char _ => none
    | .element name' attributes children =>
      if name' = name then some (attributes, children) else none

def readReset : List (String × String) × List Xml.Node → Option ResetRecord
  | (attributes, _) => do
    let itemName ← attributes.lookup "item-name"
    let itemPlatform ← attributes.lookup "item-platform"
    let location ← attributes.lookup "location"
    some { itemName, itemPlatform, location }

def readAssignment : List (String × String) × List Xml.Node → Option AssignmentRecord
  | (attributes, children) => do
    let assignmentType ← parseAssignmentType (← attributes.lookup "assignment-type")
    let itemName ← attributes.lookup "item-name"
    let itemPlatform ← attributes.lookup "item-platform"
    let location ← attributes.lookup "location"
    let value ← (elements "value" children).mapM fun (attributes, _) ↦ attributes.lookup "value"
    some { location, assignmentType, flag := (attributes.lookup "flag").getD "", itemName,
           itemPlatform, value }

def readVariable : List (String × String) × List Xml.Node → Option VariableRecord
  | (attributes, children) => do
    let name ← attributes.lookup "name"
    let (scope, type, listType) ← parseType (← attributes.lookup "type")
    let targetType ← TargetType.getID (← attributes.lookup "target-type")
    let declareLocation ← attributes.lookup "declaration-location"
    let resetHistory ← ((elements "reset-history" children).flatMap fun (_, children) ↦
      elements "reset" children).mapM readReset
    let assignmentHistory ← ((elements "assignment-history" children).flatMap fun (_, children) ↦
      elements "assignment" children).mapM readAssignment
    some { name, declareLocation, targetType, scope, type, listType, resetHistory,
           assignmentHistory }

def readInterface (root : Xml.Node) : Option InterfaceRecord := do
  let (attributes, children) ← (elements "interface" [root]).head?
  let itemName ← attributes.lookup "item-name"
  let itemPlatform ← attributes.lookup "item-platform"
  let declared ← (elements "variable" children).mapM readVariable
  some { itemName, itemPlatform, declared }

/-- What a dump is to tell. -/
def Reset.toRecord (r : Reset) : ResetRecord where
  location := r.location.text
  itemName := r.itemName
  itemPlatform := r.itemPlatform

def Assignment.toRecord (assignment : Assignment) : AssignmentRecord where
  location := assignment.location.text
  assignmentType := assignment.assignmentType
  flag := assignment.flag
  itemName := assignment.itemName
  itemPlatform := assignment.itemPlatform
  value := assignment.value

def Variable.toRecord (variableName : String) (var : Variable) : VariableRecord where
  name := variableName
  declareLocation := var.declareLocation.text
  targetType := var.targetType
  scope := var.scope
  type := var.type
  listType := var.listType
  resetHistory := var.resetHistory.map Reset.toRecord
  assignmentHistory := var.assignmentHistory.map Assignment.toRecord

def toRecord (i : Interface) : InterfaceRecord where
  itemName := i.itemName
  itemPlatform := i.itemPlatform
  declared := i.symbolTable.toList.map fun (variableName, var) ↦ var.toRecord variableName

/-! ### Values -/

def isPrintable (c : Char) : Bool :=
  0x20 ≤ c.val && c.val ≠ 0x7F && c.val ≠ 0xFFFE && c.val ≠ 0xFFFF

def IsPrintable (str : String) : Prop := str.toList.all isPrintable = true

instance (str : String) : Decidable (IsPrintable str) :=
  inferInstanceAs (Decidable (str.toList.all isPrintable = true))

theorem valueText_xmlifyChar {c : Char} (h : isPrintable c = true) :
    Xml.ValueText (Util.xmlifyChar true c) (String.singleton c) := by
  unfold Util.xmlifyChar
  split
  · exact Xml.valueText_reference ['l', 't'] rfl rfl
  · exact Xml.valueText_reference ['g', 't'] rfl rfl
  · exact Xml.valueText_reference ['a', 'm', 'p'] rfl rfl
  · exact Xml.valueText_reference ['a', 'p', 'o', 's'] rfl rfl
  · exact Xml.valueText_reference ['q', 'u', 'o', 't'] rfl rfl
  · exact absurd h (by decide)
  · exact absurd h (by decide)
  · rename_i htag _ hreference _ hmark hreturn hnewline
    have htab : c ≠ '\t' := by
      rintro rfl
      exact absurd h (by decide)
    have hspace : Xml.isSpace c = true → c = ' ' := by
      intro hspace
      simp only [Xml.isSpace, Bool.or_eq_true, decide_eq_true_eq] at hspace
      exact ((hspace.resolve_right hreturn).resolve_right hnewline).resolve_right htab
    refine Xml.valueText_char hmark hreference htag hspace ?_
    unfold isPrintable at h
    simp only [Bool.and_eq_true, decide_eq_true_eq] at h
    simp [Xml.isChar, h]

theorem valueText_xmlify {str : String} (h : IsPrintable str) :
    Xml.ValueText (xmlify str true).toList str := by
  have hchars : ∀ cs : List Char, cs.all isPrintable = true →
      Xml.ValueText (cs.flatMap (Util.xmlifyChar true)) (String.ofList cs) := by
    intro cs hcs
    induction cs with
    | nil => exact Xml.valueText_nil
    | cons c cs ih =>
      obtain ⟨hc, hrest⟩ := Bool.and_eq_true_iff.mp hcs
      have happend := (valueText_xmlifyChar hc).append (ih hrest)
      have hvalue : String.singleton c ++ String.ofList cs = String.ofList (c :: cs) := by
        simp
      rw [hvalue] at happend
      exact happend
  have htext := hchars str.toList h
  unfold xmlify
  rw [String.ofList_toList] at htext
  rw [String.toList_ofList]
  exact htext

/-- An attribute as a dump has it. -/
def written (key value : String) (hkey : Xml.isName key.toList = true) (h : IsPrintable value) :
    Xml.Written where
  key := key
  value := value
  text := (xmlify value true).toList
  isName := hkey
  valueText := valueText_xmlify h

theorem xmlify_unparseType (scope : Scope) (type : VariableType) (listType : ListType) :
    xmlify (unparseType scope type listType) true = unparseType scope type listType := by
  cases scope <;> cases type <;> cases listType <;> rfl

theorem isPrintable_unparseType (scope : Scope) (type : VariableType) (listType : ListType) :
    IsPrintable (unparseType scope type listType) := by
  cases scope <;> cases type <;> cases listType <;> rfl

theorem parseType_unparseType (scope : Scope) (type : VariableType) (listType : ListType) :
    parseType (unparseType scope type listType) = some (scope, type, listType) := by
  cases scope <;> cases type <;> cases listType <;> rfl

theorem xmlify_unparseAssignmentType (assignmentType : AssignType) :
    xmlify (unparseAssignmentType assignmentType) true = unparseAssignmentType assignmentType := by
  cases assignmentType <;> rfl

theorem isPrintable_unparseAssignmentType (assignmentType : AssignType) :
    IsPrintable (unparseAssignmentType assignmentType) := by
  cases assignmentType <;> rfl

theorem parseAssignmentType_unparseAssignmentType (assignmentType : AssignType) :
    parseAssignmentType (unparseAssignmentType assignmentType) = some assignmentType := by
  cases assignmentType <;> rfl

theorem xmlify_getName (targetType : TargetType) :
    xmlify targetType.getName true = targetType.getName := by
  cases targetType <;> rfl

theorem isPrintable_getName (targetType : TargetType) : IsPrintable targetType.getName := by
  cases targetType <;> rfl

theorem getID_getName (targetType : TargetType) :
    TargetType.getID targetType.getName = some targetType := by
  cases targetType <;> rfl

/-! ### Assignments -/

/-- A node in a line of its own. -/
def line (indent : ℕ) (node : Xml.Node) : List Xml.Node :=
  (List.replicate indent ' ').map .char ++ [node] ++ ['\n'].map .char

theorem content_line {text : List Char} {node : Xml.Node} (h : Xml.Content text [node])
    (indent : ℕ) :
    Xml.Content (List.replicate indent ' ' ++ text ++ ['\n']) (line indent node) := by
  have hspaces : (List.replicate indent ' ').all Xml.isSpace = true := by
    rw [List.all_replicate]
    split_ifs <;> rfl
  exact ((Xml.content_space hspaces).append h).append (Xml.content_space rfl)

theorem elements_append (name : String) (nodes nodes' : List Xml.Node) :
    elements name (nodes ++ nodes') = elements name nodes ++ elements name nodes' :=
  List.filterMap_append

theorem elements_char (name : String) (text : List Char) :
    elements name (text.map .char) = [] := by
  unfold elements
  rw [List.filterMap_map]
  exact List.filterMap_eq_nil_iff.mpr fun _ _ ↦ rfl

theorem elements_line (name : String) (indent : ℕ) (node : Xml.Node) :
    elements name (line indent node) = elements name [node] := by
  unfold line
  rw [elements_append, elements_append, elements_char, elements_char, List.nil_append,
    List.append_nil]

theorem elements_flatMap {α : Type} (name : String) (l : List α) (nodes : α → List Xml.Node) :
    elements name (l.flatMap nodes) = l.flatMap fun a ↦ elements name (nodes a) :=
  List.filterMap_flatMap

/-- An element whose nodes stand in lines of their own. -/
def blockChildren (indent : ℕ) (nodes : List Xml.Node) : List Xml.Node :=
  ['\n'].map .char ++ nodes ++ (List.replicate indent ' ').map .char

theorem content_block (name : String) {attributes : List Xml.Written} {text : List Char}
    {nodes : List Xml.Node} (hname : Xml.isName name.toList = true)
    (hkeys : (attributes.map Xml.Written.key).Nodup) (h : Xml.Content text nodes) (indent : ℕ) :
    Xml.Content (List.replicate indent ' ' ++ (Xml.openText name attributes ++ ['>'] ++
        (['\n'] ++ text ++ List.replicate indent ' ') ++ ('<' :: '/' :: name.toList ++ ['>'])) ++
          ['\n'])
      (line indent
        (.element name (attributes.map Xml.Written.pair) (blockChildren indent nodes))) := by
  have hspaces : (List.replicate indent ' ').all Xml.isSpace = true := by
    rw [List.all_replicate]
    split_ifs <;> rfl
  exact content_line (Xml.content_element hname hkeys
    (((Xml.content_space rfl).append h).append (Xml.content_space hspaces))) indent

theorem elements_blockChildren (name : String) (indent : ℕ) (nodes : List Xml.Node) :
    elements name (blockChildren indent nodes) = elements name nodes := by
  unfold blockChildren
  rw [elements_append, elements_append, elements_char, elements_char, List.nil_append,
    List.append_nil]

def valueNode (value : String) : Xml.Node := .element "value" [("value", value)] []

theorem toList_written (key value : String) (hkey : Xml.isName key.toList = true)
    (h : IsPrintable value) : (written key value hkey h).toList =
      ' ' :: (key.toList ++ '=' :: '"' :: ((xmlify value true).toList ++ ['"'])) := by
  unfold Xml.Written.toList Xml.Written.unclosed written
  simp only [List.cons_append, List.append_assoc]

theorem unclosed_written (key value : String) (hkey : Xml.isName key.toList = true)
    (h : IsPrintable value) : (written key value hkey h).unclosed =
      ' ' :: (key.toList ++ '=' :: '"' :: (xmlify value true).toList) := rfl

theorem content_dumpValue {value : String} (h : IsPrintable value) :
    Xml.Content (dumpValue value).toList (line 4 (valueNode value)) := by
  have hkey : Xml.isName "value".toList = true := by
    rfl
  have htext : (dumpValue value).toList = List.replicate 4 ' ' ++
      (Xml.openText "value" [written "value" value hkey h] ++ ['/', '>']) ++ ['\n'] := by
    unfold dumpValue Xml.openText
    simp [toList_written]
  have htag : Xml.Content (Xml.openText "value" [written "value" value hkey h] ++ ['/', '>'])
      [valueNode value] := Xml.content_emptyTag hkey (List.nodup_singleton _)
  rw [htext]
  exact content_line htag 4

structure Assignment.Printable (assignment : Assignment) : Prop where
  location : IsPrintable assignment.location.text
  flag : IsPrintable assignment.flag
  itemName : IsPrintable assignment.itemName
  itemPlatform : IsPrintable assignment.itemPlatform
  value : ∀ value ∈ assignment.value, IsPrintable value

def assignmentAttributes (assignment : Assignment) : List (String × String) :=
  [("assignment-type", unparseAssignmentType assignment.assignmentType),
    ("item-name", assignment.itemName), ("item-platform", assignment.itemPlatform),
    ("location", assignment.location.text)] ++
    if assignment.flag.isEmpty then [] else [("flag", assignment.flag)]

def assignmentNode (assignment : Assignment) : Xml.Node :=
  .element "assignment" (assignmentAttributes assignment)
    (blockChildren 3 (assignment.value.flatMap fun value ↦ line 4 (valueNode value)))

def assignmentWritten {assignment : Assignment} (h : assignment.Printable) : List Xml.Written :=
  [written "assignment-type" (unparseAssignmentType assignment.assignmentType) (by decide +kernel)
      (isPrintable_unparseAssignmentType _),
    written "item-name" assignment.itemName (by decide +kernel) h.itemName,
    written "item-platform" assignment.itemPlatform (by decide +kernel) h.itemPlatform,
    written "location" assignment.location.text (by decide +kernel) h.location] ++
    if assignment.flag.isEmpty then []
    else [written "flag" assignment.flag (by decide +kernel) h.flag]

theorem nodup_assignmentWritten {assignment : Assignment} (h : assignment.Printable) :
    ((assignmentWritten h).map Xml.Written.key).Nodup := by
  unfold assignmentWritten
  by_cases hflag : assignment.flag.isEmpty = true
  · simp [hflag, written]
  · simp [hflag, written]

theorem map_pair_assignmentWritten {assignment : Assignment} (h : assignment.Printable) :
    (assignmentWritten h).map Xml.Written.pair = assignmentAttributes assignment := by
  unfold assignmentWritten assignmentAttributes
  by_cases hflag : assignment.flag.isEmpty = true
  · simp [hflag, written, Xml.Written.pair]
  · simp [hflag, written, Xml.Written.pair]

theorem toList_dumpAssignment {assignment : Assignment} (h : assignment.Printable) :
    (dumpAssignment assignment).toList = List.replicate 3 ' ' ++
      (Xml.openText "assignment" (assignmentWritten h) ++ ['>'] ++
        (['\n'] ++ (assignment.value.flatMap fun value ↦ (dumpValue value).toList) ++
          List.replicate 3 ' ') ++ ('<' :: '/' :: "assignment".toList ++ ['>'])) ++ ['\n'] := by
  unfold dumpAssignment assignmentWritten Xml.openText
  by_cases hflag : assignment.flag.isEmpty = true
  · simp [toList_written, xmlify_unparseAssignmentType, hflag, String.toList_join,
      List.flatMap_map]
  · simp [toList_written, xmlify_unparseAssignmentType, hflag, String.toList_join,
      List.flatMap_map]

theorem content_dumpAssignment {assignment : Assignment} (h : assignment.Printable) :
    Xml.Content (dumpAssignment assignment).toList (line 3 (assignmentNode assignment)) := by
  have hvalues : Xml.Content (assignment.value.flatMap fun value ↦ (dumpValue value).toList)
      (assignment.value.flatMap fun value ↦ line 4 (valueNode value)) :=
    Xml.Content.flatMap fun value hvalue ↦ content_dumpValue (h.value value hvalue)
  have hblock := content_block "assignment" rfl (nodup_assignmentWritten h)
    hvalues 3
  rw [map_pair_assignmentWritten] at hblock
  rw [toList_dumpAssignment h]
  exact hblock

theorem mapM_eq_map {α β : Type} {l : List α} {f : α → Option β} {g : α → β}
    (h : ∀ a ∈ l, f a = some (g a)) : l.mapM f = some (l.map g) := by
  induction l with
  | nil => rfl
  | cons a l ih =>
    obtain ⟨ha, hl⟩ := List.forall_mem_cons.mp h
    rw [List.mapM_cons, ha, ih hl]
    rfl

theorem readAssignment_eq (assignment : Assignment) :
    readAssignment (assignmentAttributes assignment,
      blockChildren 3 (assignment.value.flatMap fun value ↦ line 4 (valueNode value))) =
        some assignment.toRecord := by
  have hvalues : elements "value"
      (blockChildren 3 (assignment.value.flatMap fun value ↦ line 4 (valueNode value))) =
        assignment.value.map fun value ↦ ([("value", value)], []) := by
    rw [elements_blockChildren, elements_flatMap, List.map_eq_flatMap]
    rfl
  have hmapM : (elements "value" (blockChildren 3
      (assignment.value.flatMap fun value ↦ line 4 (valueNode value)))).mapM
        (fun x ↦ x.1.lookup "value") = some assignment.value := by
    rw [hvalues, List.mapM_map]
    exact (mapM_eq_map fun value _ ↦ rfl).trans (congrArg some (List.map_id _))
  have hflag : ((assignmentAttributes assignment).lookup "flag").getD "" = assignment.flag := by
    unfold assignmentAttributes
    by_cases hempty : assignment.flag.isEmpty = true
    · rw [if_pos hempty, String.isEmpty_iff.mp hempty]
      rfl
    · rw [if_neg hempty]
      rfl
  have hkeys : (assignmentAttributes assignment).lookup "assignment-type" =
        some (unparseAssignmentType assignment.assignmentType) ∧
      (assignmentAttributes assignment).lookup "item-name" = some assignment.itemName ∧
      (assignmentAttributes assignment).lookup "item-platform" = some assignment.itemPlatform ∧
      (assignmentAttributes assignment).lookup "location" = some assignment.location.text :=
    ⟨rfl, rfl, rfl, rfl⟩
  unfold readAssignment
  dsimp only
  rw [hkeys.1, hkeys.2.1, hkeys.2.2.1, hkeys.2.2.2, hmapM, hflag]
  simp only [Option.bind_eq_bind, Option.bind_some, parseAssignmentType_unparseAssignmentType]
  rfl

def assignmentsNodes (assignments : List Assignment) : List Xml.Node :=
  if assignments.isEmpty then []
  else line 2 (.element "assignment-history" [] (blockChildren 2
    (assignments.flatMap fun assignment ↦ line 3 (assignmentNode assignment))))

theorem content_dumpAssignments {assignments : List Assignment}
    (h : ∀ assignment ∈ assignments, assignment.Printable) :
    Xml.Content (dumpAssignments assignments).toList (assignmentsNodes assignments) := by
  unfold dumpAssignments assignmentsNodes
  by_cases hempty : assignments.isEmpty = true
  · rw [if_pos hempty, if_pos hempty]
    exact Xml.content_nil
  rw [if_neg hempty, if_neg hempty]
  have hinner : Xml.Content
      (assignments.flatMap fun assignment ↦ (dumpAssignment assignment).toList)
      (assignments.flatMap fun assignment ↦ line 3 (assignmentNode assignment)) :=
    Xml.Content.flatMap fun assignment hmem ↦ content_dumpAssignment (h assignment hmem)
  have hkeys : (([] : List Xml.Written).map Xml.Written.key).Nodup := List.nodup_nil
  have hblock := content_block "assignment-history" rfl hkeys hinner 2
  refine (congrArg (Xml.Content · _) ?_).mpr hblock
  unfold Xml.openText
  simp [String.toList_join, List.flatMap_map]

/-- The assignments are read in their order. -/
theorem readAssignments_eq (assignments : List Assignment) :
    ((elements "assignment-history" (assignmentsNodes assignments)).flatMap fun (_, children) ↦
      elements "assignment" children).mapM readAssignment =
        some (assignments.map Assignment.toRecord) := by
  have helements : ((elements "assignment-history" (assignmentsNodes assignments)).flatMap
      fun (_, children) ↦ elements "assignment" children) =
        assignments.map fun assignment ↦ (assignmentAttributes assignment,
          blockChildren 3 (assignment.value.flatMap fun value ↦ line 4 (valueNode value))) := by
    unfold assignmentsNodes
    by_cases hempty : assignments.isEmpty = true
    · rw [if_pos hempty, List.isEmpty_iff.mp hempty]
      rfl
    · rw [if_neg hempty, elements_line]
      show elements "assignment" _ ++ [] = _
      rw [List.append_nil, elements_blockChildren, elements_flatMap, List.map_eq_flatMap]
      rfl
  rw [helements, List.mapM_map]
  exact mapM_eq_map fun assignment _ ↦ readAssignment_eq assignment

/-! ### Variables -/

structure Reset.Printable (r : Reset) : Prop where
  location : IsPrintable r.location.text
  itemName : IsPrintable r.itemName
  itemPlatform : IsPrintable r.itemPlatform

structure Variable.Printable (variableName : String) (var : Variable) : Prop where
  name : IsPrintable variableName
  declareLocation : IsPrintable var.declareLocation.text
  resetHistory : ∀ r ∈ var.resetHistory, r.Printable
  assignmentHistory : ∀ assignment ∈ var.assignmentHistory, assignment.Printable

def variableAttributes (variableName : String) (var : Variable) : List (String × String) :=
  [("name", variableName), ("type", unparseType var.scope var.type var.listType),
    ("target-type", var.targetType.getName), ("declaration-location", var.declareLocation.text)]

/-- The element of a variable that has not been reset. -/
def variableNode (variableName : String) (var : Variable) : Xml.Node :=
  .element "variable" (variableAttributes variableName var)
    (blockChildren 1 (assignmentsNodes var.assignmentHistory))

section Variable

variable {variableName : String} {var : Variable} (h : var.Printable variableName)

include h

def variableWritten : List Xml.Written :=
  [written "name" variableName (by decide +kernel) h.name,
    written "type" (unparseType var.scope var.type var.listType) (by decide +kernel)
      (isPrintable_unparseType _ _ _),
    written "target-type" var.targetType.getName (by decide +kernel) (isPrintable_getName _),
    written "declaration-location" var.declareLocation.text (by decide +kernel) h.declareLocation]

theorem nodup_variableWritten : ((variableWritten h).map Xml.Written.key).Nodup := by
  simp [variableWritten, written]

/-- The text of a variable, with what comes in its histories. -/
theorem toList_dumpVariable : (dumpVariable variableName var).toList =
    [' '] ++ (Xml.openText "variable" (variableWritten h) ++ ['>'] ++
      (['\n'] ++ ((dumpResets var.resetHistory).toList ++
        (dumpAssignments var.assignmentHistory).toList) ++ [' ']) ++
          ('<' :: '/' :: "variable".toList ++ ['>'])) ++ ['\n'] := by
  unfold dumpVariable variableWritten Xml.openText
  simp [toList_written, xmlify_unparseType, xmlify_getName]

theorem content_dumpVariable (hreset : var.resetHistory = []) :
    Xml.Content (dumpVariable variableName var).toList
      (line 1 (variableNode variableName var)) := by
  have hblock := content_block "variable" rfl (nodup_variableWritten h)
    (content_dumpAssignments h.assignmentHistory) 1
  have hresets : (dumpResets var.resetHistory).toList = [] := by
    rw [hreset]
    rfl
  rw [toList_dumpVariable h, hresets, List.nil_append]
  exact hblock

end Variable

theorem readVariable_eq (variableName : String) {var : Variable} (hreset : var.resetHistory = []) :
    readVariable (variableAttributes variableName var,
      blockChildren 1 (assignmentsNodes var.assignmentHistory)) =
        some (var.toRecord variableName) := by
  have hkeys : (variableAttributes variableName var).lookup "name" = some variableName ∧
      (variableAttributes variableName var).lookup "type" =
        some (unparseType var.scope var.type var.listType) ∧
      (variableAttributes variableName var).lookup "target-type" = some var.targetType.getName ∧
      (variableAttributes variableName var).lookup "declaration-location" =
        some var.declareLocation.text := ⟨rfl, rfl, rfl, rfl⟩
  have hresets : elements "reset-history"
      (blockChildren 1 (assignmentsNodes var.assignmentHistory)) = [] := by
    rw [elements_blockChildren]
    unfold assignmentsNodes
    split_ifs
    · rfl
    · rw [elements_line]
      rfl
  unfold readVariable
  dsimp only
  rw [hkeys.1, hkeys.2.1, hkeys.2.2.1, hkeys.2.2.2, hresets, List.flatMap_nil,
    elements_blockChildren, readAssignments_eq]
  simp only [Option.bind_eq_bind, Option.bind_some, parseType_unparseType, getID_getName]
  unfold Variable.toRecord
  rw [hreset]
  rfl

/-! ### Resets -/

/-- What follows the location of a reset opens another tag. -/
theorem exists_next_tag (resets : List Reset) : ∃ gap after,
    (∀ c ∈ gap, c ≠ '"' ∧ c ≠ '&' ∧ c ≠ '<') ∧
      "/>\n".toList ++ ((resets.flatMap fun r ↦ (dumpReset r).toList) ++
        "  </reset-history>\n".toList) = gap ++ ['<'] ++ after := by
  cases resets with
  | nil => exact ⟨"/>\n  ".toList, "/reset-history>\n".toList, by simp, by simp⟩
  | cons r' resets =>
    refine ⟨"/>\n   ".toList, (dumpReset r').toList.drop 4 ++
      ((resets.flatMap fun r ↦ (dumpReset r).toList) ++ "  </reset-history>\n".toList), by simp, ?_⟩
    unfold dumpReset
    simp

section Resets

variable {r : Reset} {resets : List Reset} (h : r.Printable)

include h

def resetWritten : List Xml.Written :=
  [written "item-name" r.itemName (by decide +kernel) h.itemName,
    written "item-platform" r.itemPlatform (by decide +kernel) h.itemPlatform]

def resetLocation : Xml.Written := written "location" r.location.text (by decide +kernel) h.location

theorem toList_dumpReset : (dumpReset r).toList = "   ".toList ++
    (Xml.openText "reset" (resetWritten h) ++ (resetLocation h).unclosed) ++ "/>\n".toList := by
  unfold dumpReset Xml.openText
  simp [resetWritten, toList_written, resetLocation, unclosed_written]

/-- The location of a reset is not closed, so that the next tag begins inside it. -/
theorem stuck_dumpResets (resets : List Reset) :
    Xml.Stuck (dumpResets (r :: resets)).toList := by
  obtain ⟨gap, after, hgap, hnext⟩ := exists_next_tag resets
  have hlocation : Xml.Stuck
      (Xml.openText "reset" (resetWritten h) ++ (resetLocation h).unclosed ++ gap ++ ['<']) :=
    Xml.stuck_unclosed rfl (by simp [resetWritten, written]) _ hgap
  have htext : (dumpResets (r :: resets)).toList =
      "  ".toList ++ (Xml.openText "reset-history" [] ++ ['>'] ++ ("\n   ".toList ++
        (Xml.openText "reset" (resetWritten h) ++ (resetLocation h).unclosed ++ gap ++ ['<'] ++
          after))) := by
    have hassoc : Xml.openText "reset" (resetWritten h) ++ (resetLocation h).unclosed ++ gap ++
        ['<'] ++ after = Xml.openText "reset" (resetWritten h) ++ (resetLocation h).unclosed ++
          ("/>\n".toList ++ ((resets.flatMap fun r ↦ (dumpReset r).toList) ++
            "  </reset-history>\n".toList)) := by
      rw [hnext]
      simp only [List.append_assoc]
    rw [hassoc]
    unfold dumpResets
    rw [if_neg (by simp)]
    simp only [List.map_cons, String.join_cons, String.toList_append, String.toList_join,
      toList_dumpReset h, List.flatMap_map]
    unfold Xml.openText
    simp
  rw [htext]
  exact (Xml.content_space (by decide)).stuck (Xml.Stuck.startTag
    ((Xml.content_space (by decide)).stuck (hlocation.append after)) rfl
      List.nodup_nil)

end Resets

/-- A variable that has been reset. -/
theorem stuck_dumpVariable {variableName : String} {var : Variable}
    (h : var.Printable variableName) (hreset : var.resetHistory ≠ []) :
    Xml.Stuck (dumpVariable variableName var).toList := by
  obtain ⟨r, resets, hhistory⟩ := List.exists_cons_of_ne_nil hreset
  have hr : r.Printable := h.resetHistory r (hhistory ▸ List.mem_cons_self)
  rw [toList_dumpVariable h, hhistory]
  have hinner : Xml.Stuck (['\n'] ++ ((dumpResets (r :: resets)).toList ++
      (dumpAssignments var.assignmentHistory).toList) ++ [' ']) :=
    ((Xml.content_space (by decide)).stuck ((stuck_dumpResets hr resets).append _)).append _
  have hname : Xml.isName "variable".toList = true := by
    decide +kernel
  have htag := (hinner.startTag hname (nodup_variableWritten h)).append
    ('<' :: '/' :: "variable".toList ++ ['>'])
  exact ((Xml.content_space (by decide)).stuck htag).append ['\n']

/-! ### Interfaces -/

structure Printable (i : Interface) : Prop where
  itemName : IsPrintable i.itemName
  itemPlatform : IsPrintable i.itemPlatform
  symbolTable : ∀ x ∈ i.symbolTable.toList, x.2.Printable x.1

/-- No variable has been reset. -/
def NeverReset (i : Interface) : Prop := ∀ x ∈ i.symbolTable.toList, x.2.resetHistory = []

/-- From the dump the interface can be read back. -/
def Dumps (i : Interface) : Prop :=
  (Xml.read i.dump.toList).bind readInterface = some i.toRecord

def interfaceAttributes (i : Interface) : List (String × String) :=
  [("version", "1"), ("item-name", i.itemName), ("item-platform", i.itemPlatform)]

/-- The element of an interface that no variable has been reset in. -/
def interfaceNode (i : Interface) : Xml.Node :=
  .element "interface" (interfaceAttributes i)
    (blockChildren 0 (i.symbolTable.toList.flatMap fun x ↦ line 1 (variableNode x.1 x.2)))

theorem readInterface_eq {i : Interface} (hreset : i.NeverReset) :
    readInterface i.interfaceNode = some i.toRecord := by
  have hvariables : elements "variable" (blockChildren 0
      (i.symbolTable.toList.flatMap fun x ↦ line 1 (variableNode x.1 x.2))) =
        i.symbolTable.toList.map fun x ↦ (variableAttributes x.1 x.2,
          blockChildren 1 (assignmentsNodes x.2.assignmentHistory)) := by
    rw [elements_blockChildren, elements_flatMap, List.map_eq_flatMap]
    rfl
  have hmapM : i.symbolTable.toList.mapM (fun x ↦ readVariable (variableAttributes x.1 x.2,
      blockChildren 1 (assignmentsNodes x.2.assignmentHistory))) =
        some (i.symbolTable.toList.map fun x ↦ x.2.toRecord x.1) :=
    mapM_eq_map fun x hx ↦ readVariable_eq x.1 (hreset x hx)
  have hhead : (elements "interface" [interfaceNode i]).head? = some (interfaceAttributes i,
      blockChildren 0 (i.symbolTable.toList.flatMap fun x ↦ line 1 (variableNode x.1 x.2))) := rfl
  have hkeys : (interfaceAttributes i).lookup "item-name" = some i.itemName ∧
      (interfaceAttributes i).lookup "item-platform" = some i.itemPlatform := ⟨rfl, rfl⟩
  unfold readInterface
  rw [hhead]
  simp only [Option.bind_eq_bind, Option.bind_some]
  rw [hkeys.1, hkeys.2, hvariables, List.mapM_map]
  simp only [Option.bind_some]
  show (List.mapM (fun x : String × Variable ↦ readVariable _) _).bind _ = _
  rw [hmapM]
  rfl

section Interface

variable {i : Interface} (h : i.Printable)

include h

def interfaceWritten : List Xml.Written :=
  [written "version" "1" (by decide +kernel) (by decide +kernel),
    written "item-name" i.itemName (by decide +kernel) h.itemName,
    written "item-platform" i.itemPlatform (by decide +kernel) h.itemPlatform]

theorem nodup_interfaceWritten : ((interfaceWritten h).map Xml.Written.key).Nodup := by
  simp [interfaceWritten, written]

theorem toList_dump : i.dump.toList =
    Xml.declaration ++ (['\n'] ++ ((Xml.openText "interface" (interfaceWritten h) ++ ['>'] ++
      (['\n'] ++ (i.symbolTable.toList.flatMap fun x ↦ (dumpVariable x.1 x.2).toList) ++
        List.replicate 0 ' ') ++ ('<' :: '/' :: "interface".toList ++ ['>'])) ++ ['\n'])) := by
  have hversion : xmlify "1" true = "1" := by
    decide +kernel
  unfold dump interfaceWritten Xml.openText Xml.declaration
  simp [toList_written, hversion, String.toList_join, List.flatMap_map]

theorem read_dump (hreset : i.NeverReset) : Xml.read i.dump.toList = some i.interfaceNode := by
  have hvariables : Xml.Content
      (i.symbolTable.toList.flatMap fun x ↦ (dumpVariable x.1 x.2).toList)
      (i.symbolTable.toList.flatMap fun x ↦ line 1 (variableNode x.1 x.2)) :=
    Xml.Content.flatMap fun x hx ↦ content_dumpVariable (h.symbolTable x hx) (hreset x hx)
  rw [toList_dump h]
  exact Xml.read_document (by decide) (by decide) rfl (nodup_interfaceWritten h)
    (((Xml.content_space (by decide)).append hvariables).append (Xml.content_space (by decide)))

omit h in
/-- The first variable that has been reset. -/
theorem stuck_variables {declared : List (String × Variable)}
    (h : ∀ x ∈ declared, x.2.Printable x.1) (hreset : ∃ x ∈ declared, x.2.resetHistory ≠ []) :
    Xml.Stuck (declared.flatMap fun x ↦ (dumpVariable x.1 x.2).toList) := by
  induction declared with
  | nil =>
    obtain ⟨x, hx, -⟩ := hreset
    cases hx
  | cons x declared ih =>
    obtain ⟨hx, hrest⟩ := List.forall_mem_cons.mp h
    rw [List.flatMap_cons]
    by_cases hfirst : x.2.resetHistory = []
    · refine (content_dumpVariable hx hfirst).stuck (ih hrest ?_)
      obtain ⟨y, hy, hne⟩ := hreset
      rcases List.mem_cons.mp hy with rfl | hy
      · exact absurd hfirst hne
      · exact ⟨y, hy, hne⟩
    · exact (stuck_dumpVariable hx hfirst).append _

theorem read_dump_eq_none (hreset : ¬ i.NeverReset) : Xml.read i.dump.toList = none := by
  have hvariables : Xml.Stuck (['\n'] ++
      (i.symbolTable.toList.flatMap fun x ↦ (dumpVariable x.1 x.2).toList)) := by
    refine (Xml.content_space (by decide)).stuck (stuck_variables h.symbolTable ?_)
    by_contra hnone
    refine hreset fun x hx ↦ ?_
    by_contra hne
    exact hnone ⟨x, hx, hne⟩
  have hname : Xml.isName "interface".toList = true := by
    decide +kernel
  have hspace : ['\n'].all Xml.isSpace = true := by
    decide
  have hnone := Xml.read_eq_none hspace hname (nodup_interfaceWritten h) hvariables
    (List.replicate 0 ' ' ++ ('<' :: '/' :: "interface".toList ++ ['>']) ++ ['\n'])
  rw [toList_dump h]
  simpa only [List.append_assoc] using hnone

/-- The dump of an interface is well-formed, and the interface can be read back from it, exactly if
no variable has been reset. -/
theorem dumps_iff :
    ((Xml.read i.dump.toList).isSome = true ↔ i.NeverReset) ∧ (i.Dumps ↔ i.NeverReset) := by
  unfold Dumps
  by_cases hreset : i.NeverReset
  · rw [read_dump h hreset]
    exact ⟨iff_of_true rfl hreset, iff_of_true (readInterface_eq hreset) hreset⟩
  · rw [read_dump_eq_none h hreset]
    exact ⟨iff_of_false Bool.false_ne_true hreset, iff_of_false (fun hnone ↦ by cases hnone) hreset⟩

end Interface

/-! ### A variable that is assigned, and one that is reset -/

/-- The interface of an item that declares a variable. -/
def declaredInterface : Option Interface := do
  let i ← Interface.new "item6" "indep" "/item6"
  some (i.declareVariable (.new "item6" 1 1) "MOO" .recursive .string .scalar).interface

/-- The interface of an item that declares a variable and resets it. -/
def resetInterface : Option Interface :=
  declaredInterface.map fun i ↦ (i.resetVariable (.new "item6" 2 1) "MOO").interface

/-- The interface of an item that declares a variable and assigns it. -/
def assignedInterface : Option Interface :=
  declaredInterface.bind fun i ↦
    (i.assignVariable id (.new "item6" 2 1) "MOO" ["<cow>"] .normal "").map Outcome.interface

/-- The variable, with the history of its resets and of its assignments. -/
def mooVariables (resetHistory : List Reset) (assignmentHistory : List Assignment) :
    List (String × Variable) :=
  [("MOO",
    { name := "MOO"
      declareLocation := ⟨"item6", 1, 1⟩
      targetType := .all
      scope := .recursive
      type := .string
      listType := .scalar
      resetHistory
      assignmentHistory })]

def mooReset : Reset := ⟨⟨"item6", 2, 1⟩, "item6", "indep"⟩

def mooAssignment : Assignment :=
  ⟨⟨"item6", 2, 1⟩, .normal, "", "item6", "indep", ["<cow>"]⟩

example : dumpReset mooReset =
    "   <reset item-name=\"item6\" item-platform=\"indep\" location=\"item6:2:1/>\n" := by
  decide +kernel

theorem exists_of_fields (o : Option Interface) (table : List (String × Variable))
    (h : o.map (fun i ↦ (i.itemName, i.itemPlatform, i.symbolTable.toList)) =
      some ("item6", "indep", table))
    (htable : ∀ entry ∈ table, entry.2.Printable entry.1) :
    ∃ i, o = some i ∧ i.symbolTable.toList = table ∧ i.Printable := by
  obtain ⟨i, hi, heq⟩ := Option.map_eq_some_iff.mp h
  obtain ⟨hname, heq⟩ := Prod.mk.inj heq
  obtain ⟨hplatform, hsame⟩ := Prod.mk.inj heq
  exact ⟨i, hi, hsame, hname ▸ by decide +kernel, hplatform ▸ by decide +kernel, hsame ▸ htable⟩

theorem printable_mooVariables {resetHistory : List Reset} {assignmentHistory : List Assignment}
    (hreset : ∀ r ∈ resetHistory, r.Printable)
    (hassigned : ∀ assignment ∈ assignmentHistory, assignment.Printable) :
    ∀ entry ∈ mooVariables resetHistory assignmentHistory, entry.2.Printable entry.1 := by
  have hname : IsPrintable "MOO" := by decide +kernel
  have hlocation : IsPrintable (FileLocation.text ⟨"item6", 1, 1⟩) := by decide +kernel
  exact List.forall_mem_singleton.mpr ⟨hname, hlocation, hreset, hassigned⟩

theorem exists_resetInterface : ∃ i, resetInterface = some i ∧ i.Printable ∧ ¬ i.NeverReset := by
  obtain ⟨i, hi, htable, hprintable⟩ := exists_of_fields resetInterface
    (mooVariables [mooReset] []) (by decide +kernel)
    (printable_mooVariables (List.forall_mem_singleton.mpr
      ⟨by decide +kernel, by decide +kernel, by decide +kernel⟩)
      fun _ h ↦ absurd h List.not_mem_nil)
  refine ⟨i, hi, hprintable, fun hreset ↦ ?_⟩
  unfold NeverReset at hreset
  rw [htable] at hreset
  cases List.forall_mem_singleton.mp hreset

theorem exists_assignedInterface :
    ∃ i, assignedInterface = some i ∧ i.Printable ∧ i.NeverReset := by
  obtain ⟨i, hi, htable, hprintable⟩ := exists_of_fields assignedInterface
    (mooVariables [] [mooAssignment]) (by decide +kernel)
    (printable_mooVariables (fun _ h ↦ absurd h List.not_mem_nil)
      (List.forall_mem_singleton.mpr ⟨by decide +kernel, by decide +kernel, by decide +kernel,
        by decide +kernel, List.forall_mem_singleton.mpr (by decide +kernel)⟩))
  refine ⟨i, hi, hprintable, ?_⟩
  unfold NeverReset
  rw [htable]
  exact List.forall_mem_singleton.mpr rfl

theorem dumps_mooInterfaces :
    (∃ i, assignedInterface = some i ∧ (Xml.read i.dump.toList).isSome = true ∧ i.Dumps) ∧
      ∃ i, resetInterface = some i ∧ (Xml.read i.dump.toList).isSome = false ∧ ¬ i.Dumps := by
  constructor
  · obtain ⟨i, hi, hprintable, hnever⟩ := exists_assignedInterface
    obtain ⟨hread, hdumps⟩ := dumps_iff hprintable
    exact ⟨i, hi, hread.mpr hnever, hdumps.mpr hnever⟩
  · obtain ⟨i, hi, hprintable, hreset⟩ := exists_resetInterface
    obtain ⟨hread, hdumps⟩ := dumps_iff hprintable
    exact ⟨i, hi, Bool.eq_false_of_not_eq_true fun hsome ↦ hreset (hread.mp hsome),
      fun h ↦ hreset (hdumps.mp h)⟩

theorem not_dumps_resetInterface :
    ¬ ∀ i : Interface, i.Printable → (Xml.read i.dump.toList).isSome = true ∧ i.Dumps := by
  intro hall
  obtain ⟨i, -, hprintable, hreset⟩ := exists_resetInterface
  have hread := (hall i hprintable).1
  rw [read_dump_eq_none hprintable hreset] at hread
  cases hread

end Interface

end Abuild
