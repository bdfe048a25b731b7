import Abuild.Interface.Scalar

/-!
Calls on an interface that may report errors. A build goes on with the interface that a
call leaves (`left`), whether the call succeeded or not, and stops only where the
assertion of `assignVariable` fails: where an entry with the place and the platform of an
assignment is found that has another value. An import of one sound interface into
another gets to its end where the entries of both agree (`isSome_importInterface`).
-/

set_option autoImplicit false
set_option relaxedAutoImplicit false

namespace Abuild.Interface

open Relation Precedence
open Std (TreeMap TreeSet)

/-! ### Calls that may report errors -/

section Attempts

variable (canonicalizePath : String → String)

/-- The interface that a call leaves, whether it reports errors or not. -/
def left (o : Option Outcome) : Option Interface := o.map Outcome.interface

/-- A move on an interface, and the interface that it leaves. -/
inductive Attempts (i : Interface) : Move → Interface → Prop
  | kept (move : Move) : Attempts i move i
  | setLocalDirectory (localDir : String) :
    Attempts i (.setLocalDirectory localDir)
      { i with localDirectory := Util.normalizePathSeparators localDir }
  | setTargetType (targetType : TargetType) :
    Attempts i (.setTargetType targetType) { i with targetType }
  | declared (location : FileLocation) (targetType : TargetType) (name : String) (scope : Scope)
      (type : VariableType) (listType : ListType) (hnone : i.symbolTable[name]? = none) :
    Attempts i (.declare location targetType name scope type listType)
      (i.setVariable name ⟨name, location, targetType, scope, type, listType, [], []⟩)
  | reset (location : FileLocation) (name itemName itemPlatform : String) (clear : Bool)
      (var : Variable) (hvar : i.symbolTable[name]? = some var) :
    Attempts i (.reset location name itemName itemPlatform clear)
      (i.setVariable name (recordReset var ⟨location, itemName, itemPlatform⟩ clear))
  | recorded (location : FileLocation) (name : String) (values : List String)
      (assignmentType : AssignType) (flag itemName itemPlatform : String) (var : Variable)
      (stored : List String) (errors : List ErrorMessage)
      (hvar : i.symbolTable[name]? = some var)
      (hnew : findAssignment var location itemPlatform = none)
      (hvalue : i.checkValues canonicalizePath location var (assignedWords var values) =
        some (stored, errors)) :
    Attempts i (.assign location name values assignmentType flag itemName itemPlatform)
      (i.setVariable name
        (record var ⟨location, assignmentType, flag, itemName, itemPlatform, stored⟩))

theorem assignVariableAs_unknown {i : Interface} {location : FileLocation} {name : String}
    {values : List String} {assignmentType : AssignType} {flag itemName itemPlatform : String}
    (hnone : i.symbolTable[name]? = none) :
    i.assignVariableAs canonicalizePath location name values assignmentType flag itemName
      itemPlatform = some ⟨false, i, [(location, "assigning to unknown variable " ++ name)]⟩ := by
  unfold assignVariableAs
  rw [hnone]

theorem attempts_of_call {move : Move} {i j : Interface}
    (h : left (move.call canonicalizePath i) = some j) : Attempts canonicalizePath i move j := by
  obtain ⟨o, ho, rfl⟩ := Option.map_eq_some_iff.mp h
  cases move with
  | setLocalDirectory localDir =>
    obtain ⟨i', hi', rfl⟩ := Option.map_eq_some_iff.mp ho
    unfold Interface.setLocalDirectory at hi'
    split_ifs at hi'
    cases hi'
    exact .setLocalDirectory localDir
  | setTargetType targetType =>
    cases ho
    exact .setTargetType targetType
  | declare location targetType name scope type listType =>
    cases ho
    unfold declareVariableAs
    cases hvar : i.symbolTable[name]? with
    | none => exact .declared location targetType name scope type listType hvar
    | some var =>
      dsimp only
      split_ifs
      · exact .kept _
      · exact .kept _
  | reset location name itemName itemPlatform clear =>
    cases ho
    unfold resetVariableAs
    cases hvar : i.symbolTable[name]? with
    | none => exact .kept _
    | some var => exact .reset location name itemName itemPlatform clear var hvar
  | assign location name values assignmentType flag itemName itemPlatform =>
    replace ho : i.assignVariableAs canonicalizePath location name values assignmentType flag
      itemName itemPlatform = some o := ho
    cases hvar : i.symbolTable[name]? with
    | none =>
      rw [assignVariableAs_unknown canonicalizePath hvar] at ho
      cases ho
      exact .kept _
    | some var =>
      rw [assignVariableAs_eq canonicalizePath hvar] at ho
      obtain ⟨⟨stored, errors⟩, hvalue, ho⟩ := Option.bind_eq_some_iff.mp ho
      cases hold : findAssignment var location itemPlatform with
      | some old =>
        simp only [hold] at ho
        split_ifs at ho
        cases ho
        exact .kept _
      | none =>
        simp only [hold] at ho
        cases ho
        exact .recorded location name values assignmentType flag itemName itemPlatform var stored
          errors hvar hold hvalue

/-- The assertion fails where an entry is found that has another value. -/
theorem assign_isSome_iff {i : Interface} {location : FileLocation} {name : String}
    {values : List String} {assignmentType : AssignType} {flag itemName itemPlatform : String} :
    (left ((Move.assign location name values assignmentType flag itemName itemPlatform).call
      canonicalizePath i)).isSome ↔
    ∀ var old, i.symbolTable[name]? = some var →
      findAssignment var location itemPlatform = some old → ∃ errors,
        i.checkValues canonicalizePath location var (assignedWords var values) =
          some (old.value, errors) := by
  unfold left Move.call
  rw [Option.isSome_map]
  cases hvar : i.symbolTable[name]? with
  | none => simp [assignVariableAs_unknown canonicalizePath hvar]
  | some var =>
    dsimp only
    obtain ⟨⟨stored, errors⟩, hvalue⟩ := Option.isSome_iff_exists.mp
      (@checkValues_isSome canonicalizePath i location var (assignedWords var values))
    rw [assignVariableAs_eq canonicalizePath hvar, hvalue]
    cases hold : findAssignment var location itemPlatform with
    | none =>
      refine iff_of_true (by simp) fun var' old hvar' hold' ↦ ?_
      rw [← Option.some_inj.mp hvar', hold] at hold'
      cases hold'
    | some old =>
      simp only [Option.bind_some]
      constructor
      · intro h var' old' hvar' hold'
        obtain rfl := Option.some_inj.mp hvar'
        rw [hold, Option.some_inj] at hold'
        subst hold'
        split_ifs at h with hsame
        · exact ⟨errors, hsame ▸ hvalue⟩
        · cases h
      · intro h
        obtain ⟨errors', hvalue'⟩ := h var old rfl hold
        rw [hvalue, Option.some_inj, Prod.mk.injEq] at hvalue'
        rw [if_pos hvalue'.1.symm]
        rfl

variable {canonicalizePath} {i j : Interface} {move : Move}

theorem Attempts.names (h : Attempts canonicalizePath i move j) :
    j.itemName = i.itemName ∧ j.itemPlatform = i.itemPlatform := by
  cases h <;> exact ⟨rfl, rfl⟩

/-- What holds of all variables still does after a move. -/
theorem Attempts.each (h : Attempts canonicalizePath i move j) {P : String → Variable → Prop}
    (declared : ∀ location targetType name scope type listType,
      move = .declare location targetType name scope type listType →
      i.symbolTable[name]? = none →
      P name ⟨name, location, targetType, scope, type, listType, [], []⟩)
    (reset : ∀ name var reset clear, i.symbolTable[name]? = some var → P name var →
      P name (recordReset var reset clear))
    (recorded : ∀ location name values assignmentType flag itemName itemPlatform var stored errors,
      move = .assign location name values assignmentType flag itemName itemPlatform →
      i.symbolTable[name]? = some var → findAssignment var location itemPlatform = none →
      i.checkValues canonicalizePath location var (assignedWords var values) =
        some (stored, errors) → P name var →
      P name (record var ⟨location, assignmentType, flag, itemName, itemPlatform, stored⟩))
    (hall : ∀ (name : String) (var : Variable), i.symbolTable[name]? = some var → P name var)
    (name : String) (var : Variable) (hvar : j.symbolTable[name]? = some var) : P name var := by
  have hset : ∀ (k : String) (new : Variable), P k new →
      (i.setVariable k new).symbolTable[name]? = some var → P name var := by
    intro k new hnew hvar
    rw [setVariable_getElem?] at hvar
    split_ifs at hvar with hname
    · rw [hname, ← Option.some_inj.mp hvar]
      exact hnew
    · exact hall name var hvar
  cases h with
  | kept => exact hall name var hvar
  | setLocalDirectory => exact hall name var hvar
  | setTargetType => exact hall name var hvar
  | declared location targetType k scope type listType hnone =>
    exact hset k _ (declared location targetType k scope type listType rfl hnone) hvar
  | reset location k itemName itemPlatform clear old hold =>
    exact hset k _ (reset k old _ clear hold (hall k old hold)) hvar
  | recorded location k values assignmentType flag itemName itemPlatform old stored errors hold
      hnew hvalue =>
    exact hset k _ (recorded location k values assignmentType flag itemName itemPlatform old
      stored errors rfl hold hnew hvalue (hall k old hold)) hvar

end Attempts

/-! ### Values that are checked again -/

section Recheck

variable {canonicalizePath : String → String}

/-- A value that an assignment to a variable of some kind leaves as it is. -/
def Rechecked (canonicalizePath : String → String) (type : VariableType) (listType : ListType)
    (value : List String) : Prop :=
  ∀ (i : Interface) (location : FileLocation) (var : Variable), var.type = type →
    var.listType = listType → ∃ errors,
      i.checkValues canonicalizePath location var (assignedWords var value) = some (value, errors)

/-- The normal form of a file name stays as it is when an interface normalizes it again. -/
def StableName (canonicalizePath : String → String) (i : Interface) (value : String) : Prop :=
  ∀ path, i.normalizeFilename canonicalizePath value = some path →
    ∀ j : Interface, j.normalizeFilename canonicalizePath path = some path

theorem normalizeFilename_empty {i : Interface} {value : String} (hempty : value.isEmpty = true) :
    i.normalizeFilename canonicalizePath value = none := by
  rw [String.isEmpty_iff] at hempty
  subst hempty
  have hnormal : Util.normalizePathSeparators "" = "" := by
    unfold Util.normalizePathSeparators
    rw [← String.toList_inj, String.toList_map]
    rfl
  unfold normalizeFilename
  rw [hnormal]
  rfl

/-- What the check of a value makes of it is the same in another check. -/
theorem checkValue_again {i j : Interface} {location location' : FileLocation} {var var' : Variable}
    (htype : var'.type = var.type) {value stored : String} {errors : List ErrorMessage}
    (hstable : var.type = .filename → StableName canonicalizePath i value)
    (h : i.checkValue canonicalizePath location var value = some (stored, errors)) :
    ∃ errors', j.checkValue canonicalizePath location' var' stored = some (stored, errors') := by
  unfold checkValue at h ⊢
  rw [htype]
  cases hkind : var.type with
  | boolean =>
    simp only [hkind] at h
    dsimp only
    by_cases hdigit : value = "1" ∨ value = "0"
    · rw [if_pos hdigit] at h
      cases h
      exact ⟨[], if_pos hdigit⟩
    rw [if_neg hdigit] at h
    by_cases htrue : value = "true"
    · rw [if_pos htrue] at h
      cases h
      exact ⟨[], rfl⟩
    rw [if_neg htrue] at h
    by_cases hfalse : value = "false"
    · rw [if_pos hfalse] at h
      cases h
      exact ⟨[], rfl⟩
    rw [if_neg hfalse] at h
    -- a value with an error is kept as it was written
    cases h
    exact ⟨_, (if_neg hdigit).trans ((if_neg htrue).trans (if_neg hfalse))⟩
  | filename =>
    simp only [hkind] at h
    dsimp only
    by_cases hempty : value.isEmpty = true
    · rw [if_pos hempty] at h
      cases h
      exact ⟨_, if_pos hempty⟩
    · rw [if_neg hempty] at h
      obtain ⟨path, hpath, hstored⟩ := Option.bind_eq_some_iff.mp h
      cases hstored
      have hagain := hstable hkind stored hpath j
      have hne : ¬ stored.isEmpty = true := fun hnil ↦ by
        rw [normalizeFilename_empty hnil] at hagain
        cases hagain
      refine ⟨[], (if_neg hne).trans ?_⟩
      rw [hagain]
      rfl
  | string =>
    simp only [hkind] at h
    cases h
    exact ⟨[], rfl⟩

theorem checkValues_again {i j : Interface} {location location' : FileLocation}
    {var var' : Variable} (htype : var'.type = var.type) {values stored : List String}
    {errors : List ErrorMessage}
    (hstable : var.type = .filename → ∀ value ∈ values, StableName canonicalizePath i value)
    (h : i.checkValues canonicalizePath location var values = some (stored, errors)) :
    (∃ errors', j.checkValues canonicalizePath location' var' stored = some (stored, errors')) ∧
      stored.length = values.length := by
  induction values generalizing stored errors with
  | nil =>
    obtain ⟨rfl, -⟩ := Prod.mk.inj (Option.some_inj.mp h)
    exact ⟨⟨[], rfl⟩, rfl⟩
  | cons value values ih =>
    unfold checkValues at h
    obtain ⟨⟨first, firstErrors⟩, hfirst, h⟩ := Option.bind_eq_some_iff.mp h
    obtain ⟨⟨rest, moreErrors⟩, hrest, h⟩ := Option.bind_eq_some_iff.mp h
    obtain ⟨rfl, -⟩ := Prod.mk.inj (Option.some_inj.mp h)
    obtain ⟨firstAgain, hfirst'⟩ := @checkValue_again canonicalizePath i j location location' var
      var' htype _ _ _ (fun hkind ↦ hstable hkind value List.mem_cons_self) hfirst
    obtain ⟨⟨moreAgain, hrest'⟩, hlength⟩ :=
      ih (fun hkind v hv ↦ hstable hkind v (List.mem_cons_of_mem _ hv)) hrest
    refine ⟨⟨firstAgain ++ moreAgain, ?_⟩, by rw [List.length_cons, List.length_cons, hlength]⟩
    unfold checkValues
    rw [hfirst']
    simp only [Option.bind_eq_bind, Option.bind_some]
    rw [hrest']
    rfl

/-- What an assignment stores is rechecked. -/
theorem rechecked_of_checkValues {i : Interface} {location : FileLocation} {var : Variable}
    {values stored : List String} {errors : List ErrorMessage}
    (hstable : var.type = .filename → ∀ value ∈ values, StableName canonicalizePath i value)
    (h : i.checkValues canonicalizePath location var (assignedWords var values) =
      some (stored, errors)) :
    Rechecked canonicalizePath var.type var.listType stored := by
  intro j location' var' htype hlist
  have hwordsStable : var.type = .filename →
      ∀ value ∈ assignedWords var values, StableName canonicalizePath i value := by
    intro hkind value hvalue
    unfold assignedWords at hvalue
    split_ifs at hvalue with hnil
    · obtain rfl := List.mem_singleton.mp hvalue
      intro path hpath
      rw [normalizeFilename_empty rfl] at hpath
      cases hpath
    · exact hstable hkind value hvalue
  obtain ⟨hagain, hlength⟩ := @checkValues_again canonicalizePath i j location location' var var'
    htype _ _ _ hwordsStable h
  have hwords : assignedWords var' stored = stored := by
    refine if_neg fun hempty ↦ ?_
    unfold assignedWords at hlength
    rw [hempty.2] at hlength
    split_ifs at hlength with hnil
    exact hnil ⟨hlist ▸ hempty.1, List.length_eq_zero_iff.mp hlength.symm⟩
  rw [hwords]
  exact hagain

end Recheck

/-! ### Imports that may report errors -/

section Imports

variable (canonicalizePath : String → String)

def attemptMoves (moves : List Move) (i : Interface) : Option Interface :=
  moves.foldlM (fun i move ↦ left (move.call canonicalizePath i)) i

theorem left_foldlM {β : Type} (f : β → Interface → Option Outcome) (items : List β) (o : Outcome) :
    left (items.foldlM (fun o b ↦ o.andThen (f b)) o) =
      items.foldlM (fun i b ↦ left (f b i)) o.interface := by
  induction items generalizing o with
  | nil => rfl
  | cons b items ih =>
    rw [List.foldlM_cons, List.foldlM_cons]
    cases hb : f b o.interface with
    | none => simp [Outcome.andThen, left, hb]
    | some o' =>
      have hthen : o.andThen (f b) = some ⟨o.status && o'.status, o'.interface,
          o.errors ++ o'.errors⟩ := by simp [Outcome.andThen, hb]
      rw [hthen, Option.bind_eq_bind, Option.bind_some, ih]
      rfl

theorem left_bind_foldlM {β : Type} (f : β → Interface → Option Outcome) (items : List β)
    (x : Option Outcome) : left (x.bind (items.foldlM (fun o b ↦ o.andThen (f b)))) =
      (left x).bind (items.foldlM fun i b ↦ left (f b i)) := by
  cases x with
  | none => rfl
  | some o => exact left_foldlM f items o

/-- The moves of an import of a variable that is declared. -/
def entryMoves (otherName : String) (var : Variable) : List Move :=
  (var.resetHistory.map fun reset ↦
    .reset reset.location var.name reset.itemName reset.itemPlatform false) ++
  (importedAssignments otherName var).map fun a ↦
    .assign a.location var.name a.value a.assignmentType a.flag a.itemName a.itemPlatform

variable {canonicalizePath}

theorem mem_entryMoves {otherName : String} {var : Variable} {move : Move} :
    move ∈ entryMoves otherName var ↔
      (∃ reset : Reset,
        reset ∈ var.resetHistory ∧
          move = .reset reset.location var.name reset.itemName reset.itemPlatform false) ∨
      ∃ a ∈ importedAssignments otherName var,
        move = .assign a.location var.name a.value a.assignmentType a.flag a.itemName
          a.itemPlatform := by
  unfold entryMoves
  rw [List.mem_append, List.mem_map, List.mem_map]
  constructor
  · rintro (⟨reset, hreset, rfl⟩ | ⟨a, ha, rfl⟩)
    · exact Or.inl ⟨reset, hreset, rfl⟩
    · exact Or.inr ⟨a, ha, rfl⟩
  · rintro (⟨reset, hreset, rfl⟩ | ⟨a, ha, rfl⟩)
    · exact Or.inl ⟨reset, hreset, rfl⟩
    · exact Or.inr ⟨a, ha, rfl⟩

/-- A declaration finds the variable, finds another one, or makes it. -/
theorem declareVariableAs_cases (i : Interface) (location : FileLocation)
    (targetType : TargetType) (name : String) (scope : Scope) (type : VariableType)
    (listType : ListType) :
    (∃ var, i.symbolTable[name]? = some var ∧ var.declareLocation = location ∧
      i.declareVariableAs location targetType name scope type listType = ⟨true, i, []⟩) ∨
    (∃ var errors, i.symbolTable[name]? = some var ∧ var.declareLocation ≠ location ∧
      i.declareVariableAs location targetType name scope type listType = ⟨false, i, errors⟩) ∨
    (i.symbolTable[name]? = none ∧
      i.declareVariableAs location targetType name scope type listType =
        ⟨true, i.setVariable name ⟨name, location, targetType, scope, type, listType, [], []⟩,
          []⟩) := by
  unfold declareVariableAs
  cases hvar : i.symbolTable[name]? with
  | none => exact Or.inr (Or.inr ⟨rfl, rfl⟩)
  | some var =>
    by_cases hlocation : var.declareLocation = location
    · exact Or.inl ⟨var, rfl, hlocation, if_pos hlocation⟩
    · exact Or.inr (Or.inl ⟨var, _, rfl, hlocation, if_neg hlocation⟩)

/-- The interface that the declaration of an imported variable leaves. -/
def declaredFor (var : Variable) (i : Interface) : Interface :=
  (i.declareVariableAs var.declareLocation var.targetType var.name var.scope var.type
    var.listType).interface

/-- The name of a variable is not taken by one that is declared elsewhere. -/
def Importable (var : Variable) (i : Interface) : Prop :=
  ∀ w, i.symbolTable[var.name]? = some w → w.declareLocation = var.declareLocation

theorem left_importVariable_kept {otherName : String} {var : Variable} {i : Interface}
    (h : var.scope = .local ∨ ¬ Importable var i) :
    left (importVariable canonicalizePath otherName var i) = some i := by
  unfold importVariable
  by_cases hscope : var.scope = .local
  · rw [if_pos hscope]
    rfl
  rw [if_neg hscope]
  obtain ⟨w, hw, hother⟩ : ∃ w, i.symbolTable[var.name]? = some w ∧
      w.declareLocation ≠ var.declareLocation := by
    simpa [Importable] using h.resolve_left hscope
  rcases declareVariableAs_cases i var.declareLocation var.targetType var.name var.scope var.type
    var.listType with ⟨w', hw', hsame, -⟩ | ⟨w', errors, -, -, hcall⟩ | ⟨hnone, -⟩
  · rw [hw, Option.some_inj] at hw'
    exact absurd (hw' ▸ hsame) hother
  · simp only [hcall]
    rfl
  · rw [hw] at hnone
    cases hnone

theorem left_importVariable {otherName : String} {var : Variable} {i : Interface}
    (hscope : var.scope ≠ .local) (himportable : Importable var i) :
    left (importVariable canonicalizePath otherName var i) =
      attemptMoves canonicalizePath (entryMoves otherName var) (declaredFor var i) := by
  have hstatus : (i.declareVariableAs var.declareLocation var.targetType var.name var.scope
      var.type var.listType).status = true := by
    rcases declareVariableAs_cases i var.declareLocation var.targetType var.name var.scope
      var.type var.listType with ⟨_, _, _, hcall⟩ | ⟨w, _, hw, hother, _⟩ | ⟨_, hcall⟩
    · rw [hcall]
    · exact absurd (himportable w hw) hother
    · rw [hcall]
  unfold importVariable
  rw [if_neg hscope]
  dsimp only
  rw [if_pos hstatus, Option.bind_eq_bind, left_bind_foldlM, left_foldlM]
  unfold attemptMoves entryMoves
  simp only [List.foldlM_append, List.foldlM_map]
  rfl

/-- The variable of an interface that another one is imported into. -/
def Imported (var : Variable) (i : Interface) : Prop :=
  ∃ w, i.symbolTable[var.name]? = some w ∧ w.declareLocation = var.declareLocation ∧
    w.type = var.type ∧ w.listType = var.listType ∧ DistinctKeys w

/-- The entries at the place of an assignment have its value. -/
def EntryAgrees (i : Interface) : Move → Prop
  | .assign location name values _ _ _ itemPlatform =>
    ∀ old ∈ history name i, old.key = (location, itemPlatform) → old.value = values
  | _ => True

theorem findAssignment_of_mem {var : Variable} (h : DistinctKeys var) {a : Assignment}
    {location : FileLocation} {itemPlatform : String} (ha : a ∈ var.assignmentHistory)
    (hkey : a.key = (location, itemPlatform)) :
    findAssignment var location itemPlatform = some a := by
  cases hfind : findAssignment var location itemPlatform with
  | none => exact absurd hkey (findAssignment_eq_none hfind a ha)
  | some b =>
    obtain ⟨hb, hkey'⟩ := findAssignment_eq_some hfind
    rw [List.inj_on_of_nodup_map h hb ha (hkey'.trans hkey.symm)]

/-- An entry move keeps what is imported into, and adds one entry at most. -/
theorem Imported.attempts {otherName : String} {var : Variable} {i j : Interface} {move : Move}
    (hi : Imported var i) (hmove : move ∈ entryMoves otherName var)
    (h : Attempts canonicalizePath i move j) :
    Imported var j ∧ (j = i ∨
      (∃ w reset, i.symbolTable[var.name]? = some w ∧
        j = i.setVariable var.name (recordReset w reset false)) ∨
      ∃ w a stored errors, a ∈ importedAssignments otherName var ∧
        move = .assign a.location var.name a.value a.assignmentType a.flag a.itemName
          a.itemPlatform ∧
        i.symbolTable[var.name]? = some w ∧ findAssignment w a.location a.itemPlatform = none ∧
        i.checkValues canonicalizePath a.location w (assignedWords w a.value) =
          some (stored, errors) ∧
        j = i.setVariable var.name (record w { a with value := stored })) := by
  obtain ⟨w, hw, hlocation, htype, hlist, hkeys⟩ := hi
  cases h with
  | kept => exact ⟨⟨w, hw, hlocation, htype, hlist, hkeys⟩, Or.inl rfl⟩
  | setLocalDirectory => simp [mem_entryMoves] at hmove
  | setTargetType => simp [mem_entryMoves] at hmove
  | declared => simp [mem_entryMoves] at hmove
  | reset location name itemName itemPlatform clear old hold =>
    rcases mem_entryMoves.mp hmove with ⟨reset, -, heq⟩ | ⟨a, -, heq⟩
    · cases heq
      obtain rfl := Option.some_inj.mp (hold.symm.trans hw)
      exact ⟨⟨_, setVariable_self _ _ _, hlocation, htype, hlist, hkeys.recordReset _ false⟩,
        Or.inr (Or.inl ⟨old, _, hw, rfl⟩)⟩
    · cases heq
  | recorded location name values assignmentType flag itemName itemPlatform old stored errors hold
      hnone hvalue =>
    rcases mem_entryMoves.mp hmove with ⟨reset, -, heq⟩ | ⟨a, ha, heq⟩
    · cases heq
    · cases heq
      obtain rfl := Option.some_inj.mp (hold.symm.trans hw)
      exact ⟨⟨_, setVariable_self _ _ _, hlocation, htype, hlist, hkeys.record hnone⟩,
        Or.inr (Or.inr ⟨old, a, stored, errors, ha, rfl, hw, hnone, hvalue, rfl⟩)⟩

/-- The place and the platform of an assignment. -/
def Move.key : Move → Option (FileLocation × String)
  | .assign location _ _ _ _ _ itemPlatform => some (location, itemPlatform)
  | _ => none

theorem pairwise_entryMoves {otherName : String} {var : Variable} (h : DistinctKeys var) :
    (entryMoves otherName var).Pairwise fun move move' ↦
      ∀ key, move.key = some key → move'.key ≠ some key := by
  refine List.pairwise_append.mpr ⟨List.pairwise_map.mpr ?_, List.pairwise_map.mpr ?_, ?_⟩
  · exact List.pairwise_of_forall fun _ _ _ hkey ↦ absurd hkey (by simp [Move.key])
  · have himported : (importedAssignments otherName var).Pairwise fun a b ↦ a.key ≠ b.key :=
      (List.pairwise_map.mp h).sublist List.filter_sublist
    refine himported.imp fun {a b} hne key hkey hkey' ↦ hne ?_
    exact Option.some_inj.mp (hkey.trans hkey'.symm)
  · intro move hmove _ _ key hkey
    obtain ⟨reset, -, rfl⟩ := List.mem_map.mp hmove
    cases hkey

/-- An entry at another place does not bear on an assignment. -/
theorem EntryAgrees.congr {otherName : String} {var : Variable} {i j : Interface}
    {move move' : Move} (hmove' : move' ∈ entryMoves otherName var)
    (hkey : ∀ key, move.key = some key → move'.key ≠ some key)
    (hhistory : ∀ old, old ∈ history var.name j ↔ old ∈ history var.name i ∨
      old ∈ history var.name j ∧ move.key = some old.key) :
    EntryAgrees j move' ↔ EntryAgrees i move' := by
  rcases mem_entryMoves.mp hmove' with ⟨reset, -, rfl⟩ | ⟨a, -, rfl⟩
  · exact Iff.rfl
  · constructor
    · intro h old hold
      exact h old ((hhistory old).mpr (Or.inl hold))
    · intro h old hold hold'
      rcases (hhistory old).mp hold with hbefore | ⟨-, hnew⟩
      · exact h old hbefore hold'
      · exact absurd (congrArg some hold').symm (hkey _ hnew)

theorem entryAgrees_isSome_iff {i : Interface} {var w : Variable}
    (hw : i.symbolTable[var.name]? = some w) (hkeys : DistinctKeys w) {a : Assignment}
    (hrechecked : Rechecked canonicalizePath w.type w.listType a.value) :
    (left ((Move.assign a.location var.name a.value a.assignmentType a.flag a.itemName
      a.itemPlatform).call canonicalizePath i)).isSome ↔
    EntryAgrees i (.assign a.location var.name a.value a.assignmentType a.flag a.itemName
      a.itemPlatform) := by
  obtain ⟨errors, hvalue⟩ := hrechecked i a.location w rfl rfl
  rw [assign_isSome_iff]
  show _ ↔ ∀ old ∈ history var.name i, old.key = (a.location, a.itemPlatform) → old.value = a.value
  rw [history_eq hw]
  constructor
  · intro h old hold hkey
    obtain ⟨errors', hvalue'⟩ := h w old hw (findAssignment_of_mem hkeys hold hkey)
    rw [hvalue, Option.some_inj, Prod.mk.injEq] at hvalue'
    exact hvalue'.1.symm
  · intro h w' old hw' hold
    obtain rfl := Option.some_inj.mp (hw.symm.trans hw')
    obtain ⟨hmem, hkey⟩ := findAssignment_eq_some hold
    exact ⟨errors, h old hmem hkey ▸ hvalue⟩

/-- The moves of an import get to their end where every entry that is found again has
the value that is imported. -/
theorem isSome_attemptMoves_entryMoves {otherName : String} {var : Variable} {i : Interface}
    (hi : Imported var i) (hkeys : DistinctKeys var)
    (hrechecked : ∀ a ∈ importedAssignments otherName var,
      Rechecked canonicalizePath var.type var.listType a.value) :
    (attemptMoves canonicalizePath (entryMoves otherName var) i).isSome ↔
      ∀ move ∈ entryMoves otherName var, EntryAgrees i move := by
  refine Fallible.isSome_foldlM_iff_of_independent (motive := Imported var) hi ?_ ?_ ?_
  · intro move hmove s s' hs' hs
    exact (hs.attempts hmove (attempts_of_call canonicalizePath hs')).1
  · rintro move hmove s ⟨w, hw, -, htype, hlist, hdistinct⟩
    rcases mem_entryMoves.mp hmove with ⟨reset, -, rfl⟩ | ⟨a, ha, rfl⟩
    · exact iff_of_true rfl trivial
    · refine entryAgrees_isSome_iff hw hdistinct ?_
      rw [htype, hlist]
      exact hrechecked a ha
  · refine (pairwise_entryMoves hkeys).imp_of_mem
      fun {move move'} hmove hmove' hkey s s' hs' hs ↦ ?_
    refine EntryAgrees.congr hmove' hkey fun old ↦ ?_
    rcases (hs.attempts hmove (attempts_of_call canonicalizePath hs')).2 with rfl |
      ⟨w, reset, hw, rfl⟩ | ⟨w, a, stored, errors, -, rfl, hw, -, -, rfl⟩
    · exact (or_iff_left_of_imp And.left).symm
    · rw [history_eq (setVariable_self _ _ _), history_eq hw]
      exact (or_iff_left_of_imp And.left).symm
    · rw [history_eq (setVariable_self _ _ _), history_eq hw, mem_record]
      constructor
      · rintro (rfl | hold)
        · exact Or.inr ⟨Or.inl rfl, rfl⟩
        · exact Or.inl hold
      · rintro (hold | ⟨hold, -⟩)
        · exact Or.inr hold
        · exact hold

/-! ### Sound interfaces -/

/-- What a declaration at a place says of a variable. -/
abbrev Kinds := FileLocation → String → Scope × VariableType × ListType

/-- A variable is as it is declared, has one entry for a place and a platform, and its
entries have a source and keep their values when they are assigned again. -/
structure SoundVariable (canonicalizePath : String → String) (kind : Kinds)
    (source : String → FileLocation → Assignment → Prop) (name : String)
    (var : Variable) : Prop where
  name_eq : var.name = name
  kind_eq : kind var.declareLocation name = (var.scope, var.type, var.listType)
  distinct : DistinctKeys var
  rechecked : ∀ a ∈ var.assignmentHistory,
    Rechecked canonicalizePath var.type var.listType a.value
  sourced : ∀ a ∈ var.assignmentHistory, source name var.declareLocation a

def Sound (canonicalizePath : String → String) (kind : Kinds)
    (source : String → FileLocation → Assignment → Prop) (i : Interface) : Prop :=
  ∀ (name : String) (var : Variable), i.symbolTable[name]? = some var →
    SoundVariable canonicalizePath kind source name var

section Sound

variable {kind : Kinds} {source source' : String → FileLocation → Assignment → Prop}
  {i j other : Interface}

theorem Sound.mono (h : Sound canonicalizePath kind source i)
    (hsource : ∀ (name : String) (var : Variable), i.symbolTable[name]? = some var →
      ∀ a ∈ var.assignmentHistory, source name var.declareLocation a →
        source' name var.declareLocation a) :
    Sound canonicalizePath kind source' i := by
  intro name var hvar
  obtain ⟨hname, hkind, hdistinct, hrechecked, hsourced⟩ := h name var hvar
  exact ⟨hname, hkind, hdistinct, hrechecked, fun a ha ↦ hsource name var hvar a ha (hsourced a ha)⟩

theorem SoundVariable.record {name : String} {var : Variable} {a : Assignment}
    (h : SoundVariable canonicalizePath kind source name var)
    (hnew : findAssignment var a.location a.itemPlatform = none)
    (hrechecked : Rechecked canonicalizePath var.type var.listType a.value)
    (hsource : source name var.declareLocation a) :
    SoundVariable canonicalizePath kind source name (Interface.record var a) := by
  refine ⟨h.name_eq, h.kind_eq, h.distinct.record hnew, fun b hb ↦ ?_, fun b hb ↦ ?_⟩
  · rcases mem_record.mp hb with rfl | hb
    · exact hrechecked
    · exact h.rechecked b hb
  · rcases mem_record.mp hb with rfl | hb
    · exact hsource
    · exact h.sourced b hb

theorem SoundVariable.recordReset {name : String} {var : Variable}
    (h : SoundVariable canonicalizePath kind source name var) (reset : Reset) (clear : Bool) :
    SoundVariable canonicalizePath kind source name (Interface.recordReset var reset clear) := by
  have hmem : ∀ a ∈ (Interface.recordReset var reset clear).assignmentHistory,
      a ∈ var.assignmentHistory := by
    intro a ha
    cases clear
    · exact ha
    · cases ha
  exact ⟨h.name_eq, h.kind_eq, h.distinct.recordReset reset clear,
    fun a ha ↦ h.rechecked a (hmem a ha), fun a ha ↦ h.sourced a (hmem a ha)⟩

theorem soundVariable_declared {name : String} {location : FileLocation}
    {targetType : TargetType} {scope : Scope} {type : VariableType} {listType : ListType}
    (hkind : kind location name = (scope, type, listType)) :
    SoundVariable canonicalizePath kind source name
      ⟨name, location, targetType, scope, type, listType, [], []⟩ :=
  ⟨rfl, hkind, List.nodup_nil, fun _ ha ↦ absurd ha List.not_mem_nil,
    fun _ ha ↦ absurd ha List.not_mem_nil⟩

theorem Sound.setVariable (h : Sound canonicalizePath kind source i) {name : String}
    {var : Variable} (hvar : SoundVariable canonicalizePath kind source name var) :
    Sound canonicalizePath kind source (i.setVariable name var) := by
  intro k w hw
  rw [setVariable_getElem?] at hw
  split_ifs at hw with hk
  · rw [hk, ← Option.some_inj.mp hw]
    exact hvar
  · exact h k w hw

/-- The entries of an imported variable agree with those that it is imported to. -/
def VariableAgrees (otherName : String) (var : Variable) (i : Interface) : Prop :=
  var.scope ≠ .local → Importable var i → ∀ move ∈ entryMoves otherName var, EntryAgrees i move

section Variable

variable {var : Variable} {otherName : String}

/-- A sound variable is declared for its import in a sound interface. -/
theorem Sound.declaredFor (hi : Sound canonicalizePath kind source i)
    (hvar : SoundVariable canonicalizePath kind source var.name var)
    (himportable : Importable var i) :
    Sound canonicalizePath kind source (declaredFor var i) ∧ Imported var (declaredFor var i) ∧
      history var.name (declaredFor var i) = history var.name i := by
  unfold Interface.declaredFor
  rcases declareVariableAs_cases i var.declareLocation var.targetType var.name var.scope var.type
    var.listType with ⟨w, hw, hlocation, hcall⟩ | ⟨w, _, hw, hother, _⟩ | ⟨hnone, hcall⟩
  · rw [hcall]
    have hkind := (hi _ w hw).kind_eq
    rw [hlocation, hvar.kind_eq, Prod.mk.injEq, Prod.mk.injEq] at hkind
    exact ⟨hi, ⟨w, hw, hlocation, hkind.2.1.symm, hkind.2.2.symm, (hi _ w hw).distinct⟩, rfl⟩
  · exact absurd (himportable w hw) hother
  · rw [hcall]
    refine ⟨hi.setVariable (soundVariable_declared hvar.kind_eq), ⟨_, setVariable_self _ _ _, rfl,
      rfl, rfl, List.nodup_nil⟩, ?_⟩
    rw [history_eq (setVariable_self _ _ _)]
    unfold history
    rw [hnone]

theorem EntryAgrees.of_history {move : Move} (hmove : move ∈ entryMoves otherName var)
    (h : history var.name j = history var.name i) : EntryAgrees j move ↔ EntryAgrees i move :=
  @EntryAgrees.congr _ _ _ _ (.setTargetType .all) _ hmove (fun _ hkey ↦
    absurd hkey (by simp [Move.key]))
    fun _ ↦ by rw [h]; exact (or_iff_left_of_imp And.left).symm

theorem isSome_importVariable (hi : Sound canonicalizePath kind source i)
    (hvar : SoundVariable canonicalizePath kind source var.name var) :
    (left (importVariable canonicalizePath otherName var i)).isSome ↔
      VariableAgrees otherName var i := by
  by_cases hkept : var.scope = .local ∨ ¬ Importable var i
  · rw [left_importVariable_kept hkept]
    refine iff_of_true rfl fun hscope himportable ↦ ?_
    rcases hkept with hlocal | hnot
    · exact absurd hlocal hscope
    · exact absurd himportable hnot
  rw [not_or, not_not] at hkept
  obtain ⟨hscope, himportable⟩ := hkept
  obtain ⟨-, himported, hhistory⟩ := hi.declaredFor hvar himportable
  rw [left_importVariable hscope himportable, isSome_attemptMoves_entryMoves himported
    hvar.distinct fun a ha ↦ hvar.rechecked a (List.mem_of_mem_filter ha)]
  constructor
  · intro h _ _ move hmove
    exact (EntryAgrees.of_history hmove hhistory).mp (h move hmove)
  · intro h move hmove
    exact (EntryAgrees.of_history hmove hhistory).mpr (h hscope himportable move hmove)

theorem Sound.importVariable (hi : Sound canonicalizePath kind source i)
    (hvar : SoundVariable canonicalizePath kind source var.name var)
    (h : left (importVariable canonicalizePath otherName var i) = some j) :
    Sound canonicalizePath kind source j := by
  by_cases hkept : var.scope = .local ∨ ¬ Importable var i
  · rw [left_importVariable_kept hkept, Option.some_inj] at h
    exact h ▸ hi
  rw [not_or, not_not] at hkept
  obtain ⟨hscope, himportable⟩ := hkept
  obtain ⟨hsound, himported, -⟩ := hi.declaredFor hvar himportable
  rw [left_importVariable hscope himportable] at h
  refine (Fallible.foldlM_induction (motive := fun i ↦
    Sound canonicalizePath kind source i ∧ Imported var i) h ⟨hsound, himported⟩ ?_).1
  rintro move hmove s s' hs' ⟨hs, hsvar⟩
  obtain ⟨hsvar', heffect⟩ := hsvar.attempts hmove (attempts_of_call canonicalizePath hs')
  refine ⟨?_, hsvar'⟩
  rcases heffect with rfl | ⟨w, reset, hw, rfl⟩ |
    ⟨w, a, stored, errors, ha, rfl, hw, hnew, hvalue, rfl⟩
  · exact hs
  · exact hs.setVariable ((hs _ w hw).recordReset reset false)
  · obtain ⟨w', hw', hlocation, htype, hlist, -⟩ := hsvar
    obtain rfl := Option.some_inj.mp (hw.symm.trans hw')
    have ha := List.mem_of_mem_filter ha
    have hrechecked := hvar.rechecked a ha
    rw [← htype, ← hlist] at hrechecked
    -- the value of an entry is stored as it is
    obtain ⟨errors', hvalue'⟩ := hrechecked s a.location w rfl rfl
    rw [hvalue, Option.some_inj, Prod.mk.injEq] at hvalue'
    rw [hvalue'.1]
    have hsourced := hvar.sourced a ha
    rw [← hlocation] at hsourced
    exact hs.setVariable ((hs _ w hw).record hnew hrechecked hsourced)

end Variable

theorem left_importInterface : left (importInterface canonicalizePath i other) =
    other.symbolTable.toList.foldlM
      (fun i p ↦ left (importVariable canonicalizePath other.itemName p.2 i)) i :=
  left_foldlM (fun (p : String × Variable) i ↦
    importVariable canonicalizePath other.itemName p.2 i) _ ⟨true, i, []⟩

theorem Sound.importInterface (hi : Sound canonicalizePath kind source i)
    (hother : Sound canonicalizePath kind source other)
    (h : left (importInterface canonicalizePath i other) = some j) :
    Sound canonicalizePath kind source j := by
  rw [left_importInterface] at h
  refine Fallible.foldlM_induction h hi fun p hp s s' hs' hs ↦ ?_
  have hvar := hother p.1 p.2 (TreeMap.mem_toList_iff_getElem?_eq_some.mp hp)
  exact hs.importVariable (hvar.name_eq.symm ▸ hvar) hs'

/-- An import gets to its end where the entries of every variable agree. -/
theorem isSome_importInterface (hi : Sound canonicalizePath kind source i)
    (hother : Sound canonicalizePath kind source other) :
    (left (importInterface canonicalizePath i other)).isSome ↔
      ∀ (name : String) (var : Variable), other.symbolTable[name]? = some var →
        VariableAgrees other.itemName var i := by
  have hsound : ∀ p ∈ other.symbolTable.toList, p.2.name = p.1 ∧
      SoundVariable canonicalizePath kind source p.2.name p.2 := by
    intro p hp
    have hvar := hother p.1 p.2 (TreeMap.mem_toList_iff_getElem?_eq_some.mp hp)
    exact ⟨hvar.name_eq, hvar.name_eq.symm ▸ hvar⟩
  rw [left_importInterface, Fallible.isSome_foldlM_iff_of_independent
    (motive := Sound canonicalizePath kind source)
    (P := fun i (p : String × Variable) ↦ VariableAgrees other.itemName p.2 i) hi]
  · constructor
    · intro h name var hvar
      exact h (name, var) (TreeMap.mem_toList_iff_getElem?_eq_some.mpr hvar)
    · intro h p hp
      exact h p.1 p.2 (TreeMap.mem_toList_iff_getElem?_eq_some.mp hp)
  · intro p hp s s' hs' hs
    exact hs.importVariable (hsound p hp).2 hs'
  · intro p hp s hs
    exact isSome_importVariable hs (hsound p hp).2
  -- the import of a variable does not change the variables of other names
  · refine other.symbolTable.distinct_keys_toList.imp_of_mem fun {p q} hp hq hne s s' hs' _ ↦ ?_
    obtain ⟨o, ho, rfl⟩ := Option.map_eq_some_iff.mp hs'
    have hnames : q.2.name ≠ p.2.name := by
      rw [(hsound p hp).1, (hsound q hq).1]
      intro heq
      exact hne (compare_eq_iff_eq.mpr heq.symm)
    have hsame := (importVariable_spec ho).1.others q.2.name hnames
    unfold VariableAgrees Importable
    rw [hsame]
    refine imp_congr_right fun _ ↦ imp_congr_right fun _ ↦ forall₂_congr fun move hmove ↦ ?_
    exact EntryAgrees.of_history hmove (history_congr hsame)

end Sound

end Imports

end Abuild.Interface
