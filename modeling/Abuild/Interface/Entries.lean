import Abuild.Interface.Network

/-!
The entries of the variables in a network of interfaces. A history has one entry for a
place and a platform, an import that is made again changes nothing, local variables
stay where they are, and the entries of a variable that is not recursive come from the
interface itself or from the item of one that it has imported.
-/

set_option autoImplicit false
set_option relaxedAutoImplicit false

namespace Abuild.Interface

open Relation (ReflTransGen)
open Std (TreeMap TreeSet)

/-! ### Where entries come from -/

section Near

variable {ι : Type}

/-- The node that an interface belongs to. -/
def node (i : Interface) : BuildNode := ⟨i.itemName, i.itemPlatform⟩

/-- An import of the interface of the same item on another platform. -/
def ImportsOwnItem (actions : List (Action ι)) (net : ι → Interface) (k other : ι) : Prop :=
  .importInterface k other ∈ actions ∧ (net other).itemName = (net k).itemName

/-- An entry is of the interface's node, or of that of an interface that it has imported or of one
that has come there by imports among the nodes of one item. -/
def Near (actions : List (Action ι)) (net : ι → Interface) (k : ι) (a : Assignment) : Prop :=
  a.node = (net k).node ∨
    ∃ other source, .importInterface k other ∈ actions ∧
      ReflTransGen (ImportsOwnItem actions net) other source ∧ a.node = (net source).node

variable {actions : List (Action ι)} {net : ι → Interface} {k : ι}

theorem itemName_of_importsOwnItem {source : ι}
    (h : ReflTransGen (ImportsOwnItem actions net) k source) :
    (net source).itemName = (net k).itemName := by
  induction h with
  | refl => rfl
  | tail _ himport ih => exact himport.2.trans ih

/-- The entries of the own item of an imported interface are near. -/
theorem Near.import {other : ι} {a b : Assignment} (h : Near actions net other a)
    (himport : .importInterface k other ∈ actions) (hname : a.itemName = (net other).itemName)
    (hb : b.node = a.node) : Near actions net k b := by
  rcases h with hown | ⟨next, source, hnext, hchain, hsource⟩
  · exact Or.inr ⟨other, other, himport, .refl, hb.trans hown⟩
  · refine Or.inr ⟨other, source, himport, .head ⟨hnext, ?_⟩ hchain, hb.trans hsource⟩
    have hitem : a.itemName = (net source).itemName := congrArg BuildNode.item hsource
    rw [← hname, hitem, itemName_of_importsOwnItem hchain]

end Near

section Entries

variable {ι : Type} [DecidableEq ι] {canonicalizePath : String → String}
  {actions : List (Action ι)} {net net' : ι → Interface}

/-! ### Entries -/

/-- The place and the platform of an assignment. -/
def Assignment.key (a : Assignment) : FileLocation × String := (a.location, a.itemPlatform)

/-- A history holds one entry for a place and a platform. -/
def DistinctKeys (var : Variable) : Prop := (var.assignmentHistory.map Assignment.key).Nodup

theorem findAssignment_eq_none {var : Variable} {location : FileLocation} {itemPlatform : String}
    (h : findAssignment var location itemPlatform = none) :
    ∀ a ∈ var.assignmentHistory, a.key ≠ (location, itemPlatform) := by
  intro a ha hkey
  have hnot := List.find?_eq_none.mp h a ha
  rw [decide_eq_true_iff] at hnot
  exact hnot (Prod.mk.inj hkey)

theorem findAssignment_eq_some {var : Variable} {location : FileLocation} {itemPlatform : String}
    {a : Assignment} (h : findAssignment var location itemPlatform = some a) :
    a ∈ var.assignmentHistory ∧ a.key = (location, itemPlatform) := by
  have hkey := List.find?_some h
  rw [decide_eq_true_iff] at hkey
  exact ⟨List.mem_of_find?_eq_some h, Prod.ext hkey.1 hkey.2⟩

theorem mem_record {var : Variable} {a b : Assignment} :
    b ∈ (record var a).assignmentHistory ↔ b = a ∨ b ∈ var.assignmentHistory := by
  unfold record
  split_ifs
  · exact List.mem_cons
  · rw [List.mem_append, List.mem_singleton, or_comm]

theorem DistinctKeys.record {var : Variable} {a : Assignment} (h : DistinctKeys var)
    (hnew : findAssignment var a.location a.itemPlatform = none) : DistinctKeys (record var a) := by
  have hkeys : a.key ∉ var.assignmentHistory.map Assignment.key := by
    intro hin
    obtain ⟨b, hb, hkey⟩ := List.mem_map.mp hin
    exact findAssignment_eq_none hnew b hb hkey
  unfold DistinctKeys Interface.record
  split_ifs
  · rw [List.map_cons]
    exact List.nodup_cons.mpr ⟨hkeys, h⟩
  · rw [List.map_append, List.map_singleton]
    exact List.nodup_append.mpr ⟨h, List.nodup_singleton _, fun k hk k' hk' heq ↦
      hkeys (List.mem_singleton.mp hk' ▸ heq ▸ hk)⟩

theorem DistinctKeys.recordReset {var : Variable} (h : DistinctKeys var) (reset : Reset)
    (clear : Bool) : DistinctKeys (recordReset var reset clear) := by
  cases clear
  · exact h
  · exact List.nodup_nil

theorem Changes.distinctKeys {i j : Interface} {move : Move}
    (h : Changes canonicalizePath i move j)
    (hall : ∀ (name : String) (var : Variable), i.symbolTable[name]? = some var →
      DistinctKeys var) (name : String) (var : Variable) (hvar : j.symbolTable[name]? = some var) :
    DistinctKeys var :=
  h.each (P := fun _ var ↦ DistinctKeys var) (fun _ _ _ _ _ _ _ _ ↦ List.nodup_nil)
    (fun _ _ _ _ _ _ _ _ hvar ↦ hvar.recordReset _ _)
    (fun _ _ _ _ _ _ _ _ _ _ _ hnew _ _ hvar ↦ hvar.record hnew) hall name var hvar

theorem Changes.named {i j : Interface} {move : Move} (h : Changes canonicalizePath i move j)
    (hnamed : Named i) : Named j := fun name var hvar ↦
  h.each (P := fun name var ↦ var.name = name) (fun _ _ _ _ _ _ _ _ ↦ rfl)
    (fun _ _ _ _ _ _ _ _ hname ↦ hname) (fun _ _ _ _ _ _ _ _ _ _ _ _ _ _ hname ↦ hname)
    hnamed name var hvar

/-! ### Imports that are repeated -/

/-- The moves that an import makes. -/
def Move.IsImport : Move → Prop
  | .declare .. => True
  | .reset _ _ _ _ clear => clear = false
  | .assign .. => True
  | _ => False

theorem isImport_of_mem {other : Interface} {move : Move} (h : move ∈ importMoves other) :
    move.IsImport := by
  obtain ⟨⟨name, var⟩, -, hmove⟩ := List.mem_flatMap.mp h
  simp only [variableMoves] at hmove
  split_ifs at hmove
  · cases hmove
  · rw [List.mem_append, List.mem_cons, List.mem_map, List.mem_map] at hmove
    rcases hmove with (rfl | ⟨reset, -, rfl⟩) | ⟨a, -, rfl⟩
    · exact trivial
    · rfl
    · exact trivial

/-- What an import keeps of a variable. -/
structure Grows (var var' : Variable) : Prop where
  name_eq : var'.name = var.name
  declareLocation_eq : var'.declareLocation = var.declareLocation
  scope_eq : var'.scope = var.scope
  type_eq : var'.type = var.type
  listType_eq : var'.listType = var.listType
  sublist : List.Sublist var.assignmentHistory var'.assignmentHistory
  mem_resets : ∀ r ∈ var.resetHistory, r ∈ var'.resetHistory
  find_eq : ∀ location itemPlatform a, findAssignment var location itemPlatform = some a →
    findAssignment var' location itemPlatform = some a

theorem Grows.refl (var : Variable) : Grows var var :=
  ⟨rfl, rfl, rfl, rfl, rfl, List.Sublist.refl _, fun _ ↦ id, fun _ _ _ ↦ id⟩

theorem grows_recordReset (var : Variable) (reset : Reset) :
    Grows var (recordReset var reset false) := by
  refine ⟨rfl, rfl, rfl, rfl, rfl, List.Sublist.refl _, fun r hr ↦ ?_, fun _ _ _ ↦ id⟩
  unfold recordReset
  dsimp only
  split_ifs
  · exact hr
  · exact List.mem_append_left _ hr

theorem grows_record {var : Variable} {a : Assignment}
    (hnew : findAssignment var a.location a.itemPlatform = none) : Grows var (record var a) := by
  refine ⟨rfl, rfl, rfl, rfl, rfl, ?_, fun _ ↦ id, fun location itemPlatform b hb ↦ ?_⟩
  · unfold record
    dsimp only
    split_ifs
    · exact List.sublist_cons_self a var.assignmentHistory
    · exact List.sublist_append_left var.assignmentHistory [a]
  unfold findAssignment record
  dsimp only
  split_ifs
  · rw [List.find?_cons_of_neg]
    · exact hb
    · rw [decide_eq_true_iff]
      rintro ⟨rfl, rfl⟩
      rw [hnew] at hb
      cases hb
  · rw [List.find?_append, show var.assignmentHistory.find? _ = some b from hb, Option.some_or]

theorem findAssignment_record {var : Variable} {a : Assignment}
    (hnew : findAssignment var a.location a.itemPlatform = none) :
    findAssignment (record var a) a.location a.itemPlatform = some a := by
  unfold findAssignment record
  dsimp only
  split_ifs
  · exact List.find?_cons_of_pos (by simp)
  · rw [List.find?_append, show var.assignmentHistory.find? _ = none from hnew, Option.none_or]
    exact List.find?_cons_of_pos (by simp)

theorem Changes.grows {i j : Interface} {move : Move} (h : Changes canonicalizePath i move j)
    (himport : move.IsImport) : j.localDirectory = i.localDirectory ∧
      ∀ (name : String) (var : Variable), i.symbolTable[name]? = some var →
        ∃ var', j.symbolTable[name]? = some var' ∧ Grows var var' := by
  have hset : ∀ (k : String) (old new : Variable), i.symbolTable[k]? = some old → Grows old new →
      ∀ (name : String) (var : Variable), i.symbolTable[name]? = some var →
        ∃ var', (i.setVariable k new).symbolTable[name]? = some var' ∧ Grows var var' := by
    intro k old new hold hgrows name var hvar
    rw [setVariable_getElem?]
    split_ifs with hname
    · subst hname
      rw [hold, Option.some_inj] at hvar
      exact ⟨new, rfl, hvar ▸ hgrows⟩
    · exact ⟨var, hvar, Grows.refl var⟩
  cases h with
  | setLocalDirectory => cases himport
  | setTargetType => cases himport
  | redeclared => exact ⟨rfl, fun name var hvar ↦ ⟨var, hvar, Grows.refl var⟩⟩
  | declared location targetType k scope type listType hnone =>
    refine ⟨rfl, fun name var hvar ↦ ⟨var, ?_, Grows.refl var⟩⟩
    rw [setVariable_getElem?, if_neg, hvar]
    rintro rfl
    rw [hnone] at hvar
    cases hvar
  | reset location k itemName itemPlatform clear old hold =>
    cases himport
    exact ⟨rfl, hset k old _ hold (grows_recordReset old _)⟩
  | repeated => exact ⟨rfl, fun name var hvar ↦ ⟨var, hvar, Grows.refl var⟩⟩
  | recorded location k values assignmentType flag itemName itemPlatform old stored hold hnew
      hvalue hword hcheck => exact ⟨rfl, hset k old _ hold (grows_record hnew)⟩

theorem checkValues_congr {i j : Interface} {var var' : Variable} {location : FileLocation}
    (hdirectory : j.localDirectory = i.localDirectory) (htype : var'.type = var.type)
    (hname : var'.name = var.name) (values : List String) :
    j.checkValues canonicalizePath location var' values =
      i.checkValues canonicalizePath location var values := by
  have hvalue : ∀ value, j.checkValue canonicalizePath location var' value =
      i.checkValue canonicalizePath location var value := by
    intro value
    unfold checkValue normalizeFilename
    rw [hdirectory, htype, hname]
  induction values with
  | nil => rfl
  | cons value values ih =>
    unfold checkValues
    rw [hvalue, ih]

/-- A move that leaves the variables as they are. -/
inductive Settled (canonicalizePath : String → String) (i : Interface) : Move → Prop
  | declare (targetType : TargetType) (name : String) (scope : Scope) (type : VariableType)
      (listType : ListType) (var : Variable) (hvar : i.symbolTable[name]? = some var) :
    Settled canonicalizePath i (.declare var.declareLocation targetType name scope type listType)
  | reset (location : FileLocation) (name itemName itemPlatform : String) (var : Variable)
      (hvar : i.symbolTable[name]? = some var)
      (hreset : ⟨location, itemName, itemPlatform⟩ ∈ var.resetHistory) :
    Settled canonicalizePath i (.reset location name itemName itemPlatform false)
  | assign (location : FileLocation) (name : String) (values : List String)
      (assignmentType : AssignType) (flag itemName itemPlatform : String) (var : Variable)
      (old : Assignment) (errors : List ErrorMessage) (hvar : i.symbolTable[name]? = some var)
      (hold : findAssignment var location itemPlatform = some old)
      (hvalue : i.checkValues canonicalizePath location var (assignedWords var values) =
        some (old.value, errors)) :
    Settled canonicalizePath i
      (.assign location name values assignmentType flag itemName itemPlatform)

/-- A settled move stays settled where variables grow. -/
theorem Settled.grow {i j : Interface} {move : Move} (h : Settled canonicalizePath i move)
    (hdirectory : j.localDirectory = i.localDirectory)
    (hgrows : ∀ (name : String) (var : Variable), i.symbolTable[name]? = some var →
      ∃ var', j.symbolTable[name]? = some var' ∧ Grows var var') :
    Settled canonicalizePath j move := by
  cases h with
  | declare targetType name scope type listType var hvar =>
    obtain ⟨var', hvar', hgrow⟩ := hgrows name var hvar
    rw [← hgrow.declareLocation_eq]
    exact .declare targetType name scope type listType var' hvar'
  | reset location name itemName itemPlatform var hvar hreset =>
    obtain ⟨var', hvar', hgrow⟩ := hgrows name var hvar
    exact .reset location name itemName itemPlatform var' hvar' (hgrow.mem_resets _ hreset)
  | assign location name values assignmentType flag itemName itemPlatform var old errors hvar hold
      hvalue =>
    obtain ⟨var', hvar', hgrow⟩ := hgrows name var hvar
    refine .assign location name values assignmentType flag itemName itemPlatform var' old errors
      hvar' (hgrow.find_eq _ _ _ hold) ?_
    unfold assignedWords
    rw [hgrow.listType_eq, checkValues_congr hdirectory hgrow.type_eq hgrow.name_eq]
    exact hvalue

/-- A move of an import is settled once it has been made. -/
theorem Changes.settled {i j : Interface} {move : Move} (h : Changes canonicalizePath i move j)
    (himport : move.IsImport) : Settled canonicalizePath j move := by
  cases h with
  | setLocalDirectory => cases himport
  | setTargetType => cases himport
  | redeclared targetType name scope type listType var hvar =>
    exact .declare targetType name scope type listType var hvar
  | declared location targetType name scope type listType hnone =>
    refine .declare targetType name scope type listType
      ⟨name, location, targetType, scope, type, listType, [], []⟩ ?_
    rw [setVariable_getElem?, if_pos rfl]
  | reset location name itemName itemPlatform clear var hvar =>
    cases himport
    refine .reset location name itemName itemPlatform
      (recordReset var ⟨location, itemName, itemPlatform⟩ false) ?_ ?_
    · rw [setVariable_getElem?, if_pos rfl]
    · unfold recordReset
      dsimp only
      split_ifs with hin
      · exact hin
      · exact List.mem_append_right _ (List.mem_singleton_self _)
  | repeated location name values assignmentType flag itemName itemPlatform var old errors hvar
      hold hvalue =>
    exact .assign location name values assignmentType flag itemName itemPlatform var old errors
      hvar hold hvalue
  | recorded location name values assignmentType flag itemName itemPlatform var stored hvar hnew
      hvalue hword hcheck =>
    refine .assign location name values assignmentType flag itemName itemPlatform
      (record var ⟨location, assignmentType, flag, itemName, itemPlatform, stored⟩)
      ⟨location, assignmentType, flag, itemName, itemPlatform, stored⟩ [] ?_
      (findAssignment_record hnew) ?_
    · rw [setVariable_getElem?, if_pos rfl]
    · rw [← hvalue]
      refine checkValues_congr ?_ ?_ ?_ _ <;> rfl

/-- Two interfaces have the same variables. -/
structure SameTable (i j : Interface) : Prop where
  localDirectory : j.localDirectory = i.localDirectory
  lookup : ∀ name : String, j.symbolTable[name]? = i.symbolTable[name]?

theorem Settled.congr {i j : Interface} {move : Move} (h : Settled canonicalizePath i move)
    (hsame : SameTable i j) : Settled canonicalizePath j move :=
  h.grow hsame.localDirectory fun name var hvar ↦
    ⟨var, (hsame.lookup name).trans hvar, Grows.refl var⟩

theorem Settled.succeed {i : Interface} {move : Move} (h : Settled canonicalizePath i move) :
    ∃ j, move.succeed canonicalizePath i = some j ∧ SameTable i j := by
  cases h with
  | declare targetType name scope type listType var hvar =>
    exact ⟨i, (succeed_iff canonicalizePath).mpr
      (.redeclared targetType name scope type listType var hvar), rfl, fun _ ↦ rfl⟩
  | reset location name itemName itemPlatform var hvar hreset =>
    refine ⟨_, (succeed_iff canonicalizePath).mpr
      (.reset location name itemName itemPlatform false var hvar), rfl, fun k ↦ ?_⟩
    have hsame : recordReset var ⟨location, itemName, itemPlatform⟩ false = var := by
      unfold recordReset
      rw [if_pos hreset]
      rfl
    rw [setVariable_getElem?, hsame]
    split_ifs with hname
    · rw [hname, hvar]
    · rfl
  | assign location name values assignmentType flag itemName itemPlatform var old errors hvar hold
      hvalue =>
    exact ⟨i, (succeed_iff canonicalizePath).mpr (.repeated location name values assignmentType
      flag itemName itemPlatform var old errors hvar hold hvalue), rfl, fun _ ↦ rfl⟩

theorem runMoves_settled {i : Interface} {moves : List Move}
    (h : ∀ move ∈ moves, Settled canonicalizePath i move) :
    ∃ j, runMoves canonicalizePath moves i = some j ∧ SameTable i j := by
  induction moves generalizing i with
  | nil => exact ⟨i, rfl, rfl, fun _ ↦ rfl⟩
  | cons move moves ih =>
    obtain ⟨i', hi', hsame⟩ := (h move List.mem_cons_self).succeed
    obtain ⟨j, hj, hsame'⟩ := ih fun move' hmove' ↦
      (h move' (List.mem_cons_of_mem _ hmove')).congr hsame
    refine ⟨j, ?_, hsame'.localDirectory.trans hsame.localDirectory,
      fun name ↦ (hsame'.lookup name).trans (hsame.lookup name)⟩
    rw [runMoves_cons, hi', Option.bind_some, hj]

theorem settled_of_runMoves {i j : Interface} {moves : List Move}
    (h : runMoves canonicalizePath moves i = some j) (himport : ∀ move ∈ moves, move.IsImport) :
    ∀ move ∈ moves, Settled canonicalizePath j move := by
  induction moves generalizing i with
  | nil => exact fun _ hmove ↦ absurd hmove List.not_mem_nil
  | cons move moves ih =>
    rw [runMoves_cons] at h
    obtain ⟨i', hi', hrest⟩ := Option.bind_eq_some_iff.mp h
    have himports : ∀ move ∈ moves, move.IsImport := fun move hmove ↦
      himport move (List.mem_cons_of_mem _ hmove)
    have hfirst := himport move List.mem_cons_self
    refine List.forall_mem_cons.mpr ⟨?_, ih hrest himports⟩
    refine runMoves_induction (motive := fun i ↦ Settled canonicalizePath i move) hrest
      (((succeed_iff canonicalizePath).mp hi').settled hfirst)
        fun move' hmove' i₁ i₂ hchanges h ↦ ?_
    obtain ⟨hdirectory, hgrows⟩ := hchanges.grows (himports move' hmove')
    exact h.grow hdirectory hgrows

/-- An import that is made again leaves the variables as they are. -/
theorem importInterface_again {i other : Interface} {o : Outcome}
    (h : importInterface canonicalizePath i other = some o) (hstatus : o.status = true) :
    ∃ o', importInterface canonicalizePath o.interface other = some o' ∧ o'.status = true ∧
      SameTable o.interface o'.interface := by
  have hrun := succeeded_eq_some.mpr ⟨o, h, hstatus, rfl⟩
  rw [succeeded_importInterface] at hrun
  obtain ⟨j, hj, hsame⟩ := runMoves_settled (settled_of_runMoves hrun fun _ ↦ isImport_of_mem)
  rw [← succeeded_importInterface] at hj
  obtain ⟨o', ho', hstatus', rfl⟩ := succeeded_eq_some.mp hj
  exact ⟨o', ho', hstatus', hsame⟩

/-! ### Scopes -/

/-- What an import does to one variable. -/
theorem importInterface_variable {i other : Interface} {o : Outcome} (hother : Named other)
    (h : importInterface canonicalizePath i other = some o) (hstatus : o.status = true)
    (name : String) :
    (∀ var, other.symbolTable[name]? = some var → var.scope ≠ .local → ∃ j j',
      j.symbolTable[name]? = i.symbolTable[name]? ∧
      runMoves canonicalizePath (variableMoves other.itemName var) j = some j' ∧
      j'.symbolTable[name]? = o.interface.symbolTable[name]?) ∧
    ((∀ var, other.symbolTable[name]? = some var → var.scope = .local) →
      o.interface.symbolTable[name]? = i.symbolTable[name]?) := by
  obtain ⟨-, -, -, hnone, hsome⟩ := importInterface_spec hother h hstatus name
  refine ⟨fun var hvar _ ↦ ?_, fun hlocal ↦ ?_⟩
  · obtain ⟨j, o', -, hj, hcall, hstatus', hsame⟩ := hsome var hvar
    have hrun := succeeded_eq_some.mpr ⟨o', hcall, hstatus', rfl⟩
    rw [succeeded_importVariable] at hrun
    exact ⟨j, o'.interface, hj, hrun, hsame⟩
  · cases hvar : other.symbolTable[name]? with
    | none => exact hnone hvar
    | some var =>
      obtain ⟨j, o', -, hj, hcall, -, hsame⟩ := hsome var hvar
      unfold importVariable at hcall
      rw [if_pos (hlocal var hvar), Option.some_inj] at hcall
      subst hcall
      exact hsame.symm.trans hj

/-- The declarations of a name at a place make it a variable that is not recursive. -/
def Nonrecursive (actions : List (Action ι)) (name : String) (location : FileLocation) : Prop :=
  ∀ k scope type listType, .call k (.declare location name scope type listType) ∈ actions →
    scope = .nonrecursive

/-- The variable of a name, where it is declared at a place, has near entries only. -/
def NearEntries (name : String) (location : FileLocation) (near : Assignment → Prop)
    (i : Interface) : Prop :=
  ∀ var, i.symbolTable[name]? = some var → var.declareLocation = location →
    var.scope = .nonrecursive ∧ ∀ a ∈ var.assignmentHistory, near a

theorem Changes.nearEntries {i j : Interface} {move : Move} {name : String}
    {location : FileLocation} {near : Assignment → Prop}
    (h : Changes canonicalizePath i move j)
    (declared : ∀ targetType scope type listType,
      move = .declare location targetType name scope type listType → scope = .nonrecursive)
    (recorded : ∀ location values assignmentType flag itemName itemPlatform stored,
      move = .assign location name values assignmentType flag itemName itemPlatform →
      near ⟨location, assignmentType, flag, itemName, itemPlatform, stored⟩)
    (hi : NearEntries name location near i) : NearEntries name location near j := by
  intro var hvar
  refine h.each (P := fun k var ↦ k = name → var.declareLocation = location →
    var.scope = .nonrecursive ∧ ∀ a ∈ var.assignmentHistory, near a) ?_ ?_ ?_
    (fun k var hvar hk ↦ hi var (hk ▸ hvar)) name var hvar rfl
  · rintro _ targetType _ scope type listType hmove - rfl rfl
    exact ⟨declared targetType scope type listType hmove, fun a ha ↦ absurd ha List.not_mem_nil⟩
  · intro _ _ _ _ clear old _ _ hold hname hlocation
    obtain ⟨hscope, hnear⟩ := hold hname hlocation
    refine ⟨hscope, fun a ha ↦ ?_⟩
    cases clear
    · exact hnear a ha
    · cases ha
  · rintro _ _ values assignmentType flag itemName itemPlatform old stored hmove - - - - hold rfl
      hlocation
    obtain ⟨hscope, hnear⟩ := hold rfl hlocation
    refine ⟨hscope, fun a ha ↦ ?_⟩
    rcases mem_record.mp ha with rfl | ha
    · exact recorded _ values assignmentType flag itemName itemPlatform stored hmove
    · exact hnear a ha

/-- The variable that an import leaves is declared where the imported one is. -/
theorem declared_of_variableMoves {otherName : String} {var : Variable} {i j : Interface}
    (hscope : var.scope ≠ .local)
    (h : runMoves canonicalizePath (variableMoves otherName var) i = some j) :
    ∃ w, j.symbolTable[var.name]? = some w ∧ w.declareLocation = var.declareLocation := by
  have himport : ∀ move ∈ variableMoves otherName var, move.IsImport := by
    intro move hmove
    unfold variableMoves at hmove
    rw [if_neg hscope, List.mem_append, List.mem_cons, List.mem_map, List.mem_map] at hmove
    rcases hmove with (rfl | ⟨reset, -, rfl⟩) | ⟨a, -, rfl⟩
    · exact trivial
    · rfl
    · exact trivial
  have hmem : .declare var.declareLocation var.targetType var.name var.scope var.type
      var.listType ∈ variableMoves otherName var := by
    unfold variableMoves
    rw [if_neg hscope]
    exact List.mem_append_left _ List.mem_cons_self
  have hsettled := settled_of_runMoves h himport _ hmem
  generalize hlocation : var.declareLocation = location at hsettled
  cases hsettled
  next w hw => exact ⟨w, hw, rfl⟩

theorem NearEntries.variableMoves {otherName name : String} {location : FileLocation}
    {near : Assignment → Prop} {var : Variable} {i j : Interface} (hname : var.name = name)
    (hscope : var.scope ≠ .local)
    (h : runMoves canonicalizePath (variableMoves otherName var) i = some j)
    (hvar : var.declareLocation = location → var.scope = .nonrecursive)
    (hother : var.declareLocation = location → ∀ a ∈ var.assignmentHistory,
      a.itemName = otherName → ∀ b : Assignment, b.node = a.node → near b)
    (hi : NearEntries name location near i) : NearEntries name location near j := by
  obtain ⟨w, hw, hdeclared⟩ := declared_of_variableMoves hscope h
  by_cases hlocation : var.declareLocation = location
  · have hnonrecursive := hvar hlocation
    refine runMoves_induction h hi fun move hmove i₁ i₂ hchanges hi₁ ↦ ?_
    unfold Interface.variableMoves at hmove
    rw [if_neg hscope, List.mem_append, List.mem_cons, List.mem_map, List.mem_map] at hmove
    refine hchanges.nearEntries (fun targetType scope type listType hdeclare ↦ ?_)
      (fun _ _ _ _ itemName _ _ hassign ↦ ?_) hi₁
    · rcases hmove with (rfl | ⟨reset, -, rfl⟩) | ⟨a, -, rfl⟩
      · cases hdeclare
        exact hnonrecursive
      · cases hdeclare
      · cases hdeclare
    · rcases hmove with (rfl | ⟨reset, -, rfl⟩) | ⟨a, ha, rfl⟩
      · cases hassign
      · cases hassign
      · cases hassign
        obtain ⟨hentry, himported⟩ := List.mem_filter.mp ha
        rw [decide_eq_true_iff, hnonrecursive] at himported
        exact hother hlocation a hentry (himported.resolve_left (by decide)) _ rfl
  · intro w' hw' hlocation'
    rw [← hname, hw, Option.some_inj] at hw'
    subst hw'
    exact absurd (hdeclared.symm.trans hlocation') hlocation

/-- An interface without variables. -/
def Fresh (i : Interface) : Prop := ∀ name : String, i.symbolTable[name]? = none

theorem Changes.node {i j : Interface} {move : Move} (h : Changes canonicalizePath i move j) :
    j.node = i.node := by
  obtain ⟨hname, hplatform⟩ := h.names
  unfold Interface.node
  rw [hname, hplatform]

/-- The interfaces of a network keep their nodes, and their variables stand under their
names. -/
theorem runActions_names (h : runActions canonicalizePath actions net = some net')
    (hfresh : ∀ k, Fresh (net k)) (k : ι) : (net' k).node = (net k).node ∧ Named (net' k) := by
  refine runActions_each (motive := fun k i ↦ i.node = (net k).node ∧ Named i) h
    (fun k ↦ ⟨rfl, fun name var hvar ↦ ?_⟩)
    (fun _ _ _ _ hchanges hi ↦ ⟨hchanges.node.trans hi.1, hchanges.named hi.2⟩) k
  rw [hfresh k name] at hvar
  cases hvar

/-- One action keeps the entries of a variable that is not recursive near. -/
theorem Action.run_nearEntries {name : String} {location : FileLocation}
    {near : ι → Assignment → Prop} {action : Action ι}
    (h : action.run canonicalizePath net = some net')
    (hnonrecursive : ∀ k scope type listType,
      action = .call k (.declare location name scope type listType) → scope = .nonrecursive)
    (hself : ∀ k (a : Assignment), a.node = (net k).node → near k a)
    (hother : ∀ k other, action = .importInterface k other → ∀ a, near other a →
      a.itemName = (net other).itemName → ∀ b : Assignment, b.node = a.node → near k b)
    (hnamed : ∀ k, Named (net k)) (hnear : ∀ k, NearEntries name location (near k) (net k))
    (k : ι) : NearEntries name location (near k) (net' k) := by
  cases action with
  | call target statement =>
    rw [Action.run_eq] at h
    obtain ⟨j, hj, rfl⟩ := Option.map_eq_some_iff.mp h
    rw [show Action.target (.call target statement) = target from rfl]
    by_cases hk : k = target
    · subst hk
      rw [Function.update_self]
      refine runMoves_induction (motive := NearEntries name location (near k)) hj (hnear k)
        fun move hmove i₁ i₂ hchanges hi₁ ↦ ?_
      obtain rfl := List.mem_singleton.mp hmove
      refine hchanges.nearEntries (fun targetType scope type listType hdeclare ↦ ?_)
        (fun _ _ _ _ itemName _ _ hassign ↦ hself k _ ?_) hi₁
      · cases statement <;> cases hdeclare
        exact hnonrecursive k _ _ _ rfl
      · cases statement <;> cases hassign
        rfl
    · rw [Function.update_of_ne hk]
      exact hnear k
  | importInterface target other =>
    obtain ⟨j, hj, rfl⟩ := Option.map_eq_some_iff.mp h
    obtain ⟨o, ho, hstatus, rfl⟩ := succeeded_eq_some.mp hj
    by_cases hk : k = target
    · subst hk
      rw [Function.update_self]
      obtain ⟨himport, hlocal⟩ := importInterface_variable (hnamed other) ho hstatus name
      by_cases hvar : ∃ var, (net other).symbolTable[name]? = some var ∧ var.scope ≠ .local
      · obtain ⟨var, hvar, hscope⟩ := hvar
        obtain ⟨i, i', hi, hmoves, hi'⟩ := himport var hvar hscope
        intro w hw
        rw [← hi'] at hw
        refine NearEntries.variableMoves (hnamed other name var hvar) hscope hmoves
          (fun hlocation ↦ (hnear other var hvar hlocation).1) ?_ ?_ w hw
        · exact fun hlocation a ha ↦
            hother k other rfl a ((hnear other var hvar hlocation).2 a ha)
        · intro w' hw'
          rw [hi] at hw'
          exact hnear k w' hw'
      · have hscope : ∀ var, (net other).symbolTable[name]? = some var → var.scope = .local :=
          fun var hvar' ↦ by_contra fun hscope ↦ hvar ⟨var, hvar', hscope⟩
        intro w hw
        rw [hlocal hscope] at hw
        exact hnear k w hw
    · rw [Function.update_of_ne hk]
      exact hnear k

/-- The entries of a variable that is not recursive. -/
theorem runActions_nonrecursive (h : runActions canonicalizePath actions net = some net')
    (hfresh : ∀ k, Fresh (net k)) {name : String} {location : FileLocation}
    (hnonrecursive : Nonrecursive actions name location) (k : ι) :
    NearEntries name location (Near actions net k) (net' k) := by
  have hstart : ∀ k, Named (net k) ∧ NearEntries name location (Near actions net k) (net k) := by
    refine fun k ↦ ⟨fun name var hvar ↦ ?_, fun var hvar ↦ ?_⟩
    · rw [hfresh k name] at hvar
      cases hvar
    · rw [hfresh k name] at hvar
      cases hvar
  refine (runActions_induction
    (motive := fun m ↦ (∀ k, (m k).node = (net k).node ∧ Named (m k)) ∧
      ∀ k, NearEntries name location (Near actions net k) (m k)) h
    ⟨fun k ↦ ⟨rfl, (hstart k).1⟩, fun k ↦ (hstart k).2⟩ ?_).2 k
  rintro action haction net₁ net₂ hrun ⟨hnames, hnear⟩
  refine ⟨Action.run_each (motive := fun k i ↦ i.node = (net k).node ∧ Named i) hrun
    hnames fun _ _ _ _ hchanges hi ↦ ⟨hchanges.node.trans hi.1, hchanges.named hi.2⟩, ?_⟩
  refine Action.run_nearEntries hrun (fun k scope type listType haction' ↦ ?_) (fun k a ha ↦ ?_)
    (fun k other haction' a ha hname b hb ↦ ?_) (fun k ↦ (hnames k).2) hnear
  · exact hnonrecursive k scope type listType (haction' ▸ haction)
  · exact Or.inl (ha.trans (hnames k).1)
  · exact ha.import (haction' ▸ haction)
      (hname.trans (congrArg BuildNode.item (hnames other).1)) hb

/-- In a network of interfaces that only succeeding calls have been made on, a history
has one entry for a place and a platform, an import that is made twice in a row is made
once, local variables are not imported, and the entries of a variable that is not
recursive are of the interface itself, or of one that has been imported, or have come
to that one by imports among the nodes of its item. -/
theorem runActions_entries (h : runActions canonicalizePath actions net = some net')
    (hfresh : ∀ k, Fresh (net k)) :
    (∀ k (name : String) (var : Variable), (net' k).symbolTable[name]? = some var →
      (var.assignmentHistory.map fun a ↦ (a.location, a.itemPlatform)).Nodup) ∧
    (∀ k other o, importInterface canonicalizePath (net' k) (net' other) = some o →
      o.status = true → ∃ o', importInterface canonicalizePath o.interface (net' other) = some o' ∧
        o'.status = true ∧
        ∀ name : String, o'.interface.symbolTable[name]? = o.interface.symbolTable[name]?) ∧
    (∀ k other o, importInterface canonicalizePath (net' k) (net' other) = some o →
      o.status = true → ∀ (name : String) (var : Variable),
        (net' other).symbolTable[name]? = some var → var.scope = .local →
          o.interface.symbolTable[name]? = (net' k).symbolTable[name]?) ∧
    (∀ k (name : String) (var : Variable), (net' k).symbolTable[name]? = some var →
      Nonrecursive actions name var.declareLocation →
        ∀ a ∈ var.assignmentHistory, Near actions net k a) := by
  refine ⟨fun k ↦ ?_, fun k other o ho hstatus ↦ ?_,
    fun k other o ho hstatus name var hvar hscope ↦ ?_, fun k name var hvar hnonrecursive ↦ ?_⟩
  · refine runActions_each (motive := fun _ i ↦ ∀ (name : String) (var : Variable),
      i.symbolTable[name]? = some var → DistinctKeys var) h (fun k name var hvar ↦ ?_)
      (fun _ _ _ _ hchanges ↦ hchanges.distinctKeys) k
    rw [hfresh k name] at hvar
    cases hvar
  · obtain ⟨o', ho', hstatus', hsame⟩ := importInterface_again ho hstatus
    exact ⟨o', ho', hstatus', hsame.lookup⟩
  · refine (importInterface_variable (runActions_names h hfresh other).2 ho hstatus name).2
      fun var' hvar' ↦ ?_
    rw [hvar, Option.some_inj] at hvar'
    exact hvar' ▸ hscope
  · exact (runActions_nonrecursive h hfresh hnonrecursive k var hvar rfl).2

end Entries

/-! ### An item on two platforms -/

/-- A library on two platforms and a program. -/
inductive Instance
  | javaLib
  | linuxLib
  | prog
deriving DecidableEq, Repr

def libraryInterfaces : Instance → Interface
  | .javaLib => ⟨"lib", "java", ∅, "/", .all⟩
  | .linuxLib => ⟨"lib", "linux", ∅, "/", .all⟩
  | .prog => ⟨"prog", "linux", ∅, "/", .all⟩

/-- The declaration and the assignment in the interface file of the library. -/
def libStatements (k : Instance) : List (Action Instance) :=
  [.call k (.declare ⟨"lib/Abuild.interface", 1, 1⟩ "FLAGS" .nonrecursive .string .append),
    .call k (.assign ⟨"lib/Abuild.interface", 2, 1⟩ "FLAGS" ["-g"] .normal "")]

/-- The library depends on its own instance on another platform, and the program on the library,
whose interface it imports twice. -/
def importsOwnItem : List (Action Instance) :=
  libStatements .javaLib ++ .importInterface .linuxLib .javaLib :: libStatements .linuxLib ++
    [.importInterface .prog .linuxLib, .importInterface .prog .linuxLib]

theorem runActions_entries_importsOwnItem :
    ∃ net, runActions id importsOwnItem libraryInterfaces = some net ∧
      (∀ k (name : String) (var : Variable), (net k).symbolTable[name]? = some var →
        (var.assignmentHistory.map fun a ↦ (a.location, a.itemPlatform)).Nodup) ∧
      ∀ k (name : String) (var : Variable), (net k).symbolTable[name]? = some var →
        Nonrecursive importsOwnItem name var.declareLocation →
          ∀ a ∈ var.assignmentHistory, Near importsOwnItem libraryInterfaces k a := by
  have hrun : (runActions id importsOwnItem libraryInterfaces).isSome := by decide
  obtain ⟨net, hnet⟩ := Option.isSome_iff_exists.mp hrun
  have hfresh : ∀ k, Fresh (libraryInterfaces k) := fun k _ ↦ by
    cases k <;> exact TreeMap.getElem?_emptyc
  obtain ⟨hdistinct, -, -, hnear⟩ := runActions_entries hnet hfresh
  exact ⟨net, hnet, hdistinct, hnear⟩

/-- The program has an entry of the library on a platform whose interface it has not imported. -/
theorem not_entries_importsOwnItem :
    ¬ ∀ (actions : List (Action Instance)) (net' : Instance → Interface),
      runActions id actions libraryInterfaces = some net' →
      ∀ k (name : String) (var : Variable), (net' k).symbolTable[name]? = some var →
        Nonrecursive actions name var.declareLocation → ∀ a ∈ var.assignmentHistory,
          a.node = (libraryInterfaces k).node ∨
            ∃ other, .importInterface k other ∈ actions ∧
              a.node = (libraryInterfaces other).node := by
  intro hall
  have hrun : (runActions id importsOwnItem libraryInterfaces).isSome := by decide
  obtain ⟨net, hnet⟩ := Option.isSome_iff_exists.mp hrun
  have hflags : (runActions id importsOwnItem libraryInterfaces).bind
      (fun net ↦ (net .prog).symbolTable["FLAGS"]?) = some
        { name := "FLAGS"
          declareLocation := ⟨"lib/Abuild.interface", 1, 1⟩
          targetType := .all
          scope := .nonrecursive
          type := .string
          listType := .append
          resetHistory := []
          assignmentHistory :=
            [⟨⟨"lib/Abuild.interface", 2, 1⟩, .normal, "", "lib", "java", ["-g"]⟩,
              ⟨⟨"lib/Abuild.interface", 2, 1⟩, .normal, "", "lib", "linux", ["-g"]⟩] } := by
    decide
  rw [hnet, Option.bind_some] at hflags
  have hnonrecursive : Nonrecursive importsOwnItem "FLAGS" ⟨"lib/Abuild.interface", 1, 1⟩ := by
    intro k scope type listType hmem
    simp [importsOwnItem, libStatements] at hmem
    rcases hmem with ⟨-, rfl, -⟩ | ⟨-, rfl, -⟩ <;> rfl
  rcases hall importsOwnItem net hnet .prog "FLAGS" _ hflags hnonrecursive _ List.mem_cons_self with
    hown | ⟨other, himport, hother⟩
  · exact absurd hown (by decide)
  · cases other with
    | javaLib => exact absurd himport (by decide)
    | linuxLib => exact absurd hother (by decide)
    | prog => exact absurd hother (by decide)

end Abuild.Interface
