import Abuild.Library.Precedence
import Abuild.Interface.Variable

/-!
The interfaces of the nodes of a build graph, from `createItemInterface` in
`Abuild-build.cc`: a node imports the finished interfaces of its direct
dependencies and then makes the calls of its own interface file. The history of a
list variable is merged from overlapping imports, with what is known already left
out. An entry stands for the place and the node that made the assignment (its
stamp); the stamps of a node are closed under dependencies and ordered by them
(`Gathered`), and the merge of two such histories keeps this.
-/

set_option autoImplicit false
set_option relaxedAutoImplicit false

namespace Abuild

open Relation Precedence
open Std (TreeMap TreeSet)

/-- A build item on one of its platforms. -/
structure BuildNode where
  item : String
  platform : String
deriving DecidableEq, Repr

namespace Interface

/-- A call on the interface of a node that its interface file makes. -/
inductive Statement
  | setLocalDirectory (localDir : String)
  | setTargetType (targetType : TargetType)
  | declare (location : FileLocation) (name : String) (scope : Scope) (type : VariableType)
      (listType : ListType)
  | reset (location : FileLocation) (name : String)
  | assign (location : FileLocation) (name : String) (values : List String)
      (assignmentType : AssignType) (flag : String)
deriving DecidableEq, Repr

section Create

variable (canonicalizePath : String → String)

def Statement.call (statement : Statement) (i : Interface) : Option Outcome :=
  match statement with
  | .setLocalDirectory localDir => (i.setLocalDirectory localDir).map fun i ↦ ⟨true, i, []⟩
  | .setTargetType targetType => some ⟨true, i.setTargetType targetType, []⟩
  | .declare location name scope type listType =>
    some (i.declareVariable location name scope type listType)
  | .reset location name => some (i.resetVariable location name)
  | .assign location name values assignmentType flag =>
    i.assignVariable canonicalizePath location name values assignmentType flag

/-- The interface of a node, made of the interfaces of its dependencies and of
its own statements. -/
def createItemInterface (finished : BuildNode → Interface) (node : BuildNode)
    (localDir : String) (deps : List BuildNode) (statements : List Statement) :
    Option Outcome := do
  let i ← Interface.new node.item node.platform localDir
  let o ← deps.foldlM
    (fun o dep ↦ o.andThen fun i ↦ importInterface canonicalizePath i (finished dep))
    ⟨true, i, []⟩
  statements.foldlM (fun o statement ↦ o.andThen (statement.call canonicalizePath)) o

/-- A build graph with the finished interface of every node. The nodes of plugins
and of the base interface are nodes like any other. -/
structure InterfaceBuild where
  nodes : List BuildNode
  deps : BuildNode → List BuildNode
  localDir : BuildNode → String
  statements : BuildNode → List Statement
  finished : BuildNode → Interface
  deps_mem : ∀ x ∈ nodes, ∀ y ∈ deps x, y ∈ nodes
  acyclic : ∀ x ∈ nodes, ¬ TransGen (fun a b ↦ b ∈ deps a) x x
  created : ∀ x ∈ nodes, ∃ o,
    createItemInterface canonicalizePath finished x (localDir x) (deps x) (statements x) = some o ∧
    o.status = true ∧ o.interface = finished x

end Create

/-! ### The history of a list variable -/

/-- The assignments that the interface has recorded for a variable. -/
def history (name : String) (i : Interface) : List Assignment :=
  match i.symbolTable[name]? with
  | some var => var.assignmentHistory
  | none => []

theorem history_eq {name : String} {i : Interface} {var : Variable}
    (h : i.symbolTable[name]? = some var) : history name i = var.assignmentHistory := by
  unfold history
  rw [h]

theorem history_congr {name : String} {i j : Interface}
    (h : j.symbolTable[name]? = i.symbolTable[name]?) : history name j = history name i := by
  unfold history
  rw [h]

/-- The node that made an assignment. -/
def Assignment.node (a : Assignment) : BuildNode := ⟨a.itemName, a.itemPlatform⟩

/-- The place of an assignment and the node that made it. -/
abbrev Stamp := FileLocation × BuildNode

def Assignment.stamp (a : Assignment) : Stamp := (a.location, a.node)

def stamps (name : String) (i : Interface) : List Stamp :=
  (history name i).map Assignment.stamp

/-- The variables of the interface stand under their names, and the variable of
this name is of one kind, recursive, with unflagged entries only. -/
structure ListIn (name : String) (type : VariableType) (listType : ListType) (i : Interface) :
    Prop where
  named : Named i
  kind : ∀ var, i.symbolTable[name]? = some var →
    var.scope = .recursive ∧ var.type = type ∧ var.listType = listType
  unflagged : ∀ a ∈ history name i, a.flag = ""

/-- A value that the check of the type leaves as it is. -/
def Stable (canonicalizePath : String → String) (type : VariableType) (value : List String) :
    Prop :=
  ∀ (i : Interface) (location : FileLocation) (var : Variable), var.type = type →
    i.checkValues canonicalizePath location var value = some (value, [])

/-- Canonical paths are absolute, without backslashes, and canonical. -/
def Canonical (canonicalizePath : String → String) : Prop :=
  ∀ path, Util.isAbsolutePath (canonicalizePath path) = true ∧
    Util.normalizePathSeparators (canonicalizePath path) = canonicalizePath path ∧
    canonicalizePath (canonicalizePath path) = canonicalizePath path

section Merge

variable {canonicalizePath : String → String} {name : String} {type : VariableType}
  {listType : ListType}

theorem isEmpty_of_isAbsolutePath {path : String} (h : Util.isAbsolutePath path = true) :
    path.isEmpty = false := by
  rw [Bool.eq_false_iff]
  intro hempty
  rw [String.isEmpty_iff] at hempty
  subst hempty
  exact absurd h (by decide)

/-- A canonical path is its own normal form, whatever the local directory. -/
theorem normalizeFilename_canonical (hcanonical : Canonical canonicalizePath) (i : Interface)
    (path : String) :
    i.normalizeFilename canonicalizePath (canonicalizePath path) =
      some (canonicalizePath path) := by
  obtain ⟨habsolute, hseparators, hfixed⟩ := hcanonical path
  unfold normalizeFilename
  simp only [hseparators, isEmpty_of_isAbsolutePath habsolute, habsolute, hfixed, if_true,
    Bool.false_eq_true, if_false]

/-- A word that passed the check passes it again. -/
theorem checkValue_stable (hcanonical : type = .filename → Canonical canonicalizePath)
    {i j : Interface} {location location' : FileLocation} {var var' : Variable}
    (htype : var.type = type) (htype' : var'.type = type) {value stored : String}
    (h : i.checkValue canonicalizePath location var value = some (stored, [])) :
    j.checkValue canonicalizePath location' var' stored = some (stored, []) := by
  unfold checkValue at h ⊢
  rw [htype] at h
  rw [htype']
  cases type with
  | boolean =>
    dsimp only at h ⊢
    split_ifs at h with hdigit htrue hfalse
    · cases h
      rw [if_pos hdigit]
    · cases h
      rfl
    · cases h
      rfl
    · simp at h
  | filename =>
    dsimp only at h ⊢
    by_cases hempty : value.isEmpty = true
    · rw [if_pos hempty] at h
      simp at h
    · rw [if_neg hempty] at h
      obtain ⟨path, hpath, hsome⟩ := Option.bind_eq_some_iff.mp h
      obtain rfl : path = stored := by simpa using hsome
      obtain ⟨full, rfl⟩ : ∃ full, path = canonicalizePath full := by
        unfold normalizeFilename at hpath
        dsimp only at hpath
        split_ifs at hpath
        all_goals exact ⟨_, (Option.some_inj.mp hpath).symm⟩
      rw [isEmpty_of_isAbsolutePath (hcanonical rfl full).1, if_neg Bool.false_ne_true,
        normalizeFilename_canonical (hcanonical rfl)]
      rfl
  | string => rfl

/-- A value that passed the check passes it again. -/
theorem stable_checkValues (hcanonical : type = .filename → Canonical canonicalizePath)
    {i : Interface} {location : FileLocation} {var : Variable} (htype : var.type = type)
    {values stored : List String}
    (h : i.checkValues canonicalizePath location var values = some (stored, [])) :
    Stable canonicalizePath type stored := by
  induction values generalizing stored with
  | nil =>
    obtain rfl : stored = [] := by simpa [checkValues] using h.symm
    intro j location' var' _
    rfl
  | cons value values ih =>
    unfold checkValues at h
    obtain ⟨⟨first, errors⟩, hfirst, h⟩ := Option.bind_eq_some_iff.mp h
    obtain ⟨⟨rest, moreErrors⟩, hrest, h⟩ := Option.bind_eq_some_iff.mp h
    rw [Option.some_inj, Prod.mk.injEq, List.append_eq_nil_iff] at h
    obtain ⟨rfl, rfl, rfl⟩ := h
    intro j location' var' htype'
    unfold checkValues
    rw [checkValue_stable hcanonical htype htype' hfirst]
    simp only [Option.bind_eq_bind, Option.bind_some]
    rw [ih hrest j location' var' htype']
    rfl

theorem ListIn.congr {i j : Interface} (hi : ListIn name type listType i) (hj : Named j)
    (h : j.symbolTable[name]? = i.symbolTable[name]?) : ListIn name type listType j := by
  refine ⟨hj, ?_, ?_⟩
  · rw [h]
    exact hi.kind
  · rw [history_congr h]
    exact hi.unflagged

/-- A declaration that succeeds keeps the history. -/
theorem ListIn.declare {i : Interface} (hi : ListIn name type listType i)
    {location : FileLocation} {targetType : TargetType}
    (h : (i.declareVariableAs location targetType name .recursive type listType).status = true) :
    ListIn name type listType
      (i.declareVariableAs location targetType name .recursive type listType).interface ∧
    history name
      (i.declareVariableAs location targetType name .recursive type listType).interface =
        history name i := by
  have hnamed := (declareVariableAs_spec i location targetType name .recursive type listType).2
    hi.named
  rcases declareVariableAs_status h with ⟨var, hvar, heq⟩ | ⟨hnone, hnew⟩
  · rw [heq]
    exact ⟨hi, rfl⟩
  · have hempty : history name i = [] := by
      unfold history
      rw [hnone]
    refine ⟨⟨hnamed, fun w hw ↦ ?_, ?_⟩, ?_⟩
    · rw [hnew] at hw
      cases hw
      exact ⟨rfl, rfl, rfl⟩
    · rw [history_eq hnew]
      simp
    · rw [history_eq hnew, hempty]

/-- An import of a reset keeps the history. -/
theorem ListIn.importReset {i : Interface} (hi : ListIn name type listType i) {var : Variable}
    (hname : var.name = name) (reset : Reset) :
    ListIn name type listType (importReset var i reset).interface ∧
    history name (Interface.importReset var i reset).interface = history name i := by
  subst hname
  have hnamed := (resetVariableAs_spec i reset.location var.name reset.itemName
    reset.itemPlatform false).2 hi.named
  have hcase : (Interface.importReset var i reset).interface = i ∨
      ∃ w w', i.symbolTable[var.name]? = some w ∧
        (Interface.importReset var i reset).interface.symbolTable[var.name]? = some w' ∧
        w'.scope = w.scope ∧ w'.type = w.type ∧ w'.listType = w.listType ∧
        w'.assignmentHistory = w.assignmentHistory := by
    unfold Interface.importReset resetVariableAs
    split
    · exact Or.inl rfl
    · next w hw =>
      exact Or.inr ⟨w, _, hw, TreeMap.getElem?_insert_self, rfl, rfl, rfl, rfl⟩
  rcases hcase with heq | ⟨w, w', hw, hw', hscope, htype, hlist, hhistory⟩
  · rw [heq]
    exact ⟨hi, rfl⟩
  · have hsame : history var.name (Interface.importReset var i reset).interface =
        history var.name i := by rw [history_eq hw', history_eq hw, hhistory]
    refine ⟨⟨hnamed, fun u hu ↦ ?_, ?_⟩, hsame⟩
    · rw [hw'] at hu
      cases hu
      rw [hscope, htype, hlist]
      exact hi.kind w hw
    · rw [hsame]
      exact hi.unflagged

/-- An assignment to the variable that succeeds. -/
theorem ListIn.assign (hlist : listType ≠ .scalar) {i : Interface}
    (hi : ListIn name type listType i) {location : FileLocation} {values : List String}
    {assignmentType : AssignType} {itemName itemPlatform : String} {o : Outcome}
    (h : i.assignVariableAs canonicalizePath location name values assignmentType "" itemName
      itemPlatform = some o) (hstatus : o.status = true) :
    ListIn name type listType o.interface ∧
    (((∃ a ∈ history name i, Matches location itemPlatform a) ∧
        history name o.interface = history name i) ∨
      (∀ a ∈ history name i, ¬ Matches location itemPlatform a) ∧ ∃ var stored,
        var.type = type ∧ i.checkValues canonicalizePath location var values = some (stored, []) ∧
        history name o.interface =
          history name i ++ [⟨location, assignmentType, "", itemName, itemPlatform, stored⟩]) := by
  obtain ⟨var, hvar⟩ := assignVariableAs_known h hstatus
  have hnamed := (assignVariableAs_spec h).2 hi.named
  obtain ⟨hscope, htype, hkind⟩ := hi.kind var hvar
  rcases assign_list_spec hvar (hkind ▸ hlist) h hstatus with ⟨hold, heq⟩ | ⟨hnew, stored, hstored,
    hset⟩
  · rw [← history_eq hvar] at hold
    rw [heq]
    exact ⟨hi, Or.inl ⟨hold, rfl⟩⟩
  · rw [← history_eq hvar] at hnew hset
    have hhistory : history name o.interface = _ := history_eq hset
    refine ⟨⟨hnamed, fun w hw ↦ ?_, fun a ha ↦ ?_⟩,
      Or.inr ⟨hnew, var, stored, htype, hstored, hhistory⟩⟩
    · rw [hset] at hw
      cases hw
      exact ⟨hscope, htype, hkind⟩
    · rw [hhistory, List.mem_append, List.mem_singleton] at ha
      rcases ha with ha | rfl
      · exact hi.unflagged a ha
      · rfl

/-- Stamps that agree in place and platform are the same. -/
def Keyed (made : Stamp → Prop) : Prop :=
  ∀ p q, made p → made q → p.1 = q.1 → p.2.platform = q.2.platform → p = q

/-- The import of a history adds, in its order, what is not known already. -/
theorem ListIn.importAssignments (hlist : listType ≠ .scalar) {made : Stamp → Prop}
    (hkeyed : Keyed made) {var : Variable} (hname : var.name = name) {entries : List Assignment}
    (hflags : ∀ a ∈ entries, a.flag = "") (hnodup : (entries.map Assignment.stamp).Nodup)
    (hmade : ∀ a ∈ entries, made a.stamp) {o₀ o : Outcome}
    (h : entries.foldlM (fun o a ↦ o.andThen fun i ↦ importAssignment canonicalizePath var i a)
      o₀ = some o) (hstatus : o.status = true) (h₀ : ListIn name type listType o₀.interface)
    (hmade₀ : ∀ s ∈ stamps name o₀.interface, made s) :
    ListIn name type listType o.interface ∧
    stamps name o.interface = stamps name o₀.interface ++
      (entries.map Assignment.stamp).filter (fun s ↦ s ∉ stamps name o₀.interface) ∧
    ((∀ a ∈ entries, Stable canonicalizePath type a.value) →
      ∀ a ∈ history name o.interface, a ∈ history name o₀.interface ∨ a ∈ entries) := by
  refine foldlM_andThen
    (motive := fun before j ↦ ListIn name type listType j ∧
      stamps name j = stamps name o₀.interface ++
        (before.map Assignment.stamp).filter (fun s ↦ s ∉ stamps name o₀.interface) ∧
      ((∀ a ∈ entries, Stable canonicalizePath type a.value) →
        ∀ a ∈ history name j, a ∈ history name o₀.interface ∨ a ∈ before))
    entries h hstatus ?_ ?_
  · intro _
    exact ⟨h₀, by simp, fun _ a ha ↦ Or.inl ha⟩
  rintro before a after rfl j o' ho' hstatus' ⟨hj, hstamps, hvalues⟩
  have hflag := hflags a (by simp)
  unfold importAssignment at ho'
  rw [hflag, hname] at ho'
  obtain ⟨ho, hcases⟩ := hj.assign hlist ho' hstatus'
  have hfresh : a.stamp ∉ before.map Assignment.stamp := by
    rw [List.map_append, List.map_cons, List.nodup_append] at hnodup
    intro hin
    exact hnodup.2.2 _ hin _ List.mem_cons_self rfl
  rcases hcases with ⟨⟨b, hb, hlocation, hplatform⟩, hsame⟩ | ⟨hnew, w, stored, htype, hstored,
    hadd⟩
  · -- the entry found is the assignment itself, so the interface had it before the import
    have hbstamp : b.stamp ∈ stamps name j := List.mem_map_of_mem hb
    have hbefore : ∀ s ∈ stamps name j, s ∈ stamps name o₀.interface ∨
        s ∈ before.map Assignment.stamp := by
      intro s hs
      rw [hstamps, List.mem_append, List.mem_filter] at hs
      exact hs.imp id And.left
    have hbmade : made b.stamp := by
      rcases hbefore _ hbstamp with hb₀ | hb₁
      · exact hmade₀ _ hb₀
      · obtain ⟨c, hc, hcb⟩ := List.mem_map.mp hb₁
        rw [← hcb]
        exact hmade c (List.mem_append_left _ hc)
    have hab : b.stamp = a.stamp := hkeyed _ _ hbmade (hmade a (by simp)) hlocation hplatform
    have hold : a.stamp ∈ stamps name o₀.interface := by
      rw [← hab]
      exact (hbefore _ hbstamp).resolve_right (hab ▸ hfresh)
    refine ⟨ho, ?_, fun hstable c hc ↦ ?_⟩
    · rw [List.map_append, List.filter_append]
      show (history name o'.interface).map Assignment.stamp = _
      rw [hsame]
      show stamps name j = _
      simp [hstamps, hold]
    · rw [hsame] at hc
      exact (hvalues hstable c hc).imp id (List.mem_append_left _)
  · have hnot : a.stamp ∉ stamps name o₀.interface := by
      intro hin
      have hin' : a.stamp ∈ stamps name j := hstamps ▸ List.mem_append_left _ hin
      obtain ⟨b, hb, hab⟩ := List.mem_map.mp hin'
      have hparts : a.location = b.location ∧ a.itemPlatform = b.itemPlatform := by
        unfold Assignment.stamp Assignment.node at hab
        simp only [Prod.mk.injEq, BuildNode.mk.injEq] at hab
        exact ⟨hab.1.symm, hab.2.2.symm⟩
      exact hnew b hb ⟨hparts.1.symm, hparts.2.symm⟩
    refine ⟨ho, ?_, fun hstable c hc ↦ ?_⟩
    · rw [List.map_append, List.filter_append, ← List.append_assoc, ← hstamps]
      show (history name o'.interface).map Assignment.stamp = _
      rw [hadd, List.map_append]
      have hlast : ([a].map Assignment.stamp).filter (fun s ↦ s ∉ stamps name o₀.interface) =
          [a.stamp] := by simp [hnot]
      rw [hlast]
      rfl
    · rw [hadd, List.mem_append, List.mem_singleton] at hc
      rcases hc with hc | rfl
      · exact (hvalues hstable c hc).imp id (List.mem_append_left _)
      · have hvalue : stored = a.value := by
          have hfixed := hstable a (by simp) j a.location w htype
          rw [hfixed] at hstored
          simpa using hstored.symm
        have hentry : (⟨a.location, a.assignmentType, "", a.itemName, a.itemPlatform, stored⟩ :
            Assignment) = a := by
          rw [hvalue, ← hflag]
        rw [hentry]
        exact Or.inr (by simp)

/-- The import of a variable of the same kind that succeeds. -/
theorem ListIn.importVariable (hlist : listType ≠ .scalar) {made : Stamp → Prop}
    (hkeyed : Keyed made) {var : Variable} (hname : var.name = name)
    (hkind : var.scope = .recursive ∧ var.type = type ∧ var.listType = listType)
    (hflags : ∀ a ∈ var.assignmentHistory, a.flag = "")
    (hnodup : (var.assignmentHistory.map Assignment.stamp).Nodup)
    (hmade : ∀ a ∈ var.assignmentHistory, made a.stamp) {otherName : String} {i : Interface}
    (hi : ListIn name type listType i) (hmadei : ∀ s ∈ stamps name i, made s) {o : Outcome}
    (h : importVariable canonicalizePath otherName var i = some o) (hstatus : o.status = true) :
    ListIn name type listType o.interface ∧
    stamps name o.interface = stamps name i ++
      (var.assignmentHistory.map Assignment.stamp).filter (fun s ↦ s ∉ stamps name i) ∧
    ((∀ a ∈ var.assignmentHistory, Stable canonicalizePath type a.value) →
      ∀ a ∈ history name o.interface, a ∈ history name i ∨ a ∈ var.assignmentHistory) := by
  obtain ⟨hscope, htype, hlistType⟩ := hkind
  unfold Interface.importVariable at h
  rw [hscope, htype, hlistType, hname] at h
  dsimp only at h
  rw [if_neg (by decide)] at h
  split_ifs at h with hdeclared
  swap
  · cases h
    exact absurd hstatus hdeclared
  obtain ⟨o₁, ho₁, hassign⟩ := Option.bind_eq_some_iff.mp h
  obtain ⟨hi₀, hhistory₀⟩ := hi.declare hdeclared
  have hentries : importedAssignments otherName var = var.assignmentHistory := by
    unfold importedAssignments
    simp [hscope]
  rw [hentries] at hassign
  have hstatus₁ : o₁.status = true := status_of_foldlM hassign hstatus
  obtain ⟨hi₁, hhistory₁⟩ := foldlM_andThen
    (motive := fun _ j ↦ ListIn name type listType j ∧ history name j = history name i)
    var.resetHistory ho₁ hstatus₁ (fun _ ↦ ⟨hi₀, hhistory₀⟩) (by
      rintro before reset after - j o' ho' - ⟨hj, hhistory⟩
      cases ho'
      obtain ⟨hj', hhistory'⟩ := hj.importReset hname reset
      exact ⟨hj', hhistory'.trans hhistory⟩)
  have hstamps₁ : stamps name o₁.interface = stamps name i := by
    unfold stamps
    rw [hhistory₁]
  rw [← hstamps₁, ← hhistory₁]
  exact hi₁.importAssignments hlist hkeyed hname hflags hnodup hmade hassign hstatus
    (hstamps₁ ▸ hmadei)

/-- The import of an interface whose variable is of the same kind. -/
theorem ListIn.importInterface (hlist : listType ≠ .scalar) {made : Stamp → Prop}
    (hkeyed : Keyed made) {i other : Interface} (hi : ListIn name type listType i)
    (hother : ListIn name type listType other) (hmade : ∀ s ∈ stamps name i, made s)
    (hmade' : ∀ s ∈ stamps name other, made s) (hnodup : (stamps name other).Nodup) {o : Outcome}
    (h : importInterface canonicalizePath i other = some o) (hstatus : o.status = true) :
    ListIn name type listType o.interface ∧
    stamps name o.interface =
      stamps name i ++ (stamps name other).filter (fun s ↦ s ∉ stamps name i) ∧
    ((∀ a ∈ history name other, Stable canonicalizePath type a.value) →
      ∀ a ∈ history name o.interface, a ∈ history name i ∨ a ∈ history name other) := by
  obtain ⟨-, -, hnamed, habsent, hpresent⟩ := importInterface_spec hother.named h hstatus name
  cases hvar : other.symbolTable[name]? with
  | none =>
    have hsame := history_congr (habsent hvar)
    have hempty : history name other = [] := by
      unfold history
      rw [hvar]
    refine ⟨hi.congr (hnamed hi.named) (habsent hvar), ?_, fun _ a ha ↦ Or.inl (hsame ▸ ha)⟩
    unfold stamps
    rw [hsame, hempty]
    simp
  | some var =>
    obtain ⟨j, o', hjnamed, hji, hcall, hstatus', hresult⟩ := hpresent var hvar
    have hj : ListIn name type listType j := hi.congr (hjnamed hi.named) hji
    have hsame : history name j = history name i := history_congr hji
    have hother' : history name other = var.assignmentHistory := history_eq hvar
    obtain ⟨ho', hstamps, hvalues⟩ := hj.importVariable hlist hkeyed
      (hother.named name var hvar) (hother.kind var hvar) (hother' ▸ hother.unflagged)
      (by rw [← hother']; exact hnodup)
      (fun a ha ↦ hmade' _ (List.mem_map_of_mem (hother' ▸ ha)))
      (fun s hs ↦ hmade s (by unfold stamps at hs ⊢; rwa [← hsame])) hcall hstatus'
    have hlast : history name o.interface = history name o'.interface :=
      history_congr hresult.symm
    refine ⟨ho'.congr (hnamed hi.named) hresult.symm, ?_, ?_⟩
    · unfold stamps at hstamps ⊢
      rw [hlast, hstamps, hsame, hother']
    · rw [hlast, hother', ← hsame]
      exact hvalues

/-- The places at which the statements assign to a variable. -/
def assignedAt (name : String) (statements : List Statement) : List FileLocation :=
  statements.filterMap fun
    | .assign location assigned _ _ _ => if assigned = name then some location else none
    | _ => none

/-- Statements treat a variable as a recursive list variable: they declare it as
such, do not reset it, and give it unflagged normal assignments only. -/
structure ListStatements (name : String) (type : VariableType) (listType : ListType)
    (statements : List Statement) : Prop where
  declared : ∀ location scope type' listType',
    Statement.declare location name scope type' listType' ∈ statements →
      scope = .recursive ∧ type' = type ∧ listType' = listType
  neverReset : ∀ location, Statement.reset location name ∉ statements
  normal : ∀ location values assignmentType flag,
    Statement.assign location name values assignmentType flag ∈ statements →
      assignmentType = .normal ∧ flag = ""

/-- The entry has the words of one of the statements, as the type has them. -/
def Written (canonicalizePath : String → String) (name : String) (type : VariableType)
    (statements : List Statement) (a : Assignment) : Prop :=
  ∃ values assignmentType flag i var,
    Statement.assign a.location name values assignmentType flag ∈ statements ∧ var.type = type ∧
      Interface.checkValues canonicalizePath i a.location var values = some (a.value, [])

theorem Written.stable (hcanonical : type = .filename → Canonical canonicalizePath)
    {statements : List Statement} {a : Assignment}
    (h : Written canonicalizePath name type statements a) :
    Stable canonicalizePath type a.value := by
  obtain ⟨_, _, _, _, _, _, htype, hstored⟩ := h
  exact stable_checkValues hcanonical htype hstored

/-- A statement that does not assign to the variable keeps its history. -/
theorem ListIn.call_other {i : Interface} (hi : ListIn name type listType i)
    {statement : Statement} (hlist : ListStatements name type listType [statement])
    (hother : assignedAt name [statement] = []) {o : Outcome}
    (h : statement.call canonicalizePath i = some o) (hstatus : o.status = true) :
    ListIn name type listType o.interface ∧ history name o.interface = history name i ∧
    o.interface.itemName = i.itemName ∧ o.interface.itemPlatform = i.itemPlatform := by
  have hsame : ∀ {other : String} {j : Interface}, other ≠ name → SameBut other i j → Named j →
      ListIn name type listType j ∧ history name j = history name i ∧
        j.itemName = i.itemName ∧ j.itemPlatform = i.itemPlatform := by
    intro other j hne hbut hnamed
    have hvar := hbut.others name (Ne.symm hne)
    exact ⟨hi.congr hnamed hvar, history_congr hvar, hbut.itemName, hbut.itemPlatform⟩
  cases statement with
  | setLocalDirectory localDir =>
    obtain ⟨j, hj, rfl⟩ := Option.map_eq_some_iff.mp h
    unfold setLocalDirectory at hj
    split_ifs at hj
    cases hj
    exact ⟨⟨hi.named, hi.kind, hi.unflagged⟩, rfl, rfl, rfl⟩
  | setTargetType targetType =>
    cases h
    exact ⟨⟨hi.named, hi.kind, hi.unflagged⟩, rfl, rfl, rfl⟩
  | declare location other scope type' listType' =>
    cases h
    obtain ⟨hbut, hnamed⟩ :=
      declareVariableAs_spec i location i.targetType other scope type' listType'
    by_cases hname : other = name
    · subst hname
      obtain ⟨rfl, rfl, rfl⟩ := hlist.declared _ _ _ _ List.mem_cons_self
      obtain ⟨hkind, hhistory⟩ := hi.declare hstatus
      exact ⟨hkind, hhistory, hbut.itemName, hbut.itemPlatform⟩
    · exact hsame hname hbut (hnamed hi.named)
  | reset location other =>
    cases h
    obtain ⟨hbut, hnamed⟩ :=
      resetVariableAs_spec i location other i.itemName i.itemPlatform true
    refine hsame ?_ hbut (hnamed hi.named)
    rintro rfl
    exact hlist.neverReset location List.mem_cons_self
  | assign location other values assignmentType flag =>
    obtain ⟨hbut, hnamed⟩ := assignVariableAs_spec h
    refine hsame ?_ hbut (hnamed hi.named)
    rintro rfl
    simp [assignedAt] at hother

/-- An assignment of a node that the history does not hold is added at its end. -/
theorem ListIn.call_assign (hlist : listType ≠ .scalar) {made : Stamp → Prop}
    (hkeyed : Keyed made) {x : BuildNode} {i : Interface} (hi : ListIn name type listType i)
    (hnode : i.itemName = x.item ∧ i.itemPlatform = x.platform)
    (hmadei : ∀ s ∈ stamps name i, made s) {location : FileLocation}
    (hmadex : made (location, x)) (hnew : (location, x) ∉ stamps name i) {values : List String}
    {assignmentType : AssignType} {o : Outcome}
    (h : (Statement.assign location name values assignmentType "").call canonicalizePath i = some o)
    (hstatus : o.status = true) :
    ListIn name type listType o.interface ∧
    (o.interface.itemName = x.item ∧ o.interface.itemPlatform = x.platform) ∧ ∃ a,
      history name o.interface = history name i ++ [a] ∧ a.stamp = (location, x) ∧
      Written canonicalizePath name type [.assign location name values assignmentType ""] a := by
  have hbut := (assignVariableAs_spec h).1
  obtain ⟨ho, hcases⟩ := hi.assign hlist h hstatus
  rw [hnode.1, hnode.2] at hcases
  refine ⟨ho, ⟨hbut.itemName.trans hnode.1, hbut.itemPlatform.trans hnode.2⟩, ?_⟩
  rcases hcases with ⟨⟨b, hb, hlocation, hplatform⟩, -⟩ | ⟨-, w, stored, htype, hstored, hadd⟩
  · -- an entry at the place of this assignment would have its stamp
    have hb' : b.stamp ∈ stamps name i := List.mem_map_of_mem hb
    have heq : b.stamp = (location, x) := hkeyed _ _ (hmadei _ hb') hmadex hlocation hplatform
    exact absurd (heq ▸ hb') hnew
  · exact ⟨_, hadd, rfl, values, assignmentType, "", i, w, List.mem_cons_self, htype, hstored⟩

theorem assignedAt_append (l l' : List Statement) :
    assignedAt name (l ++ l') = assignedAt name l ++ assignedAt name l' := List.filterMap_append

theorem assignedAt_cons (statement : Statement) (l : List Statement) :
    assignedAt name (statement :: l) = assignedAt name [statement] ++ assignedAt name l :=
  assignedAt_append [statement] l

/-- A statement assigns to the variable at one place, or at none. -/
theorem assignedAt_singleton (statement : Statement) :
    assignedAt name [statement] = [] ∨ ∃ location values assignmentType flag,
      statement = .assign location name values assignmentType flag ∧
        assignedAt name [statement] = [location] := by
  cases statement with
  | assign location other values assignmentType flag =>
    by_cases hname : other = name
    · subst hname
      exact Or.inr ⟨location, values, assignmentType, flag, rfl, by simp [assignedAt]⟩
    · exact Or.inl (by simp [assignedAt, hname])
  | setLocalDirectory | setTargetType | declare | reset => exact Or.inl rfl

/-- The statements of a node add their assignments, in order, to what the node
imported. -/
theorem ListIn.statements (hlist : listType ≠ .scalar) {made : Stamp → Prop}
    (hkeyed : Keyed made) {x : BuildNode} {statements : List Statement}
    (hstatements : ListStatements name type listType statements)
    (hdistinct : (assignedAt name statements).Nodup)
    (hmade : ∀ location ∈ assignedAt name statements, made (location, x)) {o₀ o : Outcome}
    (h : statements.foldlM (fun o statement ↦ o.andThen (statement.call canonicalizePath)) o₀ =
      some o) (hstatus : o.status = true) (h₀ : ListIn name type listType o₀.interface)
    (hnode : o₀.interface.itemName = x.item ∧ o₀.interface.itemPlatform = x.platform)
    (hmade₀ : ∀ s ∈ stamps name o₀.interface, made s ∧ s.2 ≠ x) :
    ListIn name type listType o.interface ∧
    (o.interface.itemName = x.item ∧ o.interface.itemPlatform = x.platform) ∧ ∃ entries,
      history name o.interface = history name o₀.interface ++ entries ∧
      entries.map Assignment.stamp = (assignedAt name statements).map (fun l ↦ (l, x)) ∧
      ∀ a ∈ entries, Written canonicalizePath name type statements a := by
  refine foldlM_andThen
    (motive := fun before j ↦ ListIn name type listType j ∧
      (j.itemName = x.item ∧ j.itemPlatform = x.platform) ∧ ∃ entries,
        history name j = history name o₀.interface ++ entries ∧
        entries.map Assignment.stamp = (assignedAt name before).map (fun l ↦ (l, x)) ∧
        ∀ a ∈ entries, Written canonicalizePath name type statements a)
    statements h hstatus ?_ ?_
  · intro _
    exact ⟨h₀, hnode, [], by simp, rfl, by simp⟩
  rintro before statement after rfl j o' ho' hstatus' ⟨hj, hnode', entries, hhistory, hstamps,
    hwritten⟩
  have hone : ListStatements name type listType [statement] := by
    have hin : ∀ s ∈ [statement], s ∈ before ++ statement :: after := by simp
    exact ⟨fun l sc t lt hs ↦ hstatements.declared l sc t lt (hin _ hs),
      fun l hs ↦ hstatements.neverReset l (hin _ hs),
      fun l v t f hs ↦ hstatements.normal l v t f (hin _ hs)⟩
  rw [assignedAt_append, assignedAt_cons] at hdistinct hmade
  have hcases : assignedAt name [statement] = [] ∨ _ := assignedAt_singleton statement
  rcases hcases with hnone | ⟨location, values, assignmentType, flag, rfl, hsingle⟩
  · obtain ⟨hj', hhistory', hitem, hplatform⟩ := hj.call_other hone hnone ho' hstatus'
    refine ⟨hj', ⟨hitem.trans hnode'.1, hplatform.trans hnode'.2⟩, entries,
      hhistory'.trans hhistory, ?_, hwritten⟩
    rw [assignedAt_append, hnone, List.append_nil, hstamps]
  · obtain ⟨-, rfl⟩ := hone.normal _ _ _ _ List.mem_cons_self
    have hstampsj : stamps name j =
        stamps name o₀.interface ++ (assignedAt name before).map (fun l ↦ (l, x)) := by
      unfold stamps
      rw [hhistory, List.map_append, hstamps]
    rw [hsingle] at hmade hdistinct
    have hnew : (location, x) ∉ stamps name j := by
      rw [hstampsj, List.mem_append, not_or]
      refine ⟨fun hin ↦ (hmade₀ _ hin).2 rfl, fun hin ↦ ?_⟩
      obtain ⟨l, hl, heq⟩ := List.mem_map.mp hin
      cases heq
      exact (List.nodup_append.mp hdistinct).2.2 _ hl _ (by simp) rfl
    have hmadej : ∀ s ∈ stamps name j, made s := by
      rw [hstampsj]
      intro s hs
      rcases List.mem_append.mp hs with hs | hs
      · exact (hmade₀ s hs).1
      · obtain ⟨l, hl, rfl⟩ := List.mem_map.mp hs
        exact hmade l (List.mem_append_left _ hl)
    obtain ⟨hj', hnode'', a, hadd, hstamp, hnew'⟩ :=
      hj.call_assign hlist hkeyed hnode' hmadej (hmade location (by simp)) hnew ho' hstatus'
    refine ⟨hj', hnode'', entries ++ [a], ?_, ?_, fun b hb ↦ ?_⟩
    · rw [hadd, hhistory, List.append_assoc]
    · rw [assignedAt_append, hsingle, List.map_append, List.map_append, hstamps, List.map_singleton,
        List.map_singleton, hstamp]
    · rw [List.mem_append, List.mem_singleton] at hb
      rcases hb with hb | rfl
      · exact hwritten b hb
      · obtain ⟨values', assignmentType', flag, i, w, hin, hstored⟩ := hnew'
        exact ⟨values', assignmentType', flag, i, w, by simp [List.mem_singleton.mp hin], hstored⟩

/-- The words of an append list, in the order of the assignments, and those of a
prepend list, in the opposite order. -/
theorem valueOf_list (entries : List Assignment) :
    valueOf .append entries = entries.flatMap Assignment.value ∧
    valueOf .prepend entries = entries.reverse.flatMap Assignment.value := by
  constructor
  · show entries.foldl (fun value a ↦ value ++ a.value) [] = _
    induction entries using List.reverseRecOn with
    | nil => rfl
    | append_singleton entries a ih => simp [ih]
  · show entries.foldl (fun value a ↦ a.value ++ value) [] = _
    induction entries using List.reverseRecOn with
    | nil => rfl
    | append_singleton entries a ih => simp [ih]

/-- The value of a variable without flags is made of all entries. -/
theorem ListIn.getVariable {i : Interface} (hi : ListIn name type listType i)
    {flagData : FlagData} {info : VariableInfo} (h : i.getVariable name flagData = some info) :
    info.listType = listType ∧ info.value = valueOf listType (history name i) := by
  unfold Interface.getVariable at h
  split at h
  · cases h
  · next var hvar =>
    obtain ⟨-, -, hlist⟩ := hi.kind var hvar
    have hall : visibleAssignments flagData var = history name i := by
      rw [history_eq hvar]
      refine List.filter_eq_self.mpr fun a ha ↦ ?_
      have hflag := hi.unflagged a (by rw [history_eq hvar]; exact ha)
      simp [hflag]
    cases h
    exact ⟨hlist, by rw [hall, hlist]⟩

end Merge

/-! ### The graph -/

namespace InterfaceBuild

variable {canonicalizePath : String → String} (b : InterfaceBuild canonicalizePath)

def DependsOn (x y : BuildNode) : Prop := y ∈ b.deps x

/-- The stamp is of an assignment that its node makes. -/
def Made (name : String) (s : Stamp) : Prop := s.1 ∈ assignedAt name (b.statements s.2)

/-- The second assignment is made by a node that the node of the first depends
on. -/
def After (name : String) (p q : Stamp) : Prop := TransGen b.DependsOn p.2 q.2 ∧ b.Made name q

/-- A node and all nodes it depends on use a variable as a recursive list variable
of one kind, a node assigns to it at distinct places, and these are in no
interface file of another item. -/
structure ListVariable (name : String) (type : VariableType) (listType : ListType)
    (x : BuildNode) : Prop where
  list : listType ≠ .scalar
  statements : ∀ y, ReflTransGen b.DependsOn x y →
    ListStatements name type listType (b.statements y)
  distinct : ∀ y, ReflTransGen b.DependsOn x y → (assignedAt name (b.statements y)).Nodup
  unshared : ∀ y z, ReflTransGen b.DependsOn x y → ReflTransGen b.DependsOn x z →
    ∀ location ∈ assignedAt name (b.statements y),
      location ∈ assignedAt name (b.statements z) → y.item = z.item

/-- The interface has, once and in order, what the nodes of a set assign. -/
structure Gathered (name : String) (type : VariableType) (listType : ListType)
    (nodes : BuildNode → Prop) (i : Interface) : Prop where
  listIn : ListIn name type listType i
  nodup : (stamps name i).Nodup
  mem_iff : ∀ s, s ∈ stamps name i ↔ nodes s.2 ∧ b.Made name s
  ordered : Ordered (b.After name) (stamps name i)
  faithful : (type = .filename → Canonical canonicalizePath) → ∀ a ∈ history name i,
    Written canonicalizePath name type (b.statements a.node) a ∧
    a ∈ history name (b.finished a.node)

variable {b} {name : String} {type : VariableType} {listType : ListType}

theorem ListVariable.mono {x y : BuildNode} (h : b.ListVariable name type listType x)
    (hxy : ReflTransGen b.DependsOn x y) : b.ListVariable name type listType y :=
  ⟨h.list, fun z hz ↦ h.statements z (hxy.trans hz), fun z hz ↦ h.distinct z (hxy.trans hz),
    fun z w hz hw ↦ h.unshared z w (hxy.trans hz) (hxy.trans hw)⟩

theorem ListVariable.keyed {x : BuildNode} (h : b.ListVariable name type listType x) :
    Keyed fun s ↦ ReflTransGen b.DependsOn x s.2 ∧ b.Made name s := by
  rintro ⟨location, y⟩ ⟨location', z⟩ ⟨hy, hmade⟩ ⟨hz, hmade'⟩ hlocation hplatform
  dsimp only at hlocation hplatform
  subst hlocation
  have hitem : y.item = z.item := h.unshared y z hy hz location hmade hmade'
  have hnode : y = z := by
    obtain ⟨item, platform⟩ := y
    obtain ⟨item', platform'⟩ := z
    dsimp only at hitem hplatform
    rw [hitem, hplatform]
  rw [hnode]

theorem depends_mem {x y : BuildNode} (hx : x ∈ b.nodes) (h : ReflTransGen b.DependsOn x y) :
    y ∈ b.nodes := by
  induction h with
  | refl => exact hx
  | tail _ hstep ih => exact b.deps_mem _ ih _ hstep

/-- Two interfaces that have what two sets of nodes assign merge. -/
theorem Gathered.importInterface {x : BuildNode} (hx : b.ListVariable name type listType x)
    {nodes nodes' : BuildNode → Prop} {i other : Interface}
    (hi : b.Gathered name type listType nodes i)
    (hother : b.Gathered name type listType nodes' other)
    (hnodes : ∀ y, nodes y → ReflTransGen b.DependsOn x y)
    (hnodes' : ∀ y, nodes' y → ReflTransGen b.DependsOn x y) {o : Outcome}
    (h : importInterface canonicalizePath i other = some o) (hstatus : o.status = true) :
    b.Gathered name type listType (fun y ↦ nodes y ∨ nodes' y) o.interface := by
  obtain ⟨hlistIn, hstamps, hvalues⟩ := hi.listIn.importInterface hx.list hx.keyed hother.listIn
    (fun s hs ↦ ((hi.mem_iff s).mp hs).imp (hnodes s.2) id)
    (fun s hs ↦ ((hother.mem_iff s).mp hs).imp (hnodes' s.2) id) hother.nodup h hstatus
  refine ⟨hlistIn, ?_, fun s ↦ ?_, ?_, fun hcanonical a ha ↦ ?_⟩
  · rw [hstamps, List.nodup_append]
    refine ⟨hi.nodup, hother.nodup.filter _, ?_⟩
    rintro s hs s' hs' rfl
    simp only [List.mem_filter, decide_eq_true_eq] at hs'
    exact hs'.2 hs
  · have hmem : s ∈ stamps name o.interface ↔ s ∈ stamps name i ∨ s ∈ stamps name other := by
      rw [hstamps, List.mem_append, List.mem_filter, decide_eq_true_eq]
      by_cases hs : s ∈ stamps name i <;> simp [hs]
    rw [hmem, hi.mem_iff, hother.mem_iff, ← or_and_right]
  · rw [hstamps]
    exact hi.ordered.merge hother.ordered
  · have hstable : ∀ a ∈ history name other, Stable canonicalizePath type a.value :=
      fun a ha ↦ (hother.faithful hcanonical a ha).1.stable hcanonical
    rcases hvalues hstable a ha with ha | ha
    · exact hi.faithful hcanonical a ha
    · exact hother.faithful hcanonical a ha

/-- The interfaces of the dependencies, imported one after the other, merge. -/
theorem gathered_imports {x : BuildNode} (hx : b.ListVariable name type listType x)
    (hdeps : ∀ dep ∈ b.deps x,
      b.Gathered name type listType (ReflTransGen b.DependsOn dep) (b.finished dep))
    {i : Interface} (hi : i.symbolTable = ∅) {o : Outcome}
    (h : (b.deps x).foldlM
      (fun o dep ↦ o.andThen fun i ↦ importInterface canonicalizePath i (b.finished dep))
      ⟨true, i, []⟩ = some o) (hstatus : o.status = true) :
    b.Gathered name type listType (fun y ↦ TransGen b.DependsOn x y) o.interface ∧
    o.interface.itemName = i.itemName ∧ o.interface.itemPlatform = i.itemPlatform := by
  have habsent : ∀ k : String, i.symbolTable[k]? = none := fun k ↦ by simp [hi]
  have hempty : history name i = [] := by
    unfold history
    rw [habsent]
  have hrun := foldlM_andThen
    (motive := fun before j ↦
      b.Gathered name type listType (fun y ↦ ∃ dep ∈ before, ReflTransGen b.DependsOn dep y) j ∧
      j.itemName = i.itemName ∧ j.itemPlatform = i.itemPlatform)
    (b.deps x) h hstatus ?_ ?_
  · obtain ⟨hgathered, hnode⟩ := hrun
    refine ⟨⟨hgathered.listIn, hgathered.nodup, fun s ↦ ?_, hgathered.ordered,
      hgathered.faithful⟩, hnode⟩
    rw [hgathered.mem_iff]
    exact and_congr_left fun _ ↦ (TransGen.head'_iff (r := b.DependsOn)).symm
  · intro _
    refine ⟨⟨⟨fun k var hk ↦ ?_, fun var hvar ↦ ?_, ?_⟩, ?_, fun s ↦ ?_, ?_, fun _ ↦ ?_⟩, rfl, rfl⟩
    · rw [habsent] at hk
      cases hk
    · rw [habsent] at hvar
      cases hvar
    · simp [hempty]
    · simp [stamps, hempty]
    · simp [stamps, hempty]
    · simpa [stamps, hempty] using ordered_nil
    · simp [hempty]
  · rintro before dep after hsplit j o' ho' hstatus' ⟨hgathered, hnode⟩
    have hmem : ∀ d ∈ before ++ [dep], d ∈ b.deps x := fun d hd ↦ by
      rw [hsplit]
      simp only [List.mem_append, List.mem_cons, List.not_mem_nil, or_false] at hd ⊢
      exact hd.imp id Or.inl
    have hreach : ∀ d ∈ before ++ [dep], ∀ y, ReflTransGen b.DependsOn d y →
        ReflTransGen b.DependsOn x y := fun d hd y hy ↦ ReflTransGen.head (hmem d hd) hy
    have hdep := hdeps dep (hmem dep (by simp))
    obtain ⟨hitem, hplatform, -⟩ := importInterface_spec hdep.listIn.named ho' hstatus' name
    have hboth := hgathered.importInterface hx hdep
      (fun y ⟨d, hd, hy⟩ ↦ hreach d (List.mem_append_left _ hd) y hy)
      (hreach dep (by simp)) ho' hstatus'
    refine ⟨⟨hboth.listIn, hboth.nodup, fun s ↦ ?_, hboth.ordered, hboth.faithful⟩,
      hitem.trans hnode.1, hplatform.trans hnode.2⟩
    rw [hboth.mem_iff]
    simp only [List.mem_append, List.mem_singleton, or_and_right, exists_or, exists_eq_left]

/-- The finished interface of a node has what it and all nodes it depends on
assign. -/
theorem gathered : ∀ x ∈ b.nodes, b.ListVariable name type listType x →
    b.Gathered name type listType (ReflTransGen b.DependsOn x) (b.finished x) := by
  refine acyclic_induction b.deps_mem b.acyclic fun x hx ih hlist ↦ ?_
  obtain ⟨o, hcreate, hstatus, hfinished⟩ := b.created x hx
  unfold createItemInterface at hcreate
  obtain ⟨i, hnew, hcreate⟩ := Option.bind_eq_some_iff.mp hcreate
  obtain ⟨o₁, himports, hstatements⟩ := Option.bind_eq_some_iff.mp hcreate
  have hi : i.symbolTable = ∅ ∧ i.itemName = x.item ∧ i.itemPlatform = x.platform := by
    unfold Interface.new Interface.setLocalDirectory at hnew
    split_ifs at hnew
    cases hnew
    exact ⟨rfl, rfl, rfl⟩
  obtain ⟨hgathered, hitem, hplatform⟩ := gathered_imports hlist
    (fun dep hdep ↦ ih dep hdep (hlist.mono (ReflTransGen.single hdep))) hi.1 himports
    (status_of_foldlM hstatements hstatus)
  -- no dependency is the node itself, so its own stamps are new
  have hmade₁ : ∀ s ∈ stamps name o₁.interface,
      (ReflTransGen b.DependsOn x s.2 ∧ b.Made name s) ∧ s.2 ≠ x := by
    intro s hs
    obtain ⟨hdep, hmade⟩ := (hgathered.mem_iff s).mp hs
    exact ⟨⟨hdep.to_reflTransGen, hmade⟩, fun heq ↦ b.acyclic x hx (heq ▸ hdep)⟩
  obtain ⟨hlistIn, -, entries, hhistory, hentries, hwritten⟩ :=
    hgathered.listIn.statements hlist.list
    hlist.keyed (hlist.statements x ReflTransGen.refl) (hlist.distinct x ReflTransGen.refl)
    (fun location hlocation ↦ ⟨ReflTransGen.refl, hlocation⟩) hstatements hstatus
    ⟨hitem.trans hi.2.1, hplatform.trans hi.2.2⟩ hmade₁
  rw [hfinished] at hlistIn hhistory
  have hstamps : stamps name (b.finished x) = stamps name o₁.interface ++
      (assignedAt name (b.statements x)).map (fun l ↦ (l, x)) := by
    unfold stamps
    rw [hhistory, List.map_append, hentries]
  refine ⟨hlistIn, ?_, fun s ↦ ?_, ?_, fun hcanonical a ha ↦ ?_⟩
  · rw [hstamps, List.nodup_append]
    refine ⟨hgathered.nodup, ?_, ?_⟩
    · exact (hlist.distinct x ReflTransGen.refl).map fun l l' heq ↦ (Prod.mk.inj heq).1
    · rintro s hs s' hs' rfl
      obtain ⟨l, -, rfl⟩ := List.mem_map.mp hs'
      exact (hmade₁ _ hs).2 rfl
  · rw [hstamps, List.mem_append, hgathered.mem_iff, List.mem_map]
    constructor
    · rintro (⟨hdep, hmade⟩ | ⟨l, hl, rfl⟩)
      · exact ⟨hdep.to_reflTransGen, hmade⟩
      · exact ⟨ReflTransGen.refl, hl⟩
    · rintro ⟨hdep, hmade⟩
      rcases reflTransGen_iff_eq_or_transGen.mp hdep with heq | hdep
      · refine Or.inr ⟨s.1, heq ▸ hmade, ?_⟩
        rw [← heq]
      · exact Or.inl ⟨hdep, hmade⟩
  · rw [hstamps]
    induction assignedAt name (b.statements x) using List.reverseRecOn with
    | nil => simpa using hgathered.ordered
    | append_singleton l location ihl =>
      rw [List.map_append, ← List.append_assoc]
      refine ihl.snoc fun q ⟨hdep, hmade⟩ ↦ List.mem_append_left _ ?_
      exact (hgathered.mem_iff q).mpr ⟨hdep, hmade⟩
  · rw [hhistory, List.mem_append] at ha
    rcases ha with ha | ha
    · exact hgathered.faithful hcanonical a ha
    · have hstamp : a.stamp ∈ entries.map Assignment.stamp := List.mem_map_of_mem ha
      rw [hentries] at hstamp
      obtain ⟨l, -, heq⟩ := List.mem_map.mp hstamp
      have hnode : a.node = x := (congrArg Prod.snd heq).symm
      rw [hnode, hhistory]
      exact ⟨hwritten a ha, List.mem_append_right _ ha⟩

/-! ### Link order -/

/-- The history of a recursive list variable in the finished interface of a node
has the assignments of the node and of all it depends on, each place and platform
once, those of a node after those of what it depends on. So the words of a node
come before those of its dependencies in a prepend list, and after them in an
append list. The words of an entry are those that its own node recorded. -/
theorem link_order {x : BuildNode} (hx : x ∈ b.nodes)
    (h : b.ListVariable name type listType x) :
    ((history name (b.finished x)).map fun a ↦ (a.location, a.itemPlatform)).Nodup ∧
    (∀ location node,
      (∃ a ∈ history name (b.finished x), a.location = location ∧ a.node = node) ↔
        ReflTransGen b.DependsOn x node ∧ location ∈ assignedAt name (b.statements node)) ∧
    Ordered
      (fun a a' ↦ a' ∈ history name (b.finished x) ∧ TransGen b.DependsOn a.node a'.node)
      (history name (b.finished x)) ∧
    (∀ flagData info, (b.finished x).getVariable name flagData = some info →
      ∀ a ∈ history name (b.finished x), ∀ a' ∈ history name (b.finished x),
        TransGen b.DependsOn a.node a'.node →
          (listType = .prepend → ∃ before between after,
            info.value = before ++ a.value ++ between ++ a'.value ++ after) ∧
          (listType = .append → ∃ before between after,
            info.value = before ++ a'.value ++ between ++ a.value ++ after)) ∧
    ((type = .filename → Canonical canonicalizePath) → ∀ a ∈ history name (b.finished x),
      Written canonicalizePath name type (b.statements a.node) a ∧
        a ∈ history name (b.finished a.node)) := by
  have hgathered := gathered x hx h
  have hmade : ∀ a ∈ history name (b.finished x),
      ReflTransGen b.DependsOn x a.node ∧ b.Made name a.stamp := fun a ha ↦
    (hgathered.mem_iff a.stamp).mp (List.mem_map_of_mem ha)
  have hinjective : ∀ a ∈ history name (b.finished x), ∀ a' ∈ history name (b.finished x),
      a.stamp = a'.stamp → a = a' := fun a ha a' ha' heq ↦
    List.inj_on_of_nodup_map hgathered.nodup ha ha' heq
  have hordered : Ordered
      (fun a a' ↦ a' ∈ history name (b.finished x) ∧ TransGen b.DependsOn a.node a'.node)
      (history name (b.finished x)) := by
    rintro before a after hsplit a' ⟨ha', hdep⟩
    have hstamps : stamps name (b.finished x) =
        before.map Assignment.stamp ++ a.stamp :: after.map Assignment.stamp := by
      unfold stamps
      rw [hsplit, List.map_append, List.map_cons]
    have hbefore := hgathered.ordered _ _ _ hstamps a'.stamp ⟨hdep, (hmade a' ha').2⟩
    obtain ⟨c, hc, hstamp⟩ := List.mem_map.mp hbefore
    have hc' : c ∈ history name (b.finished x) := hsplit ▸ List.mem_append_left _ hc
    rw [← hinjective c hc' a' ha' hstamp]
    exact hc
  refine ⟨?_, fun location node ↦ ?_, hordered, fun flagData info hinfo a ha a' ha' hdep ↦ ?_,
    hgathered.faithful⟩
  · refine (List.nodup_map_iff_inj_on hgathered.nodup.of_map).mpr fun a ha a' ha' heq ↦ ?_
    rw [Prod.mk.injEq] at heq
    exact hinjective a ha a' ha' (h.keyed _ _ (hmade a ha) (hmade a' ha') heq.1 heq.2)
  · refine Iff.trans ?_ (hgathered.mem_iff (location, node))
    unfold stamps
    simp only [List.mem_map, Assignment.stamp, Prod.mk.injEq]
  · obtain ⟨before, after, hsplit⟩ := List.append_of_mem ha
    obtain ⟨before', between, rfl⟩ :=
      List.append_of_mem (hordered before a after hsplit a' ⟨ha', hdep⟩)
    obtain ⟨-, hvalue⟩ := hgathered.listIn.getVariable hinfo
    rw [hsplit] at hvalue
    constructor
    · rintro rfl
      rw [(valueOf_list _).2] at hvalue
      exact ⟨after.reverse.flatMap Assignment.value, between.reverse.flatMap Assignment.value,
        before'.reverse.flatMap Assignment.value, by simp [hvalue]⟩
    · rintro rfl
      rw [(valueOf_list _).1] at hvalue
      exact ⟨before'.flatMap Assignment.value, between.flatMap Assignment.value,
        after.flatMap Assignment.value, by simp [hvalue]⟩

/-! A library that adds to a list it declares, and a program that depends on it. -/

def library : BuildNode := ⟨"library", "indep"⟩

def program : BuildNode := ⟨"program", "indep"⟩

def statementsOf (x : BuildNode) : List Statement :=
  if x = library then
    [.declare ⟨"library/Abuild.interface", 1, 1⟩ "LIBS" .recursive .string .prepend,
      .assign ⟨"library/Abuild.interface", 2, 1⟩ "LIBS" ["z", "m"] .normal ""]
  else [.assign ⟨"program/Abuild.interface", 1, 1⟩ "LIBS" ["program"] .normal ""]

def depsOf (x : BuildNode) : List BuildNode := if x = program then [library] else []

def interfaceOf (o : Option Outcome) : Interface :=
  match o with
  | some o => o.interface
  | none => ⟨"", "", ∅, "", .all⟩

def libraryInterface : Interface :=
  interfaceOf (createItemInterface id (fun _ ↦ interfaceOf none) library "/library" []
    (statementsOf library))

def programInterface : Interface :=
  interfaceOf (createItemInterface id (fun _ ↦ libraryInterface) program "/program" [library]
    (statementsOf program))

theorem created_of_status {o : Option Outcome} {i : Interface}
    (h : o.map Outcome.status = some true)
    (hi : i = interfaceOf o) : ∃ o', o = some o' ∧ o'.status = true ∧ o'.interface = i := by
  cases o with
  | none => cases h
  | some o' => exact ⟨o', rfl, Option.some_inj.mp h, hi.symm⟩

def programBuild : InterfaceBuild id where
  nodes := [library, program]
  deps := depsOf
  localDir x := "/" ++ x.item
  statements := statementsOf
  finished x := if x = library then libraryInterface else programInterface
  deps_mem := by decide
  acyclic := by
    have hordered : Ordered (fun a b ↦ b ∈ depsOf a) [library, program] := by
      refine ((ordered_nil.snoc ?_).snoc ?_ : Ordered _ ([] ++ [library] ++ [program]))
      · intro b hb
        exact absurd hb (by simp [depsOf, library, program])
      · intro b hb
        simpa [depsOf] using hb
    exact fun x hx ↦ hordered.acyclic hx
  created := by
    have hlibrary : (createItemInterface id (fun _ ↦ interfaceOf none) library "/library" []
      (statementsOf library)).map Outcome.status = some true := by decide
    intro x hx
    rcases List.mem_cons.mp hx with rfl | hx
    · exact created_of_status hlibrary rfl
    · obtain rfl := List.mem_singleton.mp hx
      exact created_of_status (by decide) rfl

theorem listVariable_program : programBuild.ListVariable "LIBS" .string .prepend program := by
  have hnode : ∀ y, ReflTransGen programBuild.DependsOn program y → y = library ∨ y = program :=
    fun y hy ↦ by simpa [programBuild] using depends_mem (b := programBuild) (by decide) hy
  have hstatements : ∀ y, y = library ∨ y = program →
      ListStatements "LIBS" .string .prepend (statementsOf y) := by
    rintro y (rfl | rfl)
    all_goals exact ⟨by simp [statementsOf, program, library],
      by simp [statementsOf, program, library],
      by simp [statementsOf, program, library]⟩
  refine ⟨by decide, fun y hy ↦ hstatements y (hnode y hy), fun y hy ↦ ?_,
    fun y z hy hz location hlocation hlocation' ↦ ?_⟩
  · rcases hnode y hy with rfl | rfl
    all_goals decide
  · rcases hnode y hy with rfl | rfl <;> rcases hnode z hz with rfl | rfl
    all_goals revert location
    all_goals decide

theorem link_order_program :
    ((programBuild.finished program).getVariable "LIBS" FlagData.empty).map VariableInfo.value =
      some ["program", "z", "m"] ∧
    Ordered
      (fun a a' ↦ a' ∈ history "LIBS" (programBuild.finished program) ∧
        TransGen programBuild.DependsOn a.node a'.node)
      (history "LIBS" (programBuild.finished program)) :=
  ⟨by decide, (link_order (b := programBuild) (by decide) listVariable_program).2.2.1⟩

end InterfaceBuild

end Interface

end Abuild
