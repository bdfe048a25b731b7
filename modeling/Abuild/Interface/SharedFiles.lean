import Abuild.Interface.Attempt

/-!
The assertion of `assignVariable`, while the interfaces of all nodes of a build graph
are built. An entry stems from the node that made it: whatever path it was imported on,
it has the value that the interface of that node has, which is the normal form of words
in a file that the node reads (`Source`). The assertion can fail only where assignments
of different nodes at one place meet, in a file that several items read, or for a file
that one item reads twice; it does not where they assign the same value (`MeetsAlike`).
-/

set_option autoImplicit false
set_option relaxedAutoImplicit false

namespace Abuild.Interface

open Relation Precedence
open Std (TreeMap TreeSet)

/-! ### Actions that may report errors -/

section Attempt

variable {ι : Type} [DecidableEq ι] (canonicalizePath : String → String)

/-- The network after an action, whether it reports errors or not. -/
def Action.attempt (action : Action ι) (net : ι → Interface) : Option (ι → Interface) :=
  match action with
  | .call k statement =>
    (left (statement.call canonicalizePath (net k))).map (Function.update net k)
  | .importInterface k other =>
    (left (Interface.importInterface canonicalizePath (net k) (net other))).map
      (Function.update net k)

def attemptActions (actions : List (Action ι)) (net : ι → Interface) : Option (ι → Interface) :=
  actions.foldlM (fun net action ↦ action.attempt canonicalizePath net) net

/-- The local directory after an action. -/
def Action.directory (directory : String) : Action ι → String
  | .call _ (.setLocalDirectory localDir) => Util.normalizePathSeparators localDir
  | _ => directory

/-- What is assigned at a place agrees with what the interface has for that place: in a
statement with every entry of its platform, in an import with the entries of other
items. -/
def Action.Agrees (action : Action ι) (net : ι → Interface) : Prop :=
  match action with
  | .call k (.assign location name values _ _) =>
    ∀ var, (net k).symbolTable[name]? = some var → ∀ old ∈ var.assignmentHistory,
      old.location = location → old.itemPlatform = (net k).itemPlatform → ∃ errors,
        (net k).checkValues canonicalizePath location var (assignedWords var values) =
          some (old.value, errors)
  | .call _ _ => True
  | .importInterface k other =>
    ∀ (name : String) (var w : Variable), (net other).symbolTable[name]? = some var →
      var.scope ≠ .local → (net k).symbolTable[name]? = some w →
      w.declareLocation = var.declareLocation →
      ∀ a ∈ importedAssignments (net other).itemName var, ∀ old ∈ w.assignmentHistory,
        old.location = a.location → old.itemPlatform = a.itemPlatform →
        old.itemName ≠ a.itemName → old.value = a.value

theorem attemptActions_append (actions actions' : List (Action ι)) (net : ι → Interface) :
    attemptActions canonicalizePath (actions ++ actions') net =
      (attemptActions canonicalizePath actions net).bind
        (attemptActions canonicalizePath actions') := List.foldlM_append

theorem attemptActions_cons (action : Action ι) (actions : List (Action ι)) (net : ι → Interface) :
    attemptActions canonicalizePath (action :: actions) net =
      (action.attempt canonicalizePath net).bind (attemptActions canonicalizePath actions) := rfl

variable {canonicalizePath} {net : ι → Interface} {finished : ι → Interface} {k : ι}

theorem update_comp_update (net : ι → Interface) (k : ι) (i : Interface) :
    Function.update (Function.update net k i) k = Function.update net k :=
  funext fun j ↦ Function.update_idem i j net

/-- The imports of one interface, from interfaces that stay as they are. -/
theorem attemptActions_imports {deps : List ι} (hself : k ∉ deps)
    (hdeps : ∀ dep ∈ deps, net dep = finished dep) :
    attemptActions canonicalizePath (deps.map (.importInterface k)) net =
      (deps.foldlM (fun i dep ↦ left (importInterface canonicalizePath i (finished dep)))
        (net k)).map (Function.update net k) := by
  induction deps generalizing net with
  | nil =>
    show some net = some (Function.update net k (net k))
    rw [Function.update_eq_self]
  | cons dep deps ih =>
    rw [List.mem_cons, not_or] at hself
    obtain ⟨hdep, hrest⟩ := List.forall_mem_cons.mp hdeps
    have hattempt : (Action.importInterface k dep).attempt canonicalizePath net =
        (left (importInterface canonicalizePath (net k) (finished dep))).map
          (Function.update net k) := hdep ▸ rfl
    rw [List.map_cons, attemptActions_cons, hattempt, Fallible.foldlM_cons]
    cases left (importInterface canonicalizePath (net k) (finished dep)) with
    | none => rfl
    | some i =>
      rw [Option.map_some, Option.bind_some, Option.bind_some, ih hself.2, Function.update_self,
        update_comp_update]
      intro dep' hdep'
      have hne : dep' ≠ k := fun heq ↦ hself.2 (heq ▸ hdep')
      rw [Function.update_of_ne hne]
      exact hrest dep' hdep'

theorem attemptActions_calls (statements : List Statement) :
    attemptActions canonicalizePath (statements.map (.call k)) net =
      (statements.foldlM (fun i statement ↦ left (statement.call canonicalizePath i))
        (net k)).map (Function.update net k) := by
  induction statements generalizing net with
  | nil =>
    show some net = some (Function.update net k (net k))
    rw [Function.update_eq_self]
  | cons statement statements ih =>
    have hattempt : (Action.call k statement).attempt canonicalizePath net =
        (left (statement.call canonicalizePath (net k))).map (Function.update net k) := rfl
    rw [List.map_cons, attemptActions_cons, hattempt, Fallible.foldlM_cons]
    cases left (statement.call canonicalizePath (net k)) with
    | none => rfl
    | some i =>
      rw [Option.map_some, Option.bind_some, Option.bind_some, ih, Function.update_self,
        update_comp_update]

end Attempt

/-! ### The interface files of a build -/

/-- The interface files of the nodes of a build graph, in an order in which the nodes are
built. A place in a file declares a variable of one kind, whoever reads the file. -/
structure InterfaceFiles where
  nodes : List BuildNode
  deps : BuildNode → List BuildNode
  localDir : BuildNode → String
  statements : BuildNode → List Statement
  kind : Kinds
  nodup : nodes.Nodup
  ordered : Ordered (fun x y ↦ y ∈ deps x) nodes
  localDir_absolute : ∀ x ∈ nodes, Util.isAbsolutePath (localDir x) = true
  directory_absolute : ∀ x ∈ nodes, ∀ directory,
    .setLocalDirectory directory ∈ statements x → Util.isAbsolutePath directory = true
  declared : ∀ x ∈ nodes, ∀ location name scope type listType,
    .declare location name scope type listType ∈ statements x →
      kind location name = (scope, type, listType)

namespace InterfaceFiles

variable (canonicalizePath : String → String) (f : InterfaceFiles)

def DependsOn (x y : BuildNode) : Prop := y ∈ f.deps x

/-- The interface of a node before anything is imported. -/
def unbuilt (x : BuildNode) : Interface :=
  { itemName := x.item
    itemPlatform := x.platform
    symbolTable := ∅
    localDirectory := Util.normalizePathSeparators (f.localDir x)
    targetType := .all }

/-- The interfaces after that of a node is created. -/
def buildNode (finished : BuildNode → Interface) (x : BuildNode) :
    Option (BuildNode → Interface) :=
  (left (createItemInterface canonicalizePath finished x (f.localDir x) (f.deps x)
    (f.statements x))).map (Function.update finished x)

/-- The interfaces of all nodes, when no assertion fails. -/
def buildInterfaces : Option (BuildNode → Interface) :=
  f.nodes.foldlM (f.buildNode canonicalizePath) f.unbuilt

def nodeActions (x : BuildNode) : List (Action BuildNode) :=
  (f.deps x).map (.importInterface x) ++ (f.statements x).map (.call x)

/-- The imports and the statements of all nodes, one after the other. -/
def buildActions : List (Action BuildNode) := f.nodes.flatMap f.nodeActions

/-! ### What is read -/

/-- The local directory of the interface of a node after some of its actions. -/
def directoryAfter (x : BuildNode) (actions : List (Action BuildNode)) : String :=
  actions.foldl Action.directory (Util.normalizePathSeparators (f.localDir x))

/-- A node reads an assignment of the words, with a local directory. -/
def Reads (x : BuildNode) (location : FileLocation) (name directory : String)
    (words : List String) : Prop :=
  ∃ done todo assignmentType flag,
    f.nodeActions x = done ++ .call x (.assign location name words assignmentType flag) :: todo ∧
      directory = f.directoryAfter x done

/-- What words are as the value of a variable that is declared at a place. -/
def normalForm (location declared : FileLocation) (name directory : String) (words : List String) :
    Option (List String) :=
  let (scope, type, listType) := f.kind declared name
  let var : Variable :=
    { name
      declareLocation := declared
      targetType := .all
      scope
      type
      listType
      resetHistory := []
      assignmentHistory := [] }
  let i : Interface := ⟨"", "", ∅, directory, .all⟩
  (i.checkValues canonicalizePath location var (assignedWords var words)).map Prod.fst

/-- What two nodes read at a place has the same value. -/
def SameValue (location declared : FileLocation) (name : String) (x y : BuildNode) : Prop :=
  ∀ directory words directory' words', f.Reads x location name directory words →
    f.Reads y location name directory' words' →
      f.normalForm canonicalizePath location declared name directory words =
        f.normalForm canonicalizePath location declared name directory' words'

/-- No node reads two assignments at one place. -/
def ReadsOnce : Prop :=
  ∀ x location name directory words directory' words', f.Reads x location name directory words →
    f.Reads x location name directory' words' → directory = directory' ∧ words = words'

/-- The normal forms of the file names that are assigned stay as they are. -/
def NamesStable (net : BuildNode → Interface) : Action BuildNode → Prop
  | .call x (.assign _ name words _ _) => ∀ var, (net x).symbolTable[name]? = some var →
    var.type = .filename → ∀ word ∈ words, StableName canonicalizePath (net x) word
  | _ => True

/-- The assignments of nodes of one platform at one place that meet in an action have the same
value: in an import those of different items, in an assignment those that the interface has an
entry of. -/
def MeetsAlike (net : BuildNode → Interface) : Action BuildNode → Prop
  | .call x (.assign location name _ _ _) =>
    ∀ var, (net x).symbolTable[name]? = some var →
      ∀ old ∈ var.assignmentHistory, old.location = location →
        old.itemPlatform = (net x).itemPlatform →
          f.SameValue canonicalizePath location var.declareLocation name old.node x
  | .call _ _ => True
  | .importInterface x dep =>
    ∀ (name : String) (var w : Variable), (net dep).symbolTable[name]? = some var →
      var.scope ≠ .local → (net x).symbolTable[name]? = some w →
      w.declareLocation = var.declareLocation →
      ∀ a ∈ importedAssignments (net dep).itemName var, ∀ old ∈ w.assignmentHistory,
        old.location = a.location → old.itemPlatform = a.itemPlatform →
        old.itemName ≠ a.itemName →
          f.SameValue canonicalizePath a.location var.declareLocation name old.node a.node

/-- What holds of every action of the build, in the state before it. -/
def Throughout (P : (BuildNode → Interface) → Action BuildNode → Prop) : Prop :=
  ∀ before action after, f.buildActions = before ++ action :: after →
    ∀ net, attemptActions canonicalizePath before f.unbuilt = some net → P net action

variable {canonicalizePath f}

/-- Where an element of a concatenation stands. -/
theorem flatMap_eq_split {α β : Type} {g : α → List β} {l : List α} {before after : List β} {b : β}
    (h : l.flatMap g = before ++ b :: after) : ∃ l₁ a l₂ done todo, l = l₁ ++ a :: l₂ ∧
      g a = done ++ b :: todo ∧ before = l₁.flatMap g ++ done := by
  induction l generalizing before with
  | nil => simp at h
  | cons a l ih =>
    rw [List.flatMap_cons] at h
    rcases List.append_eq_append_iff.mp h with ⟨rest, rfl, hrest⟩ | ⟨rest, hfirst, hrest⟩
    · obtain ⟨l₁, a', l₂, done, todo, rfl, hb, rfl⟩ := ih hrest
      exact ⟨a :: l₁, a', l₂, done, todo, rfl, hb, by rw [List.flatMap_cons, List.append_assoc]⟩
    · cases rest with
      | nil =>
        obtain ⟨l₁, a', l₂, done, todo, rfl, hb, hdone⟩ := @ih [] hrest.symm
        refine ⟨a :: l₁, a', l₂, done, todo, rfl, hb, ?_⟩
        rw [List.flatMap_cons, List.append_assoc, ← hdone, hfirst]
        simp
      | cons c rest =>
        obtain ⟨rfl, -⟩ := List.cons.inj hrest
        exact ⟨[], a, l, before, rest, rfl, hfirst, rfl⟩

theorem not_transGen {x : BuildNode} (hx : x ∈ f.nodes) : ¬ TransGen f.DependsOn x x :=
  f.ordered.acyclic hx

theorem buildNode_eq {finished : BuildNode → Interface} {x : BuildNode} (hx : x ∈ f.nodes)
    (hfinished : finished x = f.unbuilt x) :
    f.buildNode canonicalizePath finished x =
      attemptActions canonicalizePath (f.nodeActions x) finished := by
  have hself : x ∉ f.deps x := fun hdep ↦ not_transGen hx (.single hdep)
  have hnew : Interface.new x.item x.platform (f.localDir x) = some (finished x) := by
    rw [hfinished]
    exact if_pos (f.localDir_absolute x hx)
  unfold buildNode createItemInterface nodeActions
  rw [hnew, attemptActions_append, attemptActions_imports hself fun _ _ ↦ rfl]
  simp only [Option.bind_eq_bind, Option.bind_some]
  rw [left_bind_foldlM, left_foldlM (fun dep i ↦
    importInterface canonicalizePath i (finished dep))]
  cases (f.deps x).foldlM (fun i dep ↦ left (importInterface canonicalizePath i (finished dep)))
      (finished x) with
  | none => rfl
  | some i =>
    rw [Option.bind_some, Option.map_some, Option.bind_some, attemptActions_calls,
      Function.update_self, update_comp_update]

/-! ### Entries and the nodes that they stem from -/

theorem mem_history {name : String} {i : Interface} {a : Assignment} :
    a ∈ history name i ↔ ∃ var, i.symbolTable[name]? = some var ∧ a ∈ var.assignmentHistory := by
  unfold history
  cases i.symbolTable[name]? with
  | none => simp
  | some var => simp

/-- The interface of the node that made an entry has the entry. -/
def HasEntry (net : BuildNode → Interface) (name : String) (a : Assignment) : Prop :=
  ∃ b ∈ history name (net a.node), b.key = a.key ∧ b.value = a.value

/-- The values of words for two variables of one type, with one local directory. -/
theorem map_fst_checkValues {i j : Interface} {var var' : Variable} {location : FileLocation}
    (hdirectory : j.localDirectory = i.localDirectory) (htype : var'.type = var.type)
    (hlist : var'.listType = var.listType) (hname : var'.name = var.name) (words : List String) :
    j.checkValues canonicalizePath location var' (assignedWords var' words) =
      i.checkValues canonicalizePath location var (assignedWords var words) := by
  unfold assignedWords
  rw [hlist]
  exact checkValues_congr hdirectory htype hname _

/-- The normal form of words is what an assignment of them to the variable stores. -/
theorem normalForm_eq {i : Interface} {location : FileLocation} {name : String} {var : Variable}
    (hname : var.name = name)
    (hkind : f.kind var.declareLocation name = (var.scope, var.type, var.listType))
    (words : List String) :
    f.normalForm canonicalizePath location var.declareLocation name i.localDirectory words =
      (i.checkValues canonicalizePath location var (assignedWords var words)).map Prod.fst := by
  unfold normalForm
  rw [hkind]
  refine congrArg (Option.map Prod.fst) ?_
  refine map_fst_checkValues ?_ ?_ ?_ hname.symm words <;> rfl

variable (canonicalizePath f) in
/-- An entry of a node's interface is its own, or stems from a node that it depends on, and has the
value of words that its node reads. -/
structure Source (net : BuildNode → Interface) (x : BuildNode) (name : String)
    (declared : FileLocation) (a : Assignment) : Prop where
  stems : a.node = x ∨ TransGen f.DependsOn x a.node ∧ HasEntry net name a
  read : ∃ directory words, f.Reads a.node a.location name directory words ∧
    f.normalForm canonicalizePath a.location declared name directory words = some a.value

variable (canonicalizePath f) in
/-- The interfaces of the nodes in the list are built, of one perhaps in part. -/
structure Built (built : List BuildNode) (net : BuildNode → Interface) : Prop where
  rest : ∀ z ∉ built, net z = f.unbuilt z
  names : ∀ z, (net z).itemName = z.item ∧ (net z).itemPlatform = z.platform
  sound : ∀ z, Sound canonicalizePath f.kind (f.Source canonicalizePath net z) (net z)

variable {built after : List BuildNode} {x : BuildNode} {net net' : BuildNode → Interface}

theorem built_unbuilt : Built canonicalizePath f [] f.unbuilt := by
  refine ⟨fun _ _ ↦ rfl, fun _ ↦ ⟨rfl, rfl⟩, fun z name var hvar ↦ ?_⟩
  rw [show (f.unbuilt z).symbolTable[name]? = none from TreeMap.getElem?_emptyc] at hvar
  cases hvar

/-- The entries of another interface are where they were when one is changed. -/
theorem Source.update {z : BuildNode} {name : String} {declared : FileLocation} {a : Assignment}
    {i : Interface} (h : f.Source canonicalizePath net z name declared a)
    (hother : TransGen f.DependsOn z a.node → a.node ≠ x) :
    f.Source canonicalizePath (Function.update net x i) z name declared a := by
  refine ⟨?_, h.read⟩
  rcases h.stems with hown | ⟨hbelow, b, hb, hsame⟩
  · exact Or.inl hown
  · refine Or.inr ⟨hbelow, b, ?_, hsame⟩
    rw [Function.update_of_ne (hother hbelow)]
    exact hb

/-- The interface of the node that is being built may be replaced by a sound one. -/
theorem Built.update (hnodes : f.nodes = built ++ x :: after)
    (h : Built canonicalizePath f (built ++ [x]) net) {i : Interface}
    (hnames : i.itemName = x.item ∧ i.itemPlatform = x.platform)
    (hi : Sound canonicalizePath f.kind (f.Source canonicalizePath net x) i) :
    Built canonicalizePath f (built ++ [x]) (Function.update net x i) := by
  have hx : x ∈ f.nodes := by simp [hnodes]
  have hnotin : x ∉ built := by
    have hnodup := hnodes ▸ f.nodup
    exact fun hin ↦ (List.nodup_append.mp hnodup).2.2 x hin x List.mem_cons_self rfl
  refine ⟨fun z hz ↦ ?_, fun z ↦ ?_, fun z ↦ ?_⟩
  · rw [Function.update_of_ne (by rintro rfl; simp at hz)]
    exact h.rest z hz
  · by_cases hz : z = x
    · subst hz
      rw [Function.update_self]
      exact hnames
    · rw [Function.update_of_ne hz]
      exact h.names z
  · by_cases hz : z = x
    · subst hz
      rw [Function.update_self]
      refine hi.mono fun name var _ a _ hsource ↦ hsource.update fun hbelow heq ↦ ?_
      exact not_transGen hx (heq ▸ hbelow)
    · rw [Function.update_of_ne hz]
      by_cases hbuilt : z ∈ built
      -- a node that is built already does not depend on this one
      · refine (h.sound z).mono fun name var _ a _ hsource ↦ hsource.update fun hbelow heq ↦ ?_
        have hprefix : Ordered f.DependsOn built := Ordered.of_append (hnodes ▸ f.ordered)
        exact hnotin (heq ▸ hprefix.transGen.mem hbuilt hbelow)
      · rw [h.rest z (by simp [hbuilt, hz])]
        intro name var hvar
        rw [show (f.unbuilt z).symbolTable[name]? = none from TreeMap.getElem?_emptyc] at hvar
        cases hvar

theorem Built.sound_dep (h : Built canonicalizePath f built net) {dep : BuildNode}
    (hdep : f.DependsOn x dep) :
    Sound canonicalizePath f.kind (f.Source canonicalizePath net x) (net dep) := by
  refine (h.sound dep).mono fun name var hvar a ha hsource ↦ ⟨Or.inr ?_, hsource.read⟩
  rcases hsource.stems with hown | ⟨hbelow, hentry⟩
  · refine ⟨hown ▸ .single hdep, a, ?_, rfl, rfl⟩
    rw [hown, history_eq hvar]
    exact ha
  · exact ⟨.head hdep hbelow, hentry⟩

theorem mem_nodeActions {action : Action BuildNode} :
    action ∈ f.nodeActions x ↔ (∃ dep, f.DependsOn x dep ∧ action = .importInterface x dep) ∨
      ∃ statement ∈ f.statements x, action = .call x statement := by
  unfold nodeActions
  rw [List.mem_append, List.mem_map, List.mem_map]
  constructor
  · rintro (⟨dep, hdep, rfl⟩ | ⟨statement, hstatement, rfl⟩)
    · exact Or.inl ⟨dep, hdep, rfl⟩
    · exact Or.inr ⟨statement, hstatement, rfl⟩
  · rintro (⟨dep, hdep, rfl⟩ | ⟨statement, hstatement, rfl⟩)
    · exact Or.inl ⟨dep, hdep, rfl⟩
    · exact Or.inr ⟨statement, hstatement, rfl⟩

theorem mem_of_nodeActions {done todo : List (Action BuildNode)} {action : Action BuildNode}
    (hdone : f.nodeActions x = done ++ action :: todo) : action ∈ f.nodeActions x := by
  rw [hdone]
  exact List.mem_append_right _ List.mem_cons_self

/-- A statement of a file keeps an interface sound. -/
theorem sound_statement (hx : x ∈ f.nodes) {done todo : List (Action BuildNode)}
    {statement : Statement} (hdone : f.nodeActions x = done ++ .call x statement :: todo)
    (hstable : NamesStable canonicalizePath net (.call x statement))
    (hnames : (net x).itemName = x.item ∧ (net x).itemPlatform = x.platform)
    (hdirectory : (net x).localDirectory = f.directoryAfter x done)
    (hi : Sound canonicalizePath f.kind (f.Source canonicalizePath net x) (net x)) {j : Interface}
    (h : left (statement.call canonicalizePath (net x)) = some j) :
    Sound canonicalizePath f.kind (f.Source canonicalizePath net x) j := by
  have hstatement : statement ∈ f.statements x := by
    rcases mem_nodeActions.mp (mem_of_nodeActions hdone) with ⟨dep, -, heq⟩ | ⟨s, hs, heq⟩
    · cases heq
    · cases heq
      exact hs
  rw [Statement.call_eq] at h
  refine (attempts_of_call canonicalizePath h).each ?_ ?_ ?_ hi
  · intro location targetType name scope type listType hmove _
    cases statement <;> cases hmove
    exact soundVariable_declared (f.declared x hx location name scope type listType hstatement)
  · intro name var reset clear _ hvar
    exact hvar.recordReset reset clear
  · intro location name values assignmentType flag itemName itemPlatform var stored errors hmove
      hvar hnew hvalue hsound
    cases statement <;> cases hmove
    have hnode : (⟨(net x).itemName, (net x).itemPlatform⟩ : BuildNode) = x := by
      rw [hnames.1, hnames.2]
    refine hsound.record hnew (rechecked_of_checkValues (hstable var hvar) hvalue)
      ⟨Or.inl hnode, (net x).localDirectory, values, ?_, ?_⟩
    · show f.Reads ⟨(net x).itemName, (net x).itemPlatform⟩ location name _ values
      rw [hnode]
      exact ⟨done, todo, assignmentType, flag, hdone, hdirectory⟩
    · rw [normalForm_eq hsound.name_eq hsound.kind_eq, hvalue]
      rfl

theorem left_importInterface_names {i other j : Interface}
    (h : left (importInterface canonicalizePath i other) = some j) :
    j.itemName = i.itemName ∧ j.itemPlatform = i.itemPlatform ∧
      j.localDirectory = i.localDirectory := by
  rw [left_importInterface] at h
  refine Fallible.foldlM_induction (motive := fun s ↦ s.itemName = i.itemName ∧
    s.itemPlatform = i.itemPlatform ∧ s.localDirectory = i.localDirectory) h ⟨rfl, rfl, rfl⟩ ?_
  rintro p _ s s' hs' ⟨hname, hplatform, hdirectory⟩
  obtain ⟨o, ho, rfl⟩ := Option.map_eq_some_iff.mp hs'
  have hsame := (importVariable_spec ho).1
  exact ⟨hsame.itemName.trans hname, hsame.itemPlatform.trans hplatform,
    hsame.localDirectory.trans hdirectory⟩

/-- The local directory after a statement. -/
theorem localDirectory_of_call {i j : Interface} {statement : Statement} (k : BuildNode)
    (h : left (statement.call canonicalizePath i) = some j) :
    j.localDirectory = Action.directory i.localDirectory (.call k statement) := by
  cases statement with
  | setLocalDirectory directory =>
    obtain ⟨o, ho, rfl⟩ := Option.map_eq_some_iff.mp h
    obtain ⟨i', hi', rfl⟩ := Option.map_eq_some_iff.mp ho
    unfold Interface.setLocalDirectory at hi'
    split_ifs at hi'
    cases hi'
    rfl
  | _ =>
    rw [Statement.call_eq] at h
    have hattempt := attempts_of_call canonicalizePath h
    unfold Statement.move at hattempt
    cases hattempt <;> rfl

variable (canonicalizePath f) in
/-- What is built after some of the actions of a node. -/
structure BuiltUpTo (built : List BuildNode) (x : BuildNode) (done : List (Action BuildNode))
    (net : BuildNode → Interface) : Prop extends Built canonicalizePath f (built ++ [x]) net where
  directory : (net x).localDirectory = f.directoryAfter x done

theorem directoryAfter_concat (done : List (Action BuildNode)) (action : Action BuildNode) :
    f.directoryAfter x (done ++ [action]) = action.directory (f.directoryAfter x done) := by
  unfold directoryAfter
  rw [List.foldl_append]
  rfl

/-- An action of a node keeps what is built. -/
theorem BuiltUpTo.attempt (hnodes : f.nodes = built ++ x :: after)
    {done todo : List (Action BuildNode)} {action : Action BuildNode}
    (hdone : f.nodeActions x = done ++ action :: todo)
    (h : BuiltUpTo canonicalizePath f built x done net)
    (hstable : NamesStable canonicalizePath net action)
    (hattempt : action.attempt canonicalizePath net = some net') :
    BuiltUpTo canonicalizePath f built x (done ++ [action]) net' := by
  have hx : x ∈ f.nodes := by simp [hnodes]
  rcases mem_nodeActions.mp (mem_of_nodeActions hdone) with ⟨dep, hdep, rfl⟩ | ⟨statement, -, rfl⟩
  · obtain ⟨j, hj, rfl⟩ := Option.map_eq_some_iff.mp hattempt
    obtain ⟨hitem, hplatform, hdirectory⟩ := left_importInterface_names hj
    refine ⟨h.toBuilt.update hnodes ⟨hitem.trans (h.names x).1, hplatform.trans (h.names x).2⟩
      ((h.sound x).importInterface (h.sound_dep hdep) hj), ?_⟩
    rw [Function.update_self, directoryAfter_concat, hdirectory, h.directory]
    rfl
  · obtain ⟨j, hj, rfl⟩ := Option.map_eq_some_iff.mp hattempt
    have hcall := hj
    rw [Statement.call_eq] at hcall
    obtain ⟨hitem, hplatform⟩ := (attempts_of_call canonicalizePath hcall).names
    refine ⟨h.toBuilt.update hnodes ⟨hitem.trans (h.names x).1, hplatform.trans (h.names x).2⟩
      (sound_statement hx hdone hstable (h.names x) h.directory (h.sound x) hj), ?_⟩
    rw [Function.update_self, directoryAfter_concat, ← h.directory]
    exact localDirectory_of_call x hj

/-- Entries of one place and one node have one value. -/
theorem Built.agree (h : Built canonicalizePath f built net) (hx : x ∈ f.nodes)
    {dep : BuildNode} (hdep : f.DependsOn x dep) {name : String} {a old : Assignment}
    (ha : a ∈ history name (net dep)) (hold : old ∈ history name (net x))
    (hkey : old.key = a.key) (hitem : old.itemName = a.itemName) : old.value = a.value := by
  have hnode : old.node = a.node := by
    unfold Assignment.node
    rw [hitem, (Prod.mk.inj hkey).2]
  obtain ⟨var, hvar, ha'⟩ := mem_history.mp ha
  obtain ⟨w, hw, hold'⟩ := mem_history.mp hold
  have hbelow : TransGen f.DependsOn x a.node := by
    rcases ((h.sound dep name var hvar).sourced a ha').stems with hown | ⟨hbelow, -⟩
    · exact hown ▸ .single hdep
    · exact .head hdep hbelow
  have hne : a.node ≠ x := fun heq ↦ not_transGen hx (heq ▸ hbelow)
  -- both have the value that the entry has in the interface of its node
  obtain ⟨-, b, hb, hbkey, hbvalue⟩ :=
    ((h.sound_dep hdep name var hvar).sourced a ha').stems.resolve_left hne
  obtain ⟨-, c, hc, hckey, hcvalue⟩ :=
    ((h.sound x name w hw).sourced old hold').stems.resolve_left (hnode ▸ hne)
  obtain ⟨v, hv, hb⟩ := mem_history.mp hb
  rw [hnode, history_eq hv] at hc
  have hsame : c = b := List.inj_on_of_nodup_map (h.sound a.node name v hv).distinct hc hb
    (by rw [hckey, hkey, hbkey])
  rw [← hcvalue, ← hbvalue, hsame]

theorem Built.isSome_import (hnodes : f.nodes = built ++ x :: after)
    (h : Built canonicalizePath f (built ++ [x]) net) {dep : BuildNode}
    (hdep : f.DependsOn x dep) :
    (left (importInterface canonicalizePath (net x) (net dep))).isSome ↔
      (Action.importInterface x dep).Agrees canonicalizePath net := by
  have hx : x ∈ f.nodes := by simp [hnodes]
  rw [isSome_importInterface (h.sound x) (h.sound_dep hdep)]
  constructor
  · intro hagrees name var w hvar hscope hw hlocation a ha old hold hplace hplatform _
    have hname : var.name = name := (h.sound dep name var hvar).name_eq
    subst hname
    have himportable : Importable var (net x) := by
      intro w' hw'
      rw [hw, Option.some_inj] at hw'
      exact hw' ▸ hlocation
    have hentry := hagrees var.name var hvar hscope himportable _
      (mem_entryMoves.mpr (Or.inr ⟨a, ha, rfl⟩))
    exact hentry old (history_eq hw ▸ hold) (Prod.ext hplace hplatform)
  · intro hagrees name var hvar hscope himportable move hmove
    have hname : var.name = name := (h.sound dep name var hvar).name_eq
    subst hname
    rcases mem_entryMoves.mp hmove with ⟨reset, -, rfl⟩ | ⟨a, ha, rfl⟩
    · exact trivial
    · intro old hold hkey
      by_cases hitem : old.itemName = a.itemName
      · refine h.agree hx hdep ?_ hold hkey hitem
        rw [history_eq hvar]
        exact List.mem_of_mem_filter ha
      · obtain ⟨w, hw, hold⟩ := mem_history.mp hold
        exact hagrees var.name var w hvar hscope hw (himportable w hw) a ha old hold
          (Prod.mk.inj hkey).1 (Prod.mk.inj hkey).2 hitem

theorem Built.isSome_call (h : Built canonicalizePath f built net) (hx : x ∈ f.nodes)
    {statement : Statement} (hstatement : statement ∈ f.statements x) :
    (left (statement.call canonicalizePath (net x))).isSome ↔
      (Action.call x statement).Agrees canonicalizePath net := by
  rw [Statement.call_eq]
  cases statement with
  | setLocalDirectory directory =>
    refine iff_of_true ?_ trivial
    have habsolute := f.directory_absolute x hx directory hstatement
    have hcall : (net x).setLocalDirectory directory =
        some { net x with localDirectory := Util.normalizePathSeparators directory } :=
      if_pos habsolute
    unfold left Statement.move Move.call
    dsimp only
    rw [hcall]
    rfl
  | setTargetType => exact iff_of_true rfl trivial
  | declare => exact iff_of_true rfl trivial
  | reset => exact iff_of_true rfl trivial
  | assign location name values assignmentType flag =>
    refine (assign_isSome_iff canonicalizePath).trans ?_
    constructor
    · intro hfind var hvar old hold hplace hplatform
      exact hfind var old hvar (findAssignment_of_mem (h.sound x name var hvar).distinct hold
        (Prod.ext hplace hplatform))
    · intro hagrees var old hvar hfind
      obtain ⟨hold, hkey⟩ := findAssignment_eq_some hfind
      exact hagrees var hvar old hold (Prod.mk.inj hkey).1 (Prod.mk.inj hkey).2

/-- The assertion does not fail in an action where what is assigned agrees. -/
theorem Built.isSome_attempt (hnodes : f.nodes = built ++ x :: after)
    (h : Built canonicalizePath f (built ++ [x]) net) {action : Action BuildNode}
    (haction : action ∈ f.nodeActions x) :
    (action.attempt canonicalizePath net).isSome ↔ action.Agrees canonicalizePath net := by
  have hx : x ∈ f.nodes := by simp [hnodes]
  rcases mem_nodeActions.mp haction with ⟨dep, hdep, rfl⟩ | ⟨statement, hstatement, rfl⟩
  · show (Option.map _ _).isSome ↔ _
    rw [Option.isSome_map]
    exact h.isSome_import hnodes hdep
  · show (Option.map _ _).isSome ↔ _
    rw [Option.isSome_map]
    exact h.isSome_call hx hstatement

/-- Where what meets is alike, what is assigned agrees. -/
theorem BuiltUpTo.agrees {done todo : List (Action BuildNode)} {action : Action BuildNode}
    (hdone : f.nodeActions x = done ++ action :: todo)
    (h : BuiltUpTo canonicalizePath f built x done net)
    (halike : f.MeetsAlike canonicalizePath net action) :
    action.Agrees canonicalizePath net := by
  rcases mem_nodeActions.mp (mem_of_nodeActions hdone) with ⟨dep, hdep, rfl⟩ | ⟨statement, -, rfl⟩
  · intro name var w hvar hscope hw hlocation a ha old hold hplace hplatform hitem
    have hsame := halike name var w hvar hscope hw hlocation a ha old hold hplace hplatform hitem
    obtain ⟨directory, words, hread, hvalue⟩ :=
      ((h.sound dep name var hvar).sourced a (List.mem_of_mem_filter ha)).read
    obtain ⟨directory', words', hread', hvalue'⟩ := ((h.sound x name w hw).sourced old hold).read
    rw [hplace] at hread' hvalue'
    have hforms := hsame _ _ _ _ hread' hread
    rw [hvalue, ← hlocation, hvalue', Option.some_inj] at hforms
    exact hforms
  · cases statement with
    | assign location name words assignmentType flag =>
      intro var hvar old hold hplace hplatform
      have hsound := h.sound x name var hvar
      obtain ⟨directory, words', hread, hvalue⟩ := (hsound.sourced old hold).read
      rw [hplace] at hread hvalue
      have hforms := halike var hvar old hold hplace hplatform _ _ _ _ hread
        ⟨done, todo, assignmentType, flag, hdone, h.directory⟩
      rw [hvalue, normalForm_eq hsound.name_eq hsound.kind_eq] at hforms
      obtain ⟨⟨stored, errors⟩, hstored, heq⟩ := Option.map_eq_some_iff.mp hforms.symm
      exact ⟨errors, heq ▸ hstored⟩
    | _ => trivial

/-- Where what is assigned agrees, what meets is alike, when each place is read once. -/
theorem BuiltUpTo.meetsAlike (honce : f.ReadsOnce) {done todo : List (Action BuildNode)}
    {action : Action BuildNode} (hdone : f.nodeActions x = done ++ action :: todo)
    (h : BuiltUpTo canonicalizePath f built x done net)
    (hagrees : action.Agrees canonicalizePath net) : f.MeetsAlike canonicalizePath net action := by
  rcases mem_nodeActions.mp (mem_of_nodeActions hdone) with ⟨dep, hdep, rfl⟩ | ⟨statement, -, rfl⟩
  · intro name var w hvar hscope hw hlocation a ha old hold hplace hplatform hitem
    have hsame := hagrees name var w hvar hscope hw hlocation a ha old hold hplace hplatform hitem
    obtain ⟨directory, words, hread, hvalue⟩ :=
      ((h.sound dep name var hvar).sourced a (List.mem_of_mem_filter ha)).read
    obtain ⟨directory', words', hread', hvalue'⟩ := ((h.sound x name w hw).sourced old hold).read
    rw [hplace, hlocation, hsame] at hvalue'
    rw [hplace] at hread'
    intro d ws d' ws' hold' ha'
    obtain ⟨rfl, rfl⟩ := honce _ _ _ _ _ _ _ hold' hread'
    obtain ⟨rfl, rfl⟩ := honce _ _ _ _ _ _ _ ha' hread
    exact hvalue'.trans hvalue.symm
  · cases statement with
    | assign location name words assignmentType flag =>
      intro var hvar old hold hplace hplatform
      have hsound := h.sound x name var hvar
      obtain ⟨errors, hstored⟩ := hagrees var hvar old hold hplace hplatform
      obtain ⟨directory, words', hread, hvalue⟩ := (hsound.sourced old hold).read
      rw [hplace] at hread hvalue
      intro d ws d' ws' hold' hx'
      obtain ⟨rfl, rfl⟩ := honce _ _ _ _ _ _ _ hold' hread
      obtain ⟨rfl, rfl⟩ := honce _ _ _ _ _ _ _ hx'
        ⟨done, todo, assignmentType, flag, hdone, h.directory⟩
      rw [hvalue, normalForm_eq hsound.name_eq hsound.kind_eq, hstored]
      rfl
    | _ => trivial

/-! ### The whole build -/

/-- An action changes the interface of its target only. -/
theorem attemptActions_of_ne {actions : List (Action BuildNode)} {z : BuildNode}
    (hrun : attemptActions canonicalizePath actions net = some net')
    (hne : ∀ action ∈ actions, z ≠ action.target) : net' z = net z := by
  refine Fallible.foldlM_induction (motive := fun m ↦ m z = net z) hrun rfl
    fun action haction m m' hattempt hm ↦ ?_
  cases action with
  | call k statement =>
    obtain ⟨j, -, rfl⟩ := Option.map_eq_some_iff.mp hattempt
    exact (Function.update_of_ne (hne _ haction) _ _).trans hm
  | importInterface k other =>
    obtain ⟨j, -, rfl⟩ := Option.map_eq_some_iff.mp hattempt
    exact (Function.update_of_ne (hne _ haction) _ _).trans hm

theorem target_of_mem {action : Action BuildNode} (haction : action ∈ f.nodeActions x) :
    action.target = x := by
  rcases mem_nodeActions.mp haction with ⟨dep, -, rfl⟩ | ⟨statement, -, rfl⟩ <;> rfl

/-- The interface of a node that is not built yet is as it was. -/
theorem unbuilt_of_not_mem
    (hrun : attemptActions canonicalizePath (built.flatMap f.nodeActions) f.unbuilt = some net)
    {z : BuildNode} (hz : z ∉ built) : net z = f.unbuilt z := by
  refine attemptActions_of_ne hrun fun action haction ↦ ?_
  obtain ⟨y, hy, haction⟩ := List.mem_flatMap.mp haction
  rw [target_of_mem haction]
  rintro rfl
  exact hz hy

theorem not_mem_built (hnodes : f.nodes = built ++ x :: after) : x ∉ built := by
  have hnodup := hnodes ▸ f.nodup
  exact fun hin ↦ (List.nodup_append.mp hnodup).2.2 x hin x List.mem_cons_self rfl

theorem buildInterfaces_eq : f.buildInterfaces canonicalizePath =
    attemptActions canonicalizePath f.buildActions f.unbuilt := by
  have hprefix : ∀ built after, f.nodes = built ++ after →
      built.foldlM (f.buildNode canonicalizePath) f.unbuilt =
        attemptActions canonicalizePath (built.flatMap f.nodeActions) f.unbuilt := by
    intro built
    induction built using List.reverseRecOn with
    | nil => exact fun _ _ ↦ rfl
    | append_singleton built x ih =>
      intro after hnodes
      have hsplit : f.nodes = built ++ x :: after :=
        hnodes.trans (List.append_assoc built [x] after)
      rw [List.foldlM_append, ih _ hsplit, List.flatMap_append, List.flatMap_singleton,
        attemptActions_append]
      refine Option.bind_congr fun net hnet ↦ ?_
      rw [Fallible.foldlM_cons, buildNode_eq (by simp [hsplit])
        (unbuilt_of_not_mem hnet (not_mem_built hsplit))]
      exact Option.bind_fun_some _
  exact hprefix f.nodes [] (List.append_nil _).symm

theorem builtUpTo_nil (hnodes : f.nodes = built ++ x :: after)
    (h : Built canonicalizePath f built net) : BuiltUpTo canonicalizePath f built x [] net := by
  refine ⟨⟨fun z hz ↦ h.rest z fun hin ↦ hz (List.mem_append_left _ hin), h.names, h.sound⟩, ?_⟩
  rw [h.rest x (not_mem_built hnodes)]
  rfl

section Run

variable (hstable : f.Throughout canonicalizePath (NamesStable canonicalizePath))

include hstable

theorem builtUpTo_of_run (hnodes : f.nodes = built ++ x :: after)
    (hbuilt : attemptActions canonicalizePath (built.flatMap f.nodeActions) f.unbuilt = some net)
    (hstart : BuiltUpTo canonicalizePath f built x [] net) {done todo : List (Action BuildNode)}
    (hdone : f.nodeActions x = done ++ todo)
    (hrun : attemptActions canonicalizePath done net = some net') :
    BuiltUpTo canonicalizePath f built x done net' := by
  induction done using List.reverseRecOn generalizing todo net' with
  | nil =>
    cases hrun
    exact hstart
  | append_singleton done action ih =>
    rw [attemptActions_append] at hrun
    obtain ⟨net₁, hnet₁, hlast⟩ := Option.bind_eq_some_iff.mp hrun
    have hattempt : action.attempt canonicalizePath net₁ = some net' := by
      rw [attemptActions_cons] at hlast
      exact (Option.bind_fun_some _).symm.trans hlast
    have hsplit : f.nodeActions x = done ++ action :: todo :=
      hdone.trans (List.append_assoc done [action] todo)
    refine (ih hsplit hnet₁).attempt hnodes hsplit ?_ hattempt
    refine hstable (built.flatMap f.nodeActions ++ done) action
      (todo ++ after.flatMap f.nodeActions) ?_ net₁ ?_
    · unfold buildActions
      rw [hnodes, List.flatMap_append, List.flatMap_cons, hsplit]
      simp
    · rw [attemptActions_append, hbuilt]
      exact hnet₁

theorem built_flatMap (hnodes : f.nodes = built ++ after)
    (hrun : attemptActions canonicalizePath (built.flatMap f.nodeActions) f.unbuilt = some net) :
    Built canonicalizePath f built net := by
  induction built using List.reverseRecOn generalizing after net with
  | nil =>
    cases hrun
    exact built_unbuilt
  | append_singleton built x ih =>
    rw [List.flatMap_append, List.flatMap_singleton, attemptActions_append] at hrun
    obtain ⟨net₁, hnet₁, hrest⟩ := Option.bind_eq_some_iff.mp hrun
    have hsplit : f.nodes = built ++ x :: after := hnodes.trans (List.append_assoc built [x] after)
    have hstart := builtUpTo_nil hsplit (ih hsplit hnet₁)
    exact (builtUpTo_of_run hstable hsplit hnet₁ hstart (List.append_nil _).symm hrest).toBuilt

/-- What is built when an action is made. -/
theorem builtUpTo_before {before rest : List (Action BuildNode)} {action : Action BuildNode}
    (hactions : f.buildActions = before ++ action :: rest)
    (hrun : attemptActions canonicalizePath before f.unbuilt = some net) :
    ∃ built x after done todo, f.nodes = built ++ x :: after ∧
      f.nodeActions x = done ++ action :: todo ∧
      BuiltUpTo canonicalizePath f built x done net := by
  obtain ⟨built, x, after, done, todo, hnodes, hx, rfl⟩ := flatMap_eq_split hactions
  rw [attemptActions_append] at hrun
  obtain ⟨net₁, hnet₁, hdone⟩ := Option.bind_eq_some_iff.mp hrun
  have hstart := builtUpTo_nil hnodes (built_flatMap hstable hnodes hnet₁)
  exact ⟨built, x, after, done, todo, hnodes, hx,
    builtUpTo_of_run hstable hnodes hnet₁ hstart hx hdone⟩

/-- The interfaces of all nodes are built without a failed assertion exactly where, in every import
and every assignment of the run, what is assigned agrees with what is there. -/
theorem isSome_iff_agrees : (f.buildInterfaces canonicalizePath).isSome ↔
    f.Throughout canonicalizePath fun net action ↦ action.Agrees canonicalizePath net := by
  rw [buildInterfaces_eq]
  refine Fallible.isSome_foldlM_iff
    (motive := fun before net ↦ attemptActions canonicalizePath before f.unbuilt = some net) rfl
    (fun before action after _ net net' hnet hbefore ↦ ?_)
    (fun before action after hactions net hbefore ↦ ?_)
  · rw [attemptActions_append, hbefore, Option.bind_some, attemptActions_cons, hnet]
    rfl
  · obtain ⟨built, x, rest, done, todo, hnodes, hdone, hbuilt⟩ :=
      builtUpTo_before hstable hactions hbefore
    exact hbuilt.toBuilt.isSome_attempt hnodes (mem_of_nodeActions hdone)

end Run

/-- The interfaces of all nodes are built without a failed assertion where, in every import and
every assignment of the run, what meets is alike; and only there when each place is read once. -/
theorem isSome_buildInterfaces
    (hstable : f.Throughout canonicalizePath (NamesStable canonicalizePath)) :
    (f.Throughout canonicalizePath (f.MeetsAlike canonicalizePath) →
      (f.buildInterfaces canonicalizePath).isSome) ∧
    (f.ReadsOnce → (f.buildInterfaces canonicalizePath).isSome →
      f.Throughout canonicalizePath (f.MeetsAlike canonicalizePath)) := by
  rw [isSome_iff_agrees hstable]
  constructor
  · intro halike before action after hactions net hbefore
    obtain ⟨built, x, rest, done, todo, -, hdone, hbuilt⟩ :=
      builtUpTo_before hstable hactions hbefore
    exact hbuilt.agrees hdone (halike before action after hactions net hbefore)
  · intro honce hagrees before action after hactions net hbefore
    obtain ⟨built, x, rest, done, todo, -, hdone, hbuilt⟩ :=
      builtUpTo_before hstable hactions hbefore
    exact hbuilt.meetsAlike honce hdone (hagrees before action after hactions net hbefore)

/-- What meets is alike when all that nodes of one platform read at a place has the same value. -/
theorem meetsAlike_of_sameValue
    (hsame : ∀ location declared name x y, f.SameValue canonicalizePath location declared name x y)
    (net : BuildNode → Interface) (action : Action BuildNode) :
    f.MeetsAlike canonicalizePath net action := by
  cases action with
  | call x statement =>
    cases statement with
    | assign => exact fun _ _ _ _ _ _ ↦ hsame _ _ _ _ _
    | _ => trivial
  | importInterface => exact fun _ _ _ _ _ _ _ _ _ _ _ _ _ _ ↦ hsame _ _ _ _ _

/-- The names are stable when canonical paths are canonical. -/
theorem namesStable_of_canonical (hcanonical : Canonical canonicalizePath)
    (net : BuildNode → Interface) (action : Action BuildNode) :
    NamesStable canonicalizePath net action := by
  have hname : ∀ (i : Interface) (value : String), StableName canonicalizePath i value := by
    intro i value path hpath j
    unfold normalizeFilename at hpath
    by_cases hempty : (Util.normalizePathSeparators value).isEmpty = true
    · rw [if_pos hempty] at hpath
      cases hpath
    · rw [if_neg hempty] at hpath
      obtain rfl := Option.some_inj.mp hpath
      exact normalizeFilename_canonical hcanonical j _
  cases action with
  | call x statement =>
    cases statement with
    | assign => exact fun _ _ _ _ _ ↦ hname _ _
    | _ => trivial
  | importInterface => trivial

/-! ### A file of two items -/

/-- Absolute paths are canonical where there are no links. -/
def rootedPath (path : String) : String :=
  if Util.isAbsolutePath path = true ∧ Util.normalizePathSeparators path = path then path else "/"

theorem canonical_rootedPath : Canonical rootedPath := by
  have hroot : Util.isAbsolutePath "/" = true ∧ Util.normalizePathSeparators "/" = "/" := by
    refine ⟨by decide, ?_⟩
    unfold Util.normalizePathSeparators
    rw [← String.toList_inj, String.toList_map]
    rfl
  intro path
  unfold rootedPath
  by_cases hpath : Util.isAbsolutePath path = true ∧ Util.normalizePathSeparators path = path
  · rw [if_pos hpath]
    exact ⟨hpath.1, hpath.2, if_pos hpath⟩
  · rw [if_neg hpath]
    exact ⟨hroot.1, hroot.2, if_pos hroot⟩

/-- Two items load one after-build file, which assigns a value for the item, and a third one
depends on both. -/
def sharedFile (value : BuildNode → String) : InterfaceFiles where
  nodes := [⟨"left", "indep"⟩, ⟨"right", "indep"⟩, ⟨"user", "indep"⟩]
  deps x := if x.item = "user" then [⟨"left", "indep"⟩, ⟨"right", "indep"⟩] else []
  localDir x := "/" ++ x.item
  statements x :=
    if x.item = "user" then []
    else
      [.setLocalDirectory "/shared",
        .declare ⟨"/shared/owner.interface", 1, 1⟩ "OWNER" .recursive .string .scalar,
        .assign ⟨"/shared/owner.interface", 2, 1⟩ "OWNER" [value x] .normal ""]
  kind _ _ := (.recursive, .string, .scalar)
  nodup := by decide
  ordered := by
    refine Ordered.snoc (l := [_, _]) (Ordered.snoc (l := [_]) (Ordered.snoc ordered_nil ?_) ?_) ?_
    all_goals simp
  localDir_absolute := by decide
  directory_absolute := by
    intro x _ directory hstatement
    split_ifs at hstatement
    · cases hstatement
    · obtain rfl : directory = "/shared" := by simpa using hstatement
      decide
  declared := by
    intro x _ location name scope type listType hstatement
    split_ifs at hstatement
    · cases hstatement
    · obtain ⟨-, -, rfl, rfl, rfl⟩ : location = ⟨"/shared/owner.interface", 1, 1⟩ ∧
          name = "OWNER" ∧ scope = .recursive ∧ type = .string ∧ listType = .scalar := by
        simpa using hstatement
      rfl

/-- The file assigns the same value for every item. -/
theorem isSome_buildInterfaces_sharedFile :
    ((sharedFile fun _ ↦ "team").buildInterfaces rootedPath).isSome := by
  refine (isSome_buildInterfaces fun _ action _ _ net _ ↦
    namesStable_of_canonical canonical_rootedPath net action).1 fun _ action _ _ net _ ↦
      meetsAlike_of_sameValue ?_ net action
  have hread : ∀ x location name directory words,
      (sharedFile fun _ ↦ "team").Reads x location name directory words → words = ["team"] := by
    rintro x location name directory words ⟨done, todo, assignmentType, flag, hdone, -⟩
    rcases mem_nodeActions.mp (mem_of_nodeActions hdone) with ⟨dep, -, heq⟩ | ⟨s, hs, heq⟩
    · cases heq
    · cases heq
      unfold sharedFile at hs
      dsimp only at hs
      split_ifs at hs
      · cases hs
      · simp at hs
        exact hs.2.2.1
  intro location declared name x y directory words directory' words' hx hy
  rw [hread _ _ _ _ _ hx, hread _ _ _ _ _ hy]
  rfl

/-- The file records the name of the item. -/
def ownerFiles : InterfaceFiles := sharedFile BuildNode.item

theorem not_buildInterfaces_ownerFiles :
    ¬ ∀ canonicalizePath, Canonical canonicalizePath → ∀ f : InterfaceFiles,
      (f.buildInterfaces canonicalizePath).isSome := by
  intro h
  exact absurd (h rootedPath canonical_rootedPath ownerFiles) (by decide)

end InterfaceFiles

end Abuild.Interface
