import Abuild.BuildForest.Assertions
import Abuild.Library.Fallible

/-!
The expanded dependencies of a tree, which are kept twice: as the list of the trees that it
depends on, and as the set of these with the tree itself, from which build sets are expanded. The
list is replaced when a forest expands the dependencies anew; the set is added to. A tree that a
forest inherits is a copy of a tree of another forest, whose set it starts from.
`expandedTreeDepsAndLocal_iff` says after which operations list and set agree, and
`validateForests_descends` that the trees of a validation come from the trees as they are read
through such operations.
-/

set_option autoImplicit false
set_option relaxedAutoImplicit false

namespace Abuild

open Fallible (mem_of_mapM)
open Std (TreeMap TreeSet)

namespace BuildTree

/-! ### Operations on a tree -/

def setForestRoot (tree : BuildTree) (root : String) : BuildTree :=
  { tree with forestRoot := root }

/-- What is done with a tree from when it is read until the forests are validated. -/
inductive TreeAction
  | setExpandedTreeDeps (exp : List String)
  | copy
  | removeTreeDep (item : String)
  | addPlugins (extraPlugins : TreeSet String)
  | setForestRoot (root : String)

/-- A list that is empty has no last element to look at, and an assertion that fails ends the
program. -/
def act (tree : BuildTree) : TreeAction → Option BuildTree
  | .setExpandedTreeDeps exp => if exp = [] then none else some (tree.setExpandedTreeDeps exp)
  | .copy => some tree.incrementBackingDepth
  | .removeTreeDep item =>
    let (tree, found) := tree.removeTreeDep item
    if found.failed = [] then some tree else none
  | .addPlugins extraPlugins => some (tree.addPlugins extraPlugins)
  | .setForestRoot root => some (tree.setForestRoot root)

/-- The lists that the dependencies were expanded to, in this order. -/
def expansions (actions : List TreeAction) : List (List String) :=
  actions.filterMap fun
    | .setExpandedTreeDeps exp => some exp
    | _ => none

/-- The set has the elements of the list and the tree itself. -/
def Agrees (tree : BuildTree) : Prop :=
  ∀ name, name ∈ tree.expandedTreeDepsAndLocal ↔
    name ∈ tree.expandedTreeDeps ∨ name = tree.name

/-- There is a last list, and it has all that the lists before it have, apart from `name`. -/
def LastCovers (name : String) (lists : List (List String)) : Prop :=
  ∃ last, lists.getLast? = some last ∧ ∀ exp ∈ lists, ∀ dep ∈ exp, dep ∈ last ∨ dep = name

/-! ### What the fields hold -/

theorem mem_foldl_insert {l : List String} {s : TreeSet String} {a : String} :
    a ∈ l.foldl (·.insert ·) s ↔ a ∈ l ∨ a ∈ s := by
  induction l generalizing s with
  | nil => exact (or_iff_right List.not_mem_nil).symm
  | cons b l ih =>
    rw [List.foldl_cons, ih, TreeSet.mem_insert, compare_eq_iff_eq, List.mem_cons, eq_comm]
    tauto

theorem mem_expandedTreeDeps_set {tree : BuildTree} {exp : List String} {dep : String} :
    dep ∈ (tree.setExpandedTreeDeps exp).expandedTreeDeps ∨ dep = tree.name ↔
      dep ∈ exp ∨ dep = tree.name := by
  unfold setExpandedTreeDeps
  by_cases hlast : exp.getLast? = some tree.name
  · rw [if_pos hlast]
    by_cases hname : dep = tree.name
    · exact iff_of_true (Or.inr hname) (Or.inr hname)
    · rw [or_iff_left hname, or_iff_left hname]
      exact ⟨List.mem_of_mem_dropLast,
        fun hdep ↦ BuildForest.mem_dropLast_of_ne hlast hdep hname⟩
  · rw [if_neg hlast]

theorem mem_expandedTreeDepsAndLocal_set {tree : BuildTree} {exp : List String} {dep : String} :
    dep ∈ (tree.setExpandedTreeDeps exp).expandedTreeDepsAndLocal ↔
      (dep ∈ exp ∨ dep = tree.name) ∨ dep ∈ tree.expandedTreeDepsAndLocal := by
  have hset : dep ∈ (tree.setExpandedTreeDeps exp).expandedTreeDepsAndLocal ↔
      dep = tree.name ∨ dep ∈ (tree.setExpandedTreeDeps exp).expandedTreeDeps ∨
        dep ∈ tree.expandedTreeDepsAndLocal := by
    unfold setExpandedTreeDeps
    rw [TreeSet.mem_insert, compare_eq_iff_eq, mem_foldl_insert, eq_comm]
  rw [hset, ← mem_expandedTreeDeps_set, ← or_assoc, or_comm (a := dep = tree.name)]

/-- The list and the set of a tree whose dependencies were expanded to `lists`. -/
structure Expanded (name : String) (lists : List (List String)) (tree : BuildTree) : Prop where
  name_eq : tree.name = name
  list : ∀ dep, dep ∈ tree.expandedTreeDeps ∨ dep = name ↔
    (∃ last, lists.getLast? = some last ∧ dep ∈ last) ∨ dep = name
  set : ∀ dep, dep ∈ tree.expandedTreeDepsAndLocal ↔
    ∃ exp ∈ lists, dep ∈ exp ∨ dep = name

theorem expanded_new (name rootPath : String) (treeDeps : List String)
    (optionalTreeDeps : TreeSet String) (plugins : List String) :
    Expanded name [] (.new name rootPath treeDeps optionalTreeDeps plugins) := by
  refine ⟨rfl, fun dep ↦ ?_, fun dep ↦ ?_⟩
  · refine or_congr_left (iff_of_false List.not_mem_nil fun ⟨last, hlast, _⟩ ↦ ?_)
    cases hlast
  · exact iff_of_false TreeSet.not_mem_emptyc fun ⟨exp, hexp, _⟩ ↦ List.not_mem_nil hexp

variable {name : String} {lists : List (List String)} {tree tree' : BuildTree}

theorem Expanded.setExpandedTreeDeps (h : Expanded name lists tree) (exp : List String) :
    Expanded name (lists ++ [exp]) (tree.setExpandedTreeDeps exp) := by
  refine ⟨h.name_eq, fun dep ↦ ?_, fun dep ↦ ?_⟩
  · rw [← h.name_eq, mem_expandedTreeDeps_set, List.getLast?_concat]
    refine or_congr_left ⟨fun hdep ↦ ⟨exp, rfl, hdep⟩, ?_⟩
    rintro ⟨last, hlast, hdep⟩
    rwa [Option.some_inj.mp hlast]
  · rw [mem_expandedTreeDepsAndLocal_set, h.set, h.name_eq]
    constructor
    · rintro (hexp | ⟨earlier, hearlier, hdep⟩)
      · exact ⟨exp, List.mem_append_right _ (List.mem_singleton_self exp), hexp⟩
      · exact ⟨earlier, List.mem_append_left _ hearlier, hdep⟩
    · rintro ⟨earlier, hearlier, hdep⟩
      rcases List.mem_append.mp hearlier with hearlier | hearlier
      · exact Or.inr ⟨earlier, hearlier, hdep⟩
      · rw [List.mem_singleton.mp hearlier] at hdep
        exact Or.inl hdep

/-- The other operations leave the list and the set as they are. -/
theorem Expanded.act (h : Expanded name lists tree) {action : TreeAction}
    (hact : tree.act action = some tree') :
    Expanded name (lists ++ expansions [action]) tree' := by
  cases action with
  | setExpandedTreeDeps exp =>
    obtain ⟨-, heq⟩ := Option.ite_none_left_eq_some.mp hact
    obtain rfl := Option.some_inj.mp heq
    exact h.setExpandedTreeDeps exp
  | removeTreeDep item =>
    obtain ⟨-, heq⟩ := Option.ite_none_right_eq_some.mp hact
    obtain rfl := Option.some_inj.mp heq
    rw [show expansions [.removeTreeDep item] = [] from rfl, List.append_nil]
    exact ⟨h.name_eq, h.list, h.set⟩
  | copy =>
    obtain rfl := Option.some_inj.mp hact
    rw [show expansions [.copy] = [] from rfl, List.append_nil]
    exact ⟨h.name_eq, h.list, h.set⟩
  | addPlugins extraPlugins =>
    obtain rfl := Option.some_inj.mp hact
    rw [show expansions [.addPlugins extraPlugins] = [] from rfl, List.append_nil]
    exact ⟨h.name_eq, h.list, h.set⟩
  | setForestRoot root =>
    obtain rfl := Option.some_inj.mp hact
    rw [show expansions [.setForestRoot root] = [] from rfl, List.append_nil]
    exact ⟨h.name_eq, h.list, h.set⟩

theorem Expanded.foldlM (h : Expanded name lists tree) {actions : List TreeAction}
    (hrun : actions.foldlM BuildTree.act tree = some tree') :
    Expanded name (lists ++ expansions actions) tree' := by
  induction actions generalizing lists tree with
  | nil =>
    obtain rfl : tree = tree' := by simpa using hrun
    rwa [show expansions [] = [] from rfl, List.append_nil]
  | cons action actions ih =>
    rw [Fallible.foldlM_cons] at hrun
    obtain ⟨tree₁, hact, hrest⟩ := Option.bind_eq_some_iff.mp hrun
    have hsplit : expansions (action :: actions) = expansions [action] ++ expansions actions :=
      (List.filterMap_append : List.filterMap _ ([action] ++ actions) = _)
    rw [hsplit, ← List.append_assoc]
    exact ih (h.act hact) hrest

theorem Expanded.agrees_iff (h : Expanded name lists tree) :
    tree.Agrees ↔ LastCovers name lists := by
  unfold Agrees
  simp only [h.name_eq, h.list, h.set]
  constructor
  · intro hagrees
    obtain ⟨exp, hexp, -⟩ := (hagrees name).mpr (Or.inr rfl)
    obtain ⟨last, hlast⟩ := List.getLast?_isSome.mpr (List.ne_nil_of_mem hexp) |>
      Option.isSome_iff_exists.mp
    refine ⟨last, hlast, fun earlier hearlier dep hdep ↦ ?_⟩
    rcases (hagrees dep).mp ⟨earlier, hearlier, Or.inl hdep⟩ with ⟨last', hlast', hin⟩ | hname
    · rw [hlast] at hlast'
      rw [Option.some_inj.mp hlast']
      exact Or.inl hin
    · exact Or.inr hname
  · rintro ⟨last, hlast, hcovers⟩ dep
    constructor
    · rintro ⟨exp, hexp, hdep | hname⟩
      · exact (hcovers exp hexp dep hdep).imp_left fun hin ↦ ⟨last, hlast, hin⟩
      · exact Or.inr hname
    · rintro (⟨last', hlast', hin⟩ | hname)
      · exact ⟨last', List.mem_of_getLast? hlast', Or.inl hin⟩
      · exact ⟨last, List.mem_of_getLast? hlast, Or.inr hname⟩

/-- The set of a tree agrees with its list exactly when its dependencies have been expanded and
the last list has every tree that a list before it has. -/
theorem expandedTreeDepsAndLocal_iff {rootPath : String} {treeDeps : List String}
    {optionalTreeDeps : TreeSet String} {plugins : List String} {actions : List TreeAction}
    (hrun : actions.foldlM act (.new name rootPath treeDeps optionalTreeDeps plugins) =
      some tree) :
    (∀ dep, dep ∈ tree.expandedTreeDepsAndLocal ↔
      dep ∈ tree.expandedTreeDeps ∨ dep = tree.name) ↔ LastCovers name (expansions actions) :=
  ((expanded_new name rootPath treeDeps optionalTreeDeps plugins).foldlM hrun).agrees_iff

/-- The theorem, for a tree whose list gets longer in the forest that inherits it. -/
theorem expandedTreeDepsAndLocal_iff_longer :
    ∃ tree, [.setExpandedTreeDeps ["d", "t"], .copy, .setExpandedTreeDeps ["e", "d", "t"]].foldlM
        act (.new "t" "/n/t" ["d"] ∅ []) = some tree ∧
      ∀ dep, dep ∈ tree.expandedTreeDepsAndLocal ↔
        dep ∈ tree.expandedTreeDeps ∨ dep = tree.name := by
  obtain ⟨tree, hrun⟩ : ∃ tree, [.setExpandedTreeDeps ["d", "t"], .copy,
      .setExpandedTreeDeps ["e", "d", "t"]].foldlM act (.new "t" "/n/t" ["d"] ∅ []) = some tree :=
    ⟨_, rfl⟩
  refine ⟨tree, hrun, (expandedTreeDepsAndLocal_iff hrun).mpr ⟨["e", "d", "t"], rfl, ?_⟩⟩
  decide

/-! ### The trees of a validation -/

/-- A tree that operations lead to from a new one. -/
def Reached (tree : BuildTree) : Prop :=
  ∃ name rootPath treeDeps optionalTreeDeps plugins, ∃ actions : List TreeAction,
    actions.foldlM act (.new name rootPath treeDeps optionalTreeDeps plugins) = some tree

theorem Reached.act (h : tree.Reached) {action : TreeAction} (hact : tree.act action = some tree') :
    tree'.Reached := by
  obtain ⟨name, rootPath, treeDeps, optionalTreeDeps, plugins, actions, hrun⟩ := h
  refine ⟨name, rootPath, treeDeps, optionalTreeDeps, plugins, actions ++ [action], ?_⟩
  rw [List.foldlM_append, hrun]
  show [action].foldlM BuildTree.act tree = some tree'
  rw [Fallible.foldlM_cons, hact]
  rfl

end BuildTree

namespace BuildForest

variable {trees : BuildTreeMap} {forest forest' : BuildForest} {found : Findings}

/-- The trees of a map are reached. -/
def TreesReached (trees : BuildTreeMap) : Prop :=
  ∀ (name : String) (tree : BuildTree), trees[name]? = some tree → tree.Reached

theorem TreesReached.propagateGlobals (h : TreesReached forest.buildTrees) :
    TreesReached forest.propagateGlobals.buildTrees := by
  intro name tree' htree'
  unfold BuildForest.propagateGlobals at htree'
  rw [TreeMap.getElem?_map] at htree'
  obtain ⟨tree, htree, rfl⟩ := Option.map_eq_some_iff.mp htree'
  have hact : tree.act (.addPlugins forest.globalPlugins) =
      some (tree.addPlugins forest.globalPlugins) := rfl
  exact (h name tree htree).act hact

/-! #### Copies -/

theorem copyTree_reached {r : Resolution} {treesToDelete : TreeSet String} {name : String}
    {tree : BuildTree} (hr : TreesReached r.buildTrees) (htree : tree.Reached) :
    TreesReached (copyTree treesToDelete r name tree).buildTrees := by
  unfold copyTree
  by_cases hdeleted : treesToDelete.contains name = true
  · rw [if_pos hdeleted]
    exact hr
  · rw [if_neg hdeleted]
    cases hother : r.buildTrees[name]? with
    | some other =>
      dsimp only
      split_ifs
      · exact hr
      · exact hr
    | none =>
      intro name' tree' htree'
      rw [TreeMap.getElem?_insert] at htree'
      split_ifs at htree' with hname
      · have hact : tree.act .copy = some tree' := htree'
        exact htree.act hact
      · exact hr name' tree' htree'

theorem copyItem_buildTrees (treesToDelete itemsToDelete : TreeSet String)
    (location : FileLocation) (r : Resolution) (itemName : String) (item : BuildItem) :
    (copyItem treesToDelete itemsToDelete location r itemName item).buildTrees = r.buildTrees := by
  unfold copyItem
  split_ifs
  · rfl
  · rfl
  · cases r.buildItems[itemName]? with
    | some other =>
      dsimp only
      split_ifs
      · rfl
      · rfl
    | none => rfl

theorem copyArea_reached {r : Resolution} {treesToDelete itemsToDelete : TreeSet String}
    {location : FileLocation} {area : BuildForest} (hr : TreesReached r.buildTrees)
    (harea : TreesReached area.buildTrees) :
    TreesReached (copyArea treesToDelete itemsToDelete location r area).buildTrees := by
  have htrees : ∀ l : List (String × BuildTree), (∀ p ∈ l, p.2.Reached) → ∀ r : Resolution,
      TreesReached r.buildTrees →
        TreesReached (l.foldl (fun r entry ↦ copyTree treesToDelete r entry.1 entry.2)
          r).buildTrees := by
    intro l hl r hr
    exact List.foldlRecOn (motive := fun r : Resolution ↦ TreesReached r.buildTrees) l _ hr
      fun r hr p hp ↦ copyTree_reached hr (hl p hp)
  have hitems : ∀ (l : List (String × BuildItem)) (r : Resolution),
      TreesReached r.buildTrees →
        TreesReached (l.foldl (fun r entry ↦
          copyItem treesToDelete itemsToDelete location r entry.1 entry.2) r).buildTrees := by
    intro l r hr
    refine List.foldlRecOn (motive := fun r : Resolution ↦ TreesReached r.buildTrees) l _ hr
      fun r hr p _ ↦ ?_
    rwa [copyItem_buildTrees]
  unfold copyArea
  exact hitems _ _ (htrees _ (fun p hp ↦
    harea p.1 p.2 (TreeMap.mem_toList_iff_getElem?_eq_some.mp hp)) r hr)

/-! #### Expansion -/

theorem removeAbsentTreeDeps_reached {tree : BuildTree} (htree : tree.Reached)
    (hfailed : (removeAbsentTreeDeps trees tree).2.failed = []) :
    (removeAbsentTreeDeps trees tree).1.Reached := by
  suffices h : ∀ (l : List String) (tree : BuildTree) (found : Findings),
      (l.foldl (fun (tree, findings) dep ↦
        if tree.optionalTreeDeps.contains dep ∧ ¬ trees.contains dep then
          let (tree, failed) := tree.removeTreeDep dep
          (tree, findings ++ failed)
        else (tree, findings)) (tree, found)).2.failed = [] →
      found.failed = [] ∧ (tree.Reached → (l.foldl (fun (tree, findings) dep ↦
        if tree.optionalTreeDeps.contains dep ∧ ¬ trees.contains dep then
          let (tree, failed) := tree.removeTreeDep dep
          (tree, findings ++ failed)
        else (tree, findings)) (tree, found)).1.Reached) from
    (h tree.treeDeps tree .none hfailed).2 htree
  intro l
  induction l with
  | nil => exact fun tree found h ↦ ⟨h, fun htree ↦ htree⟩
  | cons dep l ih =>
    intro tree found hrest
    rw [List.foldl_cons] at hrest ⊢
    dsimp only at hrest ⊢
    by_cases habsent : tree.optionalTreeDeps.contains dep ∧ ¬ trees.contains dep
    · rw [if_pos habsent] at hrest ⊢
      obtain ⟨hfound, hreached⟩ := ih _ _ hrest
      obtain ⟨hbefore, hhere⟩ := List.append_eq_nil_iff.mp hfound
      have hact : tree.act (.removeTreeDep dep) = some (tree.removeTreeDep dep).1 := if_pos hhere
      exact ⟨hbefore, fun htree ↦ hreached (htree.act hact)⟩
    · rw [if_neg habsent] at hrest ⊢
      exact ih _ _ hrest

theorem checkTreeDependencies_reached (htrees : TreesReached forest.buildTrees)
    (hrun : checkTreeDependencies forest = some (forest', found)) (hfailed : found.failed = []) :
    TreesReached forest'.buildTrees := by
  unfold checkTreeDependencies at hrun
  obtain ⟨g, hg, hrun⟩ := Option.bind_eq_some_iff.mp hrun
  obtain ⟨⟨okay, g'⟩, hcheck, hrun⟩ := Option.bind_eq_some_iff.mp hrun
  obtain ⟨sorted, -, hrun⟩ := Option.bind_eq_some_iff.mp hrun
  obtain ⟨rfl, rfl⟩ := Prod.mk.inj (Option.some_inj.mp hrun)
  obtain ⟨hremoved, -⟩ := List.append_eq_nil_iff.mp hfailed
  intro name tree' htree'
  dsimp only at htree'
  rw [TreeMap.getElem?_map, TreeMap.getElem?_map] at htree'
  obtain ⟨⟨tree₁, found₁⟩, hdropped, rfl⟩ := Option.map_eq_some_iff.mp htree'
  obtain ⟨tree, htree, hdrop⟩ := Option.map_eq_some_iff.mp hdropped
  -- what the tree depends on is a list that ends in the tree
  have hadded : name ∈ DependencyGraph.added (DependencyGraph.additionsOf
      ((forest.buildTrees.map fun _ tree ↦ removeAbsentTreeDeps forest.buildTrees tree).toList.map
        fun entry ↦ (entry.1, entry.2.1.treeDeps))) := by
    rw [DependencyGraph.mem_added, (DependencyGraph.mem_additionsOf (b := name)).1, List.map_map,
      List.mem_map]
    refine ⟨(name, tree₁, found₁), TreeMap.mem_toList_iff_getElem?_eq_some.mpr ?_, rfl⟩
    rw [TreeMap.getElem?_map, htree, Option.map_some, hdrop]
  obtain ⟨result, g'', hcheck', hsorted⟩ := DependencyGraph.sorted_build hg
  rw [hcheck] at hcheck'
  obtain ⟨rfl, rfl⟩ := Prod.mk.inj (Option.some_inj.mp hcheck')
  obtain ⟨l, hl, -, hlast, -⟩ := hsorted name hadded
  have hne : l ≠ [] := by
    rintro rfl
    cases hlast
  have hfound₁ : found₁.failed = [] := by
    rw [List.eq_nil_iff_forall_not_mem]
    intro a ha
    refine List.eq_nil_iff_forall_not_mem.mp hremoved a (Findings.mem_failed_concat.mpr
      ⟨found₁, List.mem_map.mpr ⟨(tree₁, found₁), mem_values.mpr ⟨name, ?_⟩, rfl⟩, ha⟩)
    rw [TreeMap.getElem?_map, htree, Option.map_some, hdrop]
  have hdropped : tree₁.Reached := by
    have hfailed : (removeAbsentTreeDeps forest.buildTrees tree).2.failed = [] := by
      rwa [hdrop]
    have h := removeAbsentTreeDeps_reached (htrees name tree htree) hfailed
    rwa [hdrop] at h
  have hact : tree₁.act (.setExpandedTreeDeps l) = some (tree₁.setExpandedTreeDeps l) :=
    if_neg hne
  dsimp only
  rw [hl, Option.getD_some]
  exact hdropped.act hact

/-! #### The whole validation -/

/-- The trees of all forests are reached. -/
def ForestsReached (forests : BuildForestMap) : Prop :=
  ∀ (path : String) (forest : BuildForest), forests[path]? = some forest →
    TreesReached forest.buildTrees

variable {forests validated : BuildForestMap}

theorem resolveFromBackingAreas_reached {topPath : String} (hforests : ForestsReached forests)
    (hforest : TreesReached forest.buildTrees)
    (hrun : resolveFromBackingAreas forests forest topPath = some (forest', found)) :
    TreesReached forest'.buildTrees := by
  unfold resolveFromBackingAreas at hrun
  obtain ⟨g, -, hrun⟩ := Option.bind_eq_some_iff.mp hrun
  obtain ⟨sorted, -, hrun⟩ := Option.bind_eq_some_iff.mp hrun
  obtain ⟨areas, hareas, hrun⟩ := Option.bind_eq_some_iff.mp hrun
  obtain ⟨rfl, -⟩ := Prod.mk.inj (Option.some_inj.mp hrun)
  refine List.foldlRecOn (motive := fun r : Resolution ↦ TreesReached r.buildTrees) areas _ hforest
    fun r hr area harea ↦ ?_
  obtain ⟨path, -, hpath⟩ := (mem_of_mapM hareas).2 area harea
  exact copyArea_reached hr (hforests path area hpath)

theorem validateForest_reached {fullIntegrity : Bool} {topPath : String}
    (hforests : ForestsReached forests)
    (hrun : validateForest fullIntegrity forests topPath = some (validated, found))
    (hfailed : found.failed = []) : ForestsReached validated := by
  unfold validateForest at hrun
  obtain ⟨read, hread, hrun⟩ := Option.bind_eq_some_iff.mp hrun
  obtain ⟨⟨inherited, resolved⟩, hresolve, hrun⟩ := Option.bind_eq_some_iff.mp hrun
  obtain ⟨⟨expanded, trees⟩, hexpand, hrun⟩ := Option.bind_eq_some_iff.mp hrun
  obtain ⟨⟨checked, items⟩, hitems, hrun⟩ := Option.bind_eq_some_iff.mp hrun
  have hend : ∃ integrity, (forests.insert topPath (checkIntegrity forests checked),
      resolved ++ (trees ++ ((checkPlugins expanded).2 ++ (items ++ (checkBuildAlso checked ++
        (checkDepTreeAccess checked ++ integrity)))))) = (validated, found) := by
    cases fullIntegrity with
    | false => exact ⟨.none, Option.some_inj.mp hrun⟩
    | true =>
      obtain ⟨integrity, -, hreported⟩ := Option.bind_eq_some_iff.mp hrun
      exact ⟨integrity, Option.some_inj.mp hreported⟩
  obtain ⟨integrity, heq⟩ := hend
  obtain ⟨rfl, rfl⟩ := Prod.mk.inj heq
  obtain ⟨-, hrest⟩ := List.append_eq_nil_iff.mp hfailed
  obtain ⟨htrees, -⟩ := List.append_eq_nil_iff.mp hrest
  have hinherited : TreesReached inherited.buildTrees :=
    resolveFromBackingAreas_reached hforests (hforests topPath read hread).propagateGlobals hresolve
  have hexpanded : TreesReached expanded.buildTrees :=
    checkTreeDependencies_reached hinherited hexpand htrees
  -- the trees stay as they are after their dependencies are expanded
  have hsame : checked.buildTrees = expanded.buildTrees := by
    unfold checkItemDependencies at hitems
    obtain ⟨g, -, hitems⟩ := Option.bind_eq_some_iff.mp hitems
    obtain ⟨⟨okay, g'⟩, -, hitems⟩ := Option.bind_eq_some_iff.mp hitems
    obtain ⟨sorted, -, hitems⟩ := Option.bind_eq_some_iff.mp hitems
    obtain ⟨rfl, -⟩ := Prod.mk.inj (Option.some_inj.mp hitems)
    rfl
  intro path forest hforest
  rw [TreeMap.getElem?_insert] at hforest
  split_ifs at hforest with hpath
  · obtain rfl := Option.some_inj.mp hforest
    show TreesReached checked.buildTrees
    rwa [hsame]
  · exact hforests path forest hforest

/-- A validation in which no assertion fails makes nothing of the trees but what operations on
them make. -/
theorem validateForests_reached {fullIntegrity : Bool} (hforests : ForestsReached forests)
    (hrun : validateForests fullIntegrity forests = some (validated, found))
    (hfailed : found.failed = []) : ForestsReached validated := by
  unfold validateForests at hrun
  obtain ⟨g, -, hrun⟩ := Option.bind_eq_some_iff.mp hrun
  obtain ⟨allForests, -, hrun⟩ := Option.bind_eq_some_iff.mp hrun
  refine Fallible.foldlM_induction
    (motive := fun s : BuildForestMap × Findings ↦ s.2.failed = [] → ForestsReached s.1) hrun
    (fun _ ↦ hforests) ?_ hfailed
  intro path _ s s' hstep hbefore hfailed'
  obtain ⟨⟨forests', found'⟩, hvalidate, heq⟩ := Option.bind_eq_some_iff.mp hstep
  obtain rfl := Option.some_inj.mp heq
  obtain ⟨hearlier, hhere⟩ := List.append_eq_nil_iff.mp hfailed'
  exact validateForest_reached (hbefore hearlier) hvalidate hhere

/-! #### A tree whose list gets shorter -/

/-- A tree depends on a tree that depends on a third one, and a forest that inherits them has a
tree without dependencies in place of the second. -/
def overriddenTree : BuildForestMap :=
  .ofList
    [("/n", readForest "/n" [("t", ["d"]), ("d", ["e"]), ("e", [])] [] []),
      ("/f", readForest "/f" [("d", [])] [] ["/n"])]

set_option maxRecDepth 10000 in
/-- The inherited tree does not depend on the third tree any more, which its set keeps. -/
theorem not_agrees_overriddenTree :
    ∃ validated forest tree, validateForests true overriddenTree = some (validated, .none) ∧
      validated["/f"]? = some forest ∧ forest.buildTrees["t"]? = some tree ∧ ¬ tree.Agrees := by
  have hrun : ((validateForests true overriddenTree).bind fun result ↦
      (result.1["/f"]?).bind fun forest ↦ (forest.buildTrees["t"]?).map fun tree ↦
        decide (result.2 = .none ∧ "e" ∈ tree.expandedTreeDepsAndLocal ∧
          ¬ ("e" ∈ tree.expandedTreeDeps ∨ "e" = tree.name))) = some true := by decide
  obtain ⟨⟨validated, found⟩, hvalidated, hrun⟩ := Option.bind_eq_some_iff.mp hrun
  obtain ⟨forest, hforest, hrun⟩ := Option.bind_eq_some_iff.mp hrun
  obtain ⟨tree, htree, hrun⟩ := Option.map_eq_some_iff.mp hrun
  obtain ⟨rfl, hset, hlist⟩ := of_decide_eq_true hrun
  exact ⟨validated, forest, tree, hvalidated, hforest, htree,
    fun hagrees ↦ hlist ((hagrees "e").mp hset)⟩

end BuildForest

end Abuild
