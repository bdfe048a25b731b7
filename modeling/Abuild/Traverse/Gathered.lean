import Abuild.BuildForest.Validate
import Abuild.Traverse

/-!
The forests that the traversal comes to are as the validation takes them to be (`traverse_asRead`),
in both modes: every tree and every item has the root of its forest, no item is without a tree, and
nothing is expanded or inherited yet. The backing graph, which is checked first, is all that may be
wrong with them.
-/

set_option autoImplicit false
set_option relaxedAutoImplicit false

namespace Abuild

open BuildForest
open Fallible (bind_eq_ok foldlM_ok_induction)
open Std (TreeMap TreeSet)

/-! ### Names of 1.0 trees -/

/-- The names that trees have been given are not empty. -/
def Traversal.Named (t : Traversal) : Prop :=
  ∀ dir name : String, t.assignedTreeNames[dir]? = some name → name ≠ ""

section Names

variable {disk : Disk} {t t' : Traversal}

theorem Traversal.Named.of_eq (h : t.Named) (heq : t'.assignedTreeNames = t.assignedTreeNames) :
    t'.Named := fun dir name hname ↦ h dir name (heq ▸ hname)

theorem findTop_names {steps : ℕ} {startDir description top : String}
    (h : disk.findTop steps t startDir description = .ok (top, t')) :
    t'.assignedTreeNames = t.assignedTreeNames := by
  unfold Disk.findTop at h
  split at h
  · obtain ⟨-, rfl⟩ := Prod.mk.inj (Except.ok.inj h)
    rfl
  · obtain ⟨top', -, hrest⟩ := bind_eq_ok.mp h
    obtain ⟨-, rfl⟩ := Prod.mk.inj (Except.ok.inj hrest)
    dsimp only
    split_ifs <;> rfl

theorem eq_config_of_readConfig {dir : String} {config : DirConfig dir}
    (h : disk.readConfig dir = .ok config) : config = disk.config dir := by
  unfold Disk.readConfig at h
  split at h
  · cases h
  · exact (Except.ok.inj h).symm

theorem readBackingData_names {dir : String} {backing : BackingConfig}
    (h : disk.readBackingData t dir = .ok (backing, t')) :
    t'.assignedTreeNames = t.assignedTreeNames := by
  obtain ⟨backing', -, hrest⟩ := bind_eq_ok.mp h
  obtain ⟨-, rfl⟩ := Prod.mk.inj (Except.ok.inj hrest)
  split_ifs <;> rfl

theorem searchExternal_names {startDir startExternal : String} {steps : ℕ} {seen : TreeSet String}
    {candidates : List (String × String)} {found : Option String}
    (h : disk.searchExternal startDir startExternal steps seen candidates t = .ok (found, t')) :
    t'.assignedTreeNames = t.assignedTreeNames := by
  induction steps generalizing seen candidates t with
  | zero => cases h
  | succ steps ih =>
    cases candidates with
    | nil =>
      obtain ⟨-, rfl⟩ := Prod.mk.inj (Except.ok.inj h)
      rfl
    | cons candidate candidates =>
      obtain ⟨dir, ext⟩ := candidate
      rw [Disk.searchExternal] at h
      dsimp only at h
      split_ifs at h
      · obtain ⟨-, rfl⟩ := Prod.mk.inj (Except.ok.inj h)
        rfl
      · obtain ⟨config, -, hrest⟩ := bind_eq_ok.mp h
        obtain ⟨-, rfl⟩ := Prod.mk.inj (Except.ok.inj hrest)
        rfl
      · obtain ⟨⟨backing, t₁⟩, hbacking, hrest⟩ := bind_eq_ok.mp h
        exact (ih hrest).trans (readBackingData_names hbacking)
      · exact ih h

theorem readExternalConfig_names {steps : ℕ} {startDir startExternal : String}
    {found : Option String}
    (h : disk.readExternalConfig steps t startDir startExternal = .ok (found, t')) :
    t'.assignedTreeNames = t.assignedTreeNames := by
  unfold Disk.readExternalConfig at h
  split at h
  · obtain ⟨-, rfl⟩ := Prod.mk.inj (Except.ok.inj h)
    rfl
  · obtain ⟨⟨found', t₁⟩, hx, hrest⟩ := bind_eq_ok.mp h
    obtain ⟨-, rfl⟩ := Prod.mk.inj (Except.ok.inj hrest)
    have hnames : t₁.assignedTreeNames = t.assignedTreeNames := searchExternal_names hx
    exact hnames

/-- A generated name is not empty. -/
theorem generateTreeName_ne (rand : ℕ → ℕ) (t : Traversal) (dir : String) :
    (Disk.generateTreeName rand t dir).1 ≠ "" := by
  intro h
  have hlength := congrArg String.length h
  unfold Disk.generateTreeName at hlength
  simp only [String.length_append] at hlength
  have htree : "tree.".length = 5 := by decide
  have hempty : "".length = 0 := rfl
  omega

theorem Traversal.Named.generateTreeName (h : t.Named) (rand : ℕ → ℕ) (dir : String) :
    (Disk.generateTreeName rand t dir).2.Named := by
  intro dir' name hname
  unfold Disk.generateTreeName at hname
  dsimp only at hname
  rw [TreeMap.getElem?_insert] at hname
  split_ifs at hname
  · exact Option.some_inj.mp hname ▸ generateTreeName_ne rand t dir
  · exact h dir' name hname

theorem inheritTreeName_named {assign : Traversal → String → Except Halt (String × Traversal)}
    (hassign : ∀ {t t' : Traversal} {dir name : String}, t.Named → assign t dir = .ok (name, t') →
      t'.Named)
    {visiting : TreeSet String} {dir backingArea name : String} (h : t.Named)
    (hname : disk.inheritTreeName assign visiting t dir backingArea = .ok (name, t')) :
    t'.Named := by
  unfold Disk.inheritTreeName at hname
  by_cases hconf : ¬ disk.hasConf backingArea = true
  · rw [if_pos hconf] at hname
    cases hname
  rw [if_neg hconf] at hname
  obtain ⟨config, -, hread⟩ := bind_eq_ok.mp hname
  by_cases hroot : ¬ config.isTreeRoot = true
  · rw [if_pos hroot] at hread
    cases hread
  rw [if_neg hroot] at hread
  by_cases hown : ¬ config.treeName.isEmpty = true
  · rw [if_pos hown] at hread
    obtain ⟨-, rfl⟩ := Prod.mk.inj (Except.ok.inj hread)
    exact h
  rw [if_neg hown] at hread
  split at hread
  · obtain ⟨-, rfl⟩ := Prod.mk.inj (Except.ok.inj hread)
    exact h
  · split_ifs at hread
    exact hassign h hread

theorem assignTreeName_named {rand : ℕ → ℕ} {steps : ℕ} {visiting : TreeSet String}
    {dir name : String} (h : t.Named)
    (hname : disk.assignTreeName rand false steps visiting t dir = .ok (name, t')) :
    name ≠ "" ∧ t'.Named := by
  induction steps generalizing visiting t t' dir name with
  | zero => cases hname
  | succ steps ih =>
    rw [Disk.assignTreeName] at hname
    obtain ⟨⟨treeName, t₁⟩, hfirst, hrest⟩ := bind_eq_ok.mp hname
    have hnamed : t₁.Named := by
      split_ifs at hfirst
      · obtain ⟨⟨backing, t₂⟩, hbacking, hinherit⟩ := bind_eq_ok.mp hfirst
        have hread : t₂.Named := h.of_eq (readBackingData_names hbacking)
        dsimp only at hinherit
        split at hinherit
        · exact inheritTreeName_named (fun ht hassign ↦ (ih ht hassign).2) hread hinherit
        · obtain ⟨-, rfl⟩ := Prod.mk.inj (Except.ok.inj hinherit)
          exact hread
      · obtain ⟨-, rfl⟩ := Prod.mk.inj (Except.ok.inj hfirst)
        exact h
    have hresult := Except.ok.inj hrest
    split_ifs at hresult with hempty
    · obtain ⟨rfl, rfl⟩ := Prod.mk.inj hresult.symm
      exact ⟨generateTreeName_ne rand t₁ dir, hnamed.generateTreeName rand dir⟩
    · obtain ⟨rfl, rfl⟩ := Prod.mk.inj hresult
      refine ⟨fun hnil ↦ hempty ?_, hnamed⟩
      rw [hnil]
      rfl

end Names

/-! ### Forests that are being read -/

/-- An item of the forest at `p`, as it is read. -/
structure ItemGathered (p name : String) (item : BuildItem) : Prop where
  itemName : item.itemName = name
  name_ne : name ≠ ""
  deps_ne : "" ∉ item.deps
  forestRoot : item.forestRoot = p
  backingDepth : item.backingDepth = 0
  notExpanded : item.expandedDependencies = []
  notShadowed : ∀ ref, ref ∉ item.shadowedReferences

/-- A forest as far as it has been read. -/
structure Gathered (p : String) (forest : BuildForest) : Prop where
  rootPath : forest.rootPath = p
  tree : ∀ (name : String) (tree : BuildTree), forest.buildTrees[name]? = some tree →
    TreeRead p name tree
  item : ∀ (name : String) (item : BuildItem), forest.buildItems[name]? = some item →
    ItemGathered p name item ∧ item.treeName ∈ forest.buildTrees

theorem gathered_new (p : String) : Gathered p (.new p) where
  rootPath := rfl
  tree name tree h := by
    have hempty : (BuildForest.new p).buildTrees[name]? = none := TreeMap.getElem?_emptyc
    cases hempty.symm.trans h
  item name item h := by
    have hempty : (BuildForest.new p).buildItems[name]? = none := TreeMap.getElem?_emptyc
    cases hempty.symm.trans h

section Forest

variable {p : String} {forest forest' : BuildForest} {t t' : Traversal}

/-- What is about neither trees nor items does not matter. -/
theorem Gathered.congr (h : Gathered p forest) (hroot : forest'.rootPath = forest.rootPath)
    (htrees : forest'.buildTrees = forest.buildTrees)
    (hitems : forest'.buildItems = forest.buildItems) : Gathered p forest' where
  rootPath := hroot.trans h.rootPath
  tree name tree htree := h.tree name tree (htrees ▸ htree)
  item name item hitem := htrees ▸ h.item name item (hitems ▸ hitem)

theorem addTreeToForest_mem (forest : BuildForest) (t : Traversal) (treeName : String)
    (tree : BuildTree) (name : String) :
    name ∈ (forest.addTreeToForest t treeName tree).1.buildTrees ↔
      name = treeName ∨ name ∈ forest.buildTrees := by
  unfold addTreeToForest
  split
  · next other hother =>
    have hmem := mem_of_getElem? hother
    have hiff : name ∈ forest.buildTrees ↔ name = treeName ∨ name ∈ forest.buildTrees :=
      ⟨Or.inr, fun hor ↦ hor.elim (fun heq ↦ heq ▸ hmem) id⟩
    split_ifs <;> exact hiff
  · rw [TreeMap.mem_insert, compare_eq_iff_eq, eq_comm]

theorem addTreeToForest_keeps (forest : BuildForest) (t : Traversal) (treeName : String)
    (tree : BuildTree) :
    (forest.addTreeToForest t treeName tree).2.assignedTreeNames = t.assignedTreeNames ∧
      (forest.addTreeToForest t treeName tree).1.buildItems = forest.buildItems ∧
        (forest.addTreeToForest t treeName tree).1.rootPath = forest.rootPath ∧
          (forest.addTreeToForest t treeName tree).1.backingAreas = forest.backingAreas := by
  unfold addTreeToForest
  split
  · split_ifs <;> exact ⟨rfl, rfl, rfl, rfl⟩
  · exact ⟨rfl, rfl, rfl, rfl⟩

/-- A tree is added as it is read, or in place of one that has been read before. -/
theorem Gathered.addTreeToForest (h : Gathered p forest) {treeName : String} {tree : BuildTree}
    (hname : tree.name = treeName) (hne : treeName ≠ "") (hdeps : "" ∉ tree.treeDeps)
    (hdepth : tree.backingDepth = 0) (hexpanded : tree.expandedTreeDeps = []) (t : Traversal) :
    Gathered p (forest.addTreeToForest t treeName tree).1 := by
  have hmem := addTreeToForest_mem forest t treeName tree
  obtain ⟨-, hitems, hroot, -⟩ := addTreeToForest_keeps forest t treeName tree
  refine ⟨hroot.trans h.rootPath, fun name other hother ↦ ?_, fun name item hitem ↦ ?_⟩
  · unfold BuildForest.addTreeToForest at hother
    split at hother
    · split_ifs at hother <;> exact h.tree name other hother
    · rw [TreeMap.getElem?_insert] at hother
      split_ifs at hother with heq
      · obtain rfl := compare_eq_iff_eq.mp heq
        obtain rfl := Option.some_inj.mp hother
        exact ⟨hname, hne, hdeps, h.rootPath, hdepth, hexpanded⟩
      · exact h.tree name other hother
  · obtain ⟨hread, htree⟩ := h.item name item (hitems ▸ hitem)
    exact ⟨hread, (hmem _).mpr (Or.inr htree)⟩

/-- What is left of a forest and of the traversal when an item has been added. -/
theorem addItemToForest_keeps {allow10 : Bool} {itemName : String} {item : BuildItem}
    (h : forest.addItemToForest allow10 t itemName item = .ok (forest', t')) :
    t'.assignedTreeNames = t.assignedTreeNames ∧ forest'.buildTrees = forest.buildTrees ∧
      forest'.rootPath = forest.rootPath ∧ forest'.backingAreas = forest.backingAreas := by
  unfold BuildForest.addItemToForest at h
  split at h
  all_goals
    split_ifs at h <;> obtain ⟨rfl, rfl⟩ := Prod.mk.inj (Except.ok.inj h)
  all_goals exact ⟨rfl, rfl, rfl, rfl⟩

/-- An item is added if it is in a tree, which is one of the forest. -/
theorem Gathered.addItemToForest (h : Gathered p forest) {allow10 : Bool} {itemName : String}
    {item : BuildItem} (hread : ItemGathered p itemName { item with forestRoot := p })
    (htree : item.treeName = "" ∨ item.treeName ∈ forest.buildTrees)
    (hadd : forest.addItemToForest allow10 t itemName item = .ok (forest', t')) :
    Gathered p forest' := by
  obtain ⟨-, htrees, hroot, -⟩ := addItemToForest_keeps hadd
  refine ⟨hroot.trans h.rootPath, fun name other hother ↦ h.tree name other (htrees ▸ hother),
    fun name other hother ↦ ?_⟩
  rw [htrees]
  unfold BuildForest.addItemToForest at hadd
  split at hadd
  · split_ifs at hadd <;> obtain ⟨rfl, -⟩ := Prod.mk.inj (Except.ok.inj hadd) <;>
      exact h.item name other hother
  · split_ifs at hadd with hempty
    · obtain ⟨rfl, -⟩ := Prod.mk.inj (Except.ok.inj hadd)
      exact h.item name other hother
    · obtain ⟨rfl, -⟩ := Prod.mk.inj (Except.ok.inj hadd)
      rw [TreeMap.getElem?_insert] at hother
      split_ifs at hother with heq
      · obtain rfl := compare_eq_iff_eq.mp heq
        obtain rfl := Option.some_inj.mp hother
        rw [h.rootPath]
        exact ⟨hread, htree.resolve_left fun hnil ↦ hempty (hnil ▸ rfl)⟩
      · exact h.item name other hother

end Forest

/-! ### The traversal of items -/

/-- What is kept while the items of a forest are traversed. -/
structure Gathers (p : String) (s : ItemsTraversal) : Prop where
  forest : Gathered p s.forest
  named : s.traversal.Named

/-- The trees of the directories that have been seen are trees of the forest. -/
def DirQueue.InForest (q : DirQueue) (forest : BuildForest) : Prop :=
  ∀ dir name : String, q.dirTrees[dir]? = some name → name = "" ∨ name ∈ forest.buildTrees

section Items

variable {r : Traverser} {p : String} {s s' : ItemsTraversal}

theorem nameTree_named {t t' : Traversal} (h : t.Named) {dir name : String}
    (hname : r.nameTree t dir = .ok (name, t')) : name ≠ "" ∧ t'.Named := by
  unfold Traverser.nameTree at hname
  split_ifs at hname with hempty
  · unfold Disk.getAssignedTreeName at hname
    split at hname
    · next assigned hassigned =>
      obtain ⟨rfl, rfl⟩ := Prod.mk.inj (Except.ok.inj hname)
      exact ⟨h dir assigned hassigned, h⟩
    · exact assignTreeName_named h hname
  · obtain ⟨rfl, rfl⟩ := Prod.mk.inj (Except.ok.inj hname)
    refine ⟨fun hnil ↦ hempty ?_, h⟩
    rw [hnil]
    rfl

theorem registerExternal_named {dir edecl : String} {config : DirConfig dir}
    {x x' : List String × Traversal} (h : x.2.Named) (hdeps : "" ∉ x.1)
    (hx : r.registerExternal dir config x edecl = .ok x') : "" ∉ x'.1 ∧ x'.2.Named := by
  obtain ⟨⟨found, t₁⟩, hfound, hrest⟩ := bind_eq_ok.mp hx
  have hnamed : t₁.Named := h.of_eq (readExternalConfig_names hfound)
  dsimp only at hrest
  split at hrest
  · obtain rfl := Except.ok.inj hrest
    exact ⟨hdeps, hnamed⟩
  · split_ifs at hrest
    · obtain ⟨⟨extTreeName, t₂⟩, hname, hlast⟩ := bind_eq_ok.mp hrest
      obtain ⟨hne, hnamed'⟩ := nameTree_named hnamed hname
      obtain rfl := Except.ok.inj hlast
      refine ⟨fun hmem ↦ ?_, hnamed'⟩
      rcases List.mem_append.mp hmem with hmem | hmem
      · exact hdeps hmem
      · exact hne (List.mem_singleton.mp hmem).symm
    · obtain rfl := Except.ok.inj hrest
      exact ⟨hdeps, hnamed⟩

theorem Gathers.registerBuildTree (h : Gathers p s) {dir treeName : String}
    (hs : r.registerBuildTree s dir = .ok (treeName, s')) :
    Gathers p s' ∧ treeName ∈ s'.forest.buildTrees ∧
      ∀ name ∈ s.forest.buildTrees, name ∈ s'.forest.buildTrees := by
  obtain ⟨⟨name, t₁⟩, hname, hrest⟩ := bind_eq_ok.mp hs
  obtain ⟨hne, hnamed⟩ := nameTree_named h.named hname
  obtain ⟨⟨treeDeps, t₂⟩, hdeps, hlast⟩ := bind_eq_ok.mp hrest
  obtain ⟨hdeps_ne, hnamed'⟩ : "" ∉ treeDeps ∧ t₂.Named :=
    foldlM_ok_induction (motive := fun x ↦ "" ∉ x.1 ∧ x.2.Named) hdeps
      ⟨(r.disk.config dir).treeDeps_ne, hnamed⟩
      fun edecl _ x x' hx ih ↦ registerExternal_named ih.2 ih.1 hx
  obtain ⟨rfl, rfl⟩ := Prod.mk.inj (Except.ok.inj hlast)
  have hgathered : Gathered p (s.forest.addTreeToForest t₂ name (BuildTree.new name dir treeDeps
      (r.disk.config dir).optionalTreeDeps (r.disk.config dir).plugins)).1 := by
    refine h.forest.addTreeToForest ?_ hne hdeps_ne ?_ ?_ t₂ <;> rfl
  have hmem := addTreeToForest_mem s.forest t₂ name (BuildTree.new name dir treeDeps
    (r.disk.config dir).optionalTreeDeps (r.disk.config dir).plugins)
  refine ⟨⟨hgathered.congr rfl rfl rfl, ?_⟩, (hmem name).mpr (Or.inl rfl),
    fun other hother ↦ (hmem other).mpr (Or.inr hother)⟩
  exact hnamed'.of_eq (addTreeToForest_keeps s.forest t₂ name _).1

theorem traverseChild_keeps (r : Traverser) (hasBackingArea : Bool) (dir : String)
    (config : DirConfig dir) (x : DirQueue × Traversal) (child : String) :
    (r.traverseChild hasBackingArea dir config x child).1.dirTrees = x.1.dirTrees ∧
      (r.traverseChild hasBackingArea dir config x child).2.assignedTreeNames =
        x.2.assignedTreeNames := by
  unfold Traverser.traverseChild
  dsimp only
  split_ifs <;> exact ⟨rfl, rfl⟩

theorem traverseChildren_keeps (r : Traverser) (hasBackingArea : Bool) (dir : String)
    (config : DirConfig dir) (children : List String) (x : DirQueue × Traversal) :
    (children.foldl (r.traverseChild hasBackingArea dir config) x).1.dirTrees = x.1.dirTrees ∧
      (children.foldl (r.traverseChild hasBackingArea dir config) x).2.assignedTreeNames =
        x.2.assignedTreeNames := by
  induction children generalizing x with
  | nil => exact ⟨rfl, rfl⟩
  | cons child children ih =>
    obtain ⟨hdirTrees, hnames⟩ := traverseChild_keeps r hasBackingArea dir config x child
    rw [List.foldl_cons, (ih _).1, (ih _).2]
    exact ⟨hdirTrees, hnames⟩

theorem noteLocalTree_names (t : Traversal) (dir treeName : String) :
    (r.noteLocalTree t dir treeName).assignedTreeNames = t.assignedTreeNames := by
  unfold Traverser.noteLocalTree
  split_ifs <;> rfl

theorem traverseItem_keeps {forest forest' : BuildForest} {t t' : Traversal}
    {dir treeName : String} (h : r.traverseItem forest t dir treeName = .ok (forest', t')) :
    t'.assignedTreeNames = t.assignedTreeNames ∧ forest'.buildTrees = forest.buildTrees := by
  unfold Traverser.traverseItem at h
  dsimp only at h
  split_ifs at h
  · obtain ⟨rfl, rfl⟩ := Prod.mk.inj (Except.ok.inj h)
    exact ⟨rfl, rfl⟩
  · obtain ⟨hnames, htrees, -⟩ := addItemToForest_keeps h
    exact ⟨hnames, htrees⟩

theorem Gathered.traverseItem {forest forest' : BuildForest} {t t' : Traversal}
    (h : Gathered p forest) {dir treeName : String}
    (htree : treeName = "" ∨ treeName ∈ forest.buildTrees)
    (hitem : r.traverseItem forest t dir treeName = .ok (forest', t')) : Gathered p forest' := by
  unfold Traverser.traverseItem at hitem
  dsimp only at hitem
  split_ifs at hitem with hempty
  · obtain ⟨rfl, -⟩ := Prod.mk.inj (Except.ok.inj hitem)
    exact h
  · refine h.addItemToForest ?_ htree hitem
    exact
      { itemName := rfl
        name_ne := fun hnil ↦ hempty (hnil ▸ rfl)
        deps_ne := (r.disk.config dir).deps_ne
        forestRoot := rfl
        backingDepth := rfl
        notExpanded := rfl
        notShadowed := fun _ ↦ TreeSet.not_mem_emptyc }

theorem Gathers.traverseTree {q : DirQueue} {dir treeName : String} (h : Gathers p s)
    (hq : q.InForest s.forest) (hs : r.traverseTree s q dir = .ok (treeName, s')) :
    Gathers p s' ∧ (treeName = "" ∨ treeName ∈ s'.forest.buildTrees) ∧ q.InForest s'.forest := by
  unfold Traverser.traverseTree at hs
  split_ifs at hs
  · obtain ⟨hgathers, hmem, hmore⟩ := h.registerBuildTree hs
    exact ⟨hgathers, Or.inr hmem, fun dir name hname ↦ (hq dir name hname).imp_right (hmore name)⟩
  · obtain ⟨rfl, rfl⟩ := Prod.mk.inj (Except.ok.inj hs)
    refine ⟨h, ?_, hq⟩
    rw [TreeMap.getD_eq_getD_getElem?]
    cases hget : q.dirTrees[q.parentDirs.getD dir ""]? with
    | none => exact Or.inl rfl
    | some name => exact hq _ name hget

/-- A directory: its tree is one of the forest, and its item is in that tree. -/
theorem Gathers.traverseDir {q q' : DirQueue} {hasBackingArea : Bool} {dir : String}
    (h : Gathers p s) (hq : q.InForest s.forest)
    (hs : r.traverseDir hasBackingArea s q dir = .ok (s', q')) :
    Gathers p s' ∧ q'.InForest s'.forest := by
  obtain ⟨config, hconfig, hs⟩ := bind_eq_ok.mp hs
  obtain rfl := eq_config_of_readConfig hconfig
  obtain ⟨⟨treeName, s₁⟩, hfirst, hs⟩ := bind_eq_ok.mp hs
  obtain ⟨hgathers, hmem, hqueue⟩ := h.traverseTree hq hfirst
  obtain ⟨⟨forest, t⟩, hitem, hrest⟩ := bind_eq_ok.mp hs
  obtain ⟨hnames, htrees⟩ := traverseItem_keeps hitem
  obtain ⟨hdirTrees, hnames'⟩ := traverseChildren_keeps r hasBackingArea dir
    (r.disk.config dir) (r.disk.config dir).children
    ({ q with dirTrees := q.dirTrees.insert dir treeName }, t)
  dsimp only at hrest
  obtain ⟨rfl, rfl⟩ := Prod.mk.inj (Except.ok.inj hrest)
  refine ⟨⟨hgathers.forest.traverseItem hmem hitem, hgathers.named.of_eq
    (hnames'.trans (hnames.trans (noteLocalTree_names _ dir treeName)))⟩, fun dir' name hname ↦ ?_⟩
  rw [hdirTrees] at hname
  dsimp only at hname ⊢
  rw [TreeMap.getElem?_insert] at hname
  rw [htrees]
  split_ifs at hname
  · exact Option.some_inj.mp hname ▸ hmem
  · exact hqueue dir' name hname

theorem Gathers.traverseDirs {hasBackingArea : Bool} {steps : ℕ} {q : DirQueue} (h : Gathers p s)
    (hq : q.InForest s.forest) (hs : r.traverseDirs hasBackingArea steps s q = .ok s') :
    Gathers p s' := by
  induction steps generalizing s q with
  | zero => cases hs
  | succ steps ih =>
    rw [Traverser.traverseDirs] at hs
    cases hdirs : q.dirs with
    | nil =>
      rw [hdirs] at hs
      obtain rfl := Except.ok.inj hs
      exact h
    | cons dir dirs =>
      rw [hdirs] at hs
      obtain ⟨⟨s₁, q₁⟩, hdir, hrest⟩ := bind_eq_ok.mp hs
      obtain ⟨hgathers, hqueue⟩ := h.traverseDir (q := { q with dirs }) hq hdir
      exact ih hgathers hqueue hrest

end Items

/-! ### Backing data -/

section Backing

variable {disk : Disk} {p : String} {forest forest' : BuildForest} {t t' : Traversal}

/-- Only what a forest has of its backing areas is changed. -/
structure SameContents (forest forest' : BuildForest) (t t' : Traversal) : Prop where
  rootPath : forest'.rootPath = forest.rootPath
  buildTrees : forest'.buildTrees = forest.buildTrees
  buildItems : forest'.buildItems = forest.buildItems
  names : t'.assignedTreeNames = t.assignedTreeNames

theorem SameContents.refl (forest : BuildForest) (t : Traversal) : SameContents forest forest t t :=
  ⟨rfl, rfl, rfl, rfl⟩

theorem SameContents.trans {forest'' : BuildForest} {t'' : Traversal}
    (h : SameContents forest forest' t t') (h' : SameContents forest' forest'' t' t'') :
    SameContents forest forest'' t t'' :=
  ⟨h'.rootPath.trans h.rootPath, h'.buildTrees.trans h.buildTrees,
    h'.buildItems.trans h.buildItems, h'.names.trans h.names⟩

theorem appendBackingArea_same {steps : ℕ} {dir bdir : String} {backing : BackingConfig}
    {x x' : BuildForest × Traversal}
    (h : disk.appendBackingArea steps dir backing x bdir = .ok x') :
    SameContents x.1 x'.1 x.2 x'.2 := by
  obtain ⟨⟨btop, t₁⟩, htop, hrest⟩ := bind_eq_ok.mp h
  have hnames := findTop_names htop
  dsimp only at hrest
  split_ifs at hrest
  · obtain rfl := Except.ok.inj hrest
    exact ⟨rfl, rfl, rfl, hnames⟩
  · obtain rfl := Except.ok.inj hrest
    exact ⟨rfl, rfl, rfl, hnames⟩

theorem appendBackingData_same {allow10 : Bool} {steps : ℕ} {dir : String}
    (h : disk.appendBackingData allow10 steps forest t dir = .ok (forest', t')) :
    SameContents forest forest' t t' := by
  obtain ⟨⟨forest₁, t₁⟩, hfile, hrest⟩ := bind_eq_ok.mp h
  have hsame : SameContents forest forest₁ t t₁ := by
    unfold Disk.appendBackingFile at hfile
    split_ifs at hfile
    · obtain ⟨⟨backing, t₀⟩, hbacking, hfile⟩ := bind_eq_ok.mp hfile
      obtain ⟨⟨forest₂, t₂⟩, hfold, hlast⟩ := bind_eq_ok.mp hfile
      obtain ⟨rfl, rfl⟩ := Prod.mk.inj (Except.ok.inj hlast)
      have hread : SameContents forest forest t t₀ :=
        ⟨rfl, rfl, rfl, readBackingData_names hbacking⟩
      have hfolded := foldlM_ok_induction
        (motive := fun x ↦ SameContents forest x.1 t x.2) hfold hread
        fun bdir _ x x' hx ih ↦ ih.trans (appendBackingArea_same hx)
      exact ⟨hfolded.rootPath, hfolded.buildTrees, hfolded.buildItems, hfolded.names⟩
    · obtain ⟨rfl, rfl⟩ := Prod.mk.inj (Except.ok.inj hfile)
      exact .refl _ _
  dsimp only at hrest
  split_ifs at hrest
  · obtain ⟨config, -, hlast⟩ := bind_eq_ok.mp hrest
    obtain ⟨rfl, rfl⟩ := Prod.mk.inj (Except.ok.inj hlast)
    exact ⟨hsame.rootPath, hsame.buildTrees, hsame.buildItems, hsame.names⟩
  · obtain ⟨rfl, rfl⟩ := Prod.mk.inj (Except.ok.inj hrest)
    exact hsame

theorem Gathers.of_same {s s' : ItemsTraversal} (h : Gathers p s)
    (hsame : SameContents s.forest s'.forest s.traversal s'.traversal) : Gathers p s' :=
  ⟨h.forest.congr hsame.rootPath hsame.buildTrees hsame.buildItems, h.named.of_eq hsame.names⟩

end Backing

/-! ### Forests -/

section Forests

variable {r : Traverser} {p : String} {s s' : ItemsTraversal}

theorem noteTraversed_names (t : Traversal) (topPath : String) :
    (r.noteTraversed t topPath).assignedTreeNames = t.assignedTreeNames := by
  unfold Traverser.noteTraversed
  split_ifs <;> rfl

theorem Gathers.traverseItems {topPath : String} (h : Gathers p s)
    (hs : r.traverseItems s topPath = .ok s') : Gathers p s' := by
  unfold Traverser.traverseItems at hs
  split_ifs at hs
  · obtain rfl := Except.ok.inj hs
    exact h
  all_goals
    obtain ⟨⟨forest, t⟩, hbacking, hrest⟩ := bind_eq_ok.mp hs
    have hstart : SameContents s.forest forest s.traversal t := by
      have hnote : SameContents s.forest s.forest s.traversal
          (r.noteTraversed s.traversal topPath) :=
        ⟨rfl, rfl, rfl, noteTraversed_names _ topPath⟩
      first
        | exact hnote.trans (appendBackingData_same hbacking)
        | obtain ⟨rfl, rfl⟩ := Prod.mk.inj (Except.ok.inj hbacking)
          exact hnote
    have hgathers : Gathers p { s with
        forest
        traversal := t } := h.of_same hstart
    refine hgathers.traverseDirs (fun dir name hname ↦ ?_) hrest
    cases TreeMap.getElem?_emptyc.symm.trans hname

theorem Gathers.traverseExternal {topPath dir edecl : String} (h : Gathers p s)
    (hs : r.traverseExternal topPath dir s edecl = .ok s') : Gathers p s' := by
  unfold Traverser.traverseExternal at hs
  dsimp only at hs
  split_ifs at hs with hnone hbacked
  · obtain ⟨⟨extTop, t⟩, htop, hrest⟩ := bind_eq_ok.mp hs
    have hnamed : t.Named := h.named.of_eq (findTop_names htop)
    dsimp only at hrest
    split_ifs at hrest
    · obtain rfl := Except.ok.inj hrest
      exact ⟨h.forest, hnamed⟩
    · refine Gathers.traverseItems ?_ hrest
      exact ⟨h.forest, hnamed⟩
    · refine Gathers.traverseItems ?_ hrest
      exact ⟨h.forest, hnamed⟩
  · obtain ⟨⟨forest, t⟩, hbacking, hrest⟩ := bind_eq_ok.mp hs
    obtain rfl := Except.ok.inj hrest
    exact h.of_same (appendBackingData_same hbacking)
  · obtain rfl := Except.ok.inj hs
    exact h

theorem Gathers.traverseExternals {topPath : String} {steps : ℕ} (h : Gathers p s)
    (hs : r.traverseExternals topPath steps s = .ok s') : Gathers p s' := by
  induction steps generalizing s with
  | zero => cases hs
  | succ steps ih =>
    rw [Traverser.traverseExternals] at hs
    cases hdirs : s.dirsWithExternals with
    | nil =>
      rw [hdirs] at hs
      obtain rfl := Except.ok.inj hs
      exact h
    | cons dir dirsWithExternals =>
      rw [hdirs] at hs
      obtain ⟨s₁, hfold, hrest⟩ := bind_eq_ok.mp hs
      refine ih (foldlM_ok_induction (motive := Gathers p) hfold ⟨h.forest, h.named⟩ ?_) hrest
      exact fun edecl _ x x' hx hgathers ↦ hgathers.traverseExternal hx

theorem traverseForest_gathers {t : Traversal} (h : t.Named) {topPath : String}
    (hs : r.traverseForest t topPath = .ok s) : Gathers topPath s := by
  obtain ⟨s₁, hitems, hrest⟩ := bind_eq_ok.mp hs
  have hgathers : Gathers topPath s₁ :=
    Gathers.traverseItems ⟨gathered_new topPath, h⟩ hitems
  split_ifs at hrest
  · exact hgathers.traverseExternals hrest
  · obtain rfl := Except.ok.inj hrest
    exact hgathers

/-- What is kept while forests are traversed. -/
structure GathersAll (forests : BuildForestMap) (t : Traversal) : Prop where
  path_ne : "" ∉ forests
  forest : ∀ (p : String) (forest : BuildForest), forests[p]? = some forest → Gathered p forest
  areas_ne : ∀ (p : String) (forest : BuildForest), forests[p]? = some forest →
    "" ∉ forest.backingAreas
  named : t.Named

theorem GathersAll.traverseForests {depth : ℕ} {visiting : TreeSet String}
    {forests forests' : BuildForestMap} {t t' : Traversal} {topPath description : String}
    (h : GathersAll forests t) (htop : topPath ≠ "")
    (hs : r.traverseForests depth visiting forests t topPath description = .ok (forests', t')) :
    GathersAll forests' t' := by
  induction depth generalizing visiting forests forests' t t' topPath description with
  | zero => cases hs
  | succ depth ih =>
    rw [Traverser.traverseForests] at hs
    split_ifs at hs
    · obtain ⟨rfl, rfl⟩ := Prod.mk.inj (Except.ok.inj hs)
      exact h
    · obtain ⟨config, -, hs⟩ := bind_eq_ok.mp hs
      split_ifs at hs
      obtain ⟨s₁, hforest, hrest⟩ := bind_eq_ok.mp hs
      have hgathers := traverseForest_gathers h.named hforest
      obtain ⟨s₂, hfold, hlast⟩ := bind_eq_ok.mp hrest
      obtain ⟨hall, hareas⟩ : GathersAll s₂.forests s₂.traversal ∧ "" ∉ s₂.backingAreas := by
        refine foldlM_ok_induction
          (motive := fun x : Traverser.BackingTraversal ↦
            GathersAll x.forests x.traversal ∧ "" ∉ x.backingAreas) hfold
          ⟨{ h with named := hgathers.named }, List.not_mem_nil⟩ ?_
        rintro bdir - x x' hx ⟨hx', hareas⟩
        obtain ⟨⟨btop, t₁⟩, hbtop, hrest'⟩ := bind_eq_ok.mp hx
        have hnamed : GathersAll x.forests t₁ :=
          { hx' with named := hx'.named.of_eq (findTop_names hbtop) }
        dsimp only at hrest'
        split_ifs at hrest' with hempty hself hlisted hseen
        · obtain rfl := Except.ok.inj hrest'
          exact ⟨{ hnamed with }, hareas⟩
        · obtain rfl := Except.ok.inj hrest'
          exact ⟨{ hnamed with }, hareas⟩
        · obtain rfl := Except.ok.inj hrest'
          exact ⟨hnamed, hareas⟩
        · obtain ⟨⟨forests₁, t₂⟩, hdeeper, hlast'⟩ := bind_eq_ok.mp hrest'
          obtain rfl := Except.ok.inj hlast'
          have hne : btop ≠ "" := fun hnil ↦ hempty (hnil ▸ rfl)
          refine ⟨ih hnamed hne hdeeper, fun hmem ↦ ?_⟩
          rcases List.mem_append.mp hmem with hmem | hmem
          · exact hareas hmem
          · exact hne (List.mem_singleton.mp hmem).symm
      obtain ⟨rfl, rfl⟩ := Prod.mk.inj (Except.ok.inj hlast)
      refine ⟨fun hmem ↦ ?_, fun p forest hget ↦ ?_, fun p forest hget ↦ ?_, hall.named⟩
      · rcases TreeMap.mem_insert.mp hmem with heq | hmem
        · exact htop (compare_eq_iff_eq.mp heq)
        · exact hall.path_ne hmem
      · rw [TreeMap.getElem?_insert] at hget
        split_ifs at hget with heq
        · obtain rfl := compare_eq_iff_eq.mp heq
          obtain rfl := Option.some_inj.mp hget
          exact hgathers.forest.congr rfl rfl rfl
        · exact hall.forest p forest hget
      · rw [TreeMap.getElem?_insert] at hget
        split_ifs at hget with heq
        · obtain rfl := Option.some_inj.mp hget
          exact hareas
        · exact hall.areas_ne p forest hget

end Forests

/-! ### Forests that are merged -/

section Merge

variable {p : String} {forests forests' : BuildForestMap} {t t' : Traversal}

/-- A tree as it is read belongs to the forest that it is added to. -/
theorem Gathered.addRead {forest : BuildForest} (h : Gathered p forest) {q name : String}
    {tree : BuildTree} (htree : TreeRead q name tree) (t : Traversal) :
    Gathered p (forest.addTreeToForest t name tree).1 :=
  h.addTreeToForest htree.name_eq htree.name_ne htree.deps_ne htree.backingDepth htree.notExpanded t

theorem foldl_addTreeToForest_mem (l : List (String × BuildTree)) (x : BuildForest × Traversal)
    (name : String) :
    (name ∈ (l.foldl (fun s tree ↦ s.1.addTreeToForest s.2 tree.1 tree.2) x).1.buildTrees ↔
        name ∈ l.map Prod.fst ∨ name ∈ x.1.buildTrees) ∧
      (l.foldl (fun s tree ↦ s.1.addTreeToForest s.2 tree.1 tree.2) x).1.buildItems =
        x.1.buildItems := by
  induction l generalizing x with
  | nil => exact ⟨(or_iff_right List.not_mem_nil).symm, rfl⟩
  | cons e l ih =>
    rw [List.foldl_cons, (ih _).1, (ih _).2, addTreeToForest_mem, List.map_cons, List.mem_cons,
      or_left_comm, or_assoc]
    exact ⟨Iff.rfl, (addTreeToForest_keeps _ _ _ _).2.1⟩

theorem mem_map_fst_toList {β : Type} {m : TreeMap String β} {name : String} :
    name ∈ m.toList.map Prod.fst ↔ name ∈ m := by
  rw [TreeMap.map_fst_toList_eq_keys, TreeMap.mem_keys]

theorem foldl_addTreeToForest (l : List (String × BuildTree)) {x : BuildForest × Traversal}
    {q : String} (hl : ∀ e ∈ l, TreeRead q e.1 e.2) (h : Gathered p x.1) :
    Gathered p (l.foldl (fun s tree ↦ s.1.addTreeToForest s.2 tree.1 tree.2) x).1 := by
  induction l generalizing x with
  | nil => exact h
  | cons e l ih =>
    obtain ⟨hfirst, hrest⟩ := List.forall_mem_cons.mp hl
    exact ih hrest (h.addRead hfirst x.2)

/-- What is left of a forest and of the traversal when items have been added. -/
theorem addItems_keeps {allow10 : Bool} {l : List (String × BuildItem)}
    {x x' : BuildForest × Traversal}
    (h : l.foldlM (fun s item ↦ s.1.addItemToForest allow10 s.2 item.1 item.2) x = .ok x') :
    x'.2.assignedTreeNames = x.2.assignedTreeNames ∧ x'.1.buildTrees = x.1.buildTrees ∧
      x'.1.backingAreas = x.1.backingAreas := by
  refine foldlM_ok_induction (motive := fun y : BuildForest × Traversal ↦
    y.2.assignedTreeNames = x.2.assignedTreeNames ∧ y.1.buildTrees = x.1.buildTrees ∧
      y.1.backingAreas = x.1.backingAreas) h ⟨rfl, rfl, rfl⟩ ?_
  rintro e - y y' hy ⟨hnames, htrees, hareas⟩
  obtain ⟨hnames', htrees', -, hareas'⟩ := addItemToForest_keeps hy
  exact ⟨hnames'.trans hnames, htrees'.trans htrees, hareas'.trans hareas⟩

theorem Gathered.addItems {allow10 : Bool} {l : List (String × BuildItem)}
    {x x' : BuildForest × Traversal} {q : String} (h : Gathered p x.1)
    (hl : ∀ e ∈ l, ItemGathered q e.1 e.2 ∧ e.2.treeName ∈ x.1.buildTrees)
    (hx : l.foldlM (fun s item ↦ s.1.addItemToForest allow10 s.2 item.1 item.2) x = .ok x') :
    Gathered p x'.1 := by
  have hboth : Gathered p x'.1 ∧ x'.1.buildTrees = x.1.buildTrees := by
    refine foldlM_ok_induction (motive := fun y : BuildForest × Traversal ↦
      Gathered p y.1 ∧ y.1.buildTrees = x.1.buildTrees) hx ⟨h, rfl⟩ ?_
    rintro e he y y' hy ⟨hgathered, htrees⟩
    obtain ⟨hread, htree⟩ := hl e he
    exact ⟨hgathered.addItemToForest { hread with forestRoot := rfl } (Or.inr (htrees ▸ htree)) hy,
      (addItemToForest_keeps hy).2.1.trans htrees⟩
  exact hboth.1

theorem addTrees_keeps (l : List (String × BuildTree)) (x : BuildForest × Traversal) :
    (l.foldl (fun s tree ↦ s.1.addTreeToForest s.2 tree.1 tree.2) x).2.assignedTreeNames =
        x.2.assignedTreeNames ∧
      (l.foldl (fun s tree ↦ s.1.addTreeToForest s.2 tree.1 tree.2) x).1.backingAreas =
        x.1.backingAreas := by
  induction l generalizing x with
  | nil => exact ⟨rfl, rfl⟩
  | cons e l ih =>
    obtain ⟨hnames, -, -, hareas⟩ := addTreeToForest_keeps x.1 x.2 e.1 e.2
    exact ⟨(ih _).1.trans hnames, (ih _).2.trans hareas⟩

theorem Gathered.mergeInto {q : String} {keep remove merged : BuildForest}
    (hkeep : Gathered p keep) (hremove : Gathered q remove)
    (h : BuildForest.mergeInto keep remove t = .ok (merged, t')) :
    Gathered p merged ∧ t'.assignedTreeNames = t.assignedTreeNames ∧
      merged.backingAreas = keep.backingAreas ++ remove.backingAreas := by
  obtain ⟨⟨forest, t₁⟩, hitems, hrest⟩ := bind_eq_ok.mp h
  obtain ⟨rfl, rfl⟩ := Prod.mk.inj (Except.ok.inj hrest)
  have htrees := foldl_addTreeToForest remove.buildTrees.toList (x := (keep, t))
    (fun e he ↦ hremove.tree e.1 e.2 (TreeMap.mem_toList_iff_getElem?_eq_some.mp he)) hkeep
  have hgathered := htrees.addItems (fun e he ↦ by
    obtain ⟨hread, htree⟩ := hremove.item e.1 e.2 (TreeMap.mem_toList_iff_getElem?_eq_some.mp he)
    have hmem := (foldl_addTreeToForest_mem remove.buildTrees.toList (keep, t) e.2.treeName).1
    exact ⟨hread, hmem.mpr (Or.inl (mem_map_fst_toList.mpr htree))⟩) hitems
  obtain ⟨hnames, hareas⟩ := addTrees_keeps remove.buildTrees.toList (keep, t)
  obtain ⟨hnames', -, hareas'⟩ := addItems_keeps hitems
  refine ⟨hgathered.congr rfl rfl rfl, hnames'.trans hnames, ?_⟩
  exact congrArg (· ++ remove.backingAreas) (hareas'.trans hareas)

theorem GathersAll.mergeForest {keepDir removeDir : String} {x x' : BuildForestMap × Traversal}
    (h : GathersAll x.1 x.2) (hx : BuildForest.mergeForest keepDir x removeDir = .ok x') :
    GathersAll x'.1 x'.2 := by
  unfold BuildForest.mergeForest at hx
  split at hx
  · next keep remove hkeep hremove =>
    obtain ⟨⟨merged, t₁⟩, hmerge, hlast⟩ := bind_eq_ok.mp hx
    obtain ⟨hgathered, hnames, hareas⟩ :=
      (h.forest _ _ hkeep).mergeInto (h.forest _ _ hremove) hmerge
    obtain rfl := Except.ok.inj hlast
    refine ⟨fun hmem ↦ ?_, fun p forest hget ↦ ?_, fun p forest hget ↦ ?_, h.named.of_eq hnames⟩
    · rcases TreeMap.mem_insert.mp (TreeMap.mem_of_mem_erase hmem) with heq | hmem
      · rw [compare_eq_iff_eq.mp heq] at hkeep
        exact h.path_ne (mem_of_getElem? hkeep)
      · exact h.path_ne hmem
    · dsimp only at hget
      rw [TreeMap.getElem?_erase, TreeMap.getElem?_insert] at hget
      split_ifs at hget with herased heq
      · obtain rfl := compare_eq_iff_eq.mp heq
        obtain rfl := Option.some_inj.mp hget
        exact hgathered
      · exact h.forest p forest hget
    · dsimp only at hget
      rw [TreeMap.getElem?_erase, TreeMap.getElem?_insert] at hget
      split_ifs at hget with herased heq
      · obtain rfl := Option.some_inj.mp hget
        rw [hareas]
        exact fun hmem ↦ (List.mem_append.mp hmem).elim (h.areas_ne _ _ hkeep)
          (h.areas_ne _ _ hremove)
      · exact h.areas_ne p forest hget
  · cases hx

/-- The roots under which forests are merged are roots of forests. -/
theorem addMerge_renames {m : ForestMerges} {set : ItemList} {dir first : String}
    (h : (addMerge forests m set).forestRenames[dir]? = some first) :
    m.forestRenames[dir]? = some first ∨ first ∈ forests := by
  unfold addMerge at h
  dsimp only at h
  split at h
  · exact Or.inl h
  · next kept hkept =>
    split_ifs at h
    · exact Or.inl h
    · have hfold : ∀ (l : List String) (renames : TreeMap String String),
          (l.foldl (fun renames other ↦ renames.insert other kept) renames)[dir]? = some first →
            renames[dir]? = some first ∨ first = kept := by
        intro l
        induction l with
        | nil => exact fun renames h ↦ Or.inl h
        | cons other l ih =>
          intro renames h
          refine (ih _ h).elim (fun h ↦ ?_) Or.inr
          rw [TreeMap.getElem?_insert] at h
          split_ifs at h
          · exact Or.inr (Option.some_inj.mp h).symm
          · exact Or.inl h
      refine (hfold _ _ h).imp_right ?_
      rintro rfl
      exact TreeMap.contains_iff_mem.mp
        (List.of_mem_filter (List.mem_of_getLast? hkept))

theorem mem_coalesceBackingAreas {renames : TreeMap String String} {areas : List String}
    {q : String} (h : q ∈ coalesceBackingAreas renames areas) :
    ∃ ba ∈ areas, q = renames.getD ba ba := by
  have hfold : ∀ (l kept : List String), q ∈ l.foldl (fun kept ba ↦
      if renames.getD ba ba ∈ kept then kept else kept ++ [renames.getD ba ba]) kept →
        q ∈ kept ∨ ∃ ba ∈ l, q = renames.getD ba ba := by
    intro l
    induction l with
    | nil => exact fun kept h ↦ Or.inl h
    | cons ba l ih =>
      intro kept h
      rcases ih _ h with h | ⟨ba', hba', rfl⟩
      · dsimp only at h
        split_ifs at h
        · exact Or.inl h
        · rcases List.mem_append.mp h with h | h
          · exact Or.inl h
          · exact Or.inr ⟨ba, List.mem_cons_self, List.mem_singleton.mp h⟩
      · exact Or.inr ⟨ba', List.mem_cons_of_mem _ hba', rfl⟩
  exact (hfold areas [] h).resolve_left List.not_mem_nil

theorem getElem?_map_some {f : String → BuildForest → BuildForest} {forest : BuildForest}
    (h : (forests.map f)[p]? = some forest) :
    ∃ read, forests[p]? = some read ∧ f p read = forest := by
  rw [TreeMap.getElem?_map, Option.map_eq_some_iff] at h
  exact h

theorem GathersAll.mergeForests (h : GathersAll forests t) {sets : List ItemList}
    (hs : BuildForest.mergeForests forests t sets = .ok (forests', t')) :
    GathersAll forests' t' := by
  obtain ⟨⟨merged, t₁⟩, hfold, hrest⟩ := bind_eq_ok.mp hs
  have hmerged : GathersAll merged t₁ := by
    refine foldlM_ok_induction (motive := fun x : BuildForestMap × Traversal ↦ GathersAll x.1 x.2)
      hfold h fun merge _ x x' hx ih ↦ ?_
    exact foldlM_ok_induction (motive := fun x : BuildForestMap × Traversal ↦ GathersAll x.1 x.2)
      hx ih fun removeDir _ y y' hy ih' ↦ ih'.mergeForest hy
  dsimp only at hrest
  obtain ⟨rfl, rfl⟩ := Prod.mk.inj (Except.ok.inj hrest)
  refine ⟨fun hmem ↦ hmerged.path_ne (TreeMap.mem_map.mp hmem), fun p forest hget ↦ ?_,
    fun p forest hget ↦ ?_, hmerged.named⟩
  · obtain ⟨read, hread, rfl⟩ := getElem?_map_some hget
    exact (hmerged.forest p read hread).congr rfl rfl rfl
  · obtain ⟨read, hread, rfl⟩ := getElem?_map_some hget
    intro hmem
    obtain ⟨ba, hba, hempty⟩ := mem_coalesceBackingAreas hmem
    rw [TreeMap.getD_eq_getD_getElem?] at hempty
    cases hget : (sets.foldl (addMerge forests) ⟨∅, ∅⟩).forestRenames[ba]? with
    | none =>
      rw [hget] at hempty
      exact hmerged.areas_ne p read hread (hempty ▸ hba)
    | some first =>
      rw [hget] at hempty
      have hfirst : first ∈ forests := by
        have hfold : ∀ (l : List ItemList) (m : ForestMerges),
            (l.foldl (addMerge forests) m).forestRenames[ba]? = some first →
              m.forestRenames[ba]? = some first ∨ first ∈ forests := by
          intro l
          induction l with
          | nil => exact fun m h ↦ Or.inl h
          | cons set l ih =>
            exact fun m h ↦ (ih _ h).elim (fun h ↦ addMerge_renames h) Or.inr
        refine (hfold sets ⟨∅, ∅⟩ hget).resolve_left fun hnone ↦ ?_
        cases TreeMap.getElem?_emptyc.symm.trans hnone
      exact h.path_ne (hempty ▸ hfirst)

theorem GathersAll.mergeExternals (h : GathersAll forests t)
    (hs : BuildForest.mergeExternals forests t = .ok (forests', t')) : GathersAll forests' t' := by
  unfold BuildForest.mergeExternals at hs
  split at hs
  · cases hs
  · obtain ⟨rfl, rfl⟩ := Prod.mk.inj (Except.ok.inj hs)
    exact { h with }
  · split at hs
    · cases hs
    · exact h.mergeForests hs

theorem not_mem_foldl_erase (l : List String) (s : TreeSet String) {name : String}
    (h : name ∈ l.foldl (·.erase ·) s) : name ∈ s ∧ name ∉ l := by
  induction l generalizing s with
  | nil => exact ⟨h, List.not_mem_nil⟩
  | cons a l ih =>
    obtain ⟨hmem, hnot⟩ := ih _ h
    rw [TreeSet.mem_erase] at hmem
    refine ⟨hmem.2, List.not_mem_cons_of_ne_of_not_mem ?_ hnot⟩
    rintro rfl
    exact hmem.1 (compare_eq_iff_eq.mpr rfl)

/-- A tree with an item is not deleted. -/
theorem treeName_not_deleted (disk : Disk) (forest : BuildForest) {name : String} {item : BuildItem}
    (hitem : forest.buildItems[name]? = some item) :
    item.treeName ∉ treesToDelete disk forest := by
  intro hmem
  unfold treesToDelete at hmem
  dsimp only at hmem
  rw [← List.foldl_map] at hmem
  refine (not_mem_foldl_erase _ _ hmem).2 (List.mem_map.mpr ⟨item, ?_, rfl⟩)
  exact mem_values.mpr ⟨name, hitem⟩

theorem getElem?_foldl_erase {β : Type} (l : List String) (m : TreeMap String β) (name : String) :
    (l.foldl (fun m key ↦ m.erase key) m)[name]? = if name ∈ l then none else m[name]? := by
  induction l generalizing m with
  | nil => rfl
  | cons a l ih =>
    rw [List.foldl_cons, ih, TreeMap.getElem?_erase]
    by_cases hl : name ∈ l
    · rw [if_pos hl, if_pos (List.mem_cons_of_mem _ hl)]
    · by_cases ha : a = name
      · rw [if_neg hl, if_pos (compare_eq_iff_eq.mpr ha), if_pos (ha ▸ List.mem_cons_self)]
      · rw [if_neg hl, if_neg fun heq ↦ ha (compare_eq_iff_eq.mp heq),
          if_neg (List.not_mem_cons_of_ne_of_not_mem (Ne.symm ha) hl)]

theorem GathersAll.removeEmptyTrees (h : GathersAll forests t) (disk : Disk) :
    GathersAll (BuildForest.removeEmptyTrees disk forests t).1
      (BuildForest.removeEmptyTrees disk forests t).2 := by
  unfold BuildForest.removeEmptyTrees
  refine ⟨fun hmem ↦ h.path_ne (TreeMap.mem_map.mp hmem), fun p forest hget ↦ ?_,
    fun p forest hget ↦ ?_, h.named⟩
  swap
  · obtain ⟨read, hread, rfl⟩ := getElem?_map_some hget
    exact h.areas_ne p read hread
  obtain ⟨read, hread, rfl⟩ := getElem?_map_some hget
  have hgathered := h.forest p read hread
  refine ⟨hgathered.rootPath, fun name tree htree ↦ ?_, fun name item hitem ↦ ?_⟩
  · dsimp only at htree
    rw [getElem?_foldl_erase] at htree
    split_ifs at htree
    exact hgathered.tree name tree htree
  · obtain ⟨hitem', htree⟩ := hgathered.item name item hitem
    refine ⟨hitem', ?_⟩
    obtain ⟨tree, htree⟩ := exists_of_mem htree
    refine mem_of_getElem? (b := tree) ?_
    dsimp only
    rw [getElem?_foldl_erase, if_neg fun hdeleted ↦ treeName_not_deleted disk read hitem
      (TreeSet.mem_toList.mp hdeleted)]
    exact htree

end Merge

/-! ### What is validated -/

section Validated

variable {r : Traverser} {forests : BuildForestMap} {t : Traversal} {topPath : String}

theorem gathersAll_new : GathersAll ∅ .new := by
  refine ⟨TreeMap.not_mem_emptyc, fun p forest hget ↦ ?_, fun p forest hget ↦ ?_,
    fun dir name hname ↦ ?_⟩
  · cases TreeMap.getElem?_emptyc.symm.trans hget
  · cases TreeMap.getElem?_emptyc.symm.trans hget
  · cases TreeMap.getElem?_emptyc.symm.trans hname

theorem readForests_gathers (htop : topPath ≠ "") (h : r.readForests topPath = .ok (forests, t)) :
    GathersAll forests t := by
  obtain ⟨⟨forests₁, t₁⟩, hforests, hrest⟩ := bind_eq_ok.mp h
  have hall := gathersAll_new.traverseForests htop hforests
  dsimp only at hrest
  split_ifs at hrest
  · obtain ⟨⟨forests₂, t₂⟩, hmerge, hlast⟩ := bind_eq_ok.mp hrest
    have hremoved := (hall.mergeExternals hmerge).removeEmptyTrees r.disk
    rwa [Except.ok.inj hlast] at hremoved
  · obtain ⟨rfl, rfl⟩ := Prod.mk.inj (Except.ok.inj hrest)
    exact hall

/-- A backing graph without errors is closed and has no cycle. -/
theorem GathersAll.backingOk (hall : GathersAll forests t) {g : DependencyGraph}
    (h : computeBackingGraph forests = some g) : BackingOk forests := by
  have hnames : ∀ (p : String) (forest : BuildForest), forests[p]? = some forest →
      p ≠ "" ∧ "" ∉ forest.backingAreas := fun p forest hforest ↦
    ⟨fun hnil ↦ hall.path_ne (hnil ▸ mem_of_getElem? hforest), hall.areas_ne p forest hforest⟩
  obtain ⟨result, g', hbuild, hg⟩ := DependencyGraph.check_tableOf hnames
  obtain ⟨g₀, hg₀, hcheck⟩ := Option.bind_eq_some_iff.mp hbuild
  obtain ⟨g₁, hg₁, hrest⟩ := Option.bind_eq_some_iff.mp h
  obtain rfl := Option.some_inj.mp (hg₀.symm.trans hg₁)
  obtain ⟨x, hx, hokay⟩ := Option.bind_eq_some_iff.mp hrest
  obtain rfl := Option.some_inj.mp (hcheck.symm.trans hx)
  dsimp only at hokay
  split_ifs at hokay with hresult
  obtain ⟨hknown, hacyclic⟩ := hg.result_iff.mp hresult
  have hdepends : DependencyGraph.DependsOn g'.dependencies = Backs forests := by
    ext p q
    exact hg.dependsOn_iff p q
  refine ⟨hall.path_ne, ?_, ?_⟩
  · rintro p q ⟨forest, hforest, hq⟩
    exact hknown p forest hforest q hq
  · unfold DependencyGraph.Acyclic at hacyclic
    rwa [hdepends] at hacyclic

theorem GathersAll.asRead (h : GathersAll forests t) (hbacking : BackingOk forests) :
    AsRead forests where
  backing := hbacking
  tree p name tree htree := by
    obtain ⟨forest, hforest, hget⟩ := Option.bind_eq_some_iff.mp htree
    exact (h.forest p forest hforest).tree name tree hget
  item p name item hitem := by
    obtain ⟨forest, hforest, hget⟩ := Option.bind_eq_some_iff.mp hitem
    obtain ⟨hread, hmem⟩ := (h.forest p forest hforest).item name item hget
    obtain ⟨tree, htree⟩ := exists_of_mem hmem
    exact
      { itemName := hread.itemName
        name_ne := hread.name_ne
        deps_ne := hread.deps_ne
        forestRoot := hread.forestRoot
        backingDepth := hread.backingDepth
        notExpanded := hread.notExpanded
        notShadowed := hread.notShadowed
        tree := ⟨tree, (ownTree_eq hforest).trans htree⟩ }

/-- Whatever is validated is as the validation takes it to be. -/
theorem traverse_asRead (r : Traverser) {topPath : String} (htop : topPath ≠ "")
    {fullIntegrity : Bool} {validated : BuildForestMap} {t : Traversal}
    (h : r.traverse fullIntegrity topPath = .ok (validated, t)) :
    ∃ forests t₀ findings, r.readForests topPath = .ok (forests, t₀) ∧ AsRead forests ∧
      validateForests fullIntegrity forests = some (validated, findings) ∧
        t.findings = t₀.findings ++ findings := by
  obtain ⟨⟨forests, t₀⟩, hread, hrest⟩ := bind_eq_ok.mp h
  have hall := readForests_gathers htop hread
  dsimp only at hrest
  split at hrest
  swap
  · cases hrest
  · next allForests validated' findings hforests hvalidated =>
    obtain ⟨-, -, hlast⟩ := bind_eq_ok.mp hrest
    obtain ⟨rfl, rfl⟩ := Prod.mk.inj (Except.ok.inj hlast)
    obtain ⟨g, hg, -⟩ := Option.bind_eq_some_iff.mp hforests
    exact ⟨forests, t₀, findings, hread, hall.asRead (hall.backingOk hg), hvalidated, rfl⟩

/-- The configuration of a directory, which is the root of a forest and of its only tree if the tree
has a name. -/
def dirConfig (name treeName parentDir : String) (children externals : List String) (dir : String) :
    DirConfig dir where
  item :=
    { name
      location := .new (dir ++ "/" ++ BuildTree.fileConf) 0 0
      absolutePath := dir
      deps := []
      optionalDeps := ∅
      depPlatformTypes := ∅
      depPlatformSelectors := ∅
      buildAlso := []
      flagData := ⟨∅⟩
      traitData := ⟨∅⟩ }
  treeName
  isTreeRoot := !treeName.isEmpty
  isForestRoot := !treeName.isEmpty
  isChildOnly := false
  parentDir
  children
  optionalChildren := ∅
  externals
  treeDeps := []
  optionalTreeDeps := ∅
  plugins := []
  globalPlugins := ∅
  deleted := ∅
  absolutePath_eq := rfl
  location_eq := rfl
  deps_ne := List.not_mem_nil
  treeDeps_ne := List.not_mem_nil

/-- The forest at `/a`, which has a child, backs to those at `/b` and `/c`. These have the external
`/d`, which counts in 1.0-compatibility mode only. -/
def threeForests (allow10 : Bool) : Traverser where
  allow10
  disk :=
    { isFile := fun path ↦ path ∉
        ["/b/Abuild.backing", "/c/Abuild.backing", "/d/Abuild.backing"]
      isDirectory := fun _ ↦ true
      canonicalizePath := fun path ↦ if path = "/b/../d" ∨ path = "/c/../d" then "/d" else path
      getCurrentDirectory := "/a"
      config := fun dir ↦
        if dir = "/a" then dirConfig "top" "tree-a" "" ["e"] [] dir
        else if dir = "/a/e" then dirConfig "child" "" "/a" [] [] dir
        else if dir = "/b" then dirConfig "first" "tree-b" "" [] ["../d"] dir
        else if dir = "/c" then dirConfig "second" "tree-c" "" [] ["../d"] dir
        else dirConfig "ext" "tree-d" "" [] [] dir
      configError := fun _ ↦ none
      backing := fun dir ↦ ⟨.new dir 0 0, false, ["/b", "/c"], ∅, ∅⟩
      backingError := fun _ ↦ none }
  loadPlatformData := fun _ ↦ .ok ()
  rand := fun _ ↦ 0
  thisConfigDir := "/a"
  steps := 3

/-- The theorem in both modes. With 1.0 compatibility two of the forests are merged. -/
theorem traverse_asRead_threeForests :
    (∃ validated t forests t₀, (threeForests false).traverse false "/a" = .ok (validated, t) ∧
      (threeForests false).readForests "/a" = .ok (forests, t₀) ∧ AsRead forests) ∧
    ∃ validated t forests t₀, (threeForests true).traverse false "/a" = .ok (validated, t) ∧
      (threeForests true).readForests "/a" = .ok (forests, t₀) ∧ AsRead forests := by
  have hmode : ∀ allow10, ((threeForests allow10).traverse false "/a").toOption.isSome = true →
      ∃ validated t forests t₀, (threeForests allow10).traverse false "/a" = .ok (validated, t) ∧
        (threeForests allow10).readForests "/a" = .ok (forests, t₀) ∧ AsRead forests := by
    intro allow10 hvalue
    cases htraverse : (threeForests allow10).traverse false "/a" with
    | error halt =>
      rw [htraverse] at hvalue
      cases hvalue
    | ok x =>
      obtain ⟨validated, t⟩ := x
      obtain ⟨forests, t₀, -, hread, hasRead, -, -⟩ :=
        traverse_asRead (threeForests allow10) (by decide : "/a" ≠ "") htraverse
      exact ⟨validated, t, forests, t₀, rfl, hread, hasRead⟩
  exact ⟨hmode false rfl, hmode true rfl⟩

end Validated

end Abuild
