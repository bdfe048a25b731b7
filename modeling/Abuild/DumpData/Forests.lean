import Abuild.DumpData.Items

/-!
What is written of trees and forests stands for their elements exactly if their paths, and the paths
and descriptions of their items, are written well. A forest has the number of its place in the order
of the forests, and the numbers that are looked up have been given before.
-/

set_option autoImplicit false
set_option relaxedAutoImplicit false

namespace Abuild

open Std (TreeMap TreeSet)

namespace DumpData

open Xml (Element Attribute Gap Declared Stands startText)

/-! ### Trees -/

theorem isSpace_three : "   ".toList.all Xml.isSpace = true := rfl

/-- The number of a forest, by its place in the order of the forests. -/
def number (order : List String) (forestRoot : String) : ℕ := order.idxOf forestRoot + 1

/-- The items of a tree. -/
def Forest.itemsOf (forest : Forest) (treeName : String) : List (String × Item) :=
  forest.sortedItemNames.filterMap fun name ↦
    (forest.buildItems[name]?.filter (·.treeName = treeName)).map fun item ↦ (name, item)

def treeRecord (data : DumpData) (order : List String) (forest : Forest) (treeName : String)
    (tree : Tree) : TreeRecord where
  name := treeName
  absolutePath := tree.rootPath
  homeForest := number order tree.forestRoot
  backingDepth := tree.backingDepth
  platformData := platformRecords tree.platformData
  supportedTraits := tree.supportedTraits.toList
  plugins := tree.plugins
  declaredTreeDeps := tree.treeDeps
  expandedTreeDeps := tree.expandedTreeDeps
  omittedTreeDeps := tree.omittedTreeDeps.toList
  items := (forest.itemsOf treeName).map fun entry ↦
    itemRecord data (number order entry.2.forestRoot) entry.2 entry.1

/-- What a tree may have in it, besides its path and its items. -/
structure PlainTree (tree : Tree) : Prop where
  platformData : PlainTables tree.platformData
  supportedTraits : ∀ trait ∈ tree.supportedTraits.toList, Plain trait
  plugins : ∀ plugin ∈ tree.plugins, Plain plugin
  treeDeps : ∀ dep ∈ tree.treeDeps, Plain dep
  expandedTreeDeps : ∀ dep ∈ tree.expandedTreeDeps, Plain dep
  omittedTreeDeps : ∀ dep ∈ tree.omittedTreeDeps.toList, Plain dep

/-- The numbers that forests have been given. -/
def Numbered (order done : List String) (forestNumbers : TreeMap String ℕ) : Prop :=
  ∀ forestRoot ∈ done, forestNumbers[forestRoot]? = some (number order forestRoot)

/-- The path and the description of an item are written well. -/
def LegibleItem (item : Item) : Prop := Plain item.getAbsolutePath ∧ Readable item.description

section Trees

variable (data : DumpData) {order done : List String} {forestNumbers : TreeMap String ℕ}
  {forest : Forest} {treeName : String}

theorem stands_dumpBuildItems (hnumbers : Numbered order done forestNumbers) {names : List String}
    (h : ∀ name ∈ names, ∃ item, forest.buildItems[name]? = some item ∧ PlainItem item ∧
      Plain name ∧ item.forestRoot ∈ done) :
    ∃ text, dumpBuildItems data forestNumbers forest treeName names = some text ∧
      Stands attlist text.toList
        ((names.filterMap fun name ↦
          (forest.buildItems[name]?.filter (·.treeName = treeName)).map fun item ↦
            (name, item)).map fun entry ↦
              (itemRecord data (number order entry.2.forestRoot) entry.2 entry.1).toElement)
        (∀ name ∈ names, ∀ item, forest.buildItems[name]? = some item →
          item.treeName = treeName → LegibleItem item) := by
  induction names with
  | nil => exact ⟨"", rfl, Stands.nil.of_iff (by simp)⟩
  | cons name names ih =>
    obtain ⟨⟨item, hitem, hplain, hname, hhome⟩, hrest⟩ := List.forall_mem_cons.mp h
    obtain ⟨rest, hdump, hstands⟩ := ih hrest
    unfold dumpBuildItems
    rw [hitem, hdump]
    by_cases htree : item.treeName = treeName
    · obtain ⟨text, hdump', hstands'⟩ :=
        stands_dumpBuildItem data hplain hname (hnumbers _ hhome)
      refine ⟨text ++ rest, ?_, ?_⟩
      · simp [htree, hdump']
      · rw [String.toList_append, List.filterMap_cons_some (by rw [hitem, Option.filter_some,
          if_pos (decide_eq_true htree), Option.map_some]), List.map_cons]
        refine (hstands'.append hstands).of_iff ?_
        rw [List.forall_mem_cons]
        refine and_congr_left fun _ ↦ ⟨?_, fun hall ↦ hall item hitem htree⟩
        rintro hlegible item' hitem' -
        obtain rfl := Option.some_inj.mp (hitem.symm.trans hitem')
        exact hlegible
    · refine ⟨rest, ?_, ?_⟩
      · simp [htree]
      · rw [List.filterMap_cons_none
          (by rw [hitem, Option.filter_some, if_neg (by simpa using htree),
          Option.map_none])]
        refine hstands.of_iff ?_
        rw [List.forall_mem_cons]
        refine (and_iff_right fun item' hitem' htree' ↦ ?_).symm
        obtain rfl := Option.some_inj.mp (hitem.symm.trans hitem')
        exact absurd htree' htree

def treeWritten (order : List String) (treeName : String) (tree : Tree) : List Attribute :=
  [.raw (.line 3) "name" treeName isName_name,
    .raw (.line 3) "absolute-path" tree.rootPath isName_absolutePath,
    .raw (.line 3) "home-forest" (forestId (number order tree.forestRoot)) isName_homeForest,
    .raw (.line 3) "backing-depth" (toString tree.backingDepth) isName_backingDepth]

theorem good_treeWritten_iff (order : List String) (tree : Tree) (hname : Plain treeName) :
    (∀ a ∈ treeWritten order treeName tree, a.good) ↔ Plain tree.rootPath := by
  unfold treeWritten
  rw [List.forall_mem_cons, List.forall_mem_cons]
  refine ⟨fun h ↦ h.2.1, fun h ↦ ⟨hname, h, List.forall_mem_cons.mpr
    ⟨plain_forestId _, List.forall_mem_singleton.mpr (plain_toString tree.backingDepth)⟩⟩⟩

/-- The paths and descriptions in a tree are written well. -/
def LegibleTree (forest : Forest) (treeName : String) (tree : Tree) : Prop :=
  Plain tree.rootPath ∧ ∀ name ∈ forest.sortedItemNames, ∀ item,
    forest.buildItems[name]? = some item → item.treeName = treeName → LegibleItem item

theorem stands_dumpBuildTree (hnumbers : Numbered order done forestNumbers) {tree : Tree}
    (htree : PlainTree tree) (hname : Plain treeName) (hhome : tree.forestRoot ∈ done)
    (h : ∀ name ∈ forest.sortedItemNames, ∃ item, forest.buildItems[name]? = some item ∧
      PlainItem item ∧ Plain name ∧ item.forestRoot ∈ done) :
    ∃ text, dumpBuildTree data forestNumbers tree treeName forest = some text ∧
      Stands attlist text.toList [(treeRecord data order forest treeName tree).toElement]
        (LegibleTree forest treeName tree) := by
  obtain ⟨platforms, hplatforms, hplatformsStand⟩ :=
    stands_dumpPlatformData htree.platformData isSpace_three
  obtain ⟨items, hitems, hitemsStand⟩ := stands_dumpBuildItems data hnumbers h
  have htraits := stands_dumpNames "supported-traits" "supported-trait" isSpace_three
    (by decide) (by decide) htree.supportedTraits
  have hplugins := stands_dumpNames "plugins" "plugin" isSpace_three
    (by decide) (by decide) htree.plugins
  have hdeps := stands_dumpNames "declared-tree-dependencies" "tree-dependency" isSpace_three
    (by decide) (by decide) htree.treeDeps
  have hexpanded := stands_dumpNames "expanded-tree-dependencies" "tree-dependency" isSpace_three
    (by decide) (by decide) htree.expandedTreeDeps
  have homitted := stands_dumpNames "omitted-tree-dependencies" "tree-dependency" isSpace_three
    (by decide) (by decide) htree.omittedTreeDeps
  have hchildren := (((((hplatformsStand.append htraits).append hplugins).append hdeps).append
    hexpanded).append homitted).append hitemsStand
  have hdeclared : Declared attlist "build-tree" (treeWritten order treeName tree) :=
    ⟨by decide, nodup_attlist _, List.Sublist.refl _⟩
  have hgap : ['\n', ' ', ' '].all Xml.isSpace = true := rfl
  have htwo : [' ', ' '].all Xml.isSpace = true := rfl
  have hend : ['\n'].all Xml.isSpace = true := rfl
  have helement := (Stands.element hdeclared hgap (hchildren.between hend htwo)).between htwo hend
  unfold dumpBuildTree
  rw [hnumbers _ hhome, hplatforms, hitems]
  refine ⟨_, rfl, ?_⟩
  refine helement.congr ?_ ?_ ?_
  · simp [startText, treeWritten, Attribute.toList_raw, Gap.line, forestId]
  · simp [treeRecord, TreeRecord.toElement, treeWritten, Attribute.pair, Attribute.raw,
      nameElements,
      Forest.itemsOf]
  · rw [good_treeWritten_iff order tree hname]
    simp [LegibleTree]

theorem stands_dumpBuildTrees (hnumbers : Numbered order done forestNumbers)
    {treeNames : List String}
    (htrees : ∀ treeName ∈ treeNames, ∃ tree, forest.buildTrees[treeName]? = some tree ∧
      PlainTree tree ∧ Plain treeName ∧ tree.forestRoot ∈ done)
    (h : ∀ name ∈ forest.sortedItemNames, ∃ item, forest.buildItems[name]? = some item ∧
      PlainItem item ∧ Plain name ∧ item.forestRoot ∈ done) :
    ∃ text, dumpBuildTrees data forestNumbers forest treeNames = some text ∧
      Stands attlist text.toList
        ((treeNames.filterMap fun treeName ↦ forest.buildTrees[treeName]?.map
          (treeRecord data order forest treeName)).map TreeRecord.toElement)
        (∀ treeName ∈ treeNames, ∀ tree, forest.buildTrees[treeName]? = some tree →
          LegibleTree forest treeName tree) := by
  induction treeNames with
  | nil => exact ⟨"", rfl, Stands.nil.of_iff (by simp)⟩
  | cons treeName treeNames ih =>
    obtain ⟨⟨tree, htree, hplain, hname, hhome⟩, hrest⟩ := List.forall_mem_cons.mp htrees
    obtain ⟨rest, hdump, hstands⟩ := ih hrest
    obtain ⟨text, hdump', hstands'⟩ := stands_dumpBuildTree data hnumbers hplain hname hhome h
    unfold dumpBuildTrees
    rw [htree, hdump]
    refine ⟨text ++ rest, by simp [hdump'], ?_⟩
    rw [String.toList_append, List.filterMap_cons_some (by rw [htree, Option.map_some]),
      List.map_cons]
    refine (hstands'.append hstands).of_iff ?_
    rw [List.forall_mem_cons]
    refine and_congr_left fun _ ↦ ⟨fun hlegible tree' htree' ↦ ?_, fun hall ↦ hall tree htree⟩
    obtain rfl := Option.some_inj.mp (htree.symm.trans htree')
    exact hlegible

end Trees

/-! ### Forests -/

def forestRecord (data : DumpData) (order : List String) (forestRoot : String) (forest : Forest) :
    ForestRecord where
  id := number order forestRoot
  absolutePath := forestRoot
  backingAreas := forest.backingAreas.map (number order)
  deletedTrees := forest.deletedTrees.toList
  deletedItems := forest.deletedItems.toList
  globalPlugins := forest.globalPlugins.toList
  trees := forest.sortedTreeNames.filterMap fun treeName ↦
    forest.buildTrees[treeName]?.map (treeRecord data order forest treeName)

/-- What a forest may have in it, besides paths and descriptions. -/
structure PlainForest (forest : Forest) : Prop where
  deletedTrees : ∀ name ∈ forest.deletedTrees.toList, Plain name
  deletedItems : ∀ name ∈ forest.deletedItems.toList, Plain name
  globalPlugins : ∀ name ∈ forest.globalPlugins.toList, Plain name
  trees : ∀ treeName ∈ forest.sortedTreeNames, ∃ tree, forest.buildTrees[treeName]? = some tree ∧
    PlainTree tree ∧ Plain treeName
  items : ∀ name ∈ forest.sortedItemNames, ∃ item, forest.buildItems[name]? = some item ∧
    PlainItem item ∧ Plain name

/-- The forests that a forest refers to. -/
structure RefersTo (forest : Forest) (done : List String) : Prop where
  backingAreas : ∀ area ∈ forest.backingAreas, area ∈ done
  trees : ∀ (treeName : String) (tree : Tree), forest.buildTrees[treeName]? = some tree →
    tree.forestRoot ∈ done
  items : ∀ (name : String) (item : Item), forest.buildItems[name]? = some item →
    item.forestRoot ∈ done

/-- The paths and descriptions in a forest are written well. -/
def LegibleForest (forestRoot : String) (forest : Forest) : Prop :=
  Plain forestRoot ∧ ∀ treeName ∈ forest.sortedTreeNames, ∀ tree,
    forest.buildTrees[treeName]? = some tree → LegibleTree forest treeName tree

section Forests

variable (data : DumpData) {order done : List String} {forestNumbers : TreeMap String ℕ}

theorem stands_dumpBackingArea (hnumbers : Numbered order done forestNumbers) {area : String}
    (h : area ∈ done) :
    Stands attlist (dumpBackingArea forestNumbers area).toList
      [backingAreaElement (number order area)] True := by
  have hdeclared : Declared attlist "backing-area"
      [.raw .blank "forest" (forestId (number order area)) (by decide)] :=
    ⟨by decide, nodup_attlist _, List.Sublist.refl _⟩
  have htwo : [' ', ' '].all Xml.isSpace = true := rfl
  have hend : ['\n'].all Xml.isSpace = true := rfl
  refine ((Stands.emptyTag hdeclared nil_isSpace).between htwo hend).congr ?_ rfl ?_
  · unfold dumpBackingArea
    rw [TreeMap.getD_eq_getD_getElem?, hnumbers area h, Option.getD_some]
    simp [startText, Attribute.toList_raw, Gap.blank, forestId]
  · exact iff_of_true (List.forall_mem_singleton.mpr (plain_forestId _)) trivial

def forestWritten (order : List String) (forestRoot : String) : List Attribute :=
  [.raw (.line 2) "id" (forestId (number order forestRoot)) (by decide),
    .raw (.line 2) "absolute-path" forestRoot isName_absolutePath]

theorem stands_dumpForest (hnumbers : Numbered order done forestNumbers) (forestRoot : String)
    {forest : Forest} (h : PlainForest forest) (hrefers : RefersTo forest done) :
    ∃ text, dumpForest data forestNumbers (number order forestRoot) forestRoot forest = some text ∧
      Stands attlist text.toList [(forestRecord data order forestRoot forest).toElement]
        (LegibleForest forestRoot forest) := by
  have htrees : ∀ treeName ∈ forest.sortedTreeNames, ∃ tree,
      forest.buildTrees[treeName]? = some tree ∧ PlainTree tree ∧ Plain treeName ∧
        tree.forestRoot ∈ done := by
    intro treeName hmem
    obtain ⟨tree, htree, hplain, hname⟩ := h.trees treeName hmem
    exact ⟨tree, htree, hplain, hname, hrefers.trees treeName tree htree⟩
  have hitems : ∀ name ∈ forest.sortedItemNames, ∃ item, forest.buildItems[name]? = some item ∧
      PlainItem item ∧ Plain name ∧ item.forestRoot ∈ done := by
    intro name hmem
    obtain ⟨item, hitem, hplain, hname⟩ := h.items name hmem
    exact ⟨item, hitem, hplain, hname, hrefers.items name item hitem⟩
  obtain ⟨trees, hdump, htreesStand⟩ := stands_dumpBuildTrees data hnumbers htrees hitems
  have htwo : "  ".toList.all Xml.isSpace = true := rfl
  have hareas := (stands_join fun area harea ↦
    stands_dumpBackingArea hnumbers (hrefers.backingAreas area harea)).of_iff
      (iff_of_true (fun _ _ ↦ trivial) trivial)
  have hdeletedTrees := stands_dumpNames "deleted-trees" "deleted-tree" htwo (by decide)
    (by decide) h.deletedTrees
  have hdeletedItems := stands_dumpNames "deleted-items" "deleted-item" htwo (by decide)
    (by decide) h.deletedItems
  have hplugins := stands_dumpNames "global-plugins" "plugin" htwo (by decide)
    (by decide) h.globalPlugins
  have hchildren := (((hareas.append hdeletedTrees).append hdeletedItems).append hplugins).append
    htreesStand
  have hdeclared : Declared attlist "forest" (forestWritten order forestRoot) :=
    ⟨by decide, nodup_attlist _, List.Sublist.refl _⟩
  have hgap : ['\n', ' '].all Xml.isSpace = true := rfl
  have hone : [' '].all Xml.isSpace = true := rfl
  have hend : ['\n'].all Xml.isSpace = true := rfl
  have helement := (Stands.element hdeclared hgap (hchildren.between hend hone)).between hone hend
  unfold dumpForest
  rw [hdump]
  refine ⟨_, rfl, helement.congr ?_ ?_ ?_⟩
  · simp [startText, forestWritten, Attribute.toList_raw, Gap.line, forestId]
  · simp [forestRecord, ForestRecord.toElement, forestWritten, Attribute.pair, Attribute.raw,
      nameElements, Function.comp_def]
  · unfold forestWritten LegibleForest
    simp only [true_and]
    refine and_congr_left fun _ ↦ ?_
    rw [List.forall_mem_cons]
    exact ⟨fun hgood ↦ hgood.2 _ List.mem_cons_self,
      fun hgood ↦ ⟨plain_forestId _, List.forall_mem_singleton.mpr hgood⟩⟩

/-! ### The run through all forests -/

theorem getElem?_foldl_insertIfNew {numbers : TreeMap String ℕ} {forestRoot : String} {n : ℕ}
    (h : numbers[forestRoot]? = some n) (areas : List String) :
    (areas.foldl (fun numbers area ↦ numbers.insertIfNew area 0) numbers)[forestRoot]? =
      some n := by
  induction areas generalizing numbers with
  | nil => exact h
  | cons area areas ih =>
    refine ih ?_
    have hmem : forestRoot ∈ numbers := BuildForest.mem_of_getElem? h
    rw [TreeMap.getElem?_insertIfNew, if_neg, h]
    rintro ⟨heq, hnot⟩
    rw [compare_eq_iff_eq.mp heq] at hnot
    exact hnot hmem

theorem number_eq {done rest : List String} {forestRoot : String}
    (hnodup : (done ++ forestRoot :: rest).Nodup) :
    number (done ++ forestRoot :: rest) forestRoot = done.length + 1 := by
  have hnew : forestRoot ∉ done := fun hmem ↦
    (List.nodup_append.mp hnodup).2.2 _ hmem _ List.mem_cons_self rfl
  unfold number
  rw [List.idxOf_append_of_notMem hnew, List.idxOf_cons_self, Nat.add_zero]

/-- The next forest gets the number of its place. -/
theorem Numbered.step {done rest : List String} {forestRoot : String}
    {forestNumbers : TreeMap String ℕ} (h : Numbered order done forestNumbers)
    (horder : order = done ++ forestRoot :: rest) (hnodup : order.Nodup) (areas : List String) :
    Numbered order (done ++ [forestRoot])
      (areas.foldl (fun numbers area ↦ numbers.insertIfNew area 0)
        (forestNumbers.insert forestRoot (done.length + 1))) := by
  intro other hother
  refine getElem?_foldl_insertIfNew ?_ areas
  by_cases heq : other = forestRoot
  · subst heq horder
    rw [TreeMap.getElem?_insert_self, number_eq hnodup]
  · rw [TreeMap.getElem?_insert, if_neg (fun h ↦ heq (compare_eq_iff_eq.mp h).symm)]
    rcases List.mem_append.mp hother with hdone | hsame
    · exact h other hdone
    · exact absurd (List.mem_singleton.mp hsame) heq

theorem stands_dumpForests (hnodup : order.Nodup)
    (h : ∀ front forestRoot back, order = front ++ forestRoot :: back →
      ∃ forest, data.forests[forestRoot]? = some forest ∧ PlainForest forest ∧
        RefersTo forest (front ++ [forestRoot]))
    {rest : List String} (horder : order = done ++ rest)
    (hnumbers : Numbered order done forestNumbers) :
    ∃ text, dumpForests data forestNumbers done.length rest = some text ∧
      Stands attlist text.toList
        ((rest.filterMap fun forestRoot ↦ data.forests[forestRoot]?.map
          (forestRecord data order forestRoot)).map ForestRecord.toElement)
        (∀ forestRoot ∈ rest, ∀ forest, data.forests[forestRoot]? = some forest →
          LegibleForest forestRoot forest) := by
  induction rest generalizing done forestNumbers with
  | nil => exact ⟨"", rfl, Stands.nil.of_iff (by simp)⟩
  | cons forestRoot rest ih =>
    obtain ⟨forest, hforest, hplain, hrefers⟩ := h done forestRoot rest horder
    have hnumbers' := hnumbers.step horder hnodup forest.backingAreas
    obtain ⟨text, hdump, hstands⟩ := stands_dumpForest data hnumbers' forestRoot hplain hrefers
    obtain ⟨texts, hdumps, hstandsRest⟩ := ih (by rw [horder, List.append_assoc]; rfl) hnumbers'
    have hnumber : number order forestRoot = done.length + 1 := by
      rw [horder]
      exact number_eq (horder ▸ hnodup)
    rw [hnumber] at hdump
    rw [List.length_append, List.length_singleton] at hdumps
    unfold dumpForests
    rw [hforest]
    refine ⟨text ++ texts, ?_, ?_⟩
    · simp [hdump, hdumps]
    · rw [String.toList_append, List.filterMap_cons_some (by rw [hforest, Option.map_some]),
        List.map_cons]
      refine (hstands.append hstandsRest).of_iff ?_
      rw [List.forall_mem_cons]
      refine and_congr_left fun _ ↦
        ⟨fun hlegible forest' hforest' ↦ ?_, fun hall ↦ hall forest hforest⟩
      obtain rfl := Option.some_inj.mp (hforest.symm.trans hforest')
      exact hlegible

end Forests

end DumpData

end Abuild
