import Abuild.BuildForest.Validated

/-!
The assertions of the validation. None of them fails for the reason that the comments
in the source rule out, but two of them can fail: where two backing areas have
inherited the same item or tree from a third forest, and where a forest that inherits
an item or a tree does not have one of its optional dependencies.
-/

set_option autoImplicit false
set_option relaxedAutoImplicit false

namespace Abuild.BuildForest

open Relation Precedence Inheritance OptionalDependency
open Std (TreeMap TreeSet)

/-! ### Small forests -/

/-- A forest as it is read, with trees and items that have nothing special about them. -/
def readForest (path : String) (trees : List (String × List String))
    (items : List (String × String × List String)) (backingAreas : List String) : BuildForest where
  rootPath := path
  buildTrees := .ofList <| trees.map fun (name, treeDeps) ↦
    (name, { BuildTree.new name (path ++ "/" ++ name) treeDeps ∅ [] with forestRoot := path })
  buildItems := .ofList <| items.map fun (name, treeName, deps) ↦
    let absolutePath := path ++ "/" ++ treeName ++ "/" ++ name
    let location := FileLocation.new (absolutePath ++ "/" ++ BuildTree.fileConf) 0 0
    let config := ItemConfig.mk name location absolutePath deps ∅ ∅ ∅ [] .empty .empty
    (name, { BuildItem.new name treeName config with forestRoot := path, targetType := .all })
  backingAreas
  deletedTrees := ∅
  deletedItems := ∅
  globalPlugins := ∅
  treeAccessTable := ∅
  sortedTreeNames := []
  sortedItemNames := []

/-- A forest that backs to two forests, both of which back to one forest with an item. -/
def sharedBacking : BuildForestMap :=
  .ofList
    [("/a", readForest "/a" [("r", [])] [] ["/b", "/c"]),
      ("/b", readForest "/b" [("p", [])] [] ["/d"]), ("/c", readForest "/c" [("q", [])] [] ["/d"]),
      ("/d", readForest "/d" [("t", [])] [("x", "t", [])] [])]

/-- An item with an optional dependency, and a forest that inherits the item and deletes
the dependency. -/
def deletedOptional : BuildForestMap :=
  let native := readForest "/n" [("t", [])] [("d", "t", []), ("x", "t", ["d"])] []
  let optional := fun (item : BuildItem) ↦
    { item with config := { item.config with optionalDeps := .ofList ["d"] } }
  .ofList
    [("/n", { native with buildItems := native.buildItems.modify "x" optional }),
      ("/f", { readForest "/f" [("u", [])] [] ["/n"] with deletedItems := .ofList ["d"] })]

/-! ### Names that are met twice -/

/-- A name that is met twice is met in a known forest. -/
theorem mem_of_twice {forests : BuildForestMap} {outcome : Outcome} {p name : String} :
    (TreeTwice forests outcome p name → p ∈ forests) ∧
      (ItemTwice forests outcome p name → p ∈ forests) := by
  have hempty : p ∉ forests → uncovered forests p = [] := by
    intro hp
    unfold uncovered
    rw [TreeMap.getElem?_eq_none hp]
    rfl
  constructor
  all_goals
    rintro ⟨-, first, rest, hoffers, -⟩
    by_contra hp
    unfold Areas.offers at hoffers
  · rw [show (treeAreas forests).backing p = [] from hempty hp] at hoffers
    cases hoffers
  · rw [show (itemAreas forests).backing p = [] from hempty hp] at hoffers
    cases hoffers

/-- The forests of a validation do not fail the assertions of `resolveFromBackingAreas`
exactly where no tree and no item is met twice at one location. A name that is met
twice is reported, and every name stands for one definition in the end. -/
theorem validateForests_locations {forests : BuildForestMap} (h : AsRead forests)
    (fullIntegrity : Bool) :
    ∃ validated found, validateForests fullIntegrity forests = some (validated, found) ∧
      ((.sortedDependenciesEnd ∉ found.failed ∧ .treeLocations ∉ found.failed ∧
          .itemLocations ∉ found.failed) ↔
        ∀ p name, ¬ TreeTwice forests .failed p name ∧ ¬ ItemTwice forests .failed p name) ∧
      (∀ p name, TreeTwice forests .reported p name → ∃ location,
        (location, "this tree appears in multiple backing areas") ∈ found.errors) ∧
      (∀ p name, ItemTwice forests .reported p name → ∃ location,
        (location, "this item appears in multiple backing areas") ∈ found.errors) ∧
      ∀ p ∈ forests, ∃ forest, validated[p]? = some forest ∧
        (∀ name : String,
          (forest.buildTrees[name]?).map BuildTree.origin = visibleTree forests p name) ∧
        ∀ name : String,
          (forest.buildItems[name]?).map BuildItem.origin = visibleItem forests p name := by
  obtain ⟨order, validated, found, foundAt, horder, hrun, hvalidation⟩ :=
    validateForests_spec h fullIntegrity
  have hmem : ∀ p, p ∈ forests → p ∈ order := fun p ↦ (horder.mem_iff p).mpr
  refine ⟨validated, found, hrun, ⟨?_, fun hnone ↦ ⟨?_, ?_, ?_⟩⟩, fun p name hn ↦ ?_,
    fun p name hn ↦ ?_, fun p hp ↦ ?_⟩
  · rintro ⟨-, htrees, hitems⟩ p name
    refine ⟨fun hn ↦ htrees ?_, fun hn ↦ hitems ?_⟩
    · have hp := hmem p (mem_of_twice.1 hn)
      obtain ⟨forest, -, hvalidates⟩ := hvalidation.validates p hp
      exact (hvalidation.failed_iff _).mpr ⟨p, hp, hvalidates.treeFailed.mpr ⟨name, hn⟩⟩
    · have hp := hmem p (mem_of_twice.2 hn)
      obtain ⟨forest, -, hvalidates⟩ := hvalidation.validates p hp
      exact (hvalidation.failed_iff _).mpr ⟨p, hp, hvalidates.itemFailed.mpr ⟨name, hn⟩⟩
  · intro hin
    obtain ⟨p, hp, hin⟩ := (hvalidation.failed_iff _).mp hin
    obtain ⟨forest, -, hvalidates⟩ := hvalidation.validates p hp
    exact hvalidates.sortedEnd hin
  · intro hin
    obtain ⟨p, hp, hin⟩ := (hvalidation.failed_iff _).mp hin
    obtain ⟨forest, -, hvalidates⟩ := hvalidation.validates p hp
    obtain ⟨name, hn⟩ := hvalidates.treeFailed.mp hin
    exact (hnone p name).1 hn
  · intro hin
    obtain ⟨p, hp, hin⟩ := (hvalidation.failed_iff _).mp hin
    obtain ⟨forest, -, hvalidates⟩ := hvalidation.validates p hp
    obtain ⟨name, hn⟩ := hvalidates.itemFailed.mp hin
    exact (hnone p name).2 hn
  · have hp := hmem p (mem_of_twice.1 hn)
    obtain ⟨forest, -, hvalidates⟩ := hvalidation.validates p hp
    obtain ⟨location, hlocation⟩ := hvalidates.treeReported name hn
    exact ⟨location, (hvalidation.errors_iff _).mpr ⟨p, hp, hlocation⟩⟩
  · have hp := hmem p (mem_of_twice.2 hn)
    obtain ⟨forest, -, hvalidates⟩ := hvalidation.validates p hp
    obtain ⟨location, hlocation⟩ := hvalidates.itemReported name hn
    exact ⟨location, (hvalidation.errors_iff _).mpr ⟨p, hp, hlocation⟩⟩
  · obtain ⟨forest, hforest, hvalidates⟩ := hvalidation.validates p (hmem p hp)
    exact ⟨forest, hforest, hvalidates.isResolved.trees, hvalidates.isResolved.items⟩

set_option maxRecDepth 10000 in
/-- The theorem, for the forest that backs to one item in two ways. -/
theorem validateForests_locations_sharedBacking :
    AsRead sharedBacking ∧
      ∃ validated found, validateForests false sharedBacking = some (validated, found) ∧
        ((.sortedDependenciesEnd ∉ found.failed ∧ .treeLocations ∉ found.failed ∧
            .itemLocations ∉ found.failed) ↔
          ∀ p name, ¬ TreeTwice sharedBacking .failed p name ∧
            ¬ ItemTwice sharedBacking .failed p name) := by
  have hread : AsRead sharedBacking :=
    asRead_of_toList ["/d", "/b", "/c", "/a"] (by decide) (by decide) (by decide)
  obtain ⟨validated, found, hrun, hiff, -⟩ := validateForests_locations hread false
  exact ⟨hread, validated, found, hrun, hiff⟩

set_option maxRecDepth 10000 in
/-- The assertions about trees and about items both fail where a forest backs to two
forests that have inherited the same tree and the same item. -/
theorem validateForests_sharedBacking :
    AsRead sharedBacking ∧
      (validateForests false sharedBacking).map (fun r ↦ r.2.failed) =
        some [.treeLocations, .itemLocations] :=
  ⟨asRead_of_toList ["/d", "/b", "/c", "/a"] (by decide) (by decide) (by decide), by decide⟩

/-! ### Optional dependencies -/

/-- The optional dependencies of the trees and items of a validation that are left by
all forests make no assertion fail, and the entries are intact then. -/
theorem Validation.keeps {forests validated : BuildForestMap} {order : List String}
    {found : Findings} {foundAt : String → Findings} (horder : ValidationOrder forests order)
    (h : Validation forests order validated found foundAt) :
    (.expandedTreeDepsEmpty ∉ found.failed ↔
      ∀ p ∈ order, (treeDeclarations forests).Keeps p) ∧
    (.expandedDependenciesEmpty ∉ found.failed ↔
      ∀ p ∈ order, (itemDeclarations forests).Keeps p) ∧
    ((∀ p ∈ order, (itemDeclarations forests).Keeps p) → ∀ p ∈ order, ∀ forest,
      validated[p]? = some forest → (itemDeclarations forests).Intact p (itemEntries forest)) := by
  have htrees := Declarations.run_keeps (D := treeDeclarations forests) horder.ordered
    (fun p ↦ .expandedTreeDepsEmpty ∈ (foundAt p).failed)
    (fun p ↦ ∀ forest, validated[p]? = some forest →
      (treeDeclarations forests).Intact p (treeEntries forest))
    (fun p hp ih ↦ by
      obtain ⟨forest, hforest, hvalidates⟩ := h.validates p hp
      obtain ⟨hfailed, hintact⟩ := hvalidates.trees fun q hq ↦ ih q (mem_uncovered.mp hq).1
      refine ⟨hfailed, fun hkeeps forest' hforest' ↦ ?_⟩
      obtain rfl : forest = forest' := by simpa [hforest] using hforest'
      exact hintact hkeeps)
  have hitems := Declarations.run_keeps (D := itemDeclarations forests) horder.ordered
    (fun p ↦ .expandedDependenciesEmpty ∈ (foundAt p).failed)
    (fun p ↦ ∀ forest, validated[p]? = some forest →
      (itemDeclarations forests).Intact p (itemEntries forest))
    (fun p hp ih ↦ by
      obtain ⟨forest, hforest, hvalidates⟩ := h.validates p hp
      obtain ⟨hfailed, hintact⟩ := hvalidates.items fun q hq ↦ ih q (mem_uncovered.mp hq).1
      refine ⟨hfailed, fun hkeeps forest' hforest' ↦ ?_⟩
      obtain rfl : forest = forest' := by simpa [hforest] using hforest'
      exact hintact hkeeps)
  refine ⟨?_, ?_, hitems.2⟩
  · rw [← htrees.1, h.failed_iff]
    simp
  · rw [← hitems.1, h.failed_iff]
    simp

/-- No assertion about dependencies that are not expanded yet fails in a validation
exactly where every forest has the optional dependencies that the items and trees it
sees have where they are from. -/
theorem validateForests_optional {forests : BuildForestMap} (h : AsRead forests)
    (fullIntegrity : Bool) :
    ∃ validated found, validateForests fullIntegrity forests = some (validated, found) ∧
      ((.expandedTreeDepsEmpty ∉ found.failed ∧ .expandedDependenciesEmpty ∉ found.failed) ↔
        ∀ p ∈ forests,
          (treeDeclarations forests).Keeps p ∧ (itemDeclarations forests).Keeps p) := by
  obtain ⟨order, validated, found, foundAt, horder, hrun, hvalidation⟩ :=
    validateForests_spec h fullIntegrity
  obtain ⟨htrees, hitems, -⟩ := hvalidation.keeps horder
  refine ⟨validated, found, hrun, ?_⟩
  rw [htrees, hitems]
  simp only [horder.mem_iff]
  exact ⟨fun hkeeps p hp ↦ ⟨hkeeps.1 p hp, hkeeps.2 p hp⟩,
    fun hkeeps ↦ ⟨fun p hp ↦ (hkeeps p hp).1, fun p hp ↦ (hkeeps p hp).2⟩⟩

set_option maxRecDepth 10000 in
/-- The theorem, for the forest that deletes an optional dependency. -/
theorem validateForests_optional_deletedOptional :
    AsRead deletedOptional ∧
      ∃ validated found, validateForests false deletedOptional = some (validated, found) ∧
        ((.expandedTreeDepsEmpty ∉ found.failed ∧ .expandedDependenciesEmpty ∉ found.failed) ↔
          ∀ p ∈ deletedOptional, (treeDeclarations deletedOptional).Keeps p ∧
            (itemDeclarations deletedOptional).Keeps p) := by
  have hread : AsRead deletedOptional :=
    asRead_of_toList ["/n", "/f"] (by decide) (by decide) (by decide)
  exact ⟨hread, validateForests_optional hread false⟩

set_option maxRecDepth 10000 in
/-- An assertion fails where the forest that inherits an item deletes an optional
dependency of it, and nothing else is wrong. -/
theorem validateForests_deletedOptional :
    AsRead deletedOptional ∧
      (validateForests false deletedOptional).map Prod.snd =
        some ⟨[], [.expandedDependenciesEmpty]⟩ :=
  ⟨asRead_of_toList ["/n", "/f"] (by decide) (by decide) (by decide), by decide⟩

end Abuild.BuildForest
