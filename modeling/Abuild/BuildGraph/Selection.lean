import Abuild.BuildGraph.Edges
import Abuild.BuildGraph.Nodes
import Abuild.DependencyGraph.Build
import Abuild.Library.Guarded

/-!
What the build graph consists of. The platforms that the build of some items asks for are the least
ones with those selected at first that have with a platform of an item the platforms chosen for its
dependencies (`Wanted`). The construction adds nodes and edges for these only, and for all of them
unless a platform that is chosen is passed over; this happens only where a dependency names its
platform type (`Granted`).
-/

set_option autoImplicit false
set_option relaxedAutoImplicit false

namespace Abuild

open Std (TreeMap TreeSet)
open Relation Precedence

/-! ### Graphs by their nodes and edges -/

namespace DependencyGraph

/-- A graph that has been built of some nodes and edges. -/
def Consists (g : DependencyGraph) (nodes : ItemType → Prop) (edges : ItemType → ItemType → Prop) :
    Prop :=
  ∃ additions, Built additions g ∧ (∀ a, a ∈ added additions ↔ nodes a) ∧
    ∀ a b, Requires additions a b ↔ edges a b

variable {g g' : DependencyGraph} {nodes nodes' : ItemType → Prop}
  {edges edges' : ItemType → ItemType → Prop}

theorem consists_new : Consists new (fun _ ↦ False) fun _ _ ↦ False :=
  ⟨[], build_spec rfl, fun _ ↦ by simp [added], fun _ _ ↦ by simp [Requires]⟩

theorem Consists.congr (h : Consists g nodes edges) (hnodes : ∀ a, nodes a ↔ nodes' a)
    (hedges : ∀ a b, edges a b ↔ edges' a b) : Consists g nodes' edges' := by
  obtain ⟨additions, hbuilt, hadded, hrequires⟩ := h
  exact ⟨additions, hbuilt, fun a ↦ (hadded a).trans (hnodes a),
    fun a b ↦ (hrequires a b).trans (hedges a b)⟩

theorem Consists.addItem (h : Consists g nodes edges) {item : ItemType}
    (hadd : g.addItem item = some g') : Consists g' (fun a ↦ nodes a ∨ a = item) edges := by
  obtain ⟨additions, hbuilt, hadded, hrequires⟩ := h
  have hadd' : g.add (.addItem item) = some g' := hadd
  refine ⟨_, hbuilt.add hadd', fun a ↦ ?_, fun a b ↦ (?_ : _ ↔ edges a b)⟩
  · show _ ↔ nodes a ∨ a = item
    rw [← hadded]
    simp [added]
  · rw [← hrequires]
    simp [Requires]

theorem Consists.addDependency (h : Consists g nodes edges) {item dep : ItemType}
    (hadd : g.addDependency item dep = some g') :
    Consists g' nodes fun a b ↦ edges a b ∨ a = item ∧ b = dep := by
  obtain ⟨additions, hbuilt, hadded, hrequires⟩ := h
  have hadd' : g.add (.addDependency item dep) = some g' := hadd
  refine ⟨_, hbuilt.add hadd', fun a ↦ ?_, fun a b ↦ ?_⟩
  · rw [← hadded]
    simp [added]
  · show _ ↔ edges a b ∨ a = item ∧ b = dep
    rw [← hrequires]
    simp [Requires]

theorem Consists.mem_iff (h : Consists g nodes edges) (a : ItemType) :
    a ∈ g.dependencies ↔ nodes a := by
  obtain ⟨additions, hbuilt, hadded, -⟩ := h
  exact (hbuilt.mem_iff a).trans (hadded a)

theorem Consists.dependsOn_eq (h : Consists g nodes edges) : DependsOn g.dependencies = edges := by
  obtain ⟨additions, hbuilt, -, hrequires⟩ := h
  ext a b
  exact (hbuilt.dependsOn_iff a b).trans (hrequires a b)

/-- A graph has no errors exactly if its edges end at nodes and it has no cycle. -/
theorem Consists.check (h : Consists g nodes edges) :
    ∃ result g', g.check = some (result, g') ∧ Checked g' ∧
      g'.graphState = (if result then .ready else .error) ∧
      (∀ a, a ∈ g'.dependencies ↔ nodes a) ∧ DependsOn g'.dependencies = edges ∧
      (result = true ↔ (∀ a b, edges a b → nodes b) ∧ ∀ a, ¬ TransGen edges a a) := by
  obtain ⟨additions, hbuilt, hadded, hrequires⟩ := h
  obtain ⟨result, g', hcheck, hchecked, hstate, hmem, hdepends, hresult⟩ := hbuilt.check
  have hedges : Requires additions = edges := by
    ext a b
    exact hrequires a b
  refine ⟨result, g', hcheck, hchecked, hstate, fun a ↦ (hmem a).trans (hadded a),
    hdepends.trans hedges, ?_⟩
  rw [hresult, hedges]
  simp only [hadded]

end DependencyGraph

/-! ### The platforms that a build asks for -/

section Wanted

variable (o : GraphOptions) (b : Buildset)

/-- The platform of a dependency for an item on a platform, or the empty string. -/
def choosePlatform (item depItem : BuildItem) (dep itemPlatform : String) : Option String :=
  let declared := item.config.getDepPlatformType dep
  if declared.1 = "" then
    depItem.getBestPlatformForPlatform item itemPlatform o.platformSelectors
  else depItem.getBestPlatformForType declared.1 declared.2 o.platformSelectors

/-- An item of the build set on a platform needs a dependency on a platform. -/
def Chosen (name platform dep depPlatform : String) : Prop :=
  ∃ item depItem : BuildItem, b[name]? = some (some item) ∧ dep ∈ item.deps ∧
    b[dep]? = some (some depItem) ∧
      choosePlatform o item depItem dep platform = some depPlatform ∧ depPlatform ≠ ""

/-- The platforms that are selected at first, and those that they need. -/
inductive Wanted : String → String → Prop
  | selected {name platform : String} {item : BuildItem} (hitem : b[name]? = some (some item))
      (hplatform : platform ∈ item.buildPlatforms) : Wanted name platform
  | needed {name platform dep depPlatform : String} (hwanted : Wanted name platform)
      (hchosen : Chosen o b name platform dep depPlatform) : Wanted dep depPlatform

/-- The node of an item on a platform. -/
def Node (name platform node : String) : Prop :=
  createBuildGraphNode b o.buildgraphTreePrefixes name platform = some node

/-- An item of a build set is built on a platform. -/
def HasPlatform (name platform : String) : Prop :=
  ∃ item, b[name]? = some (some item) ∧ platform ∈ item.buildPlatforms

/-- The dependency of an item names no platform type. -/
def Regular (name dep : String) : Prop :=
  ∀ item, b[name]? = some (some item) → (item.config.getDepPlatformType dep).1 = ""

/-- What a build set, as it comes to the construction, has: every item is built only where it can
be, and the parts of nodes are found again in them. -/
structure Constructible : Prop where
  buildable : ∀ (name : String) (item : BuildItem), b[name]? = some (some item) →
    item.targetType ≠ .all → ∀ p ∈ item.buildPlatforms, p ∈ item.getBuildablePlatforms
  name : ∀ (name : String) (item : BuildItem), b[name]? = some (some item) → IsNodePart name
  platform : ∀ (name : String) (item : BuildItem), b[name]? = some (some item) →
    ∀ p, p ∈ item.buildPlatforms ∨ p ∈ item.getBuildablePlatforms → IsNodePart p
  treePrefix : ∀ t p : String, o.buildgraphTreePrefixes[t]? = some p → IsNodePart p
  tree : ∀ (name : String) (item : BuildItem), b[name]? = some (some item) →
    item.treeName ∈ o.buildgraphTreePrefixes

end Wanted

/-! ### Items that get more platforms -/

/-- An item with more build platforms. -/
structure Grown (item item' : BuildItem) : Prop where
  eq : item' = { item with buildPlatforms := item'.buildPlatforms }
  subset : ∀ p ∈ item.buildPlatforms, p ∈ item'.buildPlatforms

theorem Grown.refl (item : BuildItem) : Grown item item := ⟨rfl, fun _ hp ↦ hp⟩

theorem Grown.trans {item item' item'' : BuildItem} (h : Grown item item')
    (h' : Grown item' item'') : Grown item item'' := by
  refine ⟨?_, fun p hp ↦ h'.subset p (h.subset p hp)⟩
  rw [h'.eq, h.eq]

theorem mem_addBuildPlatform {item : BuildItem} {p q : String} :
    q ∈ (item.addBuildPlatform p).buildPlatforms ↔ q = p ∨ q ∈ item.buildPlatforms := by
  show q ∈ item.buildPlatforms.insert p ↔ _
  rw [TreeSet.mem_insert, compare_eq_iff_eq, eq_comm]

theorem grown_addBuildPlatform (item : BuildItem) (p : String) :
    Grown item (item.addBuildPlatform p) :=
  ⟨rfl, fun _ hq ↦ mem_addBuildPlatform.mpr (Or.inr hq)⟩

/-- A build set whose items have more build platforms. -/
def GrownSet (b b' : Buildset) : Prop :=
  ∀ name : String, Option.Rel (Option.Rel Grown) b[name]? b'[name]?

section Grown

variable {o : GraphOptions} {b b' : Buildset}

theorem GrownSet.refl (b : Buildset) : GrownSet b b := by
  intro name
  rcases b[name]? with _ | _ | item
  · exact .none
  · exact .some .none
  · exact .some (.some (Grown.refl item))

theorem GrownSet.exists_grown (h : GrownSet b b') {name : String} {item : BuildItem}
    (hitem : b[name]? = some (some item)) :
    ∃ item', b'[name]? = some (some item') ∧ Grown item item' := by
  obtain ⟨x, hx, hrel⟩ := Fallible.exists_of_rel (h name) hitem
  cases hrel with
  | some hgrown => exact ⟨_, hx, hgrown⟩

theorem GrownSet.exists_before (h : GrownSet b b') {name : String} {item' : BuildItem}
    (hitem : b'[name]? = some (some item')) :
    ∃ item, b[name]? = some (some item) ∧ Grown item item' := by
  have hrel := h name
  rw [hitem] at hrel
  generalize b[name]? = x at hrel
  cases hrel with
  | some hrel =>
    cases hrel with
    | some hgrown => exact ⟨_, rfl, hgrown⟩

theorem GrownSet.insert (h : GrownSet b b') {name : String} {item item' : BuildItem}
    (hitem : b'[name]? = some (some item)) (hgrown : Grown item item') :
    GrownSet b (b'.insert name (some item')) := by
  intro other
  rw [TreeMap.getElem?_insert]
  split_ifs with hother
  · obtain rfl := compare_eq_iff_eq.mp hother
    obtain ⟨first, hfirst, hbefore⟩ := h.exists_before hitem
    rw [hfirst]
    exact .some (.some (hbefore.trans hgrown))
  · exact h other

theorem choosePlatform_grown {item item' depItem depItem' : BuildItem} (h : Grown item item')
    (hdep : Grown depItem depItem') (dep platform : String) :
    choosePlatform o item' depItem' dep platform = choosePlatform o item depItem dep platform := by
  rw [h.eq, hdep.eq]
  rfl

/-- The nodes do not depend on the build platforms. -/
theorem GrownSet.node_eq (h : GrownSet b b') (name platform : String) :
    createBuildGraphNode b' o.buildgraphTreePrefixes name platform =
      createBuildGraphNode b o.buildgraphTreePrefixes name platform := by
  have hrel := h name
  unfold createBuildGraphNode
  generalize b[name]? = x at hrel ⊢
  generalize b'[name]? = y at hrel ⊢
  cases hrel with
  | none => rfl
  | some hrel =>
    cases hrel with
    | none => rfl
    | some hgrown =>
      rw [hgrown.eq]
      rfl

end Grown

end Abuild
