import Abuild.BuildGraph.Prefixes
import Abuild.ItemConfig
import Abuild.PlatformTables.Load
import Abuild.Util.Split

/-!
What a node of the build graph has been made of can be read back from it. The names of items, the
names of platforms and the prefixes of trees are not empty and have no exclamation points, each for
a reason of its own: items by the pattern of `ItemConfig.cc`, platforms by the patterns for platform
data or by the program that finds the native platform, and prefixes as texts of numbers.
-/

set_option autoImplicit false
set_option relaxedAutoImplicit false

namespace Abuild

open Std (TreeMap)
open PlatformTables (loadAll PlatformSource)

/-- A platform that tables have when platform data has been read. -/
def IsPlatformRead (data : NativeData) (platform : String) : Prop :=
  ∃ (selectors : TreeMap String PlatformSelector) (unusedSelectors : TreeMap String String)
    (sources : List PlatformSource) (d₀ d : PlatformTables), PlatformTables.new = some d₀ ∧
      loadAll data selectors sources d₀ unusedSelectors = some d ∧ platform ∈ d.platformDeclaration

/-! ### The parts of a node -/

/-- A part of a node that is found again. -/
structure IsNodePart (part : String) : Prop where
  nonempty : part ≠ ""
  separator : '!' ∉ part.toList

theorem IsPlatformText.isNodePart {text : String} (h : IsPlatformText text) : IsNodePart text where
  nonempty := h.nonempty
  separator hmem := by
    rcases h.chars '!' hmem with hc | hc
    · exact absurd hc (by decide)
    · exact absurd hc (by decide)

theorem isNodePart_of_isItemName {name : String} (h : ItemConfig.isItemName name = true) :
    IsNodePart name := by
  refine (isPlatformText_of_split ?_).isNodePart
  unfold ItemConfig.isItemName at h
  cases hsplit : Util.split '.' name with
  | nil => exact absurd hsplit (Util.split_ne_nil '.' name)
  | cons first rest =>
    rw [hsplit] at h
    obtain ⟨hfirst, hrest⟩ := Bool.and_eq_true_iff.mp h
    exact Bool.and_eq_true_iff.mpr ⟨(Bool.and_eq_true_iff.mp hfirst).1, hrest⟩

theorem isNodePart_of_isPlatformRead {os cpu toolset : String} {data : NativeData}
    (hdata : NativeData.ofOutput (NativeData.printed os cpu toolset) = some data)
    {platform : String}
    (h : IsPlatformRead data platform) : IsNodePart platform := by
  obtain ⟨selectors, unusedSelectors, sources, d₀, d, hnew, hload, hplatform⟩ := h
  have hreadable :=
    PlatformTables.readable_of_loadAll hdata (PlatformTables.readable_new hnew) hload
  exact (hreadable platform hplatform).isNodePart

theorem isNodePart_intToString (n width : ℕ) : IsNodePart (Util.intToString n width) where
  nonempty h := by
    apply Decimal.pad_ne_nil width n
    rw [← Util.toList_intToString, h]
    rfl
  separator hmem := by
    rw [Util.toList_intToString] at hmem
    exact absurd (Decimal.isDigit_of_mem_pad hmem) (by decide)

theorem isNodePart_of_computeTreePrefixes {fuel : ℕ} {treeNames : List String}
    {prefixes : TreeMap String String} (h : computeTreePrefixes fuel treeNames ∅ = some prefixes)
    {t p : String} (hp : prefixes[t]? = some p) : IsNodePart p := by
  obtain ⟨ndigits, -, h⟩ := Option.bind_eq_some_iff.mp h
  have hlength := length_of_assignTreePrefixes (by decide) h
  obtain ⟨prefixes', h', hother, hnumbered⟩ :=
    @assignTreePrefixes_spec ndigits.toNat 0 treeNames ∅ (by omega)
  obtain rfl : prefixes = prefixes' := Option.some_inj.mp (h.symm.trans h')
  by_cases ht : t ∈ treeNames
  · obtain ⟨n, -, -, hn⟩ := hnumbered.mem t ht
    rw [hn] at hp
    exact Option.some_inj.mp hp ▸ isNodePart_intToString n _
  · rw [hother t ht, TreeMap.getElem?_emptyc] at hp
    cases hp

/-! ### Nodes -/

theorem parseBuildGraphNode_of_parts {treePrefix itemName platform : String}
    (hfront : IsNodePart treePrefix) (hitem : IsNodePart itemName)
    (hplatform : IsNodePart platform) :
    parseBuildGraphNode (treePrefix ++ "!" ++ itemName ++ "!" ++ platform) =
      some (itemName, platform) := by
  have hnode : treePrefix ++ "!" ++ itemName ++ "!" ++ platform =
      "!".intercalate [treePrefix, itemName, platform] := by
    simp [String.append_assoc]
  have hsplit : Util.split '!' ("!".intercalate [treePrefix, itemName, platform]) =
      [treePrefix, itemName, platform] := by
    refine Util.split_join rfl ?_ (List.cons_ne_nil _ _)
    simpa using ⟨hfront.separator, hitem.separator, hplatform.separator⟩
  unfold parseBuildGraphNode
  rw [hnode, hsplit]
  refine if_neg ?_
  simp [hfront.nonempty, hitem.nonempty, hplatform.nonempty]

section Node

variable {os cpu toolset : String} {data : NativeData} {fuel : ℕ} {treeNames : List String}
  {prefixes : TreeMap String String} {buildset : Buildset} {itemName platform node : String}

theorem createBuildGraphNode_eq_some
    (hnode : createBuildGraphNode buildset prefixes itemName platform =
    some node) : ∃ t p : String, prefixes[t]? = some p ∧
      node = p ++ "!" ++ itemName ++ "!" ++ platform := by
  obtain ⟨entry, -, hnode⟩ := Option.bind_eq_some_iff.mp hnode
  obtain ⟨item, -, hnode⟩ := Option.bind_eq_some_iff.mp hnode
  obtain ⟨p, hp, hnode⟩ := Option.bind_eq_some_iff.mp hnode
  exact ⟨item.treeName, p, hp, (Option.some_inj.mp hnode).symm⟩

theorem parse_of_createBuildGraphNode
    (hdata : NativeData.ofOutput (NativeData.printed os cpu toolset) = some data)
    (hprefixes : computeTreePrefixes fuel treeNames ∅ = some prefixes)
    (hitem : ItemConfig.isItemName itemName = true) (hplatform : IsPlatformRead data platform)
    (hnode : createBuildGraphNode buildset prefixes itemName platform = some node) :
    parseBuildGraphNode node = some (itemName, platform) := by
  obtain ⟨t, p, hp, rfl⟩ := createBuildGraphNode_eq_some hnode
  exact parseBuildGraphNode_of_parts (isNodePart_of_computeTreePrefixes hprefixes hp)
    (isNodePart_of_isItemName hitem) (isNodePart_of_isPlatformRead hdata hplatform)

/-- The assertions hold for items of the build set whose trees are known. -/
theorem exists_createBuildGraphNode {item : BuildItem}
    (hitem : buildset[itemName]? = some (some item))
    (htree : item.treeName ∈ prefixes) (platform : String) :
    ∃ node, createBuildGraphNode buildset prefixes itemName platform = some node := by
  refine ⟨prefixes[item.treeName] ++ "!" ++ itemName ++ "!" ++ platform, ?_⟩
  have hfront : prefixes[item.treeName]? = some prefixes[item.treeName] :=
    TreeMap.getElem?_eq_some_getElem htree
  unfold createBuildGraphNode
  rw [hitem]
  show (prefixes[item.treeName]?).bind _ = _
  rw [hfront]
  rfl

/-- An item and a platform can be read back from their node, so that no two pairs have one node. -/
theorem parseBuildGraphNode_createBuildGraphNode
    (hdata : NativeData.ofOutput (NativeData.printed os cpu toolset) = some data)
    (hprefixes : computeTreePrefixes fuel treeNames ∅ = some prefixes) (buildset : Buildset) :
    (∀ itemName platform : String, ItemConfig.isItemName itemName = true →
      IsPlatformRead data platform → ∀ item, buildset[itemName]? = some (some item) →
        item.treeName ∈ prefixes →
          ∃ node, createBuildGraphNode buildset prefixes itemName platform = some node ∧
            parseBuildGraphNode node = some (itemName, platform)) ∧
    ∀ itemName platform itemName' platform' node : String, ItemConfig.isItemName itemName = true →
      IsPlatformRead data platform → ItemConfig.isItemName itemName' = true →
        IsPlatformRead data platform' →
          createBuildGraphNode buildset prefixes itemName platform = some node →
            createBuildGraphNode buildset prefixes itemName' platform' = some node →
              itemName = itemName' ∧ platform = platform' := by
  constructor
  · intro itemName platform hname hplatform item hitem htree
    obtain ⟨node, hnode⟩ := exists_createBuildGraphNode hitem htree platform
    exact ⟨node, hnode, parse_of_createBuildGraphNode hdata hprefixes hname hplatform hnode⟩
  · intro itemName platform itemName' platform' node hname hplatform hname' hplatform' hnode hnode'
    have hparse := parse_of_createBuildGraphNode hdata hprefixes hname hplatform hnode
    rw [parse_of_createBuildGraphNode hdata hprefixes hname' hplatform' hnode'] at hparse
    obtain ⟨hitems, hplatforms⟩ := Prod.mk.inj (Option.some_inj.mp hparse)
    exact ⟨hitems.symm, hplatforms.symm⟩

end Node

/-! An item and a platform of a native compiler. -/

def nodeData : NativeData := ⟨"linux", "x86_64", "rhel5"⟩

def nodeSource : PlatformSource := ⟨"/opt/abuild/private", [], ["native-compiler gcc"]⟩

def nodeItem : BuildItem :=
  .new "core.util" "base" ⟨"core.util", .empty, "/work/core", [], ∅, ∅, ∅, [], .empty, .empty⟩

theorem isPlatformRead_node : IsPlatformRead nodeData "linux.x86_64.rhel5.gcc" := by
  have hload : ((PlatformTables.new.bind fun d₀ ↦ loadAll nodeData ∅ [nodeSource] d₀ ∅).any
      fun d ↦ d.platformDeclaration.contains "linux.x86_64.rhel5.gcc") = true := by
    decide +kernel
  obtain ⟨d, hd, hplatform⟩ := (Option.any_eq_true _ _).mp hload
  obtain ⟨d₀, hnew, hd⟩ := Option.bind_eq_some_iff.mp hd
  exact ⟨∅, ∅, [nodeSource], d₀, d, hnew, hd, hplatform⟩

theorem parseBuildGraphNode_nativeNode : ∃ prefixes : TreeMap String String,
    computeTreePrefixes 1 ["base"] ∅ = some prefixes ∧
      ∃ node, createBuildGraphNode (.ofList [("core.util", some nodeItem)]) prefixes "core.util"
          "linux.x86_64.rhel5.gcc" = some node ∧
        parseBuildGraphNode node = some ("core.util", "linux.x86_64.rhel5.gcc") := by
  have hcompute : (computeTreePrefixes 1 ["base"] ∅).any (·.contains "base") = true := by
    decide +kernel
  obtain ⟨prefixes, hprefixes, htree⟩ := (Option.any_eq_true _ _).mp hcompute
  have hdata : NativeData.ofOutput (NativeData.printed "Linux" "x86_64" "rhel5") =
    some nodeData := by
    decide +kernel
  refine ⟨prefixes, hprefixes, ?_⟩
  exact (parseBuildGraphNode_createBuildGraphNode hdata hprefixes _).1 "core.util"
    "linux.x86_64.rhel5.gcc" (by decide) isPlatformRead_node nodeItem rfl htree

end Abuild
