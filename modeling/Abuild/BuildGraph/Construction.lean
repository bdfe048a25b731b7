import Abuild.BuildForest.Expand
import Abuild.BuildGraph.Selection
import Abuild.PlatformTables.Selection

/-!
The steps of the construction. Each one adds to the graph the nodes and edges of what has been gone
through, and to the build platforms only what is wanted; and each regular dependency that has been
gone through has got the platform that was chosen (`Progress`).
-/

set_option autoImplicit false
set_option relaxedAutoImplicit false

namespace Abuild

open Std (TreeMap TreeSet)
open Relation Precedence

/-! ### Choices -/

section Choice

variable {o : GraphOptions} {b : Buildset}

theorem mem_of_findMatch {m : PlatformSelector.Matcher} {platforms : List String} {p : String}
    (h : BuildItem.findMatch m platforms = some p) : p = "" ∨ p ∈ platforms := by
  induction platforms with
  | nil => exact Or.inl (Option.some_inj.mp h).symm
  | cons first rest ih =>
    obtain ⟨found, -, h⟩ := Option.bind_eq_some_iff.mp h
    cases found with
    | true => exact Or.inr (Option.some_inj.mp h ▸ List.mem_cons_self)
    | false => exact (ih h).imp_right (List.mem_cons_of_mem _)

theorem mem_getBuildablePlatforms {item : BuildItem} {platformType : String}
    {platforms : List String} (h : item.platformTypes[platformType]? = some platforms) {p : String}
    (hp : p ∈ platforms) : p ∈ item.getBuildablePlatforms := by
  exact List.mem_flatten.mpr ⟨platforms, BuildForest.mem_values.mpr ⟨platformType, h⟩, hp⟩

theorem mem_of_bestAmong {item : BuildItem} {ps : Option PlatformSelector} {p first : String}
    {rest : List String}
    (h : PlatformTables.bestAmong item ps (some (first :: rest)) = some p) : p ∈ first :: rest := by
  have hresult : ∀ result, result = "" ∨ result ∈ first :: rest →
      some (if result.isEmpty then first else result) = some p → p ∈ first :: rest := by
    intro result hmem heq
    obtain rfl := Option.some_inj.mp heq
    split_ifs with hnone
    · exact List.mem_cons_self
    · refine hmem.resolve_left fun heq ↦ hnone ?_
      rw [heq]
      rfl
  unfold PlatformTables.bestAmong at h
  dsimp only at h
  cases ps with
  | none => exact hresult "" (Or.inl rfl) h
  | some ps =>
    dsimp only at h
    split_ifs at h
    · obtain ⟨m, -, h⟩ := Option.bind_eq_some_iff.mp h
      obtain ⟨result, hmatch, h⟩ := Option.bind_eq_some_iff.mp h
      exact hresult result (mem_of_findMatch hmatch) h
    · exact hresult "" (Or.inl rfl) h

theorem mem_of_getBestPlatformForType {item : BuildItem} {platformType p : String}
    {ps : Option PlatformSelector} {platformSelectors : TreeMap String PlatformSelector}
    (h : item.getBestPlatformForType platformType ps platformSelectors = some p) (hp : p ≠ "") :
    p ∈ item.getBuildablePlatforms := by
  have hbest : ∃ ps' platformType',
      PlatformTables.bestAmong item ps' item.platformTypes[platformType']? = some p := ⟨_, _, h⟩
  obtain ⟨ps', platformType', hbest⟩ := hbest
  cases hplatforms : item.platformTypes[platformType']? with
  | none =>
    rw [hplatforms] at hbest
    exact absurd (Option.some_inj.mp hbest).symm hp
  | some platforms =>
    rw [hplatforms] at hbest
    cases platforms with
    | nil => exact absurd (Option.some_inj.mp hbest).symm hp
    | cons first rest => exact mem_getBuildablePlatforms hplatforms (mem_of_bestAmong hbest)

/-- A platform that is chosen is one that the dependency can be built on; that of the item is taken
where it is one. -/
theorem getBestPlatformForPlatform_cases {self item : BuildItem} {platform p : String}
    {platformSelectors : TreeMap String PlatformSelector}
    (h : self.getBestPlatformForPlatform item platform platformSelectors = some p) (hp : p ≠ "") :
    p = platform ∧ (self.targetType = .all ∨ platform ∈ self.getBuildablePlatforms) ∨
      ¬ (self.targetType = .all ∨ platform ∈ self.getBuildablePlatforms) ∧
        p ∈ self.getBuildablePlatforms := by
  unfold BuildItem.getBestPlatformForPlatform at h
  split_ifs at h with hbuilds
  · exact Or.inl ⟨(Option.some_inj.mp h).symm, hbuilds⟩
  · obtain ⟨platformData, -, h⟩ := Option.bind_eq_some_iff.mp h
    obtain ⟨compatibleTypes, -, h⟩ := Option.bind_eq_some_iff.mp h
    refine Or.inr ⟨hbuilds, ?_⟩
    split at h
    · exact mem_of_getBestPlatformForType h hp
    · exact absurd (Option.some_inj.mp h).symm hp

theorem choosePlatform_cases {item depItem : BuildItem} {dep platform p : String}
    (h : choosePlatform o item depItem dep platform = some p) (hp : p ≠ "") :
    p = platform ∨ p ∈ depItem.getBuildablePlatforms := by
  unfold choosePlatform at h
  dsimp only at h
  split_ifs at h
  · exact (getBestPlatformForPlatform_cases h hp).imp And.left And.right
  · exact Or.inr (mem_of_getBestPlatformForType h hp)

/-- What is wanted can be built. -/
theorem Wanted.buildable (hb : Constructible o b) {name platform : String}
    (h : Wanted o b name platform) {item : BuildItem} (hitem : b[name]? = some (some item))
    (hall : item.targetType ≠ .all) : platform ∈ item.getBuildablePlatforms := by
  cases h with
  | selected hitem' hplatform =>
    obtain rfl := Option.some_inj.mp (Option.some_inj.mp (hitem.symm.trans hitem'))
    exact hb.buildable name item hitem hall platform hplatform
  | needed hwanted hchosen =>
    obtain ⟨other, depItem, -, -, hdep, hchoose, hne⟩ := hchosen
    obtain rfl := Option.some_inj.mp (Option.some_inj.mp (hitem.symm.trans hdep))
    unfold choosePlatform at hchoose
    dsimp only at hchoose
    split_ifs at hchoose
    · rcases getBestPlatformForPlatform_cases hchoose hne with ⟨rfl, hbuilds⟩ | ⟨-, hbuilds⟩
      · exact hbuilds.resolve_left hall
      · exact hbuilds
    · exact mem_of_getBestPlatformForType hchoose hne

theorem Wanted.isNodePart (hb : Constructible o b) {name platform : String}
    (h : Wanted o b name platform) : IsNodePart platform := by
  induction h with
  | selected hitem hplatform => exact hb.platform _ _ hitem _ (Or.inl hplatform)
  | needed hwanted hchosen ih =>
    obtain ⟨other, depItem, -, -, hdep, hchoose, hne⟩ := hchosen
    rcases choosePlatform_cases hchoose hne with rfl | hbuilds
    · exact ih
    · exact hb.platform _ _ hdep _ (Or.inr hbuilds)

theorem Wanted.exists_item {name platform : String} (h : Wanted o b name platform) :
    ∃ item, b[name]? = some (some item) := by
  cases h with
  | selected hitem hplatform => exact ⟨_, hitem⟩
  | needed hwanted hchosen =>
    obtain ⟨other, depItem, -, -, hdep, -⟩ := hchosen
    exact ⟨depItem, hdep⟩

/-- The node of what is wanted is that of nothing else. -/
theorem Node.parse (hb : Constructible o b) {name platform node : String}
    (hwanted : Wanted o b name platform) (h : Node o b name platform node) :
    parseBuildGraphNode node = some (name, platform) := by
  obtain ⟨item, hitem⟩ := hwanted.exists_item
  obtain ⟨t, p, hp, rfl⟩ := createBuildGraphNode_eq_some h
  exact parseBuildGraphNode_of_parts (hb.treePrefix t p hp) (hb.name name item hitem)
    (hwanted.isNodePart hb)

end Choice

/-! ### What has been gone through -/

/-- The nodes `done` have been added, and the dependencies `gone` gone through. -/
structure Progress (o : GraphOptions) (b : Buildset) (done : String → String → Prop)
    (gone : String → String → String → Prop) (g : GraphConstruction) : Prop where
  grown : GrownSet b g.buildset
  graph : g.buildGraph.Consists (fun a ↦ ∃ n p, done n p ∧ Node o b n p a)
    fun a c ↦ ∃ n d q p, gone n d q ∧ Chosen o b n q d p ∧ Node o b n q a ∧ Node o b d p c
  granted : ∀ n d q p, gone n d q → Regular b n d → Chosen o b n q d p →
    HasPlatform g.buildset d p
  wanted : ∀ n p, HasPlatform g.buildset n p → Wanted o b n p
  origin : ∀ n p, HasPlatform g.buildset n p →
    HasPlatform b n p ∨ ∃ m q, gone m n q ∧ Chosen o b m q n p

namespace Progress

open GraphConstruction

variable {o : GraphOptions} {b : Buildset} {done : String → String → Prop}
  {gone gone' : String → String → String → Prop} {g g' : GraphConstruction}
  {name dep platform : String} {item depItem : BuildItem}

theorem congr (h : Progress o b done gone g)
    (hgone : ∀ n d q p, Chosen o b n q d p → (gone n d q ↔ gone' n d q)) :
    Progress o b done gone' g := by
  refine ⟨h.grown, h.graph.congr (fun _ ↦ Iff.rfl) fun a c ↦ ?_,
    fun n d q p hn hregular hchosen ↦ ?_,
    h.wanted, fun n p hp ↦ (h.origin n p hp).imp_right ?_⟩
  · constructor
    · rintro ⟨n, d, q, p, hn, hchosen, hnodes⟩
      exact ⟨n, d, q, p, (hgone n d q p hchosen).mp hn, hchosen, hnodes⟩
    · rintro ⟨n, d, q, p, hn, hchosen, hnodes⟩
      exact ⟨n, d, q, p, (hgone n d q p hchosen).mpr hn, hchosen, hnodes⟩
  · exact h.granted n d q p ((hgone n d q p hchosen).mpr hn) hregular hchosen
  · rintro ⟨m, q, hm, hchosen⟩
    exact ⟨m, q, (hgone m n q p hchosen).mp hm, hchosen⟩

theorem addNode (h : Progress o b done gone g)
    (hadd : GraphConstruction.addNode o name g platform = some g') :
    Progress o b (fun n p ↦ done n p ∨ n = name ∧ p = platform) gone g' ∧
      g'.buildset = g.buildset := by
  obtain ⟨node, hnode, hadd⟩ := Option.bind_eq_some_iff.mp hadd
  obtain ⟨graph, hgraph, hadd⟩ := Option.bind_eq_some_iff.mp hadd
  obtain rfl := Option.some_inj.mp hadd
  rw [h.grown.node_eq] at hnode
  refine ⟨⟨h.grown, (h.graph.addItem hgraph).congr (fun a ↦ ?_) fun _ _ ↦ Iff.rfl, h.granted,
    h.wanted, h.origin⟩, rfl⟩
  constructor
  · rintro (⟨n, p, hn, ha⟩ | rfl)
    · exact ⟨n, p, Or.inl hn, ha⟩
    · exact ⟨name, platform, Or.inr ⟨rfl, rfl⟩, hnode⟩
  · rintro ⟨n, p, hn | ⟨rfl, rfl⟩, ha⟩
    · exact Or.inl ⟨n, p, hn, ha⟩
    · exact Or.inr (Option.some_inj.mp (ha.symm.trans hnode))

theorem addNodes {platforms : List String} (h : Progress o b done gone g)
    (hadd : platforms.foldlM (GraphConstruction.addNode o name) g = some g') :
    Progress o b (fun n p ↦ done n p ∨ n = name ∧ p ∈ platforms) gone g' ∧
      g'.buildset = g.buildset := by
  induction platforms generalizing done g with
  | nil =>
    obtain rfl := Option.some_inj.mp hadd
    exact ⟨⟨h.grown, h.graph.congr (by simp) fun _ _ ↦ Iff.rfl, h.granted, h.wanted, h.origin⟩, rfl⟩
  | cons platform platforms ih =>
    obtain ⟨g₁, hg₁, hadd⟩ := Option.bind_eq_some_iff.mp hadd
    obtain ⟨hfirst, hsame⟩ := h.addNode hg₁
    obtain ⟨hrest, hsame'⟩ := ih hfirst hadd
    refine ⟨⟨hrest.grown, hrest.graph.congr (fun a ↦ ?_) fun _ _ ↦ Iff.rfl, hrest.granted,
      hrest.wanted, hrest.origin⟩, hsame'.trans hsame⟩
    simp only [List.mem_cons, or_assoc, and_or_left]

/-- What leaves the build set and the graph as they are does not matter. -/
theorem of_same (h : Progress o b done gone g) (hbuildset : g'.buildset = g.buildset)
    (hgraph : g'.buildGraph = g.buildGraph) : Progress o b done gone g' :=
  ⟨hbuildset ▸ h.grown, hgraph ▸ h.graph, hbuildset ▸ h.granted, hbuildset ▸ h.wanted,
    hbuildset ▸ h.origin⟩

/-- Another set of build platforms for one item. -/
structure Selects (dep depPlatform : String) (depItem : BuildItem) (buildset buildset' : Buildset) :
    Prop where
  other : ∀ m, m ≠ dep → buildset'[m]? = buildset[m]?
  self : ∃ depItem', buildset'[dep]? = some (some depItem') ∧ Grown depItem depItem' ∧
    ∀ p ∈ depItem'.buildPlatforms, p = depPlatform ∨ p ∈ depItem.buildPlatforms

theorem selectAsNeeded_spec (hdep : g.buildset[dep]? = some (some depItem))
    (itemPlatform depPlatform : String) :
    Selects dep depPlatform depItem g.buildset
        (g.selectAsNeeded dep itemPlatform depPlatform depItem).buildset ∧
      (g.selectAsNeeded dep itemPlatform depPlatform depItem).buildGraph = g.buildGraph ∧
      (itemPlatform ∉ depItem.buildPlatforms → HasPlatform
        (g.selectAsNeeded dep itemPlatform depPlatform depItem).buildset dep depPlatform) := by
  unfold GraphConstruction.selectAsNeeded
  by_cases hmem : itemPlatform ∈ depItem.buildPlatforms
  · rw [if_pos (TreeSet.contains_iff_mem.mpr hmem)]
    exact ⟨⟨fun _ _ ↦ rfl, depItem, hdep, Grown.refl depItem, fun _ hp ↦ Or.inr hp⟩, rfl,
      fun hnot ↦ absurd hmem hnot⟩
  · have hself : (g.buildset.insert dep (some (depItem.addBuildPlatform depPlatform)))[dep]? =
        some (some (depItem.addBuildPlatform depPlatform)) := TreeMap.getElem?_insert_self
    rw [if_neg (mt TreeSet.contains_iff_mem.mp hmem)]
    refine ⟨⟨fun m hm ↦ ?_, _, hself, grown_addBuildPlatform depItem depPlatform,
      fun p hp ↦ mem_addBuildPlatform.mp hp⟩, rfl, fun _ ↦ ?_⟩
    · exact TreeMap.getElem?_insert.trans
        (if_neg fun heq ↦ hm (compare_eq_iff_eq.mp heq).symm)
    · exact ⟨_, hself, mem_addBuildPlatform.mpr (Or.inl rfl)⟩

theorem Selects.grown {buildset' : Buildset} {depPlatform : String} {buildset : Buildset}
    (h : Selects dep depPlatform depItem buildset buildset')
    (hgrown : GrownSet b buildset) (hdep : buildset[dep]? = some (some depItem)) :
    GrownSet b buildset' := by
  intro m
  by_cases hm : m = dep
  · subst hm
    obtain ⟨depItem', hself, hmore, -⟩ := h.self
    obtain ⟨first, hfirst, hbefore⟩ := hgrown.exists_before hdep
    rw [hself, hfirst]
    exact .some (.some (hbefore.trans hmore))
  · rw [h.other m hm]
    exact hgrown m

theorem Selects.hasPlatform {buildset' : Buildset} {depPlatform : String} {buildset : Buildset}
    (h : Selects dep depPlatform depItem buildset buildset')
    (hdep : buildset[dep]? = some (some depItem)) {m p : String}
    (hm : HasPlatform buildset m p) : HasPlatform buildset' m p := by
  obtain ⟨item, hitem, hp⟩ := hm
  by_cases hmd : m = dep
  · subst hmd
    obtain rfl := Option.some_inj.mp (Option.some_inj.mp (hdep.symm.trans hitem))
    obtain ⟨depItem', hself, hmore, -⟩ := h.self
    exact ⟨depItem', hself, hmore.subset p hp⟩
  · exact ⟨item, (h.other m hmd).trans hitem, hp⟩

theorem Selects.before {buildset' : Buildset} {depPlatform : String} {buildset : Buildset}
    (h : Selects dep depPlatform depItem buildset buildset')
    (hdep : buildset[dep]? = some (some depItem)) {m p : String}
    (hm : HasPlatform buildset' m p) : m = dep ∧ p = depPlatform ∨ HasPlatform buildset m p := by
  obtain ⟨item, hitem, hp⟩ := hm
  by_cases hmd : m = dep
  · subst hmd
    obtain ⟨depItem', hself, -, hall⟩ := h.self
    obtain rfl := Option.some_inj.mp (Option.some_inj.mp (hself.symm.trans hitem))
    exact (hall p hp).imp (⟨rfl, ·⟩) fun hp ↦ ⟨depItem, hdep, hp⟩
  · exact Or.inr ⟨item, (h.other m hmd).symm.trans hitem, hp⟩

/-- How the platform is chosen for the edges of a dependency: for all of them at once where the
dependency names a platform type. -/
structure Overrides (o : GraphOptions) (item depItem : BuildItem) (dep overridePlatform : String) :
    Prop where
  regular : overridePlatform = "" → (item.config.getDepPlatformType dep).1 = ""
  declared : overridePlatform ≠ "" → (item.config.getDepPlatformType dep).1 ≠ "" ∧
    depItem.getBestPlatformForType (item.config.getDepPlatformType dep).1
      (item.config.getDepPlatformType dep).2 o.platformSelectors = some overridePlatform

theorem addEdge (hb : Constructible o b) (h : Progress o b done gone g) {item' : BuildItem}
    (hitem : b[name]? = some (some item)) (hgrown : Grown item item') (hdep : dep ∈ item.deps)
    (hplatform : Wanted o b name platform) {overridePlatform : String}
    (hdepItem : b[dep]? = some (some depItem))
    (hover : Overrides o item depItem dep overridePlatform)
    (hadd : GraphConstruction.addEdge o name item' dep overridePlatform g platform = some g') :
    Progress o b done (fun n d q ↦ gone n d q ∨ n = name ∧ d = dep ∧ q = platform) g' ∧
      ∀ m, m ≠ dep → g'.buildset[m]? = g.buildset[m]? := by
  obtain ⟨a, ha, hadd⟩ := Option.bind_eq_some_iff.mp hadd
  obtain ⟨entry, hentry, hadd⟩ := Option.bind_eq_some_iff.mp hadd
  obtain ⟨depItem', rfl, hedge⟩ := Option.bind_eq_some_iff.mp hadd
  obtain ⟨first, hfirst, hmore⟩ := h.grown.exists_before hentry
  obtain rfl := Option.some_inj.mp (Option.some_inj.mp (hdepItem.symm.trans hfirst))
  obtain ⟨depPlatform, hchoose, hto⟩ : ∃ depPlatform,
      choosePlatform o item depItem dep platform = some depPlatform ∧
        addEdgeTo o name item' platform a dep depItem' depPlatform g = some g' := by
    by_cases hnone : overridePlatform = ""
    · rw [if_neg (not_not.mpr hnone)] at hedge
      obtain ⟨depPlatform, hbest, hedge⟩ := Option.bind_eq_some_iff.mp hedge
      refine ⟨depPlatform, (if_pos (hover.regular hnone)).trans ?_, hedge⟩
      rw [← hbest, hgrown.eq, hmore.eq]
      rfl
    · rw [if_pos hnone] at hedge
      obtain ⟨hdeclared, hbest⟩ := hover.declared hnone
      exact ⟨overridePlatform, (if_neg hdeclared).trans hbest, hedge⟩
  have honly : ∀ p, Chosen o b name platform dep p → p = depPlatform := by
    rintro p ⟨item₁, depItem₁, hitem₁, -, hdep₁, hchoose₁, -⟩
    obtain rfl := Option.some_inj.mp (Option.some_inj.mp (hitem.symm.trans hitem₁))
    obtain rfl := Option.some_inj.mp (Option.some_inj.mp (hdepItem.symm.trans hdep₁))
    exact Option.some_inj.mp (hchoose₁.symm.trans hchoose)
  rw [h.grown.node_eq] at ha
  by_cases hne : depPlatform = ""
  · -- no edge is added, and none is asked for
    have hsame : g'.buildset = g.buildset ∧ g'.buildGraph = g.buildGraph := by
      unfold addEdgeTo at hto
      rw [if_neg (not_not.mpr hne)] at hto
      split_ifs at hto <;> obtain rfl := Option.some_inj.mp hto <;> exact ⟨rfl, rfl⟩
    refine ⟨(h.of_same hsame.1 hsame.2).congr fun n d q p hchosen ↦ ?_, fun m _ ↦ by rw [hsame.1]⟩
    refine (or_iff_left ?_).symm
    rintro ⟨rfl, rfl, rfl⟩
    obtain rfl := honly p hchosen
    obtain ⟨-, -, -, -, -, -, hp⟩ := hchosen
    exact hp hne
  · have hchosen : Chosen o b name platform dep depPlatform :=
      ⟨item, depItem, hitem, hdep, hdepItem, hchoose, hne⟩
    unfold addEdgeTo at hto
    rw [if_pos hne] at hto
    obtain ⟨c, hc, hto⟩ := Option.bind_eq_some_iff.mp hto
    obtain ⟨graph, hgraph, hto⟩ := Option.bind_eq_some_iff.mp hto
    obtain rfl := Option.some_inj.mp hto
    obtain ⟨hselects, hsame, hneeded⟩ := selectAsNeeded_spec hentry platform depPlatform
    have hnext := hselects.grown h.grown hentry
    rw [hnext.node_eq] at hc
    rw [hsame] at hgraph
    refine ⟨⟨hnext, (h.graph.addDependency hgraph).congr (fun _ ↦ Iff.rfl) fun x y ↦ ?_,
      fun n d q p hgone hregular hp ↦ ?_, fun n p hp ↦ ?_, fun n p hp ↦ ?_⟩, hselects.other⟩
    · constructor
      · rintro (⟨n, d, q, p, hgone, hrest⟩ | ⟨rfl, rfl⟩)
        · exact ⟨n, d, q, p, Or.inl hgone, hrest⟩
        · exact ⟨name, dep, platform, depPlatform, Or.inr ⟨rfl, rfl, rfl⟩, hchosen, ha, hc⟩
      · rintro ⟨n, d, q, p, hgone | ⟨rfl, rfl, rfl⟩, hp, hx, hy⟩
        · exact Or.inl ⟨n, d, q, p, hgone, hp, hx, hy⟩
        · obtain rfl := honly p hp
          exact Or.inr ⟨Option.some_inj.mp (hx.symm.trans ha),
            Option.some_inj.mp (hy.symm.trans hc)⟩
    · rcases hgone with hgone | ⟨rfl, rfl, rfl⟩
      · exact hselects.hasPlatform hentry (h.granted n d q p hgone hregular hp)
      · obtain rfl := honly p hp
        by_cases hmem : q ∈ depItem'.buildPlatforms
        · -- the platform of the item is built, so that it can be, and is chosen
          have hwanted := h.wanted d q ⟨depItem', hentry, hmem⟩
          have hbest := hchoose
          unfold choosePlatform at hbest
          dsimp only at hbest
          rw [if_pos (hregular item hitem)] at hbest
          rcases getBestPlatformForPlatform_cases hbest hne with ⟨rfl, -⟩ | ⟨hnot, -⟩
          · exact hselects.hasPlatform hentry ⟨depItem', hentry, hmem⟩
          · obtain ⟨hall, hbuilds⟩ := not_or.mp hnot
            exact absurd (hwanted.buildable hb hdepItem hall) hbuilds
        · exact hneeded hmem
    · rcases hselects.before hentry hp with ⟨rfl, rfl⟩ | hp
      · exact .needed hplatform hchosen
      · exact h.wanted n p hp
    · rcases hselects.before hentry hp with ⟨rfl, rfl⟩ | hp
      · exact Or.inr ⟨name, platform, Or.inr ⟨rfl, rfl, rfl⟩, hchosen⟩
      · refine (h.origin n p hp).imp_right fun hfrom ↦ ?_
        obtain ⟨m, q, hm, hfrom⟩ := hfrom
        exact ⟨m, q, Or.inl hm, hfrom⟩

theorem foldlM_addEdge (hb : Constructible o b) {platforms : List String}
    (h : Progress o b done gone g) {item' : BuildItem} (hitem : b[name]? = some (some item))
    (hgrown : Grown item item') (hdep : dep ∈ item.deps)
    (hplatforms : ∀ q ∈ platforms, Wanted o b name q) {overridePlatform : String}
    (hdepItem : b[dep]? = some (some depItem))
    (hover : Overrides o item depItem dep overridePlatform)
    (hadd : platforms.foldlM (GraphConstruction.addEdge o name item' dep overridePlatform) g =
      some g') :
    Progress o b done (fun n d q ↦ gone n d q ∨ n = name ∧ d = dep ∧ q ∈ platforms) g' ∧
      ∀ m, m ≠ dep → g'.buildset[m]? = g.buildset[m]? := by
  induction platforms generalizing gone g with
  | nil =>
    obtain rfl := Option.some_inj.mp hadd
    exact ⟨h.congr (by simp), fun _ _ ↦ rfl⟩
  | cons platform platforms ih =>
    obtain ⟨g₁, hg₁, hadd⟩ := Option.bind_eq_some_iff.mp hadd
    obtain ⟨hfirst, hsame⟩ := h.addEdge hb hitem hgrown hdep
      (hplatforms platform List.mem_cons_self) hdepItem hover hg₁
    obtain ⟨hrest, hsame'⟩ := ih hfirst (fun q hq ↦ hplatforms q (List.mem_cons_of_mem _ hq)) hadd
    refine ⟨hrest.congr fun n d q p _ ↦ ?_, fun m hm ↦ (hsame' m hm).trans (hsame m hm)⟩
    simp only [List.mem_cons, or_assoc, and_or_left]

theorem addEdges (hb : Constructible o b) {platforms : List String}
    (h : Progress o b done gone g) {item' : BuildItem} (hitem : b[name]? = some (some item))
    (hgrown : Grown item item') (hdep : dep ∈ item.deps)
    (hplatforms : ∀ q ∈ platforms, Wanted o b name q)
    (hadd : GraphConstruction.addEdges o name item' platforms g dep = some g') :
    Progress o b done (fun n d q ↦ gone n d q ∨ n = name ∧ d = dep ∧ q ∈ platforms) g' ∧
      ∀ m, m ≠ dep → g'.buildset[m]? = g.buildset[m]? := by
  obtain ⟨entry, hentry, hadd⟩ := Option.bind_eq_some_iff.mp hadd
  obtain ⟨depItem', rfl, hedges⟩ := Option.bind_eq_some_iff.mp hadd
  obtain ⟨depItem, hdepItem, hmore⟩ := h.grown.exists_before hentry
  have hconfig : item'.config = item.config := by rw [hgrown.eq]
  dsimp only at hedges
  rw [hconfig] at hedges
  by_cases hdeclared : (item.config.getDepPlatformType dep).1 = ""
  · rw [if_pos hdeclared] at hedges
    exact h.foldlM_addEdge hb hitem hgrown hdep hplatforms hdepItem
      ⟨fun _ ↦ hdeclared, fun hne ↦ absurd rfl hne⟩ hedges
  · rw [if_neg hdeclared] at hedges
    obtain ⟨overridePlatform, hover, hedges⟩ := Option.bind_eq_some_iff.mp hedges
    have hbest : depItem.getBestPlatformForType (item.config.getDepPlatformType dep).1
        (item.config.getDepPlatformType dep).2 o.platformSelectors = some overridePlatform := by
      rw [← hover, hmore.eq]
      rfl
    by_cases hnone : overridePlatform = ""
    · rw [if_pos hnone] at hedges
      obtain rfl := Option.some_inj.mp hedges
      have hnot : ∀ q p, ¬ Chosen o b name q dep p := by
        rintro q p ⟨item₁, depItem₁, hitem₁, -, hdep₁, hchoose, hp⟩
        obtain rfl := Option.some_inj.mp (Option.some_inj.mp (hitem.symm.trans hitem₁))
        obtain rfl := Option.some_inj.mp (Option.some_inj.mp (hdepItem.symm.trans hdep₁))
        have hchoose : _ = some p := (if_neg hdeclared).symm.trans hchoose
        exact hp ((Option.some_inj.mp (hchoose.symm.trans hbest)).trans hnone)
      have hkept : ∀ errors, Progress o b done gone { g with errors } := fun _ ↦
        ⟨h.grown, h.graph, h.granted, h.wanted, h.origin⟩
      refine ⟨(hkept _).congr fun n d q p hchosen ↦ (or_iff_left ?_).symm, fun _ _ ↦ rfl⟩
      rintro ⟨rfl, rfl, -⟩
      exact hnot q p hchosen
    · rw [if_neg hnone] at hedges
      exact h.foldlM_addEdge hb hitem hgrown hdep hplatforms hdepItem
        ⟨fun heq ↦ absurd heq hnone, fun _ ↦ ⟨hdeclared, hbest⟩⟩ hedges

theorem foldlM_addEdges (hb : Constructible o b) {platforms deps : List String}
    (h : Progress o b done gone g) {item' : BuildItem} (hitem : b[name]? = some (some item))
    (hgrown : Grown item item') (hdeps : ∀ d ∈ deps, d ∈ item.deps)
    (hplatforms : ∀ q ∈ platforms, Wanted o b name q)
    (hadd : deps.foldlM (GraphConstruction.addEdges o name item' platforms) g = some g') :
    Progress o b done (fun n d q ↦ gone n d q ∨ n = name ∧ d ∈ deps ∧ q ∈ platforms) g' ∧
      ∀ m, m ∉ deps → g'.buildset[m]? = g.buildset[m]? := by
  induction deps generalizing gone g with
  | nil =>
    obtain rfl := Option.some_inj.mp hadd
    exact ⟨h.congr (by simp), fun _ _ ↦ rfl⟩
  | cons dep deps ih =>
    obtain ⟨g₁, hg₁, hadd⟩ := Option.bind_eq_some_iff.mp hadd
    obtain ⟨hfirst, hsame⟩ := h.addEdges hb hitem hgrown (hdeps dep List.mem_cons_self)
      hplatforms hg₁
    obtain ⟨hrest, hsame'⟩ := ih hfirst (fun d hd ↦ hdeps d (List.mem_cons_of_mem _ hd)) hadd
    refine ⟨hrest.congr fun n d q p _ ↦ ?_, fun m hm ↦ ?_⟩
    · simp only [List.mem_cons, or_assoc, and_or_left, or_and_right]
    · obtain ⟨hne, hm⟩ := not_or.mp (mt List.mem_cons.mpr hm)
      exact (hsame' m hm).trans (hsame m hne)

/-- An item with its dependencies. -/
theorem addFromBuildset (hb : Constructible o b) (h : Progress o b done gone g)
    (hadd : GraphConstruction.addFromBuildset o g name = some g') :
    ∃ item, b[name]? = some (some item) ∧
      Progress o b (fun n p ↦ done n p ∨ n = name ∧ HasPlatform g.buildset name p)
        (fun n d q ↦ gone n d q ∨ n = name ∧ HasPlatform g.buildset name q) g' ∧
      ∀ m, m ∉ item.deps → g'.buildset[m]? = g.buildset[m]? := by
  obtain ⟨entry, hentry, hadd⟩ := Option.bind_eq_some_iff.mp hadd
  obtain ⟨item', rfl, hadded⟩ := Option.bind_eq_some_iff.mp hadd
  obtain ⟨⟨result, g₀⟩, hitemAdded, hlast⟩ := Option.bind_eq_some_iff.mp hadded
  obtain rfl := Option.some_inj.mp hlast
  obtain ⟨item, hitem, hgrown⟩ := h.grown.exists_before hentry
  have hdeps : item'.deps = item.deps := by rw [hgrown.eq]
  have hplatform : ∀ p, HasPlatform g.buildset name p ↔ p ∈ item'.buildPlatforms.toList := by
    intro p
    rw [TreeSet.mem_toList]
    constructor
    · rintro ⟨item₁, hitem₁, hp⟩
      obtain rfl := Option.some_inj.mp (Option.some_inj.mp (hentry.symm.trans hitem₁))
      exact hp
    · exact fun hp ↦ ⟨item', hentry, hp⟩
  simp only [hplatform]
  refine ⟨item, hitem, ?_⟩
  unfold addItemToBuildGraph at hitemAdded
  dsimp only at hitemAdded
  split_ifs at hitemAdded with hnone
  · obtain ⟨-, rfl⟩ := Prod.mk.inj (Option.some_inj.mp hitemAdded)
    rw [List.isEmpty_iff.mp hnone]
    refine ⟨⟨h.grown, h.graph.congr (by simp) (by simp), ?_, h.wanted, ?_⟩, fun _ _ ↦ rfl⟩
    · intro n d q p hgone
      exact h.granted n d q p (hgone.resolve_right fun hn ↦ List.not_mem_nil hn.2)
    · refine fun n p hp ↦ (h.origin n p hp).imp_right fun hfrom ↦ ?_
      obtain ⟨m, q, hm, hfrom⟩ := hfrom
      exact ⟨m, q, Or.inl hm, hfrom⟩
  · obtain ⟨g₁, hg₁, hrest⟩ := Option.bind_eq_some_iff.mp hitemAdded
    obtain ⟨g₂, hg₂, hlast⟩ := Option.bind_eq_some_iff.mp hrest
    obtain ⟨-, rfl⟩ := Prod.mk.inj (Option.some_inj.mp hlast)
    obtain ⟨hnodes, hsame⟩ := h.addNodes hg₁
    rw [hdeps] at hg₂
    obtain ⟨hedges, hsame'⟩ := hnodes.foldlM_addEdges hb hitem hgrown (fun _ hd ↦ hd)
      (fun q hq ↦ h.wanted name q ((hplatform q).mpr hq)) hg₂
    refine ⟨hedges.congr fun n d q p hchosen ↦ or_congr_right ?_, fun m hm ↦ ?_⟩
    · constructor
      · exact fun hgone ↦ ⟨hgone.1, hgone.2.2⟩
      · rintro ⟨rfl, hq⟩
        obtain ⟨item₁, depItem₁, hitem₁, hd, -⟩ := hchosen
        obtain rfl := Option.some_inj.mp (Option.some_inj.mp (hitem.symm.trans hitem₁))
        exact ⟨rfl, hd, hq⟩
    · rw [hsame' m hm, hsame]

end Progress

end Abuild
