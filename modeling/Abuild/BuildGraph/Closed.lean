import Abuild.BuildGraph.Construction

/-!
The check of the build graph. An item whose turn has come gets no more platforms, since its
dependents have come before; so the edges end at nodes exactly if each dependency has, when its turn
comes, the platforms that were chosen for it by a declared platform type (`check_construct_iff`).
The graph has no cycle, since its edges follow the order of the items.
-/

set_option autoImplicit false
set_option relaxedAutoImplicit false

namespace Abuild

open Std (TreeMap TreeSet)
open Relation Precedence Guarded
open GraphConstruction (construct)

/-- An item of the build set depends on another one. -/
def Needs (b : Buildset) (name dep : String) : Prop :=
  ∃ item : BuildItem, b[name]? = some (some item) ∧ dep ∈ item.deps

/-- The sorted items of a forest without errors, and a build set that is closed under
dependencies. -/
structure SortedItems (b : Buildset) (sortedItemNames : List String) : Prop where
  nodup : sortedItemNames.Nodup
  mem : ∀ (name : String) (item : BuildItem), b[name]? = some (some item) → name ∈ sortedItemNames
  ordered : Ordered (Needs b) sortedItemNames
  closed : ∀ name dep, Needs b name dep → ∃ item, b[dep]? = some (some item)

/-- When the turn of an item has come it has all platforms that items to be built have chosen for
it by a platform type that they declare. -/
def Supplied (o : GraphOptions) (g : GraphConstruction) (dep : String) : Prop :=
  ∀ (name platform depPlatform : String) (item depItem : BuildItem),
    g.buildset[name]? = some (some item) → platform ∈ item.buildPlatforms → dep ∈ item.deps →
      g.buildset[dep]? = some (some depItem) → (item.config.getDepPlatformType dep).1 ≠ "" →
        depItem.getBestPlatformForType (item.config.getDepPlatformType dep).1
          (item.config.getDepPlatformType dep).2 o.platformSelectors = some depPlatform →
            depPlatform ≠ "" → depPlatform ∈ depItem.buildPlatforms

section Runs

variable {o : GraphOptions} {b : Buildset} {g g' : GraphConstruction} {before : List String}
  {sortedItemNames : List String}

/-- The graph after the turns of some items. -/
def Constructed (o : GraphOptions) (b : Buildset) (before : List String) (g : GraphConstruction) :
    Prop :=
  Progress o b (fun n p ↦ n ∈ before ∧ HasPlatform g.buildset n p)
    (fun n _ q ↦ n ∈ before ∧ HasPlatform g.buildset n q) g

theorem constructed_new (o : GraphOptions) (b : Buildset) : Constructed o b [] (.new b) := by
  refine ⟨GrownSet.refl b, DependencyGraph.consists_new.congr (by simp) (by simp),
    fun n d q p hgone ↦ absurd hgone.1 List.not_mem_nil, fun n p hp ↦ ?_, fun _ _ ↦ Or.inl⟩
  obtain ⟨item, hitem, hp⟩ := hp
  exact .selected hitem hp

theorem hasPlatform_congr {b b' : Buildset} {name : String} (h : b'[name]? = b[name]?)
    (p : String) :
    HasPlatform b' name p ↔ HasPlatform b name p := by
  unfold HasPlatform
  rw [h]

/-- The dependencies of an item have their turns after it. -/
def InTurn (b : Buildset) (before : List String) (name : String) : Prop :=
  ∀ d, Needs b name d → d ∉ before ∧ d ≠ name

/-- A turn changes only the dependencies of the item. -/
theorem Constructed.step (hb : Constructible o b) (h : Constructed o b before g) {name : String}
    (hturn : InTurn b before name) (hadd : GraphConstruction.addFromBuildset o g name = some g') :
    Constructed o b (before ++ [name]) g' ∧
      ∀ m, ¬ Needs b name m → g'.buildset[m]? = g.buildset[m]? := by
  obtain ⟨item, hitem, hprogress, hsame⟩ := Progress.addFromBuildset hb h hadd
  have hother : ∀ m, ¬ Needs b name m → g'.buildset[m]? = g.buildset[m]? := fun m hm ↦
    hsame m fun hd ↦ hm ⟨item, hitem, hd⟩
  have hkept : ∀ n, n ∈ before ∨ n = name → ∀ p,
      HasPlatform g'.buildset n p ↔ HasPlatform g.buildset n p := fun n hn ↦
    hasPlatform_congr (hother n fun hneeds ↦ hn.elim (hturn n hneeds).1 (hturn n hneeds).2)
  have hturns : ∀ n p, n ∈ before ∧ HasPlatform g.buildset n p ∨
      n = name ∧ HasPlatform g.buildset name p ↔
        n ∈ before ++ [name] ∧ HasPlatform g'.buildset n p := by
    intro n p
    rw [List.mem_append, List.mem_singleton, or_and_right]
    refine or_congr (and_congr_right fun hn ↦ (hkept n (Or.inl hn) p).symm) ⟨?_, ?_⟩
    · rintro ⟨rfl, hp⟩
      exact ⟨rfl, (hkept n (Or.inr rfl) p).mpr hp⟩
    · rintro ⟨rfl, hp⟩
      exact ⟨rfl, (hkept n (Or.inr rfl) p).mp hp⟩
  have hnext := hprogress.congr fun n d q p _ ↦ hturns n q
  refine ⟨⟨hnext.grown, hnext.graph.congr (fun a ↦ ?_) fun _ _ ↦ Iff.rfl, hnext.granted,
    hnext.wanted, hnext.origin⟩, hother⟩
  simp only [hturns]

/-- All items have their turns before those that they depend on. -/
def AllInTurn (b : Buildset) (before order : List String) : Prop :=
  ∀ done name rest, order = done ++ name :: rest → InTurn b (before ++ done) name

theorem AllInTurn.tail {name : String} {order : List String}
    (h : AllInTurn b before (name :: order)) : AllInTurn b (before ++ [name]) order := by
  intro done other rest hsplit
  have hother := h (name :: done) other rest (by rw [hsplit, List.cons_append])
  rwa [List.append_cons] at hother

theorem Constructed.run (hb : Constructible o b) {order : List String}
    (horder : AllInTurn b before order) (h : Constructed o b before g)
    (hrun : order.foldlM (GraphConstruction.addFromBuildset o) g = some g') :
    Constructed o b (before ++ order) g' ∧
      ∀ m, (∀ n ∈ order, ¬ Needs b n m) → g'.buildset[m]? = g.buildset[m]? := by
  induction order generalizing before g with
  | nil =>
    obtain rfl := Option.some_inj.mp hrun
    rw [List.append_nil]
    exact ⟨h, fun _ _ ↦ rfl⟩
  | cons name order ih =>
    obtain ⟨g₁, hg₁, hrest⟩ := Option.bind_eq_some_iff.mp hrun
    have hturn := horder [] name order rfl
    rw [List.append_nil] at hturn
    obtain ⟨hfirst, hsame⟩ := h.step hb hturn hg₁
    obtain ⟨hlast, hsame'⟩ := ih horder.tail hfirst hrest
    rw [List.append_assoc, List.singleton_append] at hlast
    refine ⟨hlast, fun m hm ↦ (hsame' m fun n hn ↦ hm n (List.mem_cons_of_mem _ hn)).trans ?_⟩
    exact hsame m (hm name List.mem_cons_self)

/-! ### The order of the build set -/

theorem mem_buildsetReverseOrder {name : String} : name ∈ buildsetReverseOrder sortedItemNames b ↔
    name ∈ sortedItemNames ∧ name ∈ b := by
  unfold buildsetReverseOrder
  rw [List.mem_filter, List.mem_reverse, TreeMap.contains_iff_mem]

theorem mem_of_getElem?_eq {name : String} {entry : Option BuildItem} (h : b[name]? = some entry) :
    name ∈ b := TreeMap.isSome_getElem?_iff_mem.mp (by rw [h]; rfl)

theorem SortedItems.mem_order (h : SortedItems b sortedItemNames) {name : String} {item : BuildItem}
    (hitem : b[name]? = some (some item)) : name ∈ buildsetReverseOrder sortedItemNames b :=
  mem_buildsetReverseOrder.mpr ⟨h.mem name item hitem, mem_of_getElem?_eq hitem⟩

/-- Every dependency of an item in the order comes after it. -/
theorem SortedItems.mem_rest (h : SortedItems b sortedItemNames) {done rest : List String}
    {name : String} (hsplit : buildsetReverseOrder sortedItemNames b = done ++ name :: rest)
    {d : String} (hneeds : Needs b name d) : d ∈ rest := by
  have hfiltered : sortedItemNames.filter b.contains = rest.reverse ++ name :: done.reverse := by
    have hreverse := congrArg List.reverse hsplit
    unfold buildsetReverseOrder at hreverse
    rwa [← List.filter_reverse, List.reverse_reverse, List.reverse_append, List.reverse_cons,
      List.append_assoc, List.singleton_append] at hreverse
  obtain ⟨l₁, l₂, rfl, hrest, hlast⟩ := List.filter_eq_append_iff.mp hfiltered
  obtain ⟨l₃, l₄, rfl, hnone, -, -⟩ := List.filter_eq_cons_iff.mp hlast
  have hbefore := h.ordered (l₁ ++ l₃) name l₄ (List.append_assoc ..).symm d hneeds
  obtain ⟨item, hitem⟩ := h.closed name d hneeds
  have hmem : b.contains d = true := TreeMap.contains_iff_mem.mpr (mem_of_getElem?_eq hitem)
  rcases List.mem_append.mp hbefore with hd | hd
  · rw [← List.mem_reverse, ← hrest]
    exact List.mem_filter.mpr ⟨hd, hmem⟩
  · exact absurd hmem (hnone d hd)

theorem SortedItems.allInTurn (h : SortedItems b sortedItemNames) :
    AllInTurn b [] (buildsetReverseOrder sortedItemNames b) := by
  intro done name rest hsplit d hneeds
  have hnodup : (done ++ name :: rest).Nodup :=
    hsplit ▸ (List.nodup_reverse.mpr h.nodup).filter _
  obtain ⟨-, hlast, hdisjoint⟩ := List.nodup_append.mp hnodup
  have hd := h.mem_rest hsplit hneeds
  refine ⟨fun hmem ↦ hdisjoint d hmem d (List.mem_cons_of_mem _ hd) rfl, ?_⟩
  rintro rfl
  exact (List.nodup_cons.mp hlast).1 hd

/-- The graph of a build set. -/
theorem constructed_of_construct (hb : Constructible o b) (h : SortedItems b sortedItemNames)
    (hrun : construct o (buildsetReverseOrder sortedItemNames b) b = some g) :
    Progress o b (HasPlatform g.buildset) (fun n _ q ↦ HasPlatform g.buildset n q) g := by
  obtain ⟨hconstructed, -⟩ := (constructed_new o b).run hb h.allInTurn hrun
  rw [List.nil_append] at hconstructed
  have hmem : ∀ n p, HasPlatform g.buildset n p ↔
      n ∈ buildsetReverseOrder sortedItemNames b ∧ HasPlatform g.buildset n p := by
    refine fun n p ↦ (and_iff_right_of_imp fun hp ↦ ?_).symm
    obtain ⟨item', hitem', -⟩ := hp
    obtain ⟨item, hitem, -⟩ := hconstructed.grown.exists_before hitem'
    exact h.mem_order hitem
  have hgone := hconstructed.congr fun n d q p _ ↦ (hmem n q).symm
  refine ⟨hgone.grown, hgone.graph.congr (fun a ↦ ?_) fun _ _ ↦ Iff.rfl, hgone.granted,
    hgone.wanted, hgone.origin⟩
  simp only [← hmem]

/-! ### The check -/

theorem Chosen.needs {n q d p : String} (h : Chosen o b n q d p) : Needs b n d := by
  obtain ⟨item, depItem, hitem, hd, -⟩ := h
  exact ⟨item, hitem, hd⟩

theorem exists_node (hb : Constructible o b) {name platform : String}
    (h : Wanted o b name platform) : ∃ node, Node o b name platform node := by
  obtain ⟨item, hitem⟩ := h.exists_item
  exact exists_createBuildGraphNode hitem (hb.tree name item hitem) platform

theorem Node.unique (hb : Constructible o b) {name platform name' platform' node : String}
    (hwanted : Wanted o b name platform) (hwanted' : Wanted o b name' platform')
    (h : Node o b name platform node) (h' : Node o b name' platform' node) :
    name = name' ∧ platform = platform' :=
  Prod.mk.inj (Option.some_inj.mp ((h.parse hb hwanted).symm.trans (h'.parse hb hwanted')))

/-- The items before a turn, and the one whose turn it is, are not needed later. -/
theorem SortedItems.not_needs (hsorted : SortedItems b sortedItemNames) {done rest : List String}
    {dep : String}
    (hsplit : buildsetReverseOrder sortedItemNames b = done ++ dep :: rest) {n : String}
    (hn : n ∈ done ∨ n = dep) : ∀ m ∈ dep :: rest, ¬ Needs b m n := by
  intro m hm hneeds
  obtain ⟨front, back, hback⟩ := List.append_of_mem hm
  have hturn := hsorted.allInTurn (done ++ front) m back (by rw [hsplit, hback, List.append_assoc])
  rw [List.nil_append] at hturn
  obtain ⟨hnot, hne⟩ := hturn n hneeds
  rcases hn with hn | rfl
  · exact hnot (List.mem_append_left _ hn)
  · cases front with
    | nil => exact hne (List.cons.inj hback).1
    | cons first front =>
      obtain ⟨rfl, -⟩ := List.cons.inj hback
      exact hnot (List.mem_append_right _ List.mem_cons_self)

theorem SortedItems.mem_done (hsorted : SortedItems b sortedItemNames) {done rest : List String}
    {dep : String} (hsplit : buildsetReverseOrder sortedItemNames b = done ++ dep :: rest)
    {n : String}
    (hneeds : Needs b n dep) : n ∈ done := by
  obtain ⟨item, hitem, -⟩ := id hneeds
  have hmem := hsorted.mem_order hitem
  rw [hsplit] at hmem
  refine (List.mem_append.mp hmem).resolve_right fun hlater ↦ ?_
  exact hsorted.not_needs hsplit (Or.inr rfl) n hlater hneeds

/-- A platform is chosen for a dependency by its declared platform type. -/
theorem chosen_of_declared {s : GraphConstruction} (hs : GrownSet b s.buildset)
    {n d p : String} {item depItem : BuildItem} (hitem : s.buildset[n]? = some (some item))
    (hd : d ∈ item.deps) (hdep : s.buildset[d]? = some (some depItem))
    (hdeclared : (item.config.getDepPlatformType d).1 ≠ "")
    (hbest : depItem.getBestPlatformForType (item.config.getDepPlatformType d).1
      (item.config.getDepPlatformType d).2 o.platformSelectors = some p) (hp : p ≠ "")
    (q : String) :
    Chosen o b n q d p := by
  obtain ⟨item₀, hitem₀, hgrown⟩ := hs.exists_before hitem
  obtain ⟨depItem₀, hdep₀, hmore⟩ := hs.exists_before hdep
  have hdeps : item.deps = item₀.deps := by rw [hgrown.eq]
  refine ⟨item₀, depItem₀, hitem₀, hdeps ▸ hd, hdep₀, ?_, hp⟩
  rw [← choosePlatform_grown hgrown hmore]
  exact (if_neg hdeclared).trans hbest

section Check

variable (hb : Constructible o b) (hsorted : SortedItems b sortedItemNames)
  (hrun : construct o (buildsetReverseOrder sortedItemNames b) b = some g)
include hb hsorted hrun

/-- The edges follow the order of the items. -/
theorem acyclic_construct (a : ItemType) :
    ¬ TransGen (fun a c ↦ ∃ n d q p, HasPlatform g.buildset n q ∧ Chosen o b n q d p ∧
      Node o b n q a ∧ Node o b d p c) a a := by
  have hprogress := constructed_of_construct hb hsorted hrun
  have hitems : ∀ a c, TransGen (fun a c ↦ ∃ n d q p, HasPlatform g.buildset n q ∧
      Chosen o b n q d p ∧ Node o b n q a ∧ Node o b d p c) a c →
        ∃ n q d p, parseBuildGraphNode a = some (n, q) ∧ parseBuildGraphNode c = some (d, p) ∧
          TransGen (Needs b) n d := by
    intro a c h
    induction h with
    | single hedge =>
      obtain ⟨n, d, q, p, hq, hchosen, ha, hc⟩ := hedge
      have hwanted := hprogress.wanted n q hq
      exact ⟨n, q, d, p, ha.parse hb hwanted, hc.parse hb (.needed hwanted hchosen),
        .single hchosen.needs⟩
    | tail _ hedge ih =>
      obtain ⟨n, d, q, p, hq, hchosen, ha, hc⟩ := hedge
      obtain ⟨n₀, q₀, d₀, p₀, hfirst, hmiddle, hneeds⟩ := ih
      have hwanted := hprogress.wanted n q hq
      obtain ⟨rfl, rfl⟩ := Prod.mk.inj
        (Option.some_inj.mp (hmiddle.symm.trans (ha.parse hb hwanted)))
      exact ⟨n₀, q₀, d, p, hfirst, hc.parse hb (.needed hwanted hchosen),
        hneeds.tail hchosen.needs⟩
  intro hcycle
  obtain ⟨n, q, d, p, hn, hd, hneeds⟩ := hitems a a hcycle
  obtain ⟨rfl, rfl⟩ := Prod.mk.inj (Option.some_inj.mp (hn.symm.trans hd))
  have hmem : n ∈ sortedItemNames := by
    obtain ⟨d, ⟨item, hitem, -⟩, -⟩ := TransGen.head'_iff.mp hneeds
    exact hsorted.mem n item hitem
  exact hsorted.ordered.acyclic hmem hneeds

/-- The edges end at nodes exactly if all chosen platforms are built. -/
theorem closed_iff_granted :
    (∀ a c, (∃ n d q p, HasPlatform g.buildset n q ∧ Chosen o b n q d p ∧
        Node o b n q a ∧ Node o b d p c) → ∃ n p, HasPlatform g.buildset n p ∧ Node o b n p c) ↔
      ∀ n q d p, HasPlatform g.buildset n q → Chosen o b n q d p → HasPlatform g.buildset d p := by
  have hprogress := constructed_of_construct hb hsorted hrun
  constructor
  · intro h n q d p hq hchosen
    have hwanted := hprogress.wanted n q hq
    have hneeded := Wanted.needed hwanted hchosen
    obtain ⟨a, ha⟩ := exists_node hb hwanted
    obtain ⟨c, hc⟩ := exists_node hb hneeded
    obtain ⟨n', p', hp', hc'⟩ := h a c ⟨n, d, q, p, hq, hchosen, ha, hc⟩
    obtain ⟨rfl, rfl⟩ := hc.unique hb hneeded (hprogress.wanted n' p' hp') hc'
    exact hp'
  · rintro h a c ⟨n, d, q, p, hq, hchosen, ha, hc⟩
    exact ⟨d, p, h n q d p hq hchosen, hc⟩

/-- The build set when the turn of an item comes. -/
theorem exists_turn {done rest : List String} {dep : String}
    (hsplit : buildsetReverseOrder sortedItemNames b = done ++ dep :: rest) :
    ∃ s, done.foldlM (GraphConstruction.addFromBuildset o) (.new b) = some s ∧
      GrownSet b s.buildset ∧
        ∀ n, n ∈ done ∨ n = dep → g.buildset[n]? = s.buildset[n]? := by
  have hall := hsorted.allInTurn
  rw [hsplit] at hall
  unfold construct at hrun
  rw [hsplit, List.foldlM_append] at hrun
  obtain ⟨s, hs, hrest⟩ := Option.bind_eq_some_iff.mp hrun
  have hfirst : AllInTurn b [] done := fun before n after hdone ↦
    hall before n (after ++ dep :: rest) (by rw [hdone, List.append_assoc, List.cons_append])
  have hlast : AllInTurn b done (dep :: rest) := fun before n after hback ↦ by
    have hturn := hall (done ++ before) n after (by rw [hback, List.append_assoc])
    rwa [List.nil_append] at hturn
  obtain ⟨hconstructed, -⟩ := (constructed_new o b).run hb hfirst hs
  obtain ⟨-, hsame⟩ := hconstructed.run hb hlast hrest
  exact ⟨s, hs, hconstructed.grown, fun n hn ↦ hsame n (hsorted.not_needs hsplit hn)⟩

/-- All chosen platforms are built exactly if each item has those that are declared for it when its
turn comes. -/
theorem granted_iff_meets :
    (∀ n q d p, HasPlatform g.buildset n q → Chosen o b n q d p → HasPlatform g.buildset d p) ↔
      Meets (GraphConstruction.addFromBuildset o) (Supplied o) (.new b)
        (buildsetReverseOrder sortedItemNames b) := by
  constructor
  · intro h
    by_contra hmeets
    obtain ⟨done, d, rest, s, s', hsplit, hs, hguard, -⟩ := exists_of_not_meets hmeets hrun
    obtain ⟨s₁, hs₁, hgrown, hsame⟩ := exists_turn hb hsorted hrun hsplit
    obtain rfl := Option.some_inj.mp (hs.symm.trans hs₁)
    refine hguard fun n q p item depItem hitem hq hd hdep hdeclared hbest hp ↦ ?_
    have hchosen := chosen_of_declared hgrown hitem hd hdep hdeclared hbest hp q
    have hn := hsorted.mem_done hsplit hchosen.needs
    have hbuilt : HasPlatform g.buildset n q := ⟨item, (hsame n (Or.inl hn)).trans hitem, hq⟩
    obtain ⟨depItem', hdep', hmem⟩ := h n q d p hbuilt hchosen
    obtain rfl := Option.some_inj.mp (Option.some_inj.mp
      (hdep'.symm.trans ((hsame d (Or.inr rfl)).trans hdep)))
    exact hmem
  · intro hmeets n q d p hq hchosen
    by_cases hregular : Regular b n d
    · exact (constructed_of_construct hb hsorted hrun).granted n d q p hq hregular hchosen
    · obtain ⟨item, depItem, hitem, hd, hdep, hchoose, hp⟩ := id hchosen
      have hdeclared : (item.config.getDepPlatformType d).1 ≠ "" := fun hnone ↦
        hregular fun item' hitem' ↦ by
          obtain rfl := Option.some_inj.mp (Option.some_inj.mp (hitem.symm.trans hitem'))
          exact hnone
      have hbest : _ = some p := (if_neg hdeclared).symm.trans hchoose
      obtain ⟨done, rest, hsplit⟩ := List.append_of_mem (hsorted.mem_order hdep)
      obtain ⟨s, hs, hgrown, hsame⟩ := exists_turn hb hsorted hrun hsplit
      have hguard := guard_of_meets (hsplit ▸ hmeets) hs
      obtain ⟨item', hitem', hmore⟩ := hgrown.exists_grown hitem
      obtain ⟨depItem', hdep', hmore'⟩ := hgrown.exists_grown hdep
      have hn := hsame n (Or.inl (hsorted.mem_done hsplit hchosen.needs))
      obtain ⟨item₁, hitem₁, hq⟩ := hq
      obtain rfl := Option.some_inj.mp (Option.some_inj.mp
        (hitem'.symm.trans (hn.symm.trans hitem₁)))
      have hconfig : item'.config = item.config := by rw [hmore.eq]
      have hdeps : item'.deps = item.deps := by rw [hmore.eq]
      refine ⟨depItem', (hsame d (Or.inr rfl)).trans hdep', ?_⟩
      refine hguard n q p item' depItem' hitem' hq (hdeps ▸ hd) hdep' (hconfig ▸ hdeclared) ?_ hp
      rw [hconfig, hmore'.eq]
      exact hbest

/-- The check of the build graph finds no error exactly if each item has, when its turn comes, the
platforms that are declared for it. There is never a cycle. -/
theorem check_construct_iff : ∃ result g', g.buildGraph.check = some (result, g') ∧
    DependencyGraph.Acyclic g.buildGraph.dependencies ∧
      (result = true ↔ DependencyGraph.AllKnown g.buildGraph.dependencies) ∧
        (result = true ↔ Meets (GraphConstruction.addFromBuildset o) (Supplied o) (.new b)
          (buildsetReverseOrder sortedItemNames b)) := by
  have hprogress := constructed_of_construct hb hsorted hrun
  obtain ⟨result, g', hcheck, -, -, -, -, hresult⟩ := hprogress.graph.check
  have hacyclic := acyclic_construct hb hsorted hrun
  have hknown : DependencyGraph.AllKnown g.buildGraph.dependencies ↔
      ∀ a c, (∃ n d q p, HasPlatform g.buildset n q ∧ Chosen o b n q d p ∧
        Node o b n q a ∧ Node o b d p c) → ∃ n p, HasPlatform g.buildset n p ∧ Node o b n p c := by
    unfold DependencyGraph.AllKnown
    rw [hprogress.graph.dependsOn_eq]
    simp only [hprogress.graph.mem_iff]
  refine ⟨result, g', hcheck, ?_, ?_, ?_⟩
  · unfold DependencyGraph.Acyclic
    rw [hprogress.graph.dependsOn_eq]
    exact hacyclic
  · rw [hknown, hresult, and_iff_left hacyclic]
  · rw [← granted_iff_meets hb hsorted hrun, ← closed_iff_granted hb hsorted hrun, hresult,
      and_iff_left hacyclic]

/-- The platforms that the items are built on are those that the build asks for exactly if the check
of the build graph finds no error. -/
theorem platforms_wanted_iff : ∃ result g', g.buildGraph.check = some (result, g') ∧
    (∀ n p, HasPlatform g.buildset n p → Wanted o b n p) ∧
      (result = true ↔ ∀ n p, Wanted o b n p → HasPlatform g.buildset n p) := by
  have hprogress := constructed_of_construct hb hsorted hrun
  obtain ⟨result, g', hcheck, -, -, -, -, hresult⟩ := hprogress.graph.check
  refine ⟨result, g', hcheck, hprogress.wanted, ?_⟩
  rw [hresult, closed_iff_granted hb hsorted hrun,
    and_iff_left (acyclic_construct hb hsorted hrun)]
  constructor
  · intro h n p hwanted
    induction hwanted with
    | selected hitem hp =>
      obtain ⟨item', hitem', hgrown⟩ := hprogress.grown.exists_grown hitem
      exact ⟨item', hitem', hgrown.subset _ hp⟩
    | needed _ hchosen ih => exact h _ _ _ _ ih hchosen
  · exact fun h n q d p hq hchosen ↦ h d p (.needed (hprogress.wanted n q hq) hchosen)

/-- An item is built only where it can be; an item for all platforms is built exactly where the
items are that depend on it without a platform type. -/
theorem platforms_construct {name : String} {item : BuildItem}
    (hitem : b[name]? = some (some item)) (platform : String) :
    (item.targetType ≠ .all → HasPlatform g.buildset name platform →
      platform ∈ item.getBuildablePlatforms) ∧
    (item.targetType = .all → item.platformTypes.isEmpty = true →
      item.buildPlatforms.isEmpty = true → (HasPlatform g.buildset name platform ↔
        ∃ n, Needs b n name ∧ Regular b n name ∧ HasPlatform g.buildset n platform)) := by
  have hprogress := constructed_of_construct hb hsorted hrun
  refine ⟨fun hall hp ↦ (hprogress.wanted name platform hp).buildable hb hitem hall,
    fun hall htypes hnone ↦ ⟨fun hp ↦ ?_, ?_⟩⟩
  · have hbuildable : item.getBuildablePlatforms = [] := by
      refine List.eq_nil_iff_forall_not_mem.mpr fun p hp ↦ ?_
      obtain ⟨platforms, hplatforms, -⟩ := List.mem_flatten.mp hp
      obtain ⟨platformType, hentry⟩ := BuildForest.mem_values.mp hplatforms
      rw [TreeMap.getElem?_of_isEmpty htypes] at hentry
      cases hentry
    rcases hprogress.origin name platform hp with hfirst | ⟨m, q, hq, hchosen⟩
    · obtain ⟨item', hitem', hmem⟩ := hfirst
      obtain rfl := Option.some_inj.mp (Option.some_inj.mp (hitem.symm.trans hitem'))
      exact absurd hmem (TreeSet.not_mem_of_isEmpty hnone)
    · obtain ⟨other, depItem, hother, hd, hdep, hchoose, hne⟩ := id hchosen
      obtain rfl := Option.some_inj.mp (Option.some_inj.mp (hitem.symm.trans hdep))
      unfold choosePlatform at hchoose
      dsimp only at hchoose
      split_ifs at hchoose with hregular
      · obtain rfl := Option.some_inj.mp ((if_pos (Or.inl hall)).symm.trans hchoose)
        refine ⟨m, hchosen.needs, fun other' hother' ↦ ?_, hq⟩
        obtain rfl := Option.some_inj.mp (Option.some_inj.mp (hother.symm.trans hother'))
        exact hregular
      · have hmem := mem_of_getBestPlatformForType hchoose hne
        rw [hbuildable] at hmem
        cases hmem
  · rintro ⟨n, ⟨other, hother, hd⟩, hregular, hp⟩
    have hwanted := hprogress.wanted n platform hp
    refine hprogress.granted n name platform platform hp hregular
      ⟨other, item, hother, hd, hitem, ?_, (hwanted.isNodePart hb).nonempty⟩
    exact (if_pos (hregular other hother)).trans (if_pos (Or.inl hall))

end Check

end Runs

/-! ### A debugging version of a library -/

def gccPlatform : String := "linux.ix86.gnu.gcc"

def debugPlatform : String := "linux.ix86.gnu.gcc.debug"

/-- A library that can be built with and without debugging. -/
def libraryItem (buildPlatforms : List String) : BuildItem :=
  { BuildItem.new "lib" "base" ⟨"lib", .empty, "/lib", [], ∅, ∅, ∅, [], .empty, .empty⟩ with
    targetType := .objectCode
    platformTypes := TreeMap.ofList [("native", [gccPlatform, debugPlatform])]
    buildPlatforms := TreeSet.ofList buildPlatforms }

/-- Headers are for all platforms. -/
def headersItem : BuildItem :=
  { BuildItem.new "headers" "base"
      ⟨"headers", .empty, "/headers", [], ∅, ∅, ∅, [], .empty, .empty⟩ with
    targetType := .all }

/-- It depends on the headers, and on the library with `-platform=native:option=debug`. -/
def programItem : BuildItem :=
  { BuildItem.new "app" "base"
      ⟨"app", .empty, "/app", ["headers", "lib"], ∅, .ofList [("lib", "native")],
        .ofList [("lib", PlatformSelector.mk false false "native" "" "" "" "" "debug")], [],
        .empty, .empty⟩ with
    targetType := .objectCode
    platformTypes := TreeMap.ofList [("native", [gccPlatform])]
    buildPlatforms := TreeSet.ofList [gccPlatform] }

def debugBuildset (buildPlatforms : List String) : Buildset :=
  TreeMap.ofList
    [("app", some programItem), ("headers", some headersItem),
      ("lib", some (libraryItem buildPlatforms))]

/-- The items in an order in which dependencies come first. -/
def debugOrder : List String := ["headers", "lib", "app"]

def debugOptions : GraphOptions := ⟨.ofList [("base", "1")], ∅, false⟩

theorem getElem?_debugBuildset {platforms : List String} {name : String} {item : BuildItem}
    (h : (debugBuildset platforms)[name]? = some (some item)) :
    name = "app" ∧ item = programItem ∨ name = "headers" ∧ item = headersItem ∨
      name = "lib" ∧ item = libraryItem platforms := by
  have hinsert : debugBuildset platforms =
      (((∅ : Buildset).insert "app" (some programItem)).insert "headers"
        (some headersItem)).insert "lib" (some (libraryItem platforms)) :=
    rfl
  rw [hinsert, TreeMap.getElem?_insert, TreeMap.getElem?_insert, TreeMap.getElem?_insert] at h
  split_ifs at h with hlib hheaders happ
  · exact Or.inr (Or.inr ⟨(compare_eq_iff_eq.mp hlib).symm,
      (Option.some_inj.mp (Option.some_inj.mp h)).symm⟩)
  · exact Or.inr (Or.inl ⟨(compare_eq_iff_eq.mp hheaders).symm,
      (Option.some_inj.mp (Option.some_inj.mp h)).symm⟩)
  · exact Or.inl ⟨(compare_eq_iff_eq.mp happ).symm,
      (Option.some_inj.mp (Option.some_inj.mp h)).symm⟩
  · cases TreeMap.getElem?_emptyc.symm.trans h

theorem isNodePart_of_mem_platforms {p : String} (h : p ∈ [gccPlatform, debugPlatform]) :
    IsNodePart p := by
  have hboth : ∀ p ∈ [gccPlatform, debugPlatform], p ≠ "" ∧ '!' ∉ p.toList := by decide
  exact ⟨(hboth p h).1, (hboth p h).2⟩

theorem constructible_debugBuildset {platforms : List String}
    (h : ∀ p ∈ platforms, p ∈ [gccPlatform, debugPlatform]) :
    Constructible debugOptions (debugBuildset platforms) := by
  have hbuilds : ∀ (name : String) (item : BuildItem),
      (debugBuildset platforms)[name]? = some (some item) →
        (∀ p ∈ item.buildPlatforms, p ∈ item.getBuildablePlatforms) ∧
          (∀ p ∈ item.getBuildablePlatforms, p ∈ [gccPlatform, debugPlatform]) ∧
            IsNodePart name ∧ item.treeName = "base" := by
    intro name item hitem
    rcases getElem?_debugBuildset hitem with ⟨rfl, rfl⟩ | ⟨rfl, rfl⟩ | ⟨rfl, rfl⟩
    · refine ⟨fun p hp ↦ ?_, by decide, ⟨by decide, by decide⟩, rfl⟩
      have hp : p ∈ TreeSet.ofList [gccPlatform] := hp
      exact List.contains_iff_mem.mp (TreeSet.mem_ofList.mp hp)
    · refine ⟨fun p hp ↦ ?_, by decide, ⟨by decide, by decide⟩, rfl⟩
      have hp : p ∈ (∅ : TreeSet String) := hp
      exact absurd hp TreeSet.not_mem_emptyc
    · refine ⟨fun p hp ↦ ?_, fun _ ↦ id, ⟨by decide, by decide⟩, rfl⟩
      have hp : p ∈ TreeSet.ofList platforms := hp
      exact h p (List.contains_iff_mem.mp (TreeSet.mem_ofList.mp hp))
  refine ⟨fun name item hitem _ ↦ (hbuilds name item hitem).1,
    fun name item hitem ↦ (hbuilds name item hitem).2.2.1, fun name item hitem p hp ↦ ?_,
    fun t p hp ↦ ?_, fun name item hitem ↦ ?_⟩
  · obtain ⟨hbuild, hall, -⟩ := hbuilds name item hitem
    exact isNodePart_of_mem_platforms (hall p (hp.elim (hbuild p) id))
  · have hinsert :
        debugOptions.buildgraphTreePrefixes = (∅ : TreeMap String String).insert "base" "1" := rfl
    rw [hinsert, TreeMap.getElem?_insert] at hp
    split_ifs at hp
    · obtain rfl := Option.some_inj.mp hp
      exact ⟨by decide, by decide⟩
    · cases TreeMap.getElem?_emptyc.symm.trans hp
  · rw [(hbuilds name item hitem).2.2.2]
    decide

theorem sortedItems_debugBuildset (platforms : List String) :
    SortedItems (debugBuildset platforms) debugOrder := by
  have hneeds : ∀ name dep, Needs (debugBuildset platforms) name dep →
      name = "app" ∧ dep ∈ ["headers", "lib"] := by
    rintro name dep ⟨item, hitem, hdep⟩
    rcases getElem?_debugBuildset hitem with ⟨rfl, rfl⟩ | ⟨rfl, rfl⟩ | ⟨rfl, rfl⟩
    · exact ⟨rfl, hdep⟩
    · cases hdep
    · cases hdep
  refine ⟨by decide, fun name item hitem ↦ ?_, ?_, fun name dep h ↦ ?_⟩
  · have hnames : "app" ∈ debugOrder ∧ "headers" ∈ debugOrder ∧ "lib" ∈ debugOrder := by decide
    rcases getElem?_debugBuildset hitem with ⟨rfl, -⟩ | ⟨rfl, -⟩ | ⟨rfl, -⟩
    · exact hnames.1
    · exact hnames.2.1
    · exact hnames.2.2
  · have hheaders : Ordered (Needs (debugBuildset platforms)) ([] ++ ["headers"]) :=
      ordered_nil.snoc fun dep h ↦ absurd (hneeds _ _ h).1 (by decide)
    have hlib : Ordered (Needs (debugBuildset platforms)) (["headers"] ++ ["lib"]) :=
      hheaders.snoc fun dep h ↦ absurd (hneeds _ _ h).1 (by decide)
    exact hlib.snoc fun dep h ↦ (hneeds _ _ h).2
  · rcases List.mem_cons.mp (hneeds name dep h).2 with rfl | hlib
    · exact ⟨headersItem, rfl⟩
    · obtain rfl := List.mem_singleton.mp hlib
      exact ⟨libraryItem platforms, rfl⟩

/-- The library is built with debugging, too. -/
theorem check_construct_debugBuildset : ∃ g, construct debugOptions
    (buildsetReverseOrder debugOrder (debugBuildset [gccPlatform, debugPlatform]))
      (debugBuildset [gccPlatform, debugPlatform]) = some g ∧
    DependencyGraph.AllKnown g.buildGraph.dependencies ∧
      Meets (GraphConstruction.addFromBuildset debugOptions) (Supplied debugOptions)
        (.new (debugBuildset [gccPlatform, debugPlatform]))
        (buildsetReverseOrder debugOrder (debugBuildset [gccPlatform, debugPlatform])) := by
  have hresult : ((construct debugOptions
      (buildsetReverseOrder debugOrder (debugBuildset [gccPlatform, debugPlatform]))
        (debugBuildset [gccPlatform, debugPlatform])).bind (·.buildGraph.check)).map Prod.fst =
      some true := by decide
  obtain ⟨⟨result, g'⟩, hboth, rfl⟩ := Option.map_eq_some_iff.mp hresult
  obtain ⟨g, hrun, hcheck⟩ := Option.bind_eq_some_iff.mp hboth
  obtain ⟨result', g'', hcheck', -, hknown, hmeets⟩ :=
    check_construct_iff (constructible_debugBuildset fun _ ↦ id) (sortedItems_debugBuildset _) hrun
  obtain ⟨hsame, -⟩ := Prod.mk.inj (Option.some_inj.mp (hcheck.symm.trans hcheck'))
  exact ⟨g, hrun, hknown.mp hsame.symm, hmeets.mp hsame.symm⟩

theorem platforms_wanted_debugBuildset : ∃ g, construct debugOptions
    (buildsetReverseOrder debugOrder (debugBuildset [gccPlatform]))
      (debugBuildset [gccPlatform]) = some g ∧
    ∀ n p, HasPlatform g.buildset n p → Wanted debugOptions (debugBuildset [gccPlatform]) n p := by
  obtain ⟨g, hrun⟩ := Option.isSome_iff_exists.mp (show (construct debugOptions
    (buildsetReverseOrder debugOrder (debugBuildset [gccPlatform]))
      (debugBuildset [gccPlatform])).isSome by decide)
  have hplatforms : ∀ p ∈ [gccPlatform], p ∈ [gccPlatform, debugPlatform] := by decide
  obtain ⟨-, -, -, hwanted, -⟩ := platforms_wanted_iff (constructible_debugBuildset hplatforms)
    (sortedItems_debugBuildset _) hrun
  exact ⟨g, hrun, hwanted⟩

theorem platforms_construct_debugBuildset : ∃ g, construct debugOptions
    (buildsetReverseOrder debugOrder (debugBuildset [gccPlatform]))
      (debugBuildset [gccPlatform]) = some g ∧
    (∀ p, HasPlatform g.buildset "lib" p → p ∈ [gccPlatform, debugPlatform]) ∧
    ∀ p, HasPlatform g.buildset "headers" p → HasPlatform g.buildset "app" p := by
  obtain ⟨g, hrun⟩ := Option.isSome_iff_exists.mp (show (construct debugOptions
    (buildsetReverseOrder debugOrder (debugBuildset [gccPlatform]))
      (debugBuildset [gccPlatform])).isSome by decide)
  have hplatforms : ∀ p ∈ [gccPlatform], p ∈ [gccPlatform, debugPlatform] := by decide
  have hconstruct := constructible_debugBuildset hplatforms
  have hsorted := sortedItems_debugBuildset [gccPlatform]
  refine ⟨g, hrun, fun p ↦ (platforms_construct hconstruct hsorted hrun
    (show (debugBuildset [gccPlatform])["lib"]? = some (some (libraryItem [gccPlatform])) from rfl)
      p).1 TargetType.noConfusion, fun p hp ↦ ?_⟩
  obtain ⟨n, hneeds, -, hbuilt⟩ := ((platforms_construct hconstruct hsorted hrun
    (show (debugBuildset [gccPlatform])["headers"]? = some (some headersItem) from rfl)
      p).2 rfl rfl rfl).mp hp
  obtain ⟨item, hitem, hdep⟩ := hneeds
  rcases getElem?_debugBuildset hitem with ⟨rfl, -⟩ | ⟨-, rfl⟩ | ⟨-, rfl⟩
  · exact hbuilt
  · cases hdep
  · cases hdep

/-- The library is selected without debugging only: no platform is missing and no error is reported,
but the program's edge ends at no node. -/
theorem not_check_construct : ∃ (o : GraphOptions) (b : Buildset) (sortedItemNames : List String)
    (g : GraphConstruction) (g' : DependencyGraph), Constructible o b ∧
      SortedItems b sortedItemNames ∧
      construct o (buildsetReverseOrder sortedItemNames b) b = some g ∧ g.errors = [] ∧
        g.buildGraph.check = some (false, g') := by
  have hresult : (construct debugOptions (buildsetReverseOrder debugOrder
      (debugBuildset [gccPlatform])) (debugBuildset [gccPlatform])).map (fun g ↦
        (g.errors, g.buildGraph.check.map Prod.fst)) = some ([], some false) := by decide
  obtain ⟨g, hrun, hg⟩ := Option.map_eq_some_iff.mp hresult
  obtain ⟨herrors, hcheck⟩ := Prod.mk.inj hg
  obtain ⟨⟨result, g'⟩, hcheck, rfl⟩ := Option.map_eq_some_iff.mp hcheck
  refine ⟨debugOptions, debugBuildset [gccPlatform], debugOrder, g, g',
    constructible_debugBuildset fun p hp ↦ ?_, sortedItems_debugBuildset _, hrun, herrors, hcheck⟩
  rw [List.mem_singleton.mp hp]
  exact List.mem_cons_self

end Abuild
