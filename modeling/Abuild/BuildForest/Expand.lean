import Abuild.Library.OptionalDependency
import Abuild.BuildForest.Resolve

/-!
The passes `checkTreeDependencies` and `checkItemDependencies` over a forest. They do
the same to the trees and to the items of a forest, and are described alike
(`Expands`): the optional dependencies that the forest does not have are dropped, and
those that are left are expanded with the graph of all of them.
-/

set_option autoImplicit false
set_option relaxedAutoImplicit false

namespace Abuild

open Std (TreeMap TreeSet)
open OptionalDependency

/-- What a pass reads and writes of a tree. -/
def BuildTree.entry (tree : BuildTree) : Entry String := ⟨tree.treeDeps, tree.expandedTreeDeps⟩

def BuildItem.entry (item : BuildItem) : Entry String := ⟨item.deps, item.expandedDependencies⟩

/-- What a pass leaves of a tree as it is. -/
structure KeptTree where
  name : String
  origin : TreeOrigin
  backingDepth : ℕ
  plugins : List String

def BuildTree.kept (tree : BuildTree) : KeptTree :=
  ⟨tree.name, tree.origin, tree.backingDepth, tree.plugins⟩

structure KeptItem where
  itemName : String
  origin : ItemOrigin
  backingDepth : ℕ
  plugins : List String
  shadowedReferences : TreeSet String

def BuildItem.kept (item : BuildItem) : KeptItem :=
  ⟨item.itemName, item.origin, item.backingDepth, item.plugins, item.shadowedReferences⟩

namespace BuildForest

open Relation
open DependencyGraph (CheckedMap SortedFrom tableOf)

theorem values_eq_map_toList {β : Type} (m : TreeMap String β) :
    m.values = m.toList.map Prod.snd := by
  have hfold : m.values = m.foldr (fun _ b l ↦ b :: l) [] := rfl
  rw [hfold, TreeMap.foldr_eq_foldr_toList, List.map_eq_foldr]

theorem mem_values {β : Type} {m : TreeMap String β} {b : β} :
    b ∈ m.values ↔ ∃ name : String, m[name]? = some b := by
  rw [values_eq_map_toList, List.mem_map]
  constructor
  · rintro ⟨⟨name, b⟩, hin, rfl⟩
    exact ⟨name, TreeMap.mem_toList_iff_getElem?_eq_some.mp hin⟩
  · rintro ⟨name, hb⟩
    exact ⟨(name, b), TreeMap.mem_toList_iff_getElem?_eq_some.mpr hb, rfl⟩

/-! ### A pass over records -/

section Records

variable {β κ : Type} (kept : β → κ) (entry : β → Entry String) (isOptional : κ → String → Bool)

/-- The optional dependencies of a record that are not present are dropped, and an
assertion fails where the record is expanded. -/
structure Drops (isPresent : String → Bool) (a : Assertion) (b : β) (r : β × Findings) :
    Prop where
  kept_eq : kept r.1 = kept b
  entry_eq : entry r.1 =
    ⟨(entry b).deps.filter fun d ↦ !isOptional (kept b) d || isPresent d, (entry b).expanded⟩
  failed_iff : ∀ a', a' ∈ r.2.failed ↔ a' = a ∧ Trips (isOptional (kept b)) isPresent (entry b)

/-- One record of a map has another one among its dependencies. -/
def DepOn (m : TreeMap String β) (name dep : String) : Prop :=
  ∃ b, m[name]? = some b ∧ dep ∈ (entry b).deps

/-- The dependencies among the records of a map have no errors: they are known and
have no cycle, all of them are listed where a record is expanded, and the records are
listed in the order of their dependencies. -/
structure Sound (m : TreeMap String β) (order : List String) : Prop where
  known : ∀ name dep, DepOn entry m name dep → (m[dep]?).isSome
  acyclic : ∀ name, ¬ TransGen (DepOn entry m) name name
  mem_expanded : ∀ (name : String) (b : β), m[name]? = some b → ∀ dep, dep ∈ (entry b).expanded ↔
    TransGen (DepOn entry m) name dep
  ordered : Precedence.Ordered (DepOn entry m) order

/-- A pass over the records of a map. -/
structure Expands (a : Assertion) (old new : TreeMap String β) (order : List String)
    (found : Findings) : Prop where
  isSome_eq : ∀ name : String, (new[name]?).isSome = (old[name]?).isSome
  kept_eq : ∀ (name : String) (b b' : β), old[name]? = some b → new[name]? = some b' →
    kept b' = kept b
  pass : ∀ (name : String) (b b' : β), old[name]? = some b → new[name]? = some b' →
    Pass (isOptional (kept b)) (fun d ↦ (old[d]?).isSome) name (entry b) (entry b')
  expanded_known : ∀ (name : String) (b' : β), new[name]? = some b' → ∀ d ∈ (entry b').expanded,
    (new[d]?).isSome
  failed_iff : ∀ a', a' ∈ found.failed ↔ a' = a ∧ ∃ (name : String) (b : β), old[name]? = some b ∧
    Trips (isOptional (kept b)) (fun d ↦ (old[d]?).isSome) (entry b)
  order_nodup : order.Nodup
  mem_order : ∀ name : String, name ∈ order ↔ (new[name]?).isSome
  sound : found.errors = [] → Sound entry new order

/-- What a pass leaves of the records of a map. -/
theorem Expands.map_kept {a : Assertion} {old new : TreeMap String β} {order : List String}
    {found : Findings} (h : Expands kept entry isOptional a old new order found) (name : String) :
    (new[name]?).map kept = (old[name]?).map kept := by
  have hsome := h.isSome_eq name
  cases hold : old[name]? with
  | none =>
    rw [hold, Option.isSome_none, Option.isSome_eq_false_iff, Option.isNone_iff_eq_none] at hsome
    rw [hsome]
  | some b =>
    rw [hold, Option.isSome_some] at hsome
    obtain ⟨b', hb'⟩ := Option.isSome_iff_exists.mp hsome
    rw [hb', Option.map_some, Option.map_some, h.kept_eq name b b' hold hb']

variable {kept entry isOptional}

/-- A pass over the records of an area, as passes over its entries. -/
theorem Expands.steps {ε : Type} {a : Assertion} {old new : TreeMap String β}
    {order : List String} {found : Findings}
    (h : Expands kept entry isOptional a old new order found) (D : Declarations String String ε)
    {p : String} (origin : κ → ε)
    (hvisible : ∀ name : String, (old[name]?).map (fun b ↦ origin (kept b)) = D.visible p name)
    (hoptional : ∀ k d, isOptional k d = D.isOptional (origin k) d)
    (hfrom : ∀ (name : String) (b : β), old[name]? = some b →
      D.From p name (origin (kept b)) (entry b)) :
    D.Steps p (fun name ↦ (old[name]?).map entry) (fun name ↦ (new[name]?).map entry) ∧
      (a ∈ found.failed ↔ ¬ D.Keeps p) := by
  have hpresent : (fun d : String ↦ (old[d]?).isSome) = D.isPresent p := by
    ext d
    unfold Declarations.isPresent
    rw [← hvisible d, Option.isSome_map]
  have hisOptional : ∀ b, isOptional (kept b) = D.isOptional (origin (kept b)) := fun b ↦
    funext (hoptional (kept b))
  have hsteps : D.Steps p (fun name ↦ (old[name]?).map entry)
      (fun name ↦ (new[name]?).map entry) := by
    refine ⟨fun name e he ↦ ?_, fun name e he entry₁ entry₂ h₁ h₂ ↦ ?_⟩
    · rw [← hvisible] at he
      obtain ⟨b, hb, rfl⟩ := Option.map_eq_some_iff.mp he
      exact ⟨entry b, by rw [hb, Option.map_some], hfrom name b hb⟩
    · rw [← hvisible] at he
      obtain ⟨b, hb, rfl⟩ := Option.map_eq_some_iff.mp he
      obtain ⟨b₁, hb₁, rfl⟩ := Option.map_eq_some_iff.mp h₁
      obtain ⟨b₂, hb₂, rfl⟩ := Option.map_eq_some_iff.mp h₂
      rw [hb, Option.some_inj] at hb₁
      subst hb₁
      rw [← hisOptional, ← hpresent]
      exact h.pass name b b₂ hb hb₂
  refine ⟨hsteps, ?_⟩
  rw [← hsteps.trips_iff, h.failed_iff, and_iff_right rfl, hpresent]
  constructor
  · rintro ⟨name, b, hb, htrips⟩
    refine ⟨name, origin (kept b), entry b, ?_, by rw [hb, Option.map_some], ?_⟩
    · rw [← hvisible, hb, Option.map_some]
    · rw [← hisOptional]
      exact htrips
  · rintro ⟨name, e, entry', he, hentry, htrips⟩
    rw [← hvisible] at he
    obtain ⟨b, hb, rfl⟩ := Option.map_eq_some_iff.mp he
    rw [hb, Option.map_some, Option.some_inj] at hentry
    subst hentry
    exact ⟨name, b, hb, by rw [hisOptional]; exact htrips⟩

/-- What is sound only depends on the entries. -/
theorem Sound.congr {m m' : TreeMap String β} {order : List String} (h : Sound entry m order)
    (heq : ∀ name : String, (m'[name]?).map entry = (m[name]?).map entry) :
    Sound entry m' order := by
  have hdepOn : DepOn entry m' = DepOn entry m := by
    ext name dep
    have hiff : ∀ m : TreeMap String β, DepOn entry m name dep ↔
        ∃ e, (m[name]?).map entry = some e ∧ dep ∈ e.deps := by
      intro m
      unfold DepOn
      constructor
      · rintro ⟨b, hb, hdep⟩
        exact ⟨entry b, by rw [hb, Option.map_some], hdep⟩
      · rintro ⟨e, he, hdep⟩
        obtain ⟨b, hb, rfl⟩ := Option.map_eq_some_iff.mp he
        exact ⟨b, hb, hdep⟩
    rw [hiff, hiff, heq]
  have hsome : ∀ name : String, (m'[name]?).isSome = (m[name]?).isSome := fun name ↦ by
    rw [← Option.isSome_map (f := entry), heq, Option.isSome_map]
  refine ⟨fun name dep hdep ↦ ?_, fun name ↦ ?_, fun name b hb dep ↦ ?_, ?_⟩
  · rw [hsome]
    exact h.known name dep (hdepOn ▸ hdep)
  · rw [hdepOn]
    exact h.acyclic name
  · have hentry := heq name
    rw [hb, Option.map_some] at hentry
    obtain ⟨b', hb', heq'⟩ := Option.map_eq_some_iff.mp hentry.symm
    rw [hdepOn, ← heq']
    exact h.mem_expanded name b' hb' dep
  · rw [hdepOn]
    exact h.ordered

variable (kept entry isOptional)

theorem mem_dropLast_of_ne {l : List String} {a b : String} (hlast : l.getLast? = some a)
    (hb : b ∈ l) (hne : b ≠ a) : b ∈ l.dropLast := by
  obtain ⟨rest, rfl⟩ := List.getLast?_eq_some_iff.mp hlast
  rw [List.dropLast_concat]
  rcases List.mem_append.mp hb with hb | hb
  · exact hb
  · exact absurd (List.mem_singleton.mp hb) hne

/-- The assertion fails where a record trips it, and no other one does. -/
theorem mem_failed_drops {a : Assertion} {old : TreeMap String β} {drop : β → β × Findings}
    (hdrop : ∀ b, Drops kept entry isOptional old.contains a b (drop b)) (a' : Assertion) :
    a' ∈ (Findings.concat ((old.map fun _ b ↦ drop b).values.map Prod.snd)).failed ↔
      a' = a ∧ ∃ (name : String) (b : β), old[name]? = some b ∧
        Trips (isOptional (kept b)) (fun d ↦ (old[d]?).isSome) (entry b) := by
  have hcontains : old.contains = fun d ↦ (old[d]?).isSome := by
    ext d
    exact TreeMap.contains_eq_isSome_getElem?
  rw [Findings.mem_failed_concat]
  constructor
  · rintro ⟨found, hfound, ha'⟩
    obtain ⟨r, hr, rfl⟩ := List.mem_map.mp hfound
    obtain ⟨name, hin⟩ := mem_values.mp hr
    rw [TreeMap.getElem?_map] at hin
    obtain ⟨b, hb, rfl⟩ := Option.map_eq_some_iff.mp hin
    obtain ⟨rfl, htrips⟩ := ((hdrop b).failed_iff a').mp ha'
    exact ⟨rfl, name, b, hb, hcontains ▸ htrips⟩
  · rintro ⟨rfl, name, b, hb, htrips⟩
    refine ⟨(drop b).2, List.mem_map.mpr ⟨drop b, ?_, rfl⟩, ((hdrop b).failed_iff a').mpr
      ⟨rfl, hcontains ▸ htrips⟩⟩
    refine mem_values.mpr ⟨name, ?_⟩
    rw [TreeMap.getElem?_map, hb, Option.map_some]

/-- Records that are dropped from, checked and expanded. -/
theorem expands_of {a : Assertion} {old : TreeMap String β} {drop : β → β × Findings}
    (expand : β → List String → β)
    (hdrop : ∀ b, Drops kept entry isOptional old.contains a b (drop b))
    (hexpand : ∀ (name : String) (b : β) (l : List String), old[name]? = some b →
      l.getLast? = some name → kept (expand (drop b).1 l) = kept (drop b).1 ∧
        entry (expand (drop b).1 l) = ⟨(entry (drop b).1).deps, l.dropLast⟩)
    (hne : ∀ (name : String) (b : β), old[name]? = some b → name ≠ "" ∧ "" ∉ (entry b).deps) :
    ∃ result g, (DependencyGraph.build (DependencyGraph.additionsOf
        (tableOf (old.map fun _ b ↦ drop b) fun r : β × Findings ↦ (entry r.1).deps))).bind
          DependencyGraph.check = some (result, g) ∧
      CheckedMap (old.map fun _ b ↦ drop b) (fun r : β × Findings ↦ (entry r.1).deps) result g ∧
      ∀ errors : Findings, errors.failed = [] → (result = false → errors.errors ≠ []) →
        Expands kept entry isOptional a old
        ((old.map fun _ b ↦ drop b).map fun name (r : β × Findings) ↦
          expand r.1 ((g.getSortedDependencies name).getD [])) g.inOrder
        (.concat ((old.map fun _ b ↦ drop b).values.map Prod.snd) ++ errors) := by
  have hnames : ∀ (name : String) (r : β × Findings),
      (old.map fun _ b ↦ drop b)[name]? = some r → name ≠ "" ∧ "" ∉ (entry r.1).deps := by
    intro name r hr
    rw [TreeMap.getElem?_map] at hr
    obtain ⟨b, hb, rfl⟩ := Option.map_eq_some_iff.mp hr
    refine ⟨(hne name b hb).1, fun hempty ↦ (hne name b hb).2 ?_⟩
    rw [(hdrop b).entry_eq] at hempty
    exact List.mem_of_mem_filter hempty
  obtain ⟨result, g, hbuild, hg⟩ := DependencyGraph.check_tableOf hnames
  refine ⟨result, g, hbuild, hg, fun errors herrors hreport ↦ ?_⟩
  let new := (old.map fun _ b ↦ drop b).map fun name (r : β × Findings) ↦
    expand r.1 ((g.getSortedDependencies name).getD [])
  have hmem : ∀ name, name ∈ g.dependencies ↔ name ∈ old := fun name ↦ by
    rw [hg.mem_iff, TreeMap.mem_map]
  have hnew : ∀ name : String, new[name]? = (old[name]?).map fun b ↦
      expand (drop b).1 ((g.getSortedDependencies name).getD []) := fun name ↦ by
    simp [new, TreeMap.getElem?_map, Option.map_map, Function.comp_def]
  have hisSome : ∀ name : String, (new[name]?).isSome = (old[name]?).isSome := fun name ↦ by
    rw [hnew, Option.isSome_map]
  -- every record is expanded with the sorted dependencies of its name
  have hrecord : ∀ (name : String) (b b' : β), old[name]? = some b → new[name]? = some b' →
      ∃ l, SortedFrom g.dependencies name l ∧ kept b' = kept b ∧
        entry b' = ⟨(entry (drop b).1).deps, l.dropLast⟩ := by
    intro name b b' hb hb'
    obtain ⟨l, hl, hsorted⟩ := hg.sorted name
      (TreeMap.mem_map.mpr (TreeMap.mem_iff_isSome_getElem?.mpr (by rw [hb]; rfl)))
    rw [hnew, hb, hl, Option.map_some, Option.some_inj] at hb'
    obtain ⟨hkept, hentry⟩ := hexpand name b l hb hsorted.last
    subst hb'
    exact ⟨l, hsorted, hkept.trans (hdrop b).kept_eq, hentry⟩
  have hold : ∀ (name : String) (b' : β), new[name]? = some b' → ∃ b, old[name]? = some b := by
    intro name b' hb'
    refine Option.isSome_iff_exists.mp ?_
    rw [← hisSome, hb']
    rfl
  have hdepOn : DepOn entry new = DependencyGraph.DependsOn g.dependencies := by
    ext name dep
    rw [hg.dependsOn_iff]
    constructor
    · rintro ⟨b', hb', hdep⟩
      obtain ⟨b, hb⟩ := hold name b' hb'
      obtain ⟨l, -, -, hentry⟩ := hrecord name b b' hb hb'
      rw [hentry] at hdep
      exact ⟨drop b, by rw [TreeMap.getElem?_map, hb, Option.map_some], hdep⟩
    · rintro ⟨r, hr, hdep⟩
      rw [TreeMap.getElem?_map] at hr
      obtain ⟨b, hb, rfl⟩ := Option.map_eq_some_iff.mp hr
      have hb' := (hnew name).trans (congrArg _ hb)
      obtain ⟨l, -, -, hentry⟩ := hrecord name b _ hb hb'
      exact ⟨_, hb', by rw [hentry]; exact hdep⟩
  refine ⟨hisSome, fun name b b' hb hb' ↦ ?_, fun name b b' hb hb' ↦ ?_,
    fun name b' hb' d hd ↦ ?_, fun a' ↦ ?_, hg.checked.nodup, fun name ↦ ?_, fun hnone ↦ ?_⟩
  · obtain ⟨l, -, hkept, -⟩ := hrecord name b b' hb hb'
    exact hkept
  · obtain ⟨l, hsorted, -, hentry⟩ := hrecord name b b' hb hb'
    refine ⟨?_, fun d hd hpresent hdname ↦ ?_⟩
    · rw [hentry, (hdrop b).entry_eq]
      exact List.filter_congr fun d _ ↦ by rw [TreeMap.contains_eq_isSome_getElem?]
    · rw [hentry] at hd ⊢
      refine mem_dropLast_of_ne hsorted.last ((hsorted.mem_iff d).mpr ⟨?_, ?_⟩) hdname
      · rw [hmem]
        exact TreeMap.mem_iff_isSome_getElem?.mpr hpresent
      · refine ReflTransGen.single ((hg.dependsOn_iff name d).mpr ⟨drop b, ?_, hd⟩)
        rw [TreeMap.getElem?_map, hb, Option.map_some]
  · obtain ⟨b, hb⟩ := hold name b' hb'
    obtain ⟨l, hsorted, -, hentry⟩ := hrecord name b b' hb hb'
    rw [hentry] at hd
    rw [hisSome, ← TreeMap.mem_iff_isSome_getElem?, ← hmem]
    exact ((hsorted.mem_iff d).mp (List.mem_of_mem_dropLast hd)).1
  · rw [Findings.failed_append, herrors, List.append_nil]
    exact mem_failed_drops kept entry isOptional hdrop a'
  · rw [hg.checked.mem_inOrder, hmem, hisSome, TreeMap.mem_iff_isSome_getElem?]
  · have hresult : result = true := by
      cases result with
      | true => rfl
      | false => exact absurd (List.append_eq_nil_iff.mp hnone).2 (hreport rfl)
    subst hresult
    have hfree := hg.errorFree rfl
    have hacyclic := (hg.result_iff.mp rfl).2
    refine ⟨fun name dep hdep ↦ ?_, fun name ↦ ?_, fun name b' hb' dep ↦ ?_, ?_⟩
    · rw [hisSome, ← TreeMap.mem_iff_isSome_getElem?, ← hmem]
      rw [hdepOn] at hdep
      exact hfree.allKnown name dep hdep
    · rw [hdepOn]
      exact hacyclic name
    · obtain ⟨b, hb⟩ := hold name b' hb'
      obtain ⟨l, hsorted, -, hentry⟩ := hrecord name b b' hb hb'
      rw [hentry, hdepOn, mem_dropLast_sorted hsorted (hacyclic name)]
      refine and_iff_right_of_imp fun hreach ↦ ?_
      obtain ⟨c, -, hc⟩ := TransGen.tail'_iff.mp hreach
      exact hfree.allKnown c dep hc
    · rw [hdepOn]
      exact hfree.ordered

end Records

/-! ### Trees -/

def isOptionalTree (kept : KeptTree) (dep : String) : Bool :=
  kept.origin.optionalTreeDeps.contains dep

/-- A run of steps that drop dependencies gives what a pass asks of a record. -/
theorem drops_of_foldl {β κ : Type} {kept : β → κ} {entry : β → Entry String}
    {isOptional : κ → String → Bool} {isPresent : String → Bool} {a : Assertion} (b : β)
    {step : β × Findings → String → β × Findings}
    (hstep : ∀ a', DropStep (fun s : β × Findings ↦ entry s.1) (fun s ↦ kept s.1)
      (fun s ↦ a' ∈ s.2.failed) (isOptional (kept b)) isPresent (a' = a) (kept b) step) :
    Drops kept entry isOptional isPresent a b ((entry b).deps.foldl step (b, .none)) := by
  have hrun := fun a' ↦ (hstep a').foldl_deps (s := (b, .none)) rfl
  refine ⟨(hrun a).2.1, (hrun a).1, fun a' ↦ ?_⟩
  exact (hrun a').2.2.trans (or_iff_right List.not_mem_nil)

theorem removeAbsentTreeDeps_spec (buildTrees : BuildTreeMap) (tree : BuildTree) :
    Drops BuildTree.kept BuildTree.entry isOptionalTree buildTrees.contains .expandedTreeDepsEmpty
      tree (removeAbsentTreeDeps buildTrees tree) := by
  refine drops_of_foldl tree fun a' ↦ ?_
  have hoptional : ∀ (tree' : BuildTree) (d : String), tree'.kept = tree.kept →
      isOptionalTree tree.kept d = tree'.optionalTreeDeps.contains d := by
    intro tree' d hs
    rw [← hs]
    rfl
  constructor
  · rintro ⟨tree', findings⟩ d hs
    dsimp only at hs ⊢
    rw [hoptional tree' d hs]
    have hiff : (tree'.optionalTreeDeps.contains d && !buildTrees.contains d) = true ↔
        tree'.optionalTreeDeps.contains d ∧ ¬ buildTrees.contains d := by
      rw [Bool.and_eq_true, Bool.not_eq_true', Bool.not_eq_true]
    by_cases hdrop : tree'.optionalTreeDeps.contains d ∧ ¬ buildTrees.contains d
    · rw [if_pos hdrop, if_pos (hiff.mpr hdrop)]
      rfl
    · rw [if_neg hdrop, if_neg (mt hiff.mp hdrop)]
  · rintro ⟨tree', findings⟩ d hs
    dsimp only at hs ⊢
    split_ifs
    · exact hs
    · exact hs
  · rintro ⟨tree', findings⟩ d hs
    dsimp only at hs ⊢
    rw [hoptional tree' d hs]
    by_cases hdrop : tree'.optionalTreeDeps.contains d ∧ ¬ buildTrees.contains d
    · rw [if_pos hdrop]
      simp only [Findings.failed_append, List.mem_append, BuildTree.removeTreeDep,
        Findings.mem_failed_check]
      simp [hdrop.1, hdrop.2, BuildTree.entry, and_comm]
    · rw [if_neg hdrop, or_iff_left]
      exact fun h ↦ hdrop h.2.2

section GraphErrors

variable {β : Type} {m : TreeMap String β} {deps : β → List String} {g : DependencyGraph}
  {result : Bool} (hg : CheckedMap m deps result g) (location : String → FileLocation)
  (unknownMessage : String → String → String) (circular participates : String)

/-- The errors of a graph are not failed assertions. -/
theorem graphErrors_failed : (if result then Findings.none
    else graphErrors g location unknownMessage circular participates).failed = [] := by
  cases result with
  | true => rfl
  | false =>
    rw [if_neg Bool.false_ne_true, List.eq_nil_iff_forall_not_mem]
    intro a
    unfold graphErrors cycleMessage
    simp only [Findings.failed_append, List.mem_append, Findings.mem_failed_concat, List.mem_map,
      List.mem_flatMap]
    rintro (⟨found, ⟨⟨node, items⟩, -, unknown, -, rfl⟩, ha⟩ | ⟨found, ⟨data, -, rfl⟩, ha⟩ |
      ⟨found, ⟨node, -, rfl⟩, ha⟩)
    · cases ha
    · cases ha
    · cases ha

include hg in
/-- A graph that is not all right has errors to report. -/
theorem graphErrors_errors (hresult : result = false) : (if result then Findings.none
    else graphErrors g location unknownMessage circular participates).errors ≠ [] := by
  have hstate : g.graphState = .error := by
    rw [hg.state, hresult]
    rfl
  rw [hresult, if_neg Bool.false_ne_true]
  unfold graphErrors
  rcases hg.checked.reported hstate with ⟨node, items, hitems, hne⟩ | hcycles
  · obtain ⟨unknown, hunknown⟩ := List.exists_mem_of_ne_nil items hne
    refine List.ne_nil_of_mem (List.mem_append_left _ (Findings.mem_errors_concat.mpr
      ⟨.error (location node) (unknownMessage node unknown), ?_, List.mem_singleton_self _⟩))
    exact List.mem_flatMap.mpr ⟨(node, items), TreeMap.mem_toList_iff_getElem?_eq_some.mpr hitems,
      List.mem_map_of_mem hunknown⟩
  · obtain ⟨cycle, hcycle⟩ := List.exists_mem_of_ne_nil g.cycles hcycles
    exact List.ne_nil_of_mem (List.mem_append_right _ (List.mem_append_left _
      (Findings.mem_errors_concat.mpr
        ⟨cycleMessage circular cycle, List.mem_map_of_mem hcycle, List.mem_singleton_self _⟩)))

end GraphErrors

/-- The pass of `checkTreeDependencies` over the trees of a forest. -/
theorem checkTreeDependencies_spec {forest : BuildForest}
    (hname : ∀ (name : String) (tree : BuildTree), forest.buildTrees[name]? = some tree →
      tree.name = name ∧ name ≠ "" ∧ "" ∉ tree.treeDeps) :
    ∃ expanded found, checkTreeDependencies forest = some (expanded, found) ∧
      Expands BuildTree.kept BuildTree.entry isOptionalTree .expandedTreeDepsEmpty
        forest.buildTrees expanded.buildTrees expanded.sortedTreeNames found ∧
      expanded.buildItems = forest.buildItems ∧ expanded.backingAreas = forest.backingAreas := by
  obtain ⟨result, g, hbuild, hg, hexpands⟩ := expands_of BuildTree.kept BuildTree.entry
    isOptionalTree BuildTree.setExpandedTreeDeps
    (removeAbsentTreeDeps_spec forest.buildTrees) (fun name tree l htree hlast ↦ by
      have hkept := (removeAbsentTreeDeps_spec forest.buildTrees tree).kept_eq
      have hsame : (removeAbsentTreeDeps forest.buildTrees tree).1.name = name :=
        (congrArg KeptTree.name hkept).trans (hname name tree htree).1
      refine ⟨rfl, ?_⟩
      unfold BuildTree.setExpandedTreeDeps BuildTree.entry
      dsimp only
      rw [hsame, if_pos hlast])
    (fun name tree htree ↦ (hname name tree htree).2)
  obtain ⟨g₀, hg₀, hcheck⟩ := Option.bind_eq_some_iff.mp hbuild
  unfold checkTreeDependencies
  apply Exists.intro
  apply Exists.intro
  refine ⟨(congrArg (Option.bind · _) hg₀).trans ?_, ?_, ?_, ?_⟩
  · simp only [hcheck, hg.getSortedGraph, Option.bind_eq_bind, Option.bind_some]
    rfl
  · exact hexpands _ (graphErrors_failed _ _ _ _) (graphErrors_errors hg _ _ _ _)
  · rfl
  · rfl

/-! ### Items -/

def isOptionalItem (kept : KeptItem) (dep : String) : Bool :=
  kept.origin.config.optionalDeps.contains dep

theorem recordOptionalDeps_spec (buildItems : BuildItemMap) (item : BuildItem) :
    Drops BuildItem.kept BuildItem.entry isOptionalItem buildItems.contains
      .expandedDependenciesEmpty item (recordOptionalDeps buildItems item) := by
  refine drops_of_foldl item fun a' ↦ ?_
  have hoptional : ∀ (item' : BuildItem) (d : String), item'.kept = item.kept →
      isOptionalItem item.kept d = item'.getOptionalDeps.contains d := by
    intro item' d hs
    rw [← hs]
    rfl
  constructor
  · rintro ⟨item', findings⟩ d hs
    dsimp only at hs ⊢
    rw [hoptional item' d hs]
    by_cases hopt : item'.getOptionalDeps.contains d
    · rw [if_pos hopt, hopt, Bool.true_and]
      cases hpresent : buildItems.contains d
      · rfl
      · rfl
    · rw [if_neg hopt, if_neg (by simp [hopt])]
  · rintro ⟨item', findings⟩ d hs
    dsimp only at hs ⊢
    rw [← hs]
    cases buildItems.contains d <;> split_ifs <;> rfl
  · rintro ⟨item', findings⟩ d hs
    dsimp only at hs ⊢
    rw [hoptional item' d hs]
    by_cases hopt : item'.getOptionalDeps.contains d
    · rw [if_pos hopt]
      cases hpresent : buildItems.contains d
      · simp only [Findings.failed_append, List.mem_append, BuildItem.setOptionalDependencyPresence,
          Bool.false_eq_true, if_false, Findings.mem_failed_check]
        simp [hopt, BuildItem.entry, and_comm]
      · simp [BuildItem.setOptionalDependencyPresence]
    · rw [if_neg hopt, or_iff_left]
      exact fun h ↦ hopt h.2.2.1

/-- The pass of `checkItemDependencies` over the items of a forest. -/
theorem checkItemDependencies_spec {forest : BuildForest}
    (hname : ∀ (name : String) (item : BuildItem), forest.buildItems[name]? = some item →
      item.itemName = name ∧ name ≠ "" ∧ "" ∉ item.deps) :
    ∃ expanded found, checkItemDependencies forest = some (expanded, found) ∧
      Expands BuildItem.kept BuildItem.entry isOptionalItem .expandedDependenciesEmpty
        forest.buildItems expanded.buildItems expanded.sortedItemNames found ∧
      expanded.buildTrees = forest.buildTrees ∧ expanded.backingAreas = forest.backingAreas := by
  obtain ⟨result, g, hbuild, hg, hexpands⟩ := expands_of BuildItem.kept BuildItem.entry
    isOptionalItem BuildItem.setExpandedDependencies
    (recordOptionalDeps_spec forest.buildItems) (fun name item l hitem hlast ↦ by
      have hkept := (recordOptionalDeps_spec forest.buildItems item).kept_eq
      have hsame : (recordOptionalDeps forest.buildItems item).1.itemName = name :=
        (congrArg KeptItem.itemName hkept).trans (hname name item hitem).1
      refine ⟨rfl, ?_⟩
      unfold BuildItem.setExpandedDependencies BuildItem.entry
      dsimp only
      rw [hsame, if_pos hlast])
    (fun name item hitem ↦ (hname name item hitem).2)
  obtain ⟨g₀, hg₀, hcheck⟩ := Option.bind_eq_some_iff.mp hbuild
  unfold checkItemDependencies
  apply Exists.intro
  apply Exists.intro
  refine ⟨(congrArg (Option.bind · _) hg₀).trans ?_, ?_, ?_, ?_⟩
  · simp only [hcheck, hg.getSortedGraph, Option.bind_eq_bind, Option.bind_some]
    rfl
  · exact hexpands _ (graphErrors_failed _ _ _ _) (graphErrors_errors hg _ _ _ _)
  · rfl
  · rfl

end BuildForest

end Abuild
