import Abuild.Buildset
import Abuild.BuildForest.Validate
import Mathlib.Order.Hom.Order

/-!
What each way of expanding adds to the build set. It is a rule on sets of names; a step
adds what its rule brings in and tells whether anything was new (`Adds`), and a loop of
rounds computes the closure under its rule (`adds_untilStable`), ending because the items
that are known run out.
-/

set_option autoImplicit false
set_option relaxedAutoImplicit false

namespace Abuild.Buildset

open BuildForest Saturation
open Fallible (mapM_isSome_iff mem_of_mapM)
open Std (TreeMap TreeSet)

/-! ### Members -/

/-- The names of the items in the build set. -/
def members (buildset : Buildset) : Set String := {name | name ∈ buildset}

/-- The names of the items that are known. -/
def known (builditems : BuildItemMap) : Set String := {name | name ∈ builditems}

/-- The build set points to the items that are known, or nowhere. -/
def Faithful (builditems : BuildItemMap) (buildset : Buildset) : Prop :=
  ∀ (name : String) (entry : Option BuildItem), buildset[name]? = some entry →
    entry = builditems[name]?

section Members

variable {builditems : BuildItemMap} {buildset : Buildset}

theorem mem_members {name : String} : name ∈ members buildset ↔ name ∈ buildset := Iff.rfl

theorem mem_known {name : String} : name ∈ known builditems ↔ name ∈ builditems := Iff.rfl

theorem faithful_insert (h : Faithful builditems buildset) (name : String) :
    Faithful builditems (buildset.insert name builditems[name]?) := by
  intro k entry hk
  rw [TreeMap.getElem?_insert] at hk
  split_ifs at hk with hname
  · rw [compare_eq_iff_eq] at hname
    subst hname
    exact (Option.some_inj.mp hk).symm
  · exact h k entry hk

theorem members_insert (name : String) (entry : Option BuildItem) :
    members (buildset.insert name entry) = insert name (members buildset) := by
  ext k
  rw [mem_members, TreeMap.mem_insert, compare_eq_iff_eq, Set.mem_insert_iff, eq_comm]
  rfl

theorem items_eq_some {l : List BuildItem} (h : items buildset = some l)
    (hfaithful : Faithful builditems buildset) : members buildset ⊆ known builditems ∧
      ∀ item, item ∈ l ↔ ∃ name ∈ members buildset, builditems[name]? = some item := by
  obtain ⟨hleft, hright⟩ := mem_of_mapM h
  have hentry : ∀ name ∈ members buildset, ∃ entry, buildset[name]? = some entry ∧
      entry ∈ buildset.values := by
    intro name hname
    obtain ⟨entry, hentry⟩ := exists_of_mem (mem_members.mp hname)
    exact ⟨entry, hentry, mem_values.mpr ⟨name, hentry⟩⟩
  constructor
  · intro name hname
    obtain ⟨entry, hin, hvalue⟩ := hentry name hname
    obtain ⟨item, -, hitem⟩ := hleft entry hvalue
    have hitem : builditems[name]? = some item := (hfaithful name entry hin).symm.trans hitem
    exact mem_known.mpr (mem_of_getElem? hitem)
  · intro item
    constructor
    · intro hin
      obtain ⟨entry, hvalue, hitem⟩ := hright item hin
      obtain ⟨name, hname⟩ := mem_values.mp hvalue
      exact ⟨name, mem_members.mpr (mem_of_getElem? hname),
        (hfaithful name entry hname).symm.trans hitem⟩
    · rintro ⟨name, hname, hitem⟩
      obtain ⟨entry, hin, hvalue⟩ := hentry name hname
      obtain ⟨item', hitem', heq⟩ := hleft entry hvalue
      obtain rfl : item = item' := by
        rw [← Option.some_inj, ← hitem, ← hfaithful name entry hin]
        exact heq
      exact hitem'

theorem isSome_items (hfaithful : Faithful builditems buildset)
    (hknown : members buildset ⊆ known builditems) : ∃ l, items buildset = some l := by
  refine Option.isSome_iff_exists.mp (mapM_isSome_iff.mpr fun entry hentry ↦ ?_)
  obtain ⟨name, hname⟩ := mem_values.mp hentry
  obtain ⟨item, hitem⟩ := exists_of_mem (mem_known.mp (hknown (mem_of_getElem? hname)))
  rw [hfaithful name entry hname, hitem]
  rfl

end Members

/-! ### Rules -/

section Rules

variable (o : BuildsetOptions) (buildtrees : BuildTreeMap) (builditems : BuildItemMap)

/-- The items that items of a set depend on. -/
def dependencyRule : Set String →o Set String where
  toFun s := {x | ∃ y ∈ s, ∃ item, builditems[y]? = some item ∧ x ∈ item.expandedDependencies}
  monotone' _ _ h := fun _ ⟨y, hy, hx⟩ ↦ ⟨y, h hy, hx⟩

/-- The items that may be picked out, of those that items of a set ask to be built. -/
def buildAlsoRule : Set String →o Set String where
  toFun s := {x | ∃ item, builditems[x]? = some item ∧ item.isLocal = true ∧
    item.hasTraits o.onlyWithTraits = true ∧ ∃ y ∈ s, ∃ member, builditems[y]? = some member ∧
      ∃ also ∈ member.getBuildAlso, isBuildAlso buildtrees builditems item also = some true}
  monotone' _ _ h := fun _ ⟨item, hitem, hlocal, htraits, y, hy, hmember⟩ ↦
    ⟨item, hitem, hlocal, htraits, y, h hy, hmember⟩

/-- What an entry of `build-also` asks for: an item, or the items below its directory; the items of
a tree, or all that are below its directory; those of a tree and of the trees it depends on, of
which `desc` leaves those below the directory of the tree. -/
inductive AsksFor (buildtrees : BuildTreeMap) (builditems : BuildItemMap) (item : BuildItem) :
    BuildAlso → Prop
  | itself {other : BuildItem} (hother : builditems[item.itemName]? = some other) :
    AsksFor buildtrees builditems item ⟨item.itemName, false, false, false⟩
  | belowItem {name : String} {other : BuildItem} (hother : builditems[name]? = some other)
      (hbelow : item.isAtOrBelowPath other.getAbsolutePath = true) :
    AsksFor buildtrees builditems item ⟨name, false, true, false⟩
  | ofTree {tree : BuildTree} (htree : buildtrees[item.treeName]? = some tree) :
    AsksFor buildtrees builditems item ⟨item.treeName, true, false, false⟩
  | belowTree {name : String} {tree : BuildTree} (htree : buildtrees[name]? = some tree)
      (hbelow : item.isAtOrBelowPath tree.rootPath = true) :
    AsksFor buildtrees builditems item ⟨name, true, true, false⟩
  | ofTrees {name : String} {tree : BuildTree} {desc : Bool}
      (htree : buildtrees[name]? = some tree)
      (hin : item.treeName ∈ tree.expandedTreeDepsAndLocal)
      (hbelow : desc = true → item.isAtOrBelowPath tree.rootPath = true) :
    AsksFor buildtrees builditems item ⟨name, true, desc, true⟩

variable {buildtrees builditems} in
theorem isBuildAlso_iff {item : BuildItem} {also : BuildAlso} :
    isBuildAlso buildtrees builditems item also = some true ↔
      AsksFor buildtrees builditems item also := by
  constructor
  · intro h
    obtain ⟨name, isTree, desc, withTreeDeps⟩ := also
    unfold isBuildAlso at h
    cases isTree with
    | true =>
      obtain ⟨tree, htree, hfound⟩ := Option.bind_eq_some_iff.mp h
      cases withTreeDeps with
      | true =>
        cases desc with
        | true =>
          obtain ⟨hin, hbelow⟩ := Bool.and_eq_true_iff.mp (Option.some_inj.mp hfound)
          exact .ofTrees htree (TreeSet.mem_toList.mp (List.contains_iff_mem.mp hin)) fun _ ↦ hbelow
        | false =>
          have hin := List.contains_iff_mem.mp (Option.some_inj.mp hfound)
          exact .ofTrees htree (TreeSet.mem_toList.mp hin) fun hfalse ↦ by cases hfalse
      | false =>
        cases desc with
        | true => exact .belowTree htree (Option.some_inj.mp hfound)
        | false =>
          obtain rfl : item.treeName = name := of_decide_eq_true (Option.some_inj.mp hfound)
          exact .ofTree htree
    | false =>
      cases withTreeDeps with
      | true => cases h
      | false =>
        obtain ⟨other, hother, hfound⟩ := Option.bind_eq_some_iff.mp h
        cases desc with
        | true => exact .belowItem hother (Option.some_inj.mp hfound)
        | false =>
          obtain rfl : item.itemName = name := of_decide_eq_true (Option.some_inj.mp hfound)
          exact .itself hother
  · intro h
    cases h with
    | itself hother => simp [isBuildAlso, hother]
    | belowItem hother hbelow => simp [isBuildAlso, hother, hbelow]
    | ofTree htree => simp [isBuildAlso, htree, BuildItem.isInTree]
    | belowTree htree hbelow => simp [isBuildAlso, htree, hbelow]
    | @ofTrees name tree desc htree hin hbelow =>
      cases desc with
      | true =>
        simp [isBuildAlso, htree, hin, hbelow rfl, BuildItem.isInTreesAndAtOrBelowPath,
          BuildItem.isInTrees]
      | false => simp [isBuildAlso, htree, hin, BuildItem.isInTrees]

/-- The items that depend on an item of a set. -/
def rdepsRule : Set String →o Set String where
  toFun s := {x | ∃ item, builditems[x]? = some item ∧ ∃ dep ∈ item.deps, dep ∈ s}
  monotone' _ _ h := fun _ ⟨item, hitem, dep, hdep, hin⟩ ↦ ⟨item, hitem, dep, hdep, h hin⟩

/-- An item has a trait with reference to another item. -/
def Refers (item : BuildItem) (trait referent : String) : Prop :=
  ∃ referentItems, item.traitData.traitData[trait]? = some referentItems ∧ referent ∈ referentItems

/-- The items that are related to items of a set by every trait. -/
def traitsRule : Set String →o Set String where
  toFun s := {x | ∃ item, builditems[x]? = some item ∧
    ∀ trait ∈ o.relatedByTraits, ∃ y ∈ s, Refers item trait y}
  monotone' _ _ h := fun _ ⟨item, hitem, hall⟩ ↦ ⟨item, hitem, fun trait htrait ↦
    have ⟨y, hy, hrefers⟩ := hall trait htrait
    ⟨y, h hy, hrefers⟩⟩

/-- A rule that is used in some runs. -/
def used (b : Bool) (rule : Set String →o Set String) : Set String →o Set String :=
  if b then rule else ⊥

theorem used_true (rule : Set String →o Set String) : used true rule = rule := rfl

theorem used_false (rule : Set String →o Set String) (s : Set String) : used false rule s = ∅ := rfl

/-- What every pass uses. -/
def passRule (addDependencies : Bool) : Set String →o Set String :=
  used addDependencies (dependencyRule builditems) ⊔ buildAlsoRule o buildtrees builditems

/-- What the first pass uses, or all of them. -/
def fullRule (addDependencies : Bool) : Set String →o Set String :=
  passRule o buildtrees builditems addDependencies ⊔ used o.withRdeps (rdepsRule builditems) ⊔
    used (!o.relatedByTraits.isEmpty) (traitsRule o builditems)

end Rules

/-! ### One way of expanding -/

/-- A step from one build set to another adds some names, and tells whether any of them
is new. -/
structure Adds (builditems : BuildItemMap) (new : Set String) (buildset : Buildset)
    (result : Buildset × Bool) : Prop where
  faithful : Faithful builditems result.1
  members_eq : members result.1 = members buildset ∪ new
  changed_iff : result.2 = true ↔ ∃ name ∈ members result.1, name ∉ members buildset

section Adds

variable {o : BuildsetOptions} {buildtrees : BuildTreeMap} {builditems : BuildItemMap}
  {buildset : Buildset}

theorem Adds.unchanged {new : Set String} {result : Buildset × Bool}
    (h : Adds builditems new buildset result) (hfalse : result.2 = false) :
    members result.1 = members buildset ∧ new ⊆ members buildset := by
  have hsub : members result.1 ⊆ members buildset := by
    intro name hname
    by_contra hnew
    have htrue := h.changed_iff.mpr ⟨name, hname, hnew⟩
    rw [hfalse] at htrue
    cases htrue
  rw [h.members_eq] at hsub ⊢
  exact ⟨Set.union_eq_left.mpr (Set.subset_union_right.trans hsub),
    Set.subset_union_right.trans hsub⟩

theorem adds_nothing (h : Faithful builditems buildset) :
    Adds builditems ∅ buildset (buildset, false) := by
  refine ⟨h, (Set.union_empty _).symm, iff_of_false Bool.false_ne_true ?_⟩
  rintro ⟨name, hname, hnot⟩
  exact hnot hname

/-- A step that adds more names to what has been added. -/
theorem Adds.trans {new new' : Set String} {b : Buildset} {changed : Bool}
    {result : Buildset × Bool} (h : Adds builditems new buildset (b, changed))
    (h' : Adds builditems new' b result) :
    Adds builditems (new ∪ new') buildset (result.1, changed || result.2) := by
  have hmembers : members result.1 = members buildset ∪ (new ∪ new') := by
    rw [h'.members_eq, h.members_eq, Set.union_assoc]
  refine ⟨h'.faithful, hmembers, ?_⟩
  have hsub : members buildset ⊆ members b := h.members_eq ▸ Set.subset_union_left
  have hsub' : members b ⊆ members result.1 := h'.members_eq ▸ Set.subset_union_left
  rw [Bool.or_eq_true, h.changed_iff, h'.changed_iff]
  constructor
  · rintro (⟨name, hname, hnot⟩ | ⟨name, hname, hnot⟩)
    · exact ⟨name, hsub' hname, hnot⟩
    · exact ⟨name, hname, fun hin ↦ hnot (hsub hin)⟩
  · rintro ⟨name, hname, hnot⟩
    by_cases hin : name ∈ members b
    · exact Or.inl ⟨name, hin, hnot⟩
    · exact Or.inr ⟨name, hname, hin⟩

theorem adds_addItem (h : Faithful builditems buildset) (name : String) :
    Adds builditems {name} buildset (addItem builditems (buildset, false) name) := by
  unfold addItem
  dsimp only
  split_ifs with hin
  · have hmem : name ∈ members buildset := TreeMap.contains_iff_mem.mp hin
    have hnothing := adds_nothing h
    refine ⟨h, ?_, hnothing.changed_iff⟩
    rw [Set.union_eq_left.mpr (Set.singleton_subset_iff.mpr hmem)]
  · have hnot : name ∉ members buildset := fun hmem ↦ hin (TreeMap.contains_iff_mem.mpr hmem)
    refine ⟨faithful_insert h name, ?_, iff_of_true rfl ⟨name, ?_, hnot⟩⟩
    · rw [members_insert, Set.union_singleton]
    · rw [members_insert]
      exact Set.mem_insert _ _

theorem addItem_changed (b : Buildset) (changed : Bool) (name : String) :
    addItem builditems (b, changed) name =
      ((addItem builditems (b, false) name).1,
       changed || (addItem builditems (b, false) name).2) := by
  unfold addItem
  dsimp only
  split_ifs
  · rw [Bool.or_false]
  · rw [Bool.or_true]

theorem adds_addItems (h : Faithful builditems buildset) (toAdd : List String) :
    Adds builditems {name | name ∈ toAdd} buildset (addItems builditems toAdd buildset) := by
  unfold addItems
  induction toAdd using List.reverseRecOn with
  | nil =>
    have hempty : {name : String | name ∈ ([] : List String)} = ∅ :=
      Set.eq_empty_of_forall_notMem fun _ ↦ List.not_mem_nil
    rw [hempty]
    exact adds_nothing h
  | append_singleton toAdd name ih =>
    rw [List.foldl_concat, addItem_changed]
    have hset : {x | x ∈ toAdd ++ [name]} = {x | x ∈ toAdd} ∪ {name} := by
      ext x
      simp [or_comm]
    rw [hset]
    exact ih.trans (adds_addItem ih.faithful name)

/-- The items that a predicate picks out, of those that may be. -/
def picked (o : BuildsetOptions) (builditems : BuildItemMap) (pred : BuildItem → Option Bool) :
    Set String :=
  {x | ∃ item, builditems[x]? = some item ∧ pred item = some true ∧ item.isLocal = true ∧
    item.hasTraits o.onlyWithTraits = true}

/-- The step of `populateBuildset` for one item. -/
def populateItem (o : BuildsetOptions) (pred : BuildItem → Option Bool) (s : Buildset × Bool)
    (p : String × BuildItem) : Option (Buildset × Bool) :=
  if s.1.contains p.1 then some s
  else (pred p.2).bind fun found ↦
    if found && p.2.isLocal && p.2.hasTraits o.onlyWithTraits then
      some (s.1.insert p.1 (some p.2), true)
    else some s

theorem populateBuildset_eq (pred : BuildItem → Option Bool) (b : Buildset) :
    populateBuildset o builditems pred b =
      builditems.toList.foldlM (populateItem o pred) (b, false) := rfl

theorem adds_populateItem {pred : BuildItem → Option Bool} {changed : Bool}
    {p : String × BuildItem} (hp : builditems[p.1]? = some p.2)
    (h : Faithful builditems buildset) {result : Buildset × Bool}
    (hrun : populateItem o pred (buildset, changed) p = some result) : ∃ changed',
    result.2 = (changed || changed') ∧
      Adds builditems {x | x = p.1 ∧ x ∈ picked o builditems pred} buildset
        (result.1, changed') := by
  obtain ⟨name, item⟩ := p
  have hpicked : name ∈ picked o builditems pred ↔ pred item = some true ∧ item.isLocal = true ∧
      item.hasTraits o.onlyWithTraits = true := by
    unfold picked
    rw [Set.mem_ofPred_eq, hp]
    simp
  have hnothing := adds_nothing h
  have hkept : name ∈ members buildset ∨ name ∉ picked o builditems pred →
      result = (buildset, changed) → ∃ changed', result.2 = (changed || changed') ∧
        Adds builditems {x | x = name ∧ x ∈ picked o builditems pred} buildset
          (result.1, changed') := by
    rintro hname rfl
    refine ⟨false, (Bool.or_false _).symm, h, (Set.union_eq_left.mpr ?_).symm,
      hnothing.changed_iff⟩
    rintro x ⟨rfl, hx⟩
    rcases hname with hin | hnot
    · exact hin
    · exact absurd hx hnot
  unfold populateItem at hrun
  dsimp only at hrun
  by_cases hin : buildset.contains name = true
  · rw [if_pos hin, Option.some_inj] at hrun
    exact hkept (Or.inl (TreeMap.contains_iff_mem.mp hin)) hrun.symm
  · rw [if_neg hin] at hrun
    obtain ⟨found, hfound, hrun⟩ := Option.bind_eq_some_iff.mp hrun
    by_cases hcond : (found && item.isLocal && item.hasTraits o.onlyWithTraits) = true
    · rw [if_pos hcond, Option.some_inj] at hrun
      subst hrun
      rw [Bool.and_eq_true, Bool.and_eq_true] at hcond
      have hname : name ∈ picked o builditems pred :=
        hpicked.mpr ⟨hcond.1.1 ▸ hfound, hcond.1.2, hcond.2⟩
      have hset : {x | x = name ∧ x ∈ picked o builditems pred} = {name} := by
        ext x
        constructor
        · exact fun hx ↦ hx.1
        · rintro rfl
          exact ⟨rfl, hname⟩
      have hadds := adds_addItem h name
      unfold addItem at hadds
      rw [if_neg hin, hp] at hadds
      exact ⟨true, (Bool.or_true _).symm, hset ▸ hadds⟩
    · rw [if_neg hcond, Option.some_inj] at hrun
      refine hkept (Or.inr fun hname ↦ hcond ?_) hrun.symm
      obtain ⟨hpred, hlocal, htraits⟩ := hpicked.mp hname
      rw [hfound, Option.some_inj] at hpred
      rw [hpred, hlocal, htraits]
      rfl

/-- Populating a build set adds what the predicate picks out. -/
theorem adds_populateBuildset (h : Faithful builditems buildset) {pred : BuildItem → Option Bool}
    {result : Buildset × Bool} (hrun : populateBuildset o builditems pred buildset = some result) :
    Adds builditems (picked o builditems pred) buildset result := by
  have hprefix : ∀ (l : List (String × BuildItem)) (result : Buildset × Bool),
      (∀ p ∈ l, builditems[p.1]? = some p.2) →
      l.foldlM (populateItem o pred) (buildset, false) = some result →
      Adds builditems {x | x ∈ l.map Prod.fst ∧ x ∈ picked o builditems pred} buildset result := by
    intro l
    induction l using List.reverseRecOn with
    | nil =>
      intro result _ hrun
      obtain rfl := Option.some_inj.mp hrun
      have hempty : {x | x ∈ ([] : List (String × BuildItem)).map Prod.fst ∧
          x ∈ picked o builditems pred} = ∅ :=
        Set.eq_empty_of_forall_notMem fun _ hx ↦ List.not_mem_nil hx.1
      rw [hempty]
      exact adds_nothing h
    | append_singleton l p ih =>
      intro result hitems hrun
      rw [List.foldlM_append] at hrun
      obtain ⟨⟨b, changed⟩, hbefore, hlast⟩ := Option.bind_eq_some_iff.mp hrun
      have hadds := ih _ (fun q hq ↦ hitems q (List.mem_append_left _ hq)) hbefore
      have hstep : populateItem o pred (b, changed) p = some result := by simpa using hlast
      obtain ⟨changed', hchanged, hadds'⟩ := adds_populateItem
        (hitems p (List.mem_append_right _ (List.mem_singleton_self p))) hadds.faithful hstep
      have hset : {x | x ∈ (l ++ [p]).map Prod.fst ∧ x ∈ picked o builditems pred} =
          {x | x ∈ l.map Prod.fst ∧ x ∈ picked o builditems pred} ∪
            {x | x = p.1 ∧ x ∈ picked o builditems pred} := by
        ext x
        simp [or_and_right]
      have hresult : result = (result.1, changed || changed') := Prod.ext rfl hchanged
      rw [hset, hresult]
      exact hadds.trans hadds'
  have hadds := hprefix builditems.toList result
    (fun p hp ↦ TreeMap.mem_toList_iff_getElem?_eq_some.mp hp) hrun
  have hset : {x | x ∈ builditems.toList.map Prod.fst ∧ x ∈ picked o builditems pred} =
      picked o builditems pred := by
    ext x
    refine and_iff_right_of_imp fun ⟨item, hitem, _⟩ ↦ ?_
    exact List.mem_map.mpr ⟨(x, item), TreeMap.mem_toList_iff_getElem?_eq_some.mpr hitem, rfl⟩
  rwa [hset] at hadds

/-- An item is asked for where one of those that are asked for is it. -/
theorem itemIsInBuildAlso_eq_some {buildAlso : List BuildAlso} {item : BuildItem} {found : Bool}
    (h : itemIsInBuildAlso buildtrees builditems buildAlso item = some found) :
    found = true ↔ ∃ also ∈ buildAlso, isBuildAlso buildtrees builditems item also = some true := by
  induction buildAlso with
  | nil =>
    obtain rfl : false = found := Option.some_inj.mp h
    simp
  | cons also rest ih =>
    obtain ⟨first, hfirst, hrest⟩ := Option.bind_eq_some_iff.mp h
    rw [List.exists_mem_cons_iff, hfirst]
    cases first with
    | true =>
      obtain rfl : true = found := Option.some_inj.mp hrest
      simp
    | false =>
      rw [ih hrest]
      simp

/-! ### Loops of rounds -/

/-- A round adds what a rule brings in, and remembers whether anything was added. -/
def RoundAdds (builditems : BuildItemMap) (rule : Set String →o Set String)
    (round : Buildset × Bool → Option ((Buildset × Bool) × Bool)) : Prop :=
  ∀ b any result changed, Faithful builditems b → round (b, any) = some (result, changed) →
    ∃ b', result = (b', any || changed) ∧ Adds builditems (rule (members b)) b (b', changed)

theorem adds_untilStable {rule : Set String →o Set String}
    {round : Buildset × Bool → Option ((Buildset × Bool) × Bool)}
    (hround : RoundAdds builditems rule round) (h : Faithful builditems buildset) {fuel : ℕ}
    {result : Buildset × Bool} (hrun : untilStable round fuel (buildset, false) = some result) :
    Adds builditems (closure rule (members buildset)) buildset result := by
  have hstep : ∀ (t t' : Buildset × Bool) (changed : Bool), round t = some (t', changed) →
      (∃ new, new ⊆ closure rule (members buildset) ∧ Adds builditems new buildset t) →
      ∃ new, new ⊆ closure rule (members buildset) ∧ Adds builditems new buildset t' := by
    rintro ⟨b, any⟩ t' changed ht ⟨new, hnew, hadds⟩
    obtain ⟨b', rfl, hadds'⟩ := hround b any t' changed hadds.faithful ht
    refine ⟨new ∪ rule (members b), Set.union_subset hnew ?_, hadds.trans hadds'⟩
    have hmembers : members b ⊆ closure rule (members buildset) :=
      hadds.members_eq ▸ Set.union_subset subset_closure hnew
    exact (rule.monotone hmembers).trans rule_closure_subset
  obtain ⟨⟨new, hnew, hadds⟩, ⟨b, any⟩, ⟨new', hnew', hlast⟩, hstable⟩ :=
    untilStable_induction hrun ⟨∅, Set.empty_subset _, adds_nothing h⟩ hstep
  obtain ⟨b', rfl, hadds'⟩ := hround b any result false hlast.faithful hstable
  obtain ⟨hsame, hclosed⟩ := hadds'.unchanged rfl
  have heq : members b' = closure rule (members buildset) := by
    refine eq_closure (hadds.members_eq ▸ Set.subset_union_left) ?_ (hsame ▸ hclosed)
    rw [hadds.members_eq]
    exact Set.union_subset subset_closure hnew
  refine ⟨hadds.faithful, ?_, hadds.changed_iff⟩
  show members b' = _
  rw [heq, Set.union_eq_right.mpr subset_closure]

theorem finite_known (builditems : BuildItemMap) : (known builditems).Finite :=
  (List.finite_toSet builditems.keys).subset fun _ hname ↦ TreeMap.mem_keys.mpr (mem_known.mp hname)

/-- The number of the items that may still be added. -/
noncomputable def remaining (builditems : BuildItemMap) (b : Buildset) : ℕ :=
  (known builditems \ members b).ncard

theorem remaining_le (builditems : BuildItemMap) (b : Buildset) :
    remaining builditems b ≤ (known builditems).ncard :=
  Set.ncard_le_ncard Set.sdiff_subset (finite_known builditems)

theorem Adds.remaining_lt {new : Set String} {result : Buildset × Bool}
    (h : Adds builditems new buildset result) (hknown : members result.1 ⊆ known builditems)
    (htrue : result.2 = true) : remaining builditems result.1 < remaining builditems buildset := by
  obtain ⟨name, hname, hnot⟩ := h.changed_iff.mp htrue
  have hsub : members buildset ⊆ members result.1 := h.members_eq ▸ Set.subset_union_left
  refine Set.ncard_lt_ncard ⟨Set.sdiff_subset_sdiff_right hsub, fun hback ↦ ?_⟩
    ((finite_known builditems).subset Set.sdiff_subset)
  exact (hback ⟨hknown hname, hnot⟩).2 hname

theorem isSome_untilStable_round {rule : Set String →o Set String}
    {round : Buildset × Bool → Option ((Buildset × Bool) × Bool)}
    (hround : RoundAdds builditems rule round)
    (hsome : ∀ b any, Faithful builditems b → members b ⊆ known builditems →
      ∃ result, round (b, any) = some result)
    (hrule : rule (known builditems) ⊆ known builditems) {fuel : ℕ}
    (hfuel : (known builditems).ncard < fuel) (h : Faithful builditems buildset)
    (hknown : members buildset ⊆ known builditems) :
    ∃ result, untilStable round fuel (buildset, false) = some result := by
  have hrounds : ∀ s : Buildset × Bool,
      (Faithful builditems s.1 ∧ members s.1 ⊆ known builditems) → ∃ s' changed,
        round s = some (s', changed) ∧
        (Faithful builditems s'.1 ∧ members s'.1 ⊆ known builditems) ∧
        (changed = true → remaining builditems s'.1 < remaining builditems s.1) := by
    rintro ⟨b, any⟩ ⟨hb, hbknown⟩
    obtain ⟨⟨result, changed⟩, hresult⟩ := hsome b any hb hbknown
    obtain ⟨b', rfl, hadds⟩ := hround b any result changed hb hresult
    have hknown' : members b' ⊆ known builditems :=
      hadds.members_eq ▸ Set.union_subset hbknown ((rule.monotone hbknown).trans hrule)
    exact ⟨_, changed, hresult, ⟨hadds.faithful, hknown'⟩,
      fun htrue ↦ hadds.remaining_lt hknown' htrue⟩
  exact isSome_untilStable hrounds ⟨h, hknown⟩ ((remaining_le builditems buildset).trans_lt hfuel)

/-! ### The ways of expanding -/

theorem populateItem_subset {pred : BuildItem → Option Bool} {s s' : Buildset × Bool}
    {p : String × BuildItem} (h : populateItem o pred s p = some s') :
    members s.1 ⊆ members s'.1 := by
  unfold populateItem at h
  by_cases hin : s.1.contains p.1 = true
  · rw [if_pos hin, Option.some_inj] at h
    exact h ▸ Set.Subset.rfl
  · rw [if_neg hin] at h
    obtain ⟨found, -, h⟩ := Option.bind_eq_some_iff.mp h
    split_ifs at h
    · cases h
      rw [members_insert]
      exact Set.subset_insert _ _
    · cases h
      exact Set.Subset.rfl

/-- The predicate has an answer for every item that is not in the build set. -/
theorem populateBuildset_answers {pred : BuildItem → Option Bool} {result : Buildset × Bool}
    (hrun : populateBuildset o builditems pred buildset = some result) {name : String}
    {item : BuildItem} (hitem : builditems[name]? = some item) (hname : name ∉ members result.1) :
    ∃ found, pred item = some found := by
  obtain ⟨before, after, hsplit⟩ := List.append_of_mem
    (TreeMap.mem_toList_iff_getElem?_eq_some.mpr hitem)
  rw [populateBuildset_eq, hsplit, List.foldlM_append] at hrun
  obtain ⟨s, -, hrest⟩ := Option.bind_eq_some_iff.mp hrun
  rw [Fallible.foldlM_cons] at hrest
  obtain ⟨s', hs', hafter⟩ := Option.bind_eq_some_iff.mp hrest
  have hsub : members s'.1 ⊆ members result.1 :=
    Fallible.foldlM_induction (motive := fun t ↦ members s'.1 ⊆ members t.1) hafter
      Set.Subset.rfl fun p _ t t' ht hmotive ↦ hmotive.trans (populateItem_subset ht)
  have hnot : ¬ s.1.contains name = true := fun hin ↦
    hname (hsub (populateItem_subset hs' (TreeMap.contains_iff_mem.mp hin)))
  unfold populateItem at hs'
  rw [if_neg hnot] at hs'
  obtain ⟨found, hfound, -⟩ := Option.bind_eq_some_iff.mp hs'
  exact ⟨found, hfound⟩

theorem mem_foldl_insert {l : List BuildAlso} {also : BuildAlso} :
    also ∈ (l.foldl (·.insert ·) (∅ : TreeSet BuildAlso)).toList ↔ also ∈ l := by
  rw [TreeSet.mem_toList]
  suffices h : ∀ s : TreeSet BuildAlso, also ∈ l.foldl (·.insert ·) s ↔ also ∈ l ∨ also ∈ s by
    exact (h ∅).trans (or_iff_left TreeSet.not_mem_emptyc)
  induction l with
  | nil => simp
  | cons other l ih =>
    intro s
    rw [List.foldl_cons, ih, TreeSet.mem_insert, Std.LawfulEqCmp.compare_eq_iff_eq, List.mem_cons]
    constructor
    · rintro (hin | rfl | hin)
      · exact Or.inl (Or.inr hin)
      · exact Or.inl (Or.inl rfl)
      · exact Or.inr hin
    · rintro ((rfl | hin) | hin)
      · exact Or.inr (Or.inl rfl)
      · exact Or.inl hin
      · exact Or.inr (Or.inr hin)

theorem roundAdds_buildAlso :
    RoundAdds builditems (buildAlsoRule o buildtrees builditems)
      (buildAlsoRound o buildtrees builditems) := by
  intro b any result changed h hrun
  obtain ⟨l, hl, hrun⟩ := Option.bind_eq_some_iff.mp hrun
  obtain ⟨⟨b', adding⟩, hpopulate, hrun⟩ := Option.bind_eq_some_iff.mp hrun
  obtain ⟨rfl, rfl⟩ := Prod.mk.inj (Option.some_inj.mp hrun)
  obtain ⟨-, hmem⟩ := items_eq_some hl h
  have hadds := adds_populateBuildset h hpopulate
  refine ⟨b', rfl, hadds.faithful, ?_, hadds.changed_iff⟩
  -- what is asked for is what the members ask for
  have hasked : ∀ item, (∃ also ∈ ((l.flatMap BuildItem.getBuildAlso).foldl (·.insert ·)
      (∅ : TreeSet BuildAlso)).toList, isBuildAlso buildtrees builditems item also = some true) ↔
      ∃ y ∈ members b, ∃ member, builditems[y]? = some member ∧
        ∃ also ∈ member.getBuildAlso, isBuildAlso buildtrees builditems item also = some true := by
    intro item
    simp only [mem_foldl_insert, List.mem_flatMap]
    constructor
    · rintro ⟨also, ⟨member, hmember, halso⟩, hbuild⟩
      obtain ⟨y, hy, hitem⟩ := (hmem member).mp hmember
      exact ⟨y, hy, member, hitem, also, halso, hbuild⟩
    · rintro ⟨y, hy, member, hitem, also, halso, hbuild⟩
      exact ⟨also, ⟨member, (hmem member).mpr ⟨y, hy, hitem⟩, halso⟩, hbuild⟩
  refine Set.Subset.antisymm ?_ (Set.union_subset ?_ ?_)
  · rw [hadds.members_eq]
    refine Set.union_subset_union_right _ fun x ⟨item, hitem, hpred, hlocal, htraits⟩ ↦ ?_
    exact ⟨item, hitem, hlocal, htraits,
      (hasked item).mp ((itemIsInBuildAlso_eq_some hpred).mp rfl)⟩
  · exact hadds.members_eq ▸ Set.subset_union_left
  · rintro x ⟨item, hitem, hlocal, htraits, hmember⟩
    by_contra hnot
    obtain ⟨found, hfound⟩ := populateBuildset_answers hpopulate hitem hnot
    have htrue := (itemIsInBuildAlso_eq_some hfound).mpr ((hasked item).mpr hmember)
    subst htrue
    have hpicked : x ∈ members b ∪ picked o builditems _ :=
      Or.inr ⟨item, hitem, hfound, hlocal, htraits⟩
    rw [← hadds.members_eq] at hpicked
    exact hnot hpicked

/-- What the items that ask for others add, when the loop has ended. -/
theorem adds_addBuildAlsoToBuildset (h : Faithful builditems buildset) {fuel : ℕ}
    {result : Buildset × Bool}
    (hrun : addBuildAlsoToBuildset o buildtrees builditems fuel buildset = some result) :
    Adds builditems (closure (buildAlsoRule o buildtrees builditems) (members buildset)) buildset
      result ∧ members result.1 ⊆ known builditems := by
  refine ⟨adds_untilStable roundAdds_buildAlso h hrun, ?_⟩
  obtain ⟨-, ⟨b, any⟩, hb, hlast⟩ := untilStable_induction
    (motive := fun t : Buildset × Bool ↦ Faithful builditems t.1) hrun h
    fun ⟨c, any⟩ t' changed ht hc ↦ by
      obtain ⟨c', rfl, hadds⟩ := roundAdds_buildAlso c any t' changed hc ht
      exact hadds.faithful
  obtain ⟨b', rfl, hadds⟩ := roundAdds_buildAlso b any result false hb hlast
  obtain ⟨l, hl, -⟩ := Option.bind_eq_some_iff.mp hlast
  rw [(hadds.unchanged rfl).1]
  exact (items_eq_some hl hb).1

theorem adds_expandByDependencies (h : Faithful builditems buildset) {addDependencies : Bool}
    {result : Buildset × Bool}
    (hrun : expandByDependencies builditems addDependencies buildset = some result) :
    Adds builditems (used addDependencies (dependencyRule builditems) (members buildset)) buildset
      result := by
  unfold expandByDependencies at hrun
  cases addDependencies with
  | false =>
    obtain rfl := Option.some_inj.mp hrun
    exact adds_nothing h
  | true =>
    obtain ⟨l, hl, hrun⟩ := Option.bind_eq_some_iff.mp hrun
    obtain rfl := Option.some_inj.mp hrun
    have hset : {name | name ∈ l.flatMap BuildItem.expandedDependencies} =
        dependencyRule builditems (members buildset) := by
      ext name
      rw [Set.mem_ofPred_eq, List.mem_flatMap]
      constructor
      · rintro ⟨item, hitem, hname⟩
        obtain ⟨y, hy, hitem⟩ := ((items_eq_some hl h).2 item).mp hitem
        exact ⟨y, hy, item, hitem, hname⟩
      · rintro ⟨y, hy, item, hitem, hname⟩
        exact ⟨item, ((items_eq_some hl h).2 item).mpr ⟨y, hy, hitem⟩, hname⟩
    rw [used_true, ← hset]
    exact adds_addItems h _

theorem mem_filter_toList {cond : String × BuildItem → Bool} {name : String} :
    name ∈ (builditems.toList.filter cond).map Prod.fst ↔
      ∃ item, builditems[name]? = some item ∧ cond (name, item) = true := by
  rw [List.mem_map]
  constructor
  · rintro ⟨⟨k, item⟩, hin, rfl⟩
    obtain ⟨hitem, hcond⟩ := List.mem_filter.mp hin
    exact ⟨item, TreeMap.mem_toList_iff_getElem?_eq_some.mp hitem, hcond⟩
  · rintro ⟨item, hitem, hcond⟩
    exact ⟨(name, item), List.mem_filter.mpr
      ⟨TreeMap.mem_toList_iff_getElem?_eq_some.mpr hitem, hcond⟩, rfl⟩

theorem roundAdds_rdeps :
    RoundAdds builditems (rdepsRule builditems) (rdepsRound builditems) := by
  intro b any result changed h hrun
  obtain ⟨rfl, rfl⟩ := Prod.mk.inj (Option.some_inj.mp hrun)
  have hset : {name | name ∈ dependents builditems b} = rdepsRule builditems (members b) := by
    ext name
    unfold dependents
    rw [Set.mem_ofPred_eq, mem_filter_toList]
    simp only [List.any_eq_true, TreeMap.contains_iff_mem]
    rfl
  exact ⟨_, rfl, hset ▸ adds_addItems h _⟩

theorem adds_expandByRdeps (h : Faithful builditems buildset) {fuel : ℕ}
    {result : Buildset × Bool} (hrun : expandByRdeps o builditems fuel buildset = some result) :
    Adds builditems (closure (used o.withRdeps (rdepsRule builditems)) (members buildset)) buildset
      result := by
  unfold expandByRdeps at hrun
  split_ifs at hrun with hrdeps
  · rw [hrdeps, used_true]
    exact adds_untilStable roundAdds_rdeps h hrun
  · obtain rfl := Option.some_inj.mp hrun
    rw [Bool.not_eq_true] at hrdeps
    rw [hrdeps]
    have hclosed : closure (used false (rdepsRule builditems)) (members buildset) =
        members buildset :=
      (eq_closure Set.Subset.rfl subset_closure (Set.empty_subset _)).symm
    rw [hclosed]
    have hnothing := adds_nothing h
    exact ⟨h, (Set.union_self _).symm, hnothing.changed_iff⟩

theorem adds_expandByTraits (h : Faithful builditems buildset)
    (explicitTargetItems : TreeSet String) :
    Adds builditems
      (used (!o.relatedByTraits.isEmpty) (traitsRule o builditems) (members buildset)) buildset
      (expandByTraits o builditems buildset explicitTargetItems).1 := by
  unfold expandByTraits
  by_cases hempty : o.relatedByTraits.isEmpty = true
  · rw [if_pos hempty, hempty]
    exact adds_nothing h
  · rw [if_neg hempty]
    rw [Bool.not_eq_true] at hempty
    rw [hempty, Bool.not_false, used_true]
    have hset : {name | name ∈ relatedItems builditems o.relatedByTraits buildset} =
        traitsRule o builditems (members buildset) := by
      ext name
      unfold relatedItems
      rw [Set.mem_ofPred_eq, mem_filter_toList]
      refine exists_congr fun item ↦ and_congr_right fun _ ↦ ?_
      rw [List.all_eq_true]
      refine forall₂_congr fun trait _ ↦ ?_
      unfold Refers
      cases item.traitData.traitData[trait]? with
      | none => simp
      | some referentItems => simp [mem_members, and_comm]
    exact hset ▸ adds_addItems h _

end Adds

end Abuild.Buildset
