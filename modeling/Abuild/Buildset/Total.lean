import Abuild.BuildForest.Assertions
import Abuild.Buildset.Passes
import Mathlib.Tactic.Tauto

/-!
The build set where all names that items refer to exist. Every loop then ends without a
null pointer being used; the set before the plugins is closed under the rules that are
used in every pass, and every item in it is joined to a selected one by a chain of single
uses of the rules (`Linked`).
-/

set_option autoImplicit false
set_option relaxedAutoImplicit false

namespace Abuild.Buildset

open BuildForest Saturation Relation
open Std (TreeMap TreeSet)

/-- All names that the items refer to exist, and only a tree is named with its
dependencies. -/
structure NamesExist (buildtrees : BuildTreeMap) (builditems : BuildItemMap) : Prop where
  dependencies : ∀ (name : String) (item : BuildItem), builditems[name]? = some item →
    ∀ dep ∈ item.expandedDependencies, dep ∈ builditems
  plugins : ∀ (name : String) (item : BuildItem), builditems[name]? = some item →
    ∀ plugin ∈ item.plugins, plugin ∈ builditems
  alsoTree : ∀ (name : String) (item : BuildItem), builditems[name]? = some item →
    ∀ also ∈ item.getBuildAlso, also.isTree = true → also.name ∈ buildtrees
  alsoItem : ∀ (name : String) (item : BuildItem), builditems[name]? = some item →
    ∀ also ∈ item.getBuildAlso, also.isTree = false →
      also.name ∈ builditems ∧ also.withTreeDeps = false

section Total

variable {o : BuildsetOptions} {buildtrees : BuildTreeMap} {builditems : BuildItemMap}
  {addDependencies : Bool} {buildset : Buildset} {fuel : ℕ}

/-! ### The loops end -/

theorem NamesExist.isSome_isBuildAlso (h : NamesExist buildtrees builditems) {name : String}
    {member : BuildItem} (hmember : builditems[name]? = some member) {also : BuildAlso}
    (halso : also ∈ member.getBuildAlso) (item : BuildItem) :
    ∃ found, isBuildAlso buildtrees builditems item also = some found := by
  unfold isBuildAlso
  cases htree : also.isTree with
  | true =>
    obtain ⟨tree, hname⟩ := exists_of_mem (h.alsoTree name member hmember also halso htree)
    rw [if_pos rfl, hname]
    dsimp only [Option.bind_eq_bind, Option.bind_some]
    split_ifs <;> exact ⟨_, rfl⟩
  | false =>
    obtain ⟨hknown, hplain⟩ := h.alsoItem name member hmember also halso htree
    obtain ⟨other, hname⟩ := exists_of_mem hknown
    rw [if_neg Bool.false_ne_true, hplain, if_neg Bool.false_ne_true, hname]
    dsimp only [Option.bind_eq_bind, Option.bind_some]
    split_ifs <;> exact ⟨_, rfl⟩

theorem isSome_itemIsInBuildAlso {buildAlso : List BuildAlso} {item : BuildItem}
    (h : ∀ also ∈ buildAlso, ∃ found, isBuildAlso buildtrees builditems item also = some found) :
    ∃ found, itemIsInBuildAlso buildtrees builditems buildAlso item = some found := by
  induction buildAlso with
  | nil => exact ⟨false, rfl⟩
  | cons also rest ih =>
    obtain ⟨hfirst, hrest⟩ := List.forall_mem_cons.mp h
    obtain ⟨found, hfound⟩ := hfirst
    unfold itemIsInBuildAlso
    rw [hfound, Option.bind_eq_bind, Option.bind_some]
    cases found with
    | true => exact ⟨true, rfl⟩
    | false => exact ih hrest

theorem isSome_populateBuildset {pred : BuildItem → Option Bool}
    (hpred : ∀ item, ∃ found, pred item = some found) :
    ∃ result, populateBuildset o builditems pred buildset = some result := by
  refine Option.isSome_iff_exists.mp ?_
  rw [populateBuildset_eq]
  refine (Fallible.isSome_foldlM_iff_of_independent (P := fun _ _ ↦ True)
    (motive := fun _ ↦ True) trivial (fun _ _ _ _ _ _ ↦ trivial) (fun p _ s _ ↦ ?_)
    (List.pairwise_of_forall fun _ _ _ _ _ _ ↦ Iff.rfl)).mpr fun _ _ ↦ trivial
  refine iff_of_true ?_ trivial
  obtain ⟨found, hfound⟩ := hpred p.2
  unfold populateItem
  rw [hfound, Option.bind_some]
  split_ifs <;> rfl

theorem NamesExist.isSome_addBuildAlsoToBuildset (h : NamesExist buildtrees builditems)
    (hfuel : (known builditems).ncard < fuel) (hfaithful : Faithful builditems buildset)
    (hknown : members buildset ⊆ known builditems) :
    ∃ result, addBuildAlsoToBuildset o buildtrees builditems fuel buildset = some result := by
  refine isSome_untilStable_round roundAdds_buildAlso (fun b any hb hbknown ↦ ?_) ?_ hfuel hfaithful
    hknown
  · obtain ⟨l, hl⟩ := isSome_items hb hbknown
    have hanswers : ∀ item, ∃ found, itemIsInBuildAlso buildtrees builditems
        ((l.flatMap BuildItem.getBuildAlso).foldl (·.insert ·) (∅ : TreeSet BuildAlso)).toList
          item = some found := by
      refine fun item ↦ isSome_itemIsInBuildAlso fun also halso ↦ ?_
      rw [mem_foldl_insert, List.mem_flatMap] at halso
      obtain ⟨member, hmember, halso⟩ := halso
      obtain ⟨name, -, hname⟩ := ((items_eq_some hl hb).2 member).mp hmember
      exact h.isSome_isBuildAlso hname halso item
    obtain ⟨result, hresult⟩ := @isSome_populateBuildset o builditems b _ hanswers
    unfold buildAlsoRound
    rw [hl, Option.bind_eq_bind, Option.bind_some]
    dsimp only
    rw [hresult]
    exact ⟨_, rfl⟩
  · exact fun name ⟨item, hitem, _⟩ ↦ mem_of_getElem? hitem

theorem isSome_expandByDependencies (hfaithful : Faithful builditems buildset)
    (hknown : members buildset ⊆ known builditems) :
    ∃ result, expandByDependencies builditems addDependencies buildset = some result := by
  obtain ⟨l, hl⟩ := isSome_items hfaithful hknown
  unfold expandByDependencies
  split_ifs
  · rw [hl]
    exact ⟨_, rfl⟩
  · exact ⟨_, rfl⟩

theorem isSome_expandByRdeps (hfuel : (known builditems).ncard < fuel)
    (hfaithful : Faithful builditems buildset) (hknown : members buildset ⊆ known builditems) :
    ∃ result, expandByRdeps o builditems fuel buildset = some result := by
  unfold expandByRdeps
  split_ifs
  · exact isSome_untilStable_round roundAdds_rdeps (fun _ _ _ _ ↦ ⟨_, rfl⟩)
      (fun name ⟨item, hitem, _⟩ ↦ mem_of_getElem? hitem) hfuel hfaithful hknown
  · exact ⟨_, rfl⟩

theorem NamesExist.isSome_expansionPass (h : NamesExist buildtrees builditems)
    (hfuel : (known builditems).ncard < fuel) {e : Expansion}
    (hfaithful : Faithful builditems e.buildset)
    (hknown : members e.buildset ⊆ known builditems) :
    ∃ e' changed,
      expansionPass o buildtrees builditems addDependencies fuel e = some (e', changed) := by
  obtain ⟨⟨b₁, byDependencies⟩, hdependencies⟩ :=
    @isSome_expandByDependencies builditems addDependencies e.buildset hfaithful hknown
  have hadds₁ := adds_expandByDependencies hfaithful hdependencies
  have hknown₁ : members b₁ ⊆ known builditems := by
    refine hadds₁.members_eq ▸ Set.union_subset hknown ?_
    cases addDependencies with
    | false => exact Set.empty_subset _
    | true => exact fun name ⟨y, _, item, hitem, hname⟩ ↦ h.dependencies y item hitem name hname
  obtain ⟨⟨b₂, byBuildAlso⟩, halso⟩ :=
    h.isSome_addBuildAlsoToBuildset (o := o) hfuel hadds₁.faithful hknown₁
  obtain ⟨hadds₂, hknown₂⟩ := adds_addBuildAlsoToBuildset hadds₁.faithful halso
  obtain ⟨⟨b₃, byRdeps⟩, hrdeps⟩ := isSome_expandByRdeps (o := o) hfuel hadds₂.faithful hknown₂
  unfold expansionPass
  simp only [hdependencies, Option.bind_eq_bind, Option.bind_some, halso]
  split_ifs
  · exact ⟨_, _, rfl⟩
  · rw [hrdeps]
    exact ⟨_, _, rfl⟩

theorem Passed.remaining_lt {e e' : Expansion}
    (h : Passed o buildtrees builditems addDependencies e e' true) :
    remaining builditems e'.buildset < remaining builditems e.buildset := by
  have hadds : Adds builditems (members e'.buildset) e.buildset (e'.buildset, true) :=
    ⟨h.faithful, (Set.union_eq_right.mpr h.subset).symm, h.changed_iff⟩
  exact hadds.remaining_lt h.known rfl

theorem NamesExist.isSome_expandBuildset (h : NamesExist buildtrees builditems)
    (hfuel : (known builditems).ncard < fuel) (cleaning : Bool) {selected : Buildset}
    (hfaithful : Faithful builditems selected) (hknown : members selected ⊆ known builditems) :
    ∃ e, expandBuildset o buildtrees builditems cleaning fuel selected = some e := by
  obtain ⟨result, halso⟩ := h.isSome_addBuildAlsoToBuildset (o := o) hfuel hfaithful hknown
  obtain ⟨hadds, hknown'⟩ := adds_addBuildAlsoToBuildset hfaithful halso
  unfold expandBuildset
  rw [halso, Option.bind_eq_bind, Option.bind_some]
  have hrounds : ∀ e : Expansion,
      (Faithful builditems e.buildset ∧ members e.buildset ⊆ known builditems) → ∃ e' changed,
        expansionPass o buildtrees builditems (addsDependencies o cleaning) fuel e =
          some (e', changed) ∧
        (Faithful builditems e'.buildset ∧ members e'.buildset ⊆ known builditems) ∧
        (changed = true → remaining builditems e'.buildset < remaining builditems e.buildset) := by
    rintro e ⟨he, heknown⟩
    obtain ⟨e', changed, hpass⟩ := h.isSome_expansionPass hfuel he heknown
    have hpassed := passed_of_expansionPass he hpass
    refine ⟨e', changed, hpass, ⟨hpassed.faithful, hpassed.known⟩, fun htrue ↦ ?_⟩
    subst htrue
    exact hpassed.remaining_lt
  exact isSome_untilStable hrounds ⟨hadds.faithful, hknown'⟩
    ((remaining_le builditems _).trans_lt hfuel)

/-! ### Chains -/

variable (o buildtrees builditems) in
/-- One item of a set brings in another one. -/
inductive Linked (s : Set String) : String → String → Prop
  | dependency (x y : String) (item : BuildItem) (hx : x ∈ s) (hitem : builditems[x]? = some item)
      (hy : y ∈ item.expandedDependencies) : Linked s x y
  | buildAlso (x y : String) (member item : BuildItem) (also : BuildAlso) (hx : x ∈ s)
      (hmember : builditems[x]? = some member) (halso : also ∈ member.getBuildAlso)
      (hitem : builditems[y]? = some item)
      (hbuild : isBuildAlso buildtrees builditems item also = some true)
      (hlocal : item.isLocal = true) (htraits : item.hasTraits o.onlyWithTraits = true) :
      Linked s x y
  | reverse (x y : String) (item : BuildItem) (hrdeps : o.withRdeps = true) (hx : x ∈ s)
      (hitem : builditems[y]? = some item) (hdep : x ∈ item.deps) : Linked s x y
  | related (x y trait : String) (item : BuildItem) (hx : x ∈ s)
      (hitem : builditems[y]? = some item)
      (hall : ∀ trait ∈ o.relatedByTraits, ∃ z ∈ s, Refers item trait z)
      (htrait : trait ∈ o.relatedByTraits) (hrefers : Refers item trait x) : Linked s x y

variable (o buildtrees builditems) in
/-- The items that are joined to a selected one by a chain of items of a set. -/
def Joined (s selected : Set String) : Set String :=
  {x | ∃ y ∈ selected, ReflTransGen (Linked o buildtrees builditems s) y x}

variable {s t selected : Set String}

/-- What the rules bring in for items that are joined is joined. -/
theorem fullRule_subset_joined (h : t ⊆ s)
    (hjoined : t ⊆ Joined o buildtrees builditems s selected) :
    fullRule o buildtrees builditems addDependencies t ⊆
      Joined o buildtrees builditems s selected := by
  have hstep : ∀ x y, x ∈ t → Linked o buildtrees builditems s x y →
      y ∈ Joined o buildtrees builditems s selected := by
    intro x y hx hlinked
    obtain ⟨z, hz, hchain⟩ := hjoined hx
    exact ⟨z, hz, hchain.tail hlinked⟩
  refine Set.union_subset (Set.union_subset (Set.union_subset ?_ ?_) ?_) ?_
  · cases addDependencies with
    | false => exact Set.empty_subset _
    | true =>
      rintro y ⟨x, hx, item, hitem, hy⟩
      exact hstep x y hx (.dependency x y item (h hx) hitem hy)
  · rintro y ⟨item, hitem, hlocal, htraits, x, hx, member, hmember, also, halso, hbuild⟩
    exact hstep x y hx
      (.buildAlso x y member item also (h hx) hmember halso hitem hbuild hlocal htraits)
  · cases hrdeps : o.withRdeps with
    | false => exact Set.empty_subset _
    | true =>
      rintro y ⟨item, hitem, x, hdep, hx⟩
      exact hstep x y hx (.reverse x y item hrdeps (h hx) hitem hdep)
  · cases htraits : o.relatedByTraits with
    | nil => exact Set.empty_subset _
    | cons trait traits =>
      rintro y ⟨item, hitem, hall⟩
      have htrait : trait ∈ o.relatedByTraits := htraits ▸ List.mem_cons_self
      obtain ⟨x, hx, hrefers⟩ := hall trait htrait
      refine hstep x y hx (.related x y trait item (h hx) hitem (fun trait' htrait' ↦ ?_) htrait
        hrefers)
      obtain ⟨z, hz, hrefers'⟩ := hall trait' htrait'
      exact ⟨z, h hz, hrefers'⟩

/-- What is made of the selected items is joined to them. -/
theorem expanded_subset_joined (h : expanded o buildtrees builditems addDependencies
      (closure (buildAlsoRule o buildtrees builditems) selected) = s) :
    s ⊆ Joined o buildtrees builditems s selected := by
  have hstart : closure (buildAlsoRule o buildtrees builditems) selected ⊆
      Joined o buildtrees builditems s selected := by
    refine closure_induction (fun x hx ↦ ⟨x, hx, .refl⟩) fun u hu hjoined ↦ ?_
    have hin : fullRule o buildtrees builditems addDependencies u ⊆
        Joined o buildtrees builditems s selected :=
      fullRule_subset_joined ((hu.trans subset_expanded).trans h.subset) hjoined
    exact (buildAlso_le_fullRule u).trans hin
  exact h.symm.subset.trans (expanded_induction hstart fun u hu hjoined ↦
    fullRule_subset_joined (hu.trans h.subset) hjoined)

/-! ### Plugins -/

/-- The plugins of items of a set. -/
def pluginRule (builditems : BuildItemMap) : Set String →o Set String where
  toFun s := {x | ∃ y ∈ s, ∃ item, builditems[y]? = some item ∧ x ∈ item.plugins}
  monotone' _ _ h := fun _ ⟨y, hy, hx⟩ ↦ ⟨y, h hy, hx⟩

theorem members_foldl_insert (hfaithful : Faithful builditems buildset) (names : List String) :
    Faithful builditems (names.foldl
        (fun buildset name ↦ buildset.insert name builditems[name]?) buildset) ∧
      members (names.foldl (fun buildset name ↦ buildset.insert name builditems[name]?) buildset) =
        members buildset ∪ {name | name ∈ names} := by
  induction names generalizing buildset with
  | nil => exact ⟨hfaithful, by ext name; simp⟩
  | cons name names ih =>
    obtain ⟨hrest, hmembers⟩ := ih (faithful_insert hfaithful name)
    refine ⟨hrest, hmembers.trans ?_⟩
    rw [members_insert]
    ext x
    simp only [Set.mem_union, Set.mem_insert_iff, Set.mem_ofPred_eq, List.mem_cons]
    tauto

/-- What adding the plugins does, where no null pointer is met. -/
theorem members_addPlugins (hfaithful : Faithful builditems buildset) {result : Buildset}
    (hrun : addPlugins builditems addDependencies buildset = some result) :
    Faithful builditems result ∧ members result =
      members buildset ∪ used addDependencies (pluginRule builditems) (members buildset) := by
  unfold addPlugins at hrun
  cases addDependencies with
  | false =>
    obtain rfl := Option.some_inj.mp hrun
    exact ⟨hfaithful, (Set.union_empty _).symm⟩
  | true =>
    obtain ⟨l, hl, hrun⟩ := Option.bind_eq_some_iff.mp hrun
    obtain rfl := Option.some_inj.mp hrun
    obtain ⟨hresult, hmembers⟩ := members_foldl_insert hfaithful (l.flatMap BuildItem.plugins)
    refine ⟨hresult, hmembers.trans (congrArg _ ?_)⟩
    ext name
    rw [Set.mem_ofPred_eq, List.mem_flatMap]
    constructor
    · rintro ⟨item, hitem, hname⟩
      obtain ⟨y, hy, hitem⟩ := ((items_eq_some hl hfaithful).2 item).mp hitem
      exact ⟨y, hy, item, hitem, hname⟩
    · rintro ⟨y, hy, item, hitem, hname⟩
      exact ⟨item, ((items_eq_some hl hfaithful).2 item).mpr ⟨y, hy, hitem⟩, hname⟩

theorem isSome_addPlugins (hfaithful : Faithful builditems buildset)
    (hknown : members buildset ⊆ known builditems) :
    ∃ result, addPlugins builditems addDependencies buildset = some result := by
  obtain ⟨l, hl⟩ := isSome_items hfaithful hknown
  unfold addPlugins
  split_ifs
  · rw [hl]
    exact ⟨_, rfl⟩
  · exact ⟨_, rfl⟩

/-! ### The expansion as a whole -/

/-- What is made of the selected items is closed under the rules of every pass. -/
theorem rules_subset_expanded :
    passRule o buildtrees builditems addDependencies
        (expanded o buildtrees builditems addDependencies s) ⊆
      expanded o buildtrees builditems addDependencies s ∧
    (o.repeatExpansion = true → fullRule o buildtrees builditems addDependencies
        (expanded o buildtrees builditems addDependencies s) ⊆
      expanded o buildtrees builditems addDependencies s) := by
  unfold expanded
  split_ifs with hrepeat
  · exact ⟨(passRule_le_fullRule _).trans rule_closure_subset, fun _ ↦ rule_closure_subset⟩
  · exact ⟨rule_closure_subset, fun h ↦ absurd h hrepeat⟩

theorem fullRule_closed (h : fullRule o buildtrees builditems addDependencies s ⊆ s) :
    (o.withRdeps = true → rdepsRule builditems s ⊆ s) ∧
      (o.relatedByTraits ≠ [] → traitsRule o builditems s ⊆ s) := by
  obtain ⟨hrest, htraits⟩ := Set.union_subset_iff.mp h
  have hrdeps := (Set.union_subset_iff.mp hrest).2
  refine ⟨fun hused ↦ ?_, fun hused ↦ ?_⟩
  · rwa [hused] at hrdeps
  · rwa [List.isEmpty_eq_false_iff.mpr hused] at htraits

/-- In a build, the expansion of any selected items ends. The set it makes has the selected
items; it is closed under dependencies, under the items that are asked for, and, if the
expansion is repeated, under reverse dependencies and relations by traits; every item of it
is joined to a selected one; and the build set is made of it and of the plugins of its items. -/
theorem expandBuildset_build (hnames : NamesExist buildtrees builditems) (o : BuildsetOptions)
    (selected : Buildset) (hselected : ∀ (name : String) (entry : Option BuildItem),
      selected[name]? = some entry → ∃ item, builditems[name]? = some item ∧ entry = some item) :
    ∃ enough, ∀ fuel ≥ enough, ∃ e final,
      expandBuildset o buildtrees builditems false fuel selected = some e ∧
      addPlugins builditems (addsDependencies o false) e.buildset = some final ∧
      members selected ⊆ members e.buildset ∧
      dependencyRule builditems (members e.buildset) ⊆ members e.buildset ∧
      buildAlsoRule o buildtrees builditems (members e.buildset) ⊆ members e.buildset ∧
      (o.repeatExpansion = true →
        (o.withRdeps = true → rdepsRule builditems (members e.buildset) ⊆ members e.buildset) ∧
        (o.relatedByTraits ≠ [] → traitsRule o builditems (members e.buildset) ⊆
          members e.buildset)) ∧
      (∀ x ∈ members e.buildset, ∃ y ∈ members selected,
        ReflTransGen (Linked o buildtrees builditems (members e.buildset)) y x) ∧
      members final = members e.buildset ∪ pluginRule builditems (members e.buildset) ∧
      ∀ (name : String) (entry : Option BuildItem), final[name]? = some entry →
        ∃ item, builditems[name]? = some item ∧ entry = some item := by
  have hfaithful : Faithful builditems selected := by
    intro name entry hentry
    obtain ⟨item, hitem, rfl⟩ := hselected name entry hentry
    exact hitem.symm
  have hknown : members selected ⊆ known builditems := by
    intro name hname
    obtain ⟨entry, hentry⟩ := exists_of_mem (mem_members.mp hname)
    obtain ⟨item, hitem, -⟩ := hselected name entry hentry
    exact mem_of_getElem? hitem
  refine ⟨(known builditems).ncard + 1, fun fuel hfuel ↦ ?_⟩
  obtain ⟨e, he⟩ := hnames.isSome_expandBuildset (o := o) hfuel false hfaithful hknown
  obtain ⟨hefaithful, heknown, hemembers⟩ := members_expandBuildset hfaithful he
  obtain ⟨final, hfinal⟩ := @isSome_addPlugins builditems (addsDependencies o false) e.buildset
    hefaithful heknown
  obtain ⟨hfinalFaithful, hfinalMembers⟩ := members_addPlugins hefaithful hfinal
  have hadds : addsDependencies o false = true := rfl
  rw [hadds] at hemembers hfinalMembers
  rw [used_true] at hfinalMembers
  obtain ⟨hpass, hfull⟩ := @rules_subset_expanded o buildtrees builditems true
    (closure (buildAlsoRule o buildtrees builditems) (members selected))
  rw [← hemembers] at hpass hfull
  refine ⟨e, final, he, hfinal, ?_, Set.subset_union_left.trans hpass,
    Set.subset_union_right.trans hpass, fun hrepeat ↦ fullRule_closed (hfull hrepeat), ?_,
    hfinalMembers, fun name entry hentry ↦ ?_⟩
  · have hstart := @subset_closure _ (buildAlsoRule o buildtrees builditems) (members selected)
    have hsub := hstart.trans (@subset_expanded o buildtrees builditems true _)
    rwa [← hemembers] at hsub
  · exact expanded_subset_joined hemembers.symm
  · have hname : name ∈ known builditems := by
      have hin : name ∈ members final := mem_of_getElem? hentry
      rw [hfinalMembers] at hin
      rcases hin with hin | ⟨y, -, item, hitem, hplugin⟩
      · exact heknown hin
      · exact hnames.plugins y item hitem name hplugin
    obtain ⟨item, hitem⟩ := exists_of_mem (mem_known.mp hname)
    exact ⟨item, hitem, (hfinalFaithful name entry hentry).trans hitem⟩

end Total

theorem namesExist_of_toList {buildtrees : BuildTreeMap} {builditems : BuildItemMap}
    (h : ∀ p ∈ builditems.toList, (∀ dep ∈ p.2.expandedDependencies, dep ∈ builditems) ∧
      (∀ plugin ∈ p.2.plugins, plugin ∈ builditems) ∧
      ∀ also ∈ p.2.getBuildAlso,
        also.isTree = false ∧ also.name ∈ builditems ∧ also.withTreeDeps = false) :
    NamesExist buildtrees builditems := by
  have hitem : ∀ (name : String) (item : BuildItem), builditems[name]? = some item →
      (name, item) ∈ builditems.toList := fun _ _ ↦ TreeMap.mem_toList_iff_getElem?_eq_some.mpr
  refine ⟨fun name item hname ↦ (h _ (hitem name item hname)).1,
    fun name item hname ↦ (h _ (hitem name item hname)).2.1,
    fun name item hname also halso htree ↦ ?_,
    fun name item hname also halso _ ↦ ((h _ (hitem name item hname)).2.2 also halso).2⟩
  rw [((h _ (hitem name item hname)).2.2 also halso).1] at htree
  cases htree

/-- A program with a plugin that depends on a library and asks for its tests; another user of the
library; and an item that has a trait with reference to the program. -/
def programItems : BuildItemMap :=
  let forest := readForest "/f" [("t", [])]
    [("library", "t", []), ("plugin", "t", []), ("program", "t", ["library"]), ("report", "t", []),
      ("tests", "t", []), ("user", "t", ["library"])] []
  let expand := fun (item : BuildItem) ↦ item.setExpandedDependencies item.deps
  let builditems := (forest.buildItems.map fun _ item ↦ expand item).modify "program" fun item ↦
    { item.setPlugins ["plugin"] with
      config.buildAlso := [⟨"tests", false, false, false⟩] }
  builditems.modify "report" fun item ↦
    { item with
      traitData := ⟨(∅ : TreeMap _ _).insert "measures" ((∅ : TreeSet _).insert "program")⟩ }

/-- A build with the users of its items and with what measures these. -/
def relatedBuild : BuildsetOptions where
  buildsetName := ""
  cleansetName := ""
  buildsetNamedItems := ∅
  buildsetPattern := none
  onlyWithTraits := []
  relatedByTraits := ["measures"]
  withRdeps := true
  repeatExpansion := true
  applyTargetsToDeps := false
  specialTarget := ""
  localTree := "t"
  thisName := "program"
  currentDirectory := "/f/t/program"

theorem exists_programItem (name : String) {p : BuildItem → Prop} [DecidablePred p]
    (h : (programItems[name]?).any (fun item ↦ decide (p item)) = true) :
    ∃ item, programItems[name]? = some item ∧ p item := by
  cases hitem : programItems[name]? with
  | none =>
    rw [hitem] at h
    cases h
  | some item =>
    rw [hitem] at h
    exact ⟨item, rfl, of_decide_eq_true h⟩

theorem expandBuildset_build_program : ∃ fuel e final,
    expandBuildset relatedBuild ∅ programItems false fuel
      (TreeMap.ofList [("program", programItems["program"]?)]) = some e ∧
    addPlugins programItems true e.buildset = some final ∧
    "library" ∈ members e.buildset ∧ "tests" ∈ members e.buildset ∧ "user" ∈ members e.buildset ∧
    "report" ∈ members e.buildset ∧ "plugin" ∈ members final := by
  have hnames : NamesExist ∅ programItems := namesExist_of_toList (by decide)
  have hselected : ∀ (name : String) (entry : Option BuildItem),
      (TreeMap.ofList [("program", programItems["program"]?)] : Buildset)[name]? = some entry →
        ∃ item, programItems[name]? = some item ∧ entry = some item := by
    intro name entry hentry
    have hmem : (name, entry) ∈ [("program", programItems["program"]?)] :=
      TreeMap.mem_toList_iff_getElem?_eq_some.mpr hentry
    obtain ⟨rfl, rfl⟩ := Prod.mk.inj (List.mem_singleton.mp hmem)
    obtain ⟨item, hitem⟩ := Option.isSome_iff_exists.mp
      (show (programItems["program"]?).isSome by decide)
    exact ⟨item, hitem, hitem⟩
  obtain ⟨fuel, h⟩ := expandBuildset_build hnames relatedBuild _ hselected
  obtain ⟨e, final, he, hfinal, hsub, hdependencies, hbuildAlso, hrelated, -, hmembers, -⟩ :=
    h fuel le_rfl
  obtain ⟨hrdeps, htraits⟩ := hrelated rfl
  have hprogram : "program" ∈ members e.buildset := hsub (mem_members.mpr (by decide))
  obtain ⟨item, hitem, hdep, hplugin, halso⟩ := exists_programItem "program" (p := fun item ↦
    "library" ∈ item.expandedDependencies ∧ "plugin" ∈ item.plugins ∧
      ⟨"tests", false, false, false⟩ ∈ item.getBuildAlso) (by decide)
  obtain ⟨tests, htests, hname, hlocal, hhas⟩ := exists_programItem "tests" (p := fun item ↦
    item.itemName = "tests" ∧ item.isLocal = true ∧
      item.hasTraits relatedBuild.onlyWithTraits = true) (by decide)
  obtain ⟨user, huser, huses⟩ := exists_programItem "user" (p := fun item ↦ "library" ∈ item.deps)
    (by decide)
  obtain ⟨report, hreport, hmeasures⟩ := exists_programItem "report" (p := fun item ↦
    (item.traitData.traitData["measures"]?).any (fun items ↦ items.contains "program") = true)
    (by decide)
  have hlibrary := hdependencies ⟨"program", hprogram, item, hitem, hdep⟩
  refine ⟨fuel, e, final, he, hfinal, hlibrary, ?_, ?_, ?_, ?_⟩
  · refine hbuildAlso ⟨tests, htests, hlocal, hhas, "program", hprogram, item, hitem, _, halso, ?_⟩
    exact isBuildAlso_iff.mpr (hname ▸ .itself (hname ▸ htests))
  · exact hrdeps rfl ⟨user, huser, "library", huses, hlibrary⟩
  · refine htraits (List.cons_ne_nil _ _) ⟨report, hreport, fun trait htrait ↦ ?_⟩
    obtain rfl := List.mem_singleton.mp htrait
    obtain ⟨referentItems, hitems, hin⟩ := (Option.any_eq_true _ _).mp hmeasures
    exact ⟨"program", hprogram, referentItems, hitems, TreeSet.contains_iff_mem.mp hin⟩
  · rw [hmembers]
    exact Or.inr ⟨"program", hprogram, item, hitem, hplugin⟩

end Abuild.Buildset
