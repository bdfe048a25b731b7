import Abuild.Buildset.Total

/-!
The items that an invocation selects, told from the options and the items of the forest
(`Selects`): the item of the current directory or its dependencies, or the local items that
the names, the pattern or the name of the build set pick out. They are what
`selectBuildset` starts from (`members_selectBuildset`).
-/

set_option autoImplicit false
set_option relaxedAutoImplicit false

namespace Abuild.Buildset

open Std (TreeMap TreeSet)

section Selected

variable {o : BuildsetOptions} {buildtrees : BuildTreeMap} {builditems : BuildItemMap}

/-- The build set has no names of items and no pattern, but only its own name. -/
def Plain (o : BuildsetOptions) (name : String) : Prop :=
  o.buildsetNamedItems.isEmpty = true ∧ o.buildsetPattern = none ∧ setName o = name

/-- The names, the pattern or the name of the set pick out an item. -/
def PicksOut (o : BuildsetOptions) (buildtrees : BuildTreeMap) (item : BuildItem) : Prop :=
  if ¬ o.buildsetNamedItems.isEmpty = true then item.itemName ∈ o.buildsetNamedItems
  else match o.buildsetPattern with
    | some isMatch => isMatch item.itemName = true
    | none => setName o = "all" ∨
        (setName o = "local" ∧ item.isInTree o.localTree = true) ∨
        (setName o = "desc" ∧ item.isAtOrBelowPath o.currentDirectory = true) ∨
        ∃ tree, buildtrees[o.localTree]? = some tree ∧
          ((setName o = "deptrees" ∧
              item.isInTrees tree.expandedTreeDepsAndLocal.toList = true) ∨
            (setName o = "descdeptrees" ∧ item.isInTreesAndAtOrBelowPath
              tree.expandedTreeDepsAndLocal.toList o.currentDirectory = true))

/-- The set is one of trees, and the current directory is in none. -/
def TreeMissing (o : BuildsetOptions) : Prop :=
  o.localTree.isEmpty = true ∧
    (setName o = "deptrees" ∨ setName o = "local" ∨ setName o = "descdeptrees")

/-- An invocation is for the item of the current directory. -/
def ForCurrent (o : BuildsetOptions) : Prop :=
  setName o = "" ∨ Plain o "current"

/-- The item of the current directory, where there is one. -/
def Current (o : BuildsetOptions) (builditems : BuildItemMap) (item : BuildItem) : Prop :=
  o.thisName ≠ "" ∧ builditems[o.thisName]? = some item

variable (o buildtrees builditems) in
/-- The items that an invocation selects. -/
inductive Selects : String → Prop
  | current (item : BuildItem) (hset : ForCurrent o) (hitem : Current o builditems item) :
      Selects o.thisName
  | dependency (dep : String) (item : BuildItem) (hset : Plain o "deps")
      (hitem : Current o builditems item) (hdep : dep ∈ item.expandedDependencies) : Selects dep
  | picked (name : String) (item : BuildItem) (hset : setName o ≠ "") (htree : ¬ TreeMissing o)
      (hitem : builditems[name]? = some item) (hlocal : item.isLocal = true)
      (htraits : item.hasTraits o.onlyWithTraits = true)
      (hpicked : PicksOut o buildtrees item) : Selects name

theorem faithful_empty : Faithful builditems ∅ := by
  intro name entry hentry
  rw [TreeMap.getElem?_emptyc] at hentry
  cases hentry

theorem members_empty : members ∅ = ∅ := by
  ext name
  simp [members]

/-- What a predicate picks out is selected, where it is the one of the invocation. -/
theorem members_populate {pred : BuildItem → Bool} {selected : Buildset}
    (hset : setName o ≠ "") (htree : ¬ TreeMissing o) (hcurrent : ¬ Plain o "current")
    (hdeps : ¬ Plain o "deps")
    (hpred : ∀ item, item.isLocal = true → (pred item = true ↔ PicksOut o buildtrees item))
    (hrun : populate o builditems pred = some selected) :
    Faithful builditems selected ∧
      members selected = {name | Selects o buildtrees builditems name} := by
  obtain ⟨p, hp, rfl⟩ := Option.map_eq_some_iff.mp hrun
  have hadds := adds_populateBuildset faithful_empty hp
  refine ⟨hadds.faithful, hadds.members_eq.trans ?_⟩
  rw [members_empty, Set.empty_union]
  ext name
  constructor
  · rintro ⟨item, hitem, hfound, hlocal, htraits⟩
    exact .picked name item hset htree hitem hlocal htraits
      ((hpred item hlocal).mp (Option.some_inj.mp hfound))
  · intro hselects
    cases hselects with
    | current item hfor _ => exact absurd hfor (not_or.mpr ⟨hset, hcurrent⟩)
    | dependency _ item hplain _ _ => exact absurd hplain hdeps
    | picked _ item _ _ hitem hlocal htraits hpicked =>
      exact ⟨item, hitem, congrArg some ((hpred item hlocal).mpr hpicked), hlocal, htraits⟩

theorem lookUp_eq_some {β : Type} {m : TreeMap String β} {name : String} {found : Option β}
    (h : lookUp m name = some found) (b : β) :
    found = some b ↔ name ≠ "" ∧ m[name]? = some b := by
  unfold lookUp at h
  by_cases hname : name.isEmpty = true
  · rw [if_pos hname] at h
    obtain rfl := Option.some_inj.mp h
    simp [String.isEmpty_iff.mp hname]
  · rw [if_neg hname] at h
    obtain ⟨found', hfound, rfl⟩ := Option.map_eq_some_iff.mp h
    rw [hfound, and_iff_right (mt String.isEmpty_iff.mpr hname)]

/-- The item of the current directory is selected, where the invocation is for it. -/
theorem members_currentItem {thisItem : Option BuildItem}
    (hthis : lookUp builditems o.thisName = some thisItem) (hfor : ForCurrent o)
    (hdeps : ¬ Plain o "deps")
    (hpicks : setName o ≠ "" → ∀ item, ¬ PicksOut o buildtrees item) :
    Faithful builditems (currentItem o thisItem) ∧ members (currentItem o thisItem) =
      {name | Selects o buildtrees builditems name} := by
  have hselects : ∀ name, Selects o buildtrees builditems name ↔
      name = o.thisName ∧ ∃ item, thisItem = some item := by
    intro name
    constructor
    · intro h
      cases h with
      | current item _ hitem => exact ⟨rfl, item, (lookUp_eq_some hthis item).mpr hitem⟩
      | dependency _ item hplain _ _ => exact absurd hplain hdeps
      | picked _ item hset _ _ _ _ hpicked => exact absurd hpicked (hpicks hset item)
    · rintro ⟨rfl, item, hitem⟩
      exact .current item hfor ((lookUp_eq_some hthis item).mp hitem)
  cases thisItem with
  | none =>
    refine ⟨faithful_empty, members_empty.trans ?_⟩
    ext name
    simp [hselects]
  | some item =>
    obtain ⟨-, hitem⟩ := (lookUp_eq_some hthis item).mp rfl
    have hinsert := @faithful_insert builditems ∅ faithful_empty o.thisName
    rw [hitem] at hinsert
    refine ⟨hinsert, (members_insert _ _).trans ?_⟩
    rw [members_empty]
    ext name
    simp [hselects]

theorem members_selectBySetName {thisTree : Option BuildTree} {thisItem : Option BuildItem}
    (htree : lookUp buildtrees o.localTree = some thisTree)
    (hthis : lookUp builditems o.thisName = some thisItem) (hset : setName o ≠ "")
    (hmissing : ¬ TreeMissing o) (hnamed : o.buildsetNamedItems.isEmpty = true)
    (hpattern : o.buildsetPattern = none) {selected : Buildset}
    (hrun : selectBySetName o builditems thisTree thisItem = some selected) :
    Faithful builditems selected ∧
      members selected = {name | Selects o buildtrees builditems name} := by
  have hplain : ∀ name, Plain o name ↔ setName o = name := fun name ↦
    ⟨fun h ↦ h.2.2, fun h ↦ ⟨hnamed, hpattern, h⟩⟩
  have hpicks : ∀ item, PicksOut o buildtrees item ↔ setName o = "all" ∨
      (setName o = "local" ∧ item.isInTree o.localTree = true) ∨
      (setName o = "desc" ∧ item.isAtOrBelowPath o.currentDirectory = true) ∨
      ∃ tree, buildtrees[o.localTree]? = some tree ∧
        ((setName o = "deptrees" ∧
            item.isInTrees tree.expandedTreeDepsAndLocal.toList = true) ∨
          (setName o = "descdeptrees" ∧ item.isInTreesAndAtOrBelowPath
            tree.expandedTreeDepsAndLocal.toList o.currentDirectory = true)) := by
    intro item
    unfold PicksOut
    rw [if_neg (not_not.mpr hnamed), hpattern]
  have hfound := lookUp_eq_some htree
  unfold selectBySetName at hrun
  dsimp only at hrun
  split_ifs at hrun with h₁ h₂ h₃ h₄ h₅ h₆ h₇
  · exact members_populate hset hmissing (by simp [hplain, h₁]) (by simp [hplain, h₁])
      (fun item hlocal ↦ by simp [hpicks, h₁, hlocal]) hrun
  · obtain ⟨tree, rfl, hrun⟩ := Option.bind_eq_some_iff.mp hrun
    exact members_populate hset hmissing (by simp [hplain, h₂]) (by simp [hplain, h₂])
      (fun item _ ↦ by simp [hpicks, h₂, ((hfound tree).mp rfl).2]) hrun
  · obtain ⟨tree, rfl, hrun⟩ := Option.bind_eq_some_iff.mp hrun
    exact members_populate hset hmissing (by simp [hplain, h₃]) (by simp [hplain, h₃])
      (fun item _ ↦ by simp [hpicks, h₃, ((hfound tree).mp rfl).2]) hrun
  · exact members_populate hset hmissing (by simp [hplain, h₄]) (by simp [hplain, h₄])
      (fun item _ ↦ by simp [hpicks, h₄]) hrun
  · exact members_populate hset hmissing (by simp [hplain, h₅]) (by simp [hplain, h₅])
      (fun item _ ↦ by simp [hpicks, h₅]) hrun
  · obtain rfl := Option.some_inj.mp hrun
    obtain ⟨hfaithful, hmembers⟩ := members_foldl_insert faithful_empty
      ((thisItem.map BuildItem.expandedDependencies).getD [])
    refine ⟨hfaithful, hmembers.trans ?_⟩
    rw [members_empty, Set.empty_union]
    ext name
    constructor
    · intro hname
      cases thisItem with
      | none => cases hname
      | some item =>
        exact .dependency name item ((hplain _).mpr h₆) ((lookUp_eq_some hthis item).mp rfl) hname
    · intro hselects
      cases hselects with
      | current item hfor _ =>
        rcases hfor with hempty | hcurrent
        · exact absurd hempty hset
        · exact absurd (h₆.symm.trans ((hplain _).mp hcurrent)) (by decide)
      | dependency _ item _ hitem hdep =>
        obtain rfl := (lookUp_eq_some hthis item).mpr hitem
        exact hdep
      | picked _ item _ _ _ _ _ hpicked => simp [hpicks, h₆] at hpicked
  · obtain rfl := Option.some_inj.mp hrun
    exact members_currentItem hthis (Or.inr ((hplain _).mpr h₇)) (by simp [hplain, h₇])
      fun _ item ↦ by simp [hpicks, h₇]

/-- What is selected are the items that the invocation selects, and null pointers for names
that are not known. -/
theorem members_selectBuildset {selected : Buildset} {errors : List ErrorMessage}
    (hrun : selectBuildset o buildtrees builditems = some (selected, errors)) :
    Faithful builditems selected ∧
      members selected = {name | Selects o buildtrees builditems name} := by
  unfold selectBuildset at hrun
  obtain ⟨thisTree, htree, hrun⟩ := Option.bind_eq_some_iff.mp hrun
  obtain ⟨thisItem, hthis, hrun⟩ := Option.bind_eq_some_iff.mp hrun
  dsimp only at hrun
  by_cases hset : (setName o).isEmpty = true
  · rw [if_pos hset] at hrun
    obtain ⟨rfl, -⟩ := Prod.mk.inj (Option.some_inj.mp hrun)
    have hempty := String.isEmpty_iff.mp hset
    exact members_currentItem hthis (Or.inl hempty)
      (fun h ↦ absurd (hempty.symm.trans h.2.2) (by decide)) fun hne ↦ absurd hempty hne
  rw [if_neg hset] at hrun
  have hne : setName o ≠ "" := mt String.isEmpty_iff.mpr hset
  by_cases hmissing : o.localTree.isEmpty = true ∧
      (setName o = "deptrees" ∨ setName o = "local" ∨ setName o = "descdeptrees")
  · rw [if_pos hmissing] at hrun
    obtain ⟨rfl, -⟩ := Prod.mk.inj (Option.some_inj.mp hrun)
    refine ⟨faithful_empty, members_empty.trans ?_⟩
    symm
    rw [Set.eq_empty_iff_forall_notMem]
    intro name hselects
    have hother : ∀ {set}, Plain o set → set ≠ "deptrees" → set ≠ "local" →
        set ≠ "descdeptrees" → False := by
      rintro set ⟨-, -, rfl⟩ h₁ h₂ h₃
      rcases hmissing.2 with h | h | h
      · exact h₁ h
      · exact h₂ h
      · exact h₃ h
    cases hselects with
    | current item hfor _ =>
      exact hother (hfor.resolve_left hne) (by decide) (by decide) (by decide)
    | dependency _ item hplain _ _ => exact hother hplain (by decide) (by decide) (by decide)
    | picked _ item _ htree _ _ _ _ => exact htree hmissing
  rw [if_neg hmissing] at hrun
  by_cases hnamed : ¬ o.buildsetNamedItems.isEmpty = true
  · rw [if_pos hnamed] at hrun
    obtain ⟨b, hb, heq⟩ := Option.map_eq_some_iff.mp hrun
    obtain ⟨rfl, -⟩ := Prod.mk.inj heq
    refine members_populate hne hmissing (fun h ↦ hnamed h.1) (fun h ↦ hnamed h.1)
      (fun item _ ↦ ?_) hb
    unfold PicksOut
    rw [if_pos hnamed]
    exact TreeSet.contains_iff_mem
  rw [if_neg hnamed] at hrun
  cases hpattern : o.buildsetPattern with
  | some isMatch =>
    rw [hpattern] at hrun
    obtain ⟨b, hb, heq⟩ := Option.map_eq_some_iff.mp hrun
    obtain ⟨rfl, -⟩ := Prod.mk.inj heq
    have hplain : ∀ set, ¬ Plain o set := by
      rintro set ⟨-, hnone, -⟩
      cases hpattern.symm.trans hnone
    refine members_populate hne hmissing (hplain _) (hplain _) (fun item _ ↦ ?_) hb
    unfold PicksOut
    rw [if_neg hnamed, hpattern]
  | none =>
    rw [hpattern] at hrun
    obtain ⟨b, hb, heq⟩ := Option.map_eq_some_iff.mp hrun
    obtain ⟨rfl, -⟩ := Prod.mk.inj heq
    exact members_selectBySetName htree hthis hne hmissing (not_not.mp hnamed) hpattern hb

end Selected

end Abuild.Buildset
