import Abuild.Buildset.Expansion

/-!
The passes of the expansion. A pass is a function on sets of names, and the loop computes
the closure under all rules, or, where only the first pass uses reverse dependencies and
traits, the closure under the other rules of what this pass makes of the selected items
(`members_expandBuildset`). The loop ends where all names that the items refer to are known.
-/

set_option autoImplicit false
set_option relaxedAutoImplicit false

namespace Abuild.Buildset

open BuildForest Saturation
open Std (TreeMap TreeSet)

/-! ### Passes -/

section Passes

variable (o : BuildsetOptions) (buildtrees : BuildTreeMap) (builditems : BuildItemMap)
  (addDependencies : Bool)

/-- What a pass without reverse dependencies and traits makes of a set. -/
def shortPass (s : Set String) : Set String :=
  closure (buildAlsoRule o buildtrees builditems)
    (s ∪ used addDependencies (dependencyRule builditems) s)

/-- What a pass with reverse dependencies and traits makes of a set. -/
def fullPass (s : Set String) : Set String :=
  let s := closure (used o.withRdeps (rdepsRule builditems))
    (shortPass o buildtrees builditems addDependencies s)
  s ∪ used (!o.relatedByTraits.isEmpty) (traitsRule o builditems) s

/-- What all passes make of a set. -/
def expanded (s : Set String) : Set String :=
  if o.repeatExpansion then closure (fullRule o buildtrees builditems addDependencies) s
  else closure (passRule o buildtrees builditems addDependencies)
    (fullPass o buildtrees builditems addDependencies s)

variable {o buildtrees builditems addDependencies} {s : Set String}

theorem subset_shortPass : s ⊆ shortPass o buildtrees builditems addDependencies s :=
  Set.subset_union_left.trans subset_closure

theorem shortPass_subset_fullPass : shortPass o buildtrees builditems addDependencies s ⊆
    fullPass o buildtrees builditems addDependencies s :=
  subset_closure.trans Set.subset_union_left

theorem passRule_le_fullRule : passRule o buildtrees builditems addDependencies ≤
    fullRule o buildtrees builditems addDependencies := le_sup_of_le_left le_sup_left

theorem dependencies_le_fullRule : used addDependencies (dependencyRule builditems) ≤
    fullRule o buildtrees builditems addDependencies := le_sup_left.trans passRule_le_fullRule

theorem buildAlso_le_fullRule : buildAlsoRule o buildtrees builditems ≤
    fullRule o buildtrees builditems addDependencies := le_sup_right.trans passRule_le_fullRule

theorem rdeps_le_fullRule : used o.withRdeps (rdepsRule builditems) ≤
    fullRule o buildtrees builditems addDependencies := le_sup_of_le_left le_sup_right

theorem traits_le_fullRule : used (!o.relatedByTraits.isEmpty) (traitsRule o builditems) ≤
    fullRule o buildtrees builditems addDependencies := le_sup_right

theorem shortPass_subset_closure : shortPass o buildtrees builditems addDependencies s ⊆
    closure (passRule o buildtrees builditems addDependencies) s := by
  have hrule := @rule_closure_subset _ (passRule o buildtrees builditems addDependencies) s
  refine closure_subset (Set.union_subset subset_closure ?_) (Set.subset_union_right.trans hrule)
  have hmono := (used addDependencies (dependencyRule builditems)).monotone
    (@subset_closure _ (passRule o buildtrees builditems addDependencies) s)
  exact hmono.trans (Set.subset_union_left.trans hrule)

theorem fullPass_subset_closure : fullPass o buildtrees builditems addDependencies s ⊆
    closure (fullRule o buildtrees builditems addDependencies) s := by
  have hrule := @rule_closure_subset _ (fullRule o buildtrees builditems addDependencies) s
  have hshort : shortPass o buildtrees builditems addDependencies s ⊆
      closure (fullRule o buildtrees builditems addDependencies) s :=
    shortPass_subset_closure.trans (closure_mono_rule passRule_le_fullRule)
  have hrdeps : closure (used o.withRdeps (rdepsRule builditems))
      (shortPass o buildtrees builditems addDependencies s) ⊆
        closure (fullRule o buildtrees builditems addDependencies) s :=
    closure_subset hshort ((rdeps_le_fullRule _).trans hrule)
  refine Set.union_subset hrdeps ?_
  exact ((used (!o.relatedByTraits.isEmpty) (traitsRule o builditems)).monotone hrdeps).trans
    ((traits_le_fullRule _).trans hrule)

theorem subset_expanded : s ⊆ expanded o buildtrees builditems addDependencies s := by
  unfold expanded
  split_ifs
  · exact subset_closure
  · exact (subset_shortPass.trans shortPass_subset_fullPass).trans subset_closure

/-- What the rules bring in for parts of the expanded set that are in a set is in the set. -/
theorem expanded_induction {t : Set String} (h : s ⊆ t)
    (hrule : ∀ u ⊆ expanded o buildtrees builditems addDependencies s, u ⊆ t →
      fullRule o buildtrees builditems addDependencies u ⊆ t) :
    expanded o buildtrees builditems addDependencies s ⊆ t := by
  by_cases hrepeat : o.repeatExpansion = true
  · have heq : expanded o buildtrees builditems addDependencies s =
        closure (fullRule o buildtrees builditems addDependencies) s := if_pos hrepeat
    rw [heq] at hrule ⊢
    exact closure_induction h hrule
  -- the first pass goes through its rules one after the other
  have heq : expanded o buildtrees builditems addDependencies s =
      closure (passRule o buildtrees builditems addDependencies)
        (fullPass o buildtrees builditems addDependencies s) := if_neg hrepeat
  rw [heq] at hrule ⊢
  have hfull := @subset_closure _ (passRule o buildtrees builditems addDependencies)
    (fullPass o buildtrees builditems addDependencies s)
  have hdependents := Set.subset_union_left.trans hfull
  have hshort := subset_closure.trans hdependents
  have hdependencies : s ∪ used addDependencies (dependencyRule builditems) s ⊆ t :=
    Set.union_subset h ((dependencies_le_fullRule s).trans
      (hrule s ((Set.subset_union_left.trans subset_closure).trans hshort) h))
  have hpassed : shortPass o buildtrees builditems addDependencies s ⊆ t :=
    closure_induction hdependencies fun u hu hin ↦
      (buildAlso_le_fullRule u).trans (hrule u (hu.trans hshort) hin)
  have hreverse : closure (used o.withRdeps (rdepsRule builditems))
      (shortPass o buildtrees builditems addDependencies s) ⊆ t :=
    closure_induction hpassed fun u hu hin ↦
      (rdeps_le_fullRule u).trans (hrule u (hu.trans hdependents) hin)
  have hrelated : fullPass o buildtrees builditems addDependencies s ⊆ t :=
    Set.union_subset hreverse ((traits_le_fullRule _).trans (hrule _ hdependents hreverse))
  exact closure_induction hrelated fun u hu hin ↦
    (passRule_le_fullRule u).trans (hrule u hu hin)

/-- A pass that adds nothing has nothing left to be added. -/
theorem passRule_subset_of_shortPass (h : shortPass o buildtrees builditems addDependencies s ⊆ s) :
    passRule o buildtrees builditems addDependencies s ⊆ s := by
  refine Set.union_subset ?_ ?_
  · exact (Set.subset_union_right.trans subset_closure).trans h
  · exact ((buildAlsoRule o buildtrees builditems).monotone subset_shortPass).trans
      (rule_closure_subset.trans h)

theorem fullRule_subset_of_fullPass (h : fullPass o buildtrees builditems addDependencies s ⊆ s) :
    fullRule o buildtrees builditems addDependencies s ⊆ s := by
  have hsub : s ⊆ closure (used o.withRdeps (rdepsRule builditems))
      (shortPass o buildtrees builditems addDependencies s) :=
    subset_shortPass.trans subset_closure
  refine Set.union_subset (Set.union_subset ?_ ?_) ?_
  · exact passRule_subset_of_shortPass (shortPass_subset_fullPass.trans h)
  · exact ((used o.withRdeps (rdepsRule builditems)).monotone hsub).trans
      ((rule_closure_subset.trans Set.subset_union_left).trans h)
  · exact ((used (!o.relatedByTraits.isEmpty) (traitsRule o builditems)).monotone hsub).trans
      (Set.subset_union_right.trans h)

/-- A pass of the loop, from one state to the next. -/
structure Passed (o : BuildsetOptions) (buildtrees : BuildTreeMap) (builditems : BuildItemMap)
    (addDependencies : Bool) (s s' : Expansion) (changed : Bool) : Prop where
  faithful : Faithful builditems s'.buildset
  members_eq : members s'.buildset =
    if o.repeatExpansion || s.firstPass then
      fullPass o buildtrees builditems addDependencies (members s.buildset)
    else shortPass o buildtrees builditems addDependencies (members s.buildset)
  changed_iff : changed = true ↔ ∃ name ∈ members s'.buildset, name ∉ members s.buildset
  firstPass_eq : s'.firstPass = false
  known : members s'.buildset ⊆ known builditems

theorem closure_rdeps_subset_known (h : s ⊆ known builditems) :
    closure (used o.withRdeps (rdepsRule builditems)) s ⊆ known builditems := by
  refine closure_subset h ?_
  cases o.withRdeps with
  | false => exact Set.empty_subset _
  | true =>
    intro name hname
    obtain ⟨item, hitem, -⟩ := hname
    exact mem_of_getElem? hitem

theorem traits_subset_known :
    used (!o.relatedByTraits.isEmpty) (traitsRule o builditems) s ⊆ known builditems := by
  cases o.relatedByTraits.isEmpty with
  | true => exact Set.empty_subset _
  | false => exact fun name ⟨item, hitem, _⟩ ↦ mem_of_getElem? hitem

theorem passed_of_expansionPass {fuel : ℕ} {e e' : Expansion} {changed : Bool}
    (h : Faithful builditems e.buildset)
    (hrun : expansionPass o buildtrees builditems addDependencies fuel e = some (e', changed)) :
    Passed o buildtrees builditems addDependencies e e' changed := by
  obtain ⟨⟨b₁, byDependencies⟩, hdependencies, hrun⟩ := Option.bind_eq_some_iff.mp hrun
  obtain ⟨⟨b₂, byBuildAlso⟩, halso, hrun⟩ := Option.bind_eq_some_iff.mp hrun
  have hadds₁ := adds_expandByDependencies h hdependencies
  obtain ⟨hadds₂, hknown⟩ := adds_addBuildAlsoToBuildset hadds₁.faithful halso
  have hshort :
      members b₂ = shortPass o buildtrees builditems addDependencies (members e.buildset) := by
    have heq := hadds₂.members_eq
    rw [Set.union_eq_right.mpr subset_closure, hadds₁.members_eq] at heq
    exact heq
  have hadds := hadds₁.trans hadds₂
  by_cases hfull : (o.repeatExpansion || e.firstPass) = true
  · dsimp only at hrun
    rw [if_neg (by rw [hfull]; exact Bool.false_ne_true)] at hrun
    obtain ⟨⟨b₃, byRdeps⟩, hrdeps, hrun⟩ := Option.bind_eq_some_iff.mp hrun
    obtain ⟨rfl, rfl⟩ := Prod.mk.inj (Option.some_inj.mp hrun)
    have hadds₃ := adds_expandByRdeps hadds₂.faithful hrdeps
    have hadds₄ := @adds_expandByTraits o builditems b₃ hadds₃.faithful e.explicitTargetItems
    have hrdepsMembers : members b₃ = closure (used o.withRdeps (rdepsRule builditems))
        (shortPass o buildtrees builditems addDependencies (members e.buildset)) := by
      have heq := hadds₃.members_eq
      rw [Set.union_eq_right.mpr subset_closure, hshort] at heq
      exact heq
    have hknown₃ : members b₃ ⊆ known builditems := by
      rw [hrdepsMembers, ← hshort]
      exact closure_rdeps_subset_known hknown
    refine ⟨hadds₄.faithful, ?_, ((hadds.trans hadds₃).trans hadds₄).changed_iff, rfl, ?_⟩
    · rw [if_pos hfull, hadds₄.members_eq, hrdepsMembers]
      rfl
    · rw [hadds₄.members_eq]
      exact Set.union_subset hknown₃ traits_subset_known
  · dsimp only at hrun
    rw [if_pos (by simpa using hfull)] at hrun
    obtain ⟨rfl, rfl⟩ := Prod.mk.inj (Option.some_inj.mp hrun)
    refine ⟨hadds.faithful, ?_, hadds.changed_iff, ?_, hknown⟩
    · rw [if_neg hfull]
      exact hshort
    · rw [Bool.not_eq_true, Bool.or_eq_false_iff] at hfull
      exact hfull.2

theorem Passed.unchanged {e e' : Expansion}
    (h : Passed o buildtrees builditems addDependencies e e' false) :
    members e'.buildset = members e.buildset := by
  have hsub : members e.buildset ⊆ members e'.buildset := by
    rw [h.members_eq]
    split_ifs
    · exact subset_shortPass.trans shortPass_subset_fullPass
    · exact subset_shortPass
  refine Set.Subset.antisymm (fun name hname ↦ ?_) hsub
  by_contra hnot
  exact Bool.false_ne_true (h.changed_iff.mpr ⟨name, hname, hnot⟩)

theorem Passed.subset {e e' : Expansion} {changed : Bool}
    (h : Passed o buildtrees builditems addDependencies e e' changed) :
    members e.buildset ⊆ members e'.buildset := by
  rw [h.members_eq]
  split_ifs
  · exact subset_shortPass.trans shortPass_subset_fullPass
  · exact subset_shortPass

variable (o buildtrees builditems addDependencies) in
/-- The rule that passes use which are all alike. -/
def loopRule : Set String →o Set String :=
  if o.repeatExpansion then fullRule o buildtrees builditems addDependencies
  else passRule o buildtrees builditems addDependencies

/-- Passes that are all alike compute the closure under their rule. -/
theorem members_loop {passFuel fuel : ℕ} {e e' : Expansion}
    (hmode : o.repeatExpansion = true ∨ e.firstPass = false)
    (h : Faithful builditems e.buildset)
    (hrun : untilStable (expansionPass o buildtrees builditems addDependencies passFuel) fuel e =
      some e') :
    Faithful builditems e'.buildset ∧ members e'.buildset ⊆ known builditems ∧
      members e'.buildset =
        closure (loopRule o buildtrees builditems addDependencies) (members e.buildset) := by
  have hround : ∀ (t t' : Expansion) (changed : Bool),
      expansionPass o buildtrees builditems addDependencies passFuel t = some (t', changed) →
      (Faithful builditems t.buildset ∧ (o.repeatExpansion = true ∨ t.firstPass = false)) →
      (Faithful builditems t'.buildset ∧ (o.repeatExpansion = true ∨ t'.firstPass = false)) ∧
        members t.buildset ⊆ members t'.buildset ∧
        members t'.buildset ⊆
          closure (loopRule o buildtrees builditems addDependencies) (members t.buildset) ∧
        (changed = false → loopRule o buildtrees builditems addDependencies (members t'.buildset) ⊆
          members t'.buildset) := by
    rintro t t' changed ht ⟨hfaithful, hmode⟩
    have hpassed := passed_of_expansionPass hfaithful ht
    refine ⟨⟨hpassed.faithful, Or.inr hpassed.firstPass_eq⟩, hpassed.subset, ?_, fun hfalse ↦ ?_⟩
    · rw [hpassed.members_eq]
      unfold loopRule
      cases hrepeat : o.repeatExpansion with
      | true => exact fullPass_subset_closure
      | false =>
        rw [hmode.resolve_left (by rw [hrepeat]; exact Bool.false_ne_true)]
        exact shortPass_subset_closure
    · subst hfalse
      have hsame := hpassed.members_eq.symm.trans hpassed.unchanged
      rw [hpassed.unchanged]
      unfold loopRule
      cases hrepeat : o.repeatExpansion with
      | true =>
        rw [hrepeat, Bool.true_or, if_pos rfl] at hsame
        exact fullRule_subset_of_fullPass hsame.subset
      | false =>
        rw [hrepeat, hmode.resolve_left (by rw [hrepeat]; exact Bool.false_ne_true)] at hsame
        exact passRule_subset_of_shortPass hsame.subset
  obtain ⟨⟨hfaithful, -⟩, hmembers⟩ := members_untilStable hround hrun ⟨h, hmode⟩
  obtain ⟨-, last, hlast, hend⟩ := untilStable_induction
    (motive := fun t : Expansion ↦ Faithful builditems t.buildset) hrun h
    fun t t' changed ht hfaithful ↦ (passed_of_expansionPass hfaithful ht).faithful
  exact ⟨hfaithful, (passed_of_expansionPass hlast hend).known, hmembers⟩

/-- What the loop makes of the build set. -/
theorem members_expansionLoop {passFuel fuel : ℕ} {e e' : Expansion} (hfirst : e.firstPass = true)
    (h : Faithful builditems e.buildset)
    (hrun : untilStable (expansionPass o buildtrees builditems addDependencies passFuel) fuel e =
      some e') :
    Faithful builditems e'.buildset ∧ members e'.buildset ⊆ known builditems ∧
      members e'.buildset = expanded o buildtrees builditems addDependencies
        (members e.buildset) := by
  by_cases hrepeat : o.repeatExpansion = true
  · obtain ⟨hfaithful, hknown, hmembers⟩ := members_loop (Or.inl hrepeat) h hrun
    refine ⟨hfaithful, hknown, ?_⟩
    unfold expanded
    rw [hmembers, if_pos hrepeat]
    unfold loopRule
    rw [if_pos hrepeat]
  cases fuel with
  | zero => cases hrun
  | succ fuel =>
    obtain ⟨⟨e₁, changed⟩, hpass, hrest⟩ := Option.bind_eq_some_iff.mp hrun
    have hpassed := passed_of_expansionPass h hpass
    have hfull : members e₁.buildset =
        fullPass o buildtrees builditems addDependencies (members e.buildset) := by
      have heq := hpassed.members_eq
      rwa [hfirst, Bool.or_true, if_pos rfl] at heq
    unfold expanded
    rw [if_neg hrepeat, ← hfull]
    cases changed with
    | true =>
      have hloop := members_loop (Or.inr hpassed.firstPass_eq) hpassed.faithful hrest
      unfold loopRule at hloop
      rwa [if_neg hrepeat] at hloop
    | false =>
      obtain rfl := Option.some_inj.mp hrest
      refine ⟨hpassed.faithful, hpassed.known, eq_closure Set.Subset.rfl subset_closure ?_⟩
      have hclosed := fullRule_subset_of_fullPass (hfull.symm.trans hpassed.unchanged).subset
      rw [hpassed.unchanged]
      exact (passRule_le_fullRule _).trans hclosed

/-- The build set before the plugins are added is what the rules make of the selected
items. -/
theorem members_expandBuildset {cleaning : Bool} {fuel : ℕ} {selected : Buildset}
    {e : Expansion} (h : Faithful builditems selected)
    (hrun : expandBuildset o buildtrees builditems cleaning fuel selected = some e) :
    Faithful builditems e.buildset ∧ members e.buildset ⊆ known builditems ∧
      members e.buildset = expanded o buildtrees builditems (addsDependencies o cleaning)
        (closure (buildAlsoRule o buildtrees builditems) (members selected)) := by
  unfold expandBuildset at hrun
  obtain ⟨⟨b, added⟩, halso, hloop⟩ := Option.bind_eq_some_iff.mp hrun
  obtain ⟨hadds, -⟩ := adds_addBuildAlsoToBuildset h halso
  have hmembers :
      members b = closure (buildAlsoRule o buildtrees builditems) (members selected) := by
    have heq := hadds.members_eq
    rwa [Set.union_eq_right.mpr subset_closure] at heq
  have hresult := members_expansionLoop rfl hadds.faithful hloop
  rw [hmembers] at hresult
  exact hresult

end Passes

end Abuild.Buildset
