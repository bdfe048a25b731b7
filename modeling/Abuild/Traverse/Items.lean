import Abuild.Traverse.Backing

/-!
The items of a forest, as they are traversed without 1.0 compatibility. If there are no errors, they
are those of the directories that can be reached from the root over children that exist: none of
them is lost, and there are no others (`readForests_items`).
-/

set_option autoImplicit false
set_option relaxedAutoImplicit false

namespace Abuild

open BuildForest Relation
open Fallible (Ends)
open Std (TreeMap TreeSet)

/-- A child of a directory that exists. -/
def Disk.Child (disk : Disk) (dir childDir : String) : Prop :=
  ∃ child ∈ (disk.config dir).children, childDir = disk.childDir dir child ∧
    disk.isDirectory childDir = true ∧ disk.isFile (disk.childConf childDir) = true

/-- The items of the forest at `p` are the named ones of the directories below. -/
structure HasItems (disk : Disk) (p : String) (forest : BuildForest) : Prop where
  found : ∀ (name : String) (item : BuildItem), forest.buildItems[name]? = some item →
    ∃ dir, ReflTransGen disk.Child p dir ∧ item.config = (disk.config dir).item ∧
      name = item.config.name ∧ name ≠ ""
  kept : ∀ dir, ReflTransGen disk.Child p dir → (disk.config dir).item.name ≠ "" →
    ∃ item, forest.buildItems[(disk.config dir).item.name]? = some item ∧
      item.config = (disk.config dir).item

/-! ### Errors are kept -/

/-- From `t` to `t'`, no error is taken back. -/
def Told (t t' : Traversal) : Prop := t'.findings.errors = [] → t.findings.errors = []

section Errors

variable {disk : Disk} {r : Traverser} {t t' t'' : Traversal}

theorem Told.refl (t : Traversal) : Told t t := fun h ↦ h

theorem Told.trans (h : Told t t') (h' : Told t' t'') : Told t t'' := fun hnone ↦ h (h' hnone)

theorem error_ne (t : Traversal) (location : FileLocation) (message : String) :
    (t.error location message).findings.errors ≠ [] := by
  unfold Traversal.error
  simp

theorem told_error (t : Traversal) (location : FileLocation) (message : String) :
    Told t (t.error location message) := fun hnone ↦ absurd hnone (error_ne t location message)

theorem findTop_told (steps : ℕ) (t : Traversal) (startDir description : String) :
    Ends (fun x ↦ Told t x.2) (fun _ ↦ True) (disk.findTop steps t startDir description) := by
  unfold Disk.findTop
  split
  · exact Told.refl t
  · have hsearch : Ends (fun _ ↦ True) (fun _ ↦ True) (disk.searchTop steps startDir) :=
      (searchTop_ends steps startDir).mono (fun _ _ ↦ trivial) fun _ _ ↦ trivial
    refine hsearch.bind fun top _ ↦ ?_
    show Told t { (if top.isEmpty then t.error .empty _ else t) with findTopCache := _ }
    unfold Told
    dsimp only
    split_ifs
    · exact told_error t _ _
    · exact fun h ↦ h

theorem readBackingData_told (t : Traversal) (dir : String) :
    Ends (fun x ↦ Told t x.2) (fun _ ↦ True) (disk.readBackingData t dir) := by
  have hread : Ends (fun _ ↦ True) (fun _ ↦ True) (disk.readBacking dir) := by
    unfold Disk.readBacking
    split <;> trivial
  unfold Disk.readBackingData
  refine hread.bind fun backing _ ↦ ?_
  show Told t (if backing.backingAreas.isEmpty then t.error _ _ else t)
  split_ifs
  · exact told_error t _ _
  · exact Told.refl t

theorem appendBackingArea_told {steps : ℕ} {dir bdir : String} {backing : BackingConfig}
    (x : BuildForest × Traversal) :
    Ends (fun x' ↦ x'.1.buildItems = x.1.buildItems ∧ Told x.2 x'.2) (fun _ ↦ True)
      (disk.appendBackingArea steps dir backing x bdir) := by
  unfold Disk.appendBackingArea
  refine (findTop_told steps x.2 bdir _).bind ?_
  rintro ⟨btop, t₁⟩ htold
  dsimp only
  split_ifs
  · exact ⟨rfl, htold.trans (told_error t₁ _ _)⟩
  · exact ⟨rfl, htold⟩

theorem appendBackingData_told (allow10 : Bool) (steps : ℕ) (forest : BuildForest) (t : Traversal)
    (dir : String) :
    Ends (fun x ↦ x.1.buildItems = forest.buildItems ∧ Told t x.2) (fun _ ↦ True)
      (disk.appendBackingData allow10 steps forest t dir) := by
  have hfile : Ends (fun x ↦ x.1.buildItems = forest.buildItems ∧ Told t x.2) (fun _ ↦ True)
      (disk.appendBackingFile steps forest t dir) := by
    unfold Disk.appendBackingFile
    split_ifs
    · refine (readBackingData_told t dir).bind ?_
      rintro ⟨backing, t₁⟩ hread
      have hfold := Ends.foldlM (l := backing.backingAreas)
        (g := disk.appendBackingArea steps dir backing) (s := (forest, t₁)) (E := fun _ ↦ True)
        (motive := fun _ x ↦ x.1.buildItems = forest.buildItems ∧ Told t x.2)
        ⟨rfl, hread⟩ (by
          rintro before bdir - - x ⟨hitems, htold⟩
          exact (appendBackingArea_told x).mono
            (fun x' hx' ↦ ⟨hx'.1.trans hitems, htold.trans hx'.2⟩) fun _ h ↦ h)
      exact hfold.bind fun x hx ↦ hx
    · exact ⟨rfl, Told.refl t⟩
  unfold Disk.appendBackingData
  refine hfile.bind ?_
  rintro ⟨forest', t'⟩ hx
  split_ifs
  · have hconfig : Ends (fun _ ↦ True) (fun _ ↦ True) (disk.readConfig dir) :=
      (readConfig_ends disk dir).mono (fun _ _ ↦ trivial) fun _ _ ↦ trivial
    exact hconfig.bind fun config _ ↦ hx
  · exact hx

theorem addTreeToForest_told (forest : BuildForest) (t : Traversal) (treeName : String)
    (tree : BuildTree) : Told t (forest.addTreeToForest t treeName tree).2 := by
  unfold BuildForest.addTreeToForest
  split
  · split_ifs
    · exact Told.refl t
    · exact (told_error t _ _).trans (told_error _ _ _)
  · exact Told.refl t

theorem traverseTree_items (hstrict : r.allow10 = false) (s : ItemsTraversal) (q : DirQueue)
    (dir : String) :
    Ends (fun x ↦ x.2.forest.buildItems = s.forest.buildItems ∧ Told s.traversal x.2.traversal)
      (ItemsHalt r.disk) (r.traverseTree s q dir) := by
  unfold Traverser.traverseTree
  split_ifs
  · unfold Traverser.registerBuildTree
    refine (nameTree_ends hstrict s.traversal dir).bind ?_
    rintro ⟨treeName, t⟩ rfl
    simp only [hstrict, Bool.false_eq_true, if_false, List.foldlM_nil, List.isEmpty_nil, if_true,
      pure_bind]
    exact ⟨(addTreeToForest_keeps _ _ _ _).2.1, addTreeToForest_told _ _ _ _⟩
  · exact ⟨rfl, Told.refl _⟩

theorem noteLocalTree_findings (t : Traversal) (dir treeName : String) :
    (r.noteLocalTree t dir treeName).findings = t.findings := by
  unfold Traverser.noteLocalTree
  split_ifs <;> rfl

theorem traverseChild_items (hasBackingArea : Bool) (dir : String) (config : DirConfig dir)
    (x : DirQueue × Traversal) (child : String) :
    Told x.2 (r.traverseChild hasBackingArea dir config x child).2 ∧
      ∀ c, c ∈ (r.traverseChild hasBackingArea dir config x child).1.dirs ↔ c ∈ x.1.dirs ∨
        c = r.disk.childDir dir child ∧ r.disk.isDirectory c = true ∧
          r.disk.isFile (r.disk.childConf c) = true := by
  unfold Traverser.traverseChild
  dsimp only
  split_ifs with hdir hfile hmissing
  · refine ⟨Told.refl _, fun c ↦ ?_⟩
    rw [List.mem_append, List.mem_singleton]
    refine or_congr_right ⟨?_, And.left⟩
    rintro rfl
    exact ⟨rfl, hdir, hfile⟩
  · refine ⟨told_error _ _ _, fun c ↦ (or_iff_left ?_).symm⟩
    rintro ⟨rfl, -, hconf⟩
    exact hfile hconf
  · refine ⟨Told.refl _, fun c ↦ (or_iff_left ?_).symm⟩
    rintro ⟨rfl, hdir', -⟩
    exact hdir hdir'
  · refine ⟨told_error _ _ _, fun c ↦ (or_iff_left ?_).symm⟩
    rintro ⟨rfl, hdir', -⟩
    exact hdir hdir'

theorem traverseChildren_items (hasBackingArea : Bool) (dir : String) (config : DirConfig dir)
    (children : List String) (x : DirQueue × Traversal) :
    Told x.2 (children.foldl (r.traverseChild hasBackingArea dir config) x).2 ∧
      ∀ c, c ∈ (children.foldl (r.traverseChild hasBackingArea dir config) x).1.dirs ↔
        c ∈ x.1.dirs ∨ ∃ child ∈ children, c = r.disk.childDir dir child ∧
          r.disk.isDirectory c = true ∧ r.disk.isFile (r.disk.childConf c) = true := by
  induction children generalizing x with
  | nil =>
    refine ⟨Told.refl _, fun c ↦ (or_iff_left ?_).symm⟩
    rintro ⟨child, hchild, -⟩
    exact List.not_mem_nil hchild
  | cons child children ih =>
    obtain ⟨htold, hfirst⟩ := traverseChild_items (r := r) hasBackingArea dir config x child
    obtain ⟨htold', hrest⟩ := ih (r.traverseChild hasBackingArea dir config x child)
    refine ⟨htold.trans htold', fun c ↦ ?_⟩
    rw [List.foldl_cons, hrest, hfirst, or_assoc]
    refine or_congr_right ⟨?_, ?_⟩
    · rintro (hc | ⟨other, hother, hc⟩)
      · exact ⟨child, List.mem_cons_self, hc⟩
      · exact ⟨other, List.mem_cons_of_mem _ hother, hc⟩
    · rintro ⟨other, hother, hc⟩
      rcases List.mem_cons.mp hother with rfl | hother
      · exact Or.inl hc
      · exact Or.inr ⟨other, hother, hc⟩

end Errors

/-! ### The directories of a forest -/

/-- The items that have been found in the directories `seen`. -/
structure ItemsFrom (disk : Disk) (seen : List String) (forest : BuildForest) (t : Traversal) :
    Prop where
  found : ∀ (name : String) (item : BuildItem), forest.buildItems[name]? = some item →
    ∃ dir ∈ seen, item.config = (disk.config dir).item ∧ name = item.config.name ∧ name ≠ ""
  kept : t.findings.errors = [] → ∀ dir ∈ seen, (disk.config dir).item.name ≠ "" →
    ∃ item, forest.buildItems[(disk.config dir).item.name]? = some item ∧
      item.config = (disk.config dir).item

/-- The configuration file of an item tells its directory. -/
theorem dir_eq_of_location {disk : Disk} {dir dir' : String}
    (h : (disk.config dir).item.location = (disk.config dir').item.location) :
    dir = dir' := by
  rw [(disk.config dir).location_eq, (disk.config dir').location_eq] at h
  have hfile := congrArg (fun location : FileLocation ↦ location.filename.toList) h
  simp only [FileLocation.new, String.toList_append, List.append_cancel_right_eq] at hfile
  exact String.toList_inj.mp hfile

/-- Where the traversal of the directories of a forest is: the directories that have been seen, and
those that are still to be seen, have all been reached from the root, and no child of one that has
been seen is missing. -/
structure Sees (disk : Disk) (top : String) (seen : List String) (s : ItemsTraversal)
    (dirs : List String) : Prop where
  items : ItemsFrom disk seen s.forest s.traversal
  root : top ∈ seen ∨ top ∈ dirs
  below : ∀ dir, dir ∈ seen ∨ dir ∈ dirs → ReflTransGen disk.Child top dir
  children : ∀ dir ∈ seen, ∀ c, disk.Child dir c → c ∈ seen ∨ c ∈ dirs

section Directories

variable {r : Traverser} {seen : List String} {forest : BuildForest} {t : Traversal}

/-- The item of another directory. -/
theorem ItemsFrom.traverseItem (hstrict : r.allow10 = false) (h : ItemsFrom r.disk seen forest t)
    (dir treeName : String) :
    Ends (fun x ↦ ItemsFrom r.disk (dir :: seen) x.1 x.2 ∧ Told t x.2) (fun _ ↦ False)
      (r.traverseItem forest t dir treeName) := by
  have hfound : ∀ (name : String) (item : BuildItem), forest.buildItems[name]? = some item →
      ∃ dir' ∈ dir :: seen, item.config = (r.disk.config dir').item ∧
        name = item.config.name ∧ name ≠ "" := by
    intro name item hitem
    obtain ⟨dir', hdir', hitem'⟩ := h.found name item hitem
    exact ⟨dir', List.mem_cons_of_mem _ hdir', hitem'⟩
  unfold Traverser.traverseItem
  dsimp only
  split_ifs with hempty
  · refine ⟨⟨hfound, fun hnone dir' hdir' hname ↦ ?_⟩, Told.refl t⟩
    rcases List.mem_cons.mp hdir' with rfl | hdir'
    · exact absurd (String.isEmpty_iff.mp hempty) hname
    · exact h.kept hnone dir' hdir' hname
  have hname : (r.disk.config dir).item.name ≠ "" := fun hnil ↦
    hempty (String.isEmpty_iff.mpr hnil)
  unfold BuildForest.addItemToForest
  rw [hstrict, Bool.false_and, if_neg Bool.false_ne_true]
  split
  · next other hother =>
    split_ifs with hlocation
    · obtain ⟨first, -, hfirst, -, -⟩ := h.found _ other hother
      have hsame : dir = first :=
        dir_eq_of_location (hlocation.trans (congrArg ItemConfig.location hfirst))
      refine ⟨⟨hfound, fun hnone dir' hdir' hname' ↦ ?_⟩, Told.refl t⟩
      rcases List.mem_cons.mp hdir' with rfl | hdir'
      · exact ⟨other, hother, hsame ▸ hfirst⟩
      · exact h.kept hnone dir' hdir' hname'
    · exact ⟨⟨hfound, fun hnone ↦ absurd hnone (error_ne _ _ _)⟩,
        (told_error t _ _).trans (told_error _ _ _)⟩
  · next hother =>
    split_ifs
    · exact ⟨⟨hfound, fun hnone ↦ absurd hnone (error_ne _ _ _)⟩, told_error t _ _⟩
    · refine ⟨⟨fun name item hitem ↦ ?_, fun hnone dir' hdir' hname' ↦ ?_⟩, Told.refl t⟩
      · dsimp only at hitem
        rw [TreeMap.getElem?_insert] at hitem
        split_ifs at hitem with heq
        · obtain rfl := compare_eq_iff_eq.mp heq
          obtain rfl := Option.some_inj.mp hitem
          exact ⟨dir, List.mem_cons_self, rfl, rfl, hname⟩
        · exact hfound name item hitem
      · dsimp only
        rw [TreeMap.getElem?_insert]
        rcases List.mem_cons.mp hdir' with rfl | hdir'
        · rw [if_pos (compare_eq_iff_eq.mpr rfl)]
          exact ⟨_, rfl, rfl⟩
        · obtain ⟨item, hitem, hconfig⟩ := h.kept hnone dir' hdir' hname'
          rw [if_neg fun heq ↦ ?_]
          · exact ⟨item, hitem, hconfig⟩
          · rw [← compare_eq_iff_eq.mp heq] at hitem
            cases hother.symm.trans hitem

theorem ItemsFrom.congr {forest' : BuildForest} {t' : Traversal}
    (h : ItemsFrom r.disk seen forest t) (hitems : forest'.buildItems = forest.buildItems)
    (htold : Told t t') : ItemsFrom r.disk seen forest' t' :=
  ⟨fun name item hitem ↦ h.found name item (hitems ▸ hitem),
    fun hnone dir hdir hname ↦ hitems ▸ h.kept (htold hnone) dir hdir hname⟩

theorem Sees.traverseDir (hstrict : r.allow10 = false) {hasBackingArea : Bool} {top dir : String}
    {s : ItemsTraversal} {q : DirQueue} (h : Sees r.disk top seen s (dir :: q.dirs)) :
    Ends (fun x ↦ Sees r.disk top (dir :: seen) x.1 x.2.dirs ∧ Told s.traversal x.1.traversal)
      (ItemsHalt r.disk) (r.traverseDir hasBackingArea s q dir) := by
  unfold Traverser.traverseDir
  refine ((readConfig_ends r.disk dir).mono (fun _ h ↦ h) fun _ h ↦ Or.inl h).bind ?_
  rintro config rfl
  refine (traverseTree_items hstrict s q dir).bind ?_
  rintro ⟨treeName, s₁⟩ ⟨hitems, htold⟩
  have hnote : Told s.traversal (r.noteLocalTree s₁.traversal dir treeName) := by
    unfold Told
    rw [noteLocalTree_findings]
    exact htold
  refine (((h.items.congr hitems hnote).traverseItem hstrict dir treeName).mono (fun _ h ↦ h)
    fun _ h ↦ h.elim).bind ?_
  rintro ⟨forest, t⟩ ⟨hfrom, htold₁⟩
  obtain ⟨htold₂, hdirs⟩ := traverseChildren_items (r := r) hasBackingArea dir
    (r.disk.config dir) (r.disk.config dir).children
    ({ q with dirTrees := q.dirTrees.insert dir treeName }, t)
  have hreach : ReflTransGen r.disk.Child top dir := h.below dir (Or.inr List.mem_cons_self)
  refine ⟨⟨hfrom.congr rfl htold₂, ?_, fun dir' hdir' ↦ ?_, fun dir' hdir' c hc ↦ ?_⟩,
    (hnote.trans htold₁).trans htold₂⟩
  · rcases h.root with hseen | hdir
    · exact Or.inl (List.mem_cons_of_mem _ hseen)
    · rcases List.mem_cons.mp hdir with rfl | hdir
      · exact Or.inl List.mem_cons_self
      · exact Or.inr ((hdirs top).mpr (Or.inl hdir))
  · rcases hdir' with hseen | hdir'
    · rcases List.mem_cons.mp hseen with rfl | hseen
      · exact hreach
      · exact h.below dir' (Or.inl hseen)
    · rcases (hdirs dir').mp hdir' with hdir' | hchild
      · exact h.below dir' (Or.inr (List.mem_cons_of_mem _ hdir'))
      · exact hreach.tail hchild
  · rcases List.mem_cons.mp hdir' with rfl | hdir'
    · exact Or.inr ((hdirs c).mpr (Or.inr hc))
    · rcases h.children dir' hdir' c hc with hseen | hdir
      · exact Or.inl (List.mem_cons_of_mem _ hseen)
      · rcases List.mem_cons.mp hdir with rfl | hdir
        · exact Or.inl List.mem_cons_self
        · exact Or.inr ((hdirs c).mpr (Or.inl hdir))

/-- When nothing is left to be seen, everything below the root has been seen. -/
theorem Sees.hasItems {disk : Disk} {top : String} {s : ItemsTraversal}
    (h : Sees disk top seen s []) (hnone : s.traversal.findings.errors = []) :
    HasItems disk top s.forest := by
  have hseen : ∀ dir, ReflTransGen disk.Child top dir → dir ∈ seen := by
    intro dir hreach
    induction hreach with
    | refl => exact h.root.resolve_right List.not_mem_nil
    | tail _ hchild ih => exact (h.children _ ih _ hchild).resolve_right List.not_mem_nil
  refine ⟨fun name item hitem ↦ ?_, fun dir hreach ↦ h.items.kept hnone dir (hseen dir hreach)⟩
  obtain ⟨dir, hdir, hitem'⟩ := h.items.found name item hitem
  exact ⟨dir, h.below dir (Or.inl hdir), hitem'⟩

theorem traverseDirs_items (hstrict : r.allow10 = false) (hasBackingArea : Bool) (steps : ℕ)
    {top : String} {s : ItemsTraversal} {q : DirQueue} (h : Sees r.disk top seen s q.dirs) :
    Ends (fun s' ↦ (s'.traversal.findings.errors = [] → HasItems r.disk top s'.forest) ∧
        Told s.traversal s'.traversal)
      (ItemsHalt r.disk) (r.traverseDirs hasBackingArea steps s q) := by
  induction steps generalizing seen s q with
  | zero => exact Or.inl (Or.inl rfl)
  | succ steps ih =>
    rw [Traverser.traverseDirs]
    cases hdirs : q.dirs with
    | nil =>
      rw [hdirs] at h
      exact ⟨h.hasItems, Told.refl _⟩
    | cons dir dirs =>
      rw [hdirs] at h
      have hdir : Sees r.disk top seen s (dir :: ({ q with dirs } : DirQueue).dirs) := h
      refine (hdir.traverseDir hstrict).bind ?_
      rintro ⟨s₁, q₁⟩ ⟨hsees, htold⟩
      exact (ih hsees).mono (fun s' hs' ↦ ⟨hs'.1, htold.trans hs'.2⟩) fun _ h ↦ h

theorem traverseForest_items (hstrict : r.allow10 = false) (t : Traversal) (topPath : String) :
    Ends (fun s ↦ (s.traversal.findings.errors = [] → HasItems r.disk topPath s.forest) ∧
        Told t s.traversal)
      (fun _ ↦ True) (r.traverseForest t topPath) := by
  have hitems : Ends (fun s ↦ (s.traversal.findings.errors = [] →
          HasItems r.disk topPath s.forest) ∧ Told t s.traversal)
      (fun _ ↦ True) (r.traverseItems ⟨.new topPath, [], t⟩ topPath) := by
    unfold Traverser.traverseItems
    rw [hstrict, Bool.false_and, if_neg Bool.false_ne_true]
    dsimp only
    rw [noteTraversed_eq hstrict]
    have hbacking : Ends (fun x ↦ x.1.buildItems = (BuildForest.new topPath).buildItems ∧
          Told t x.2) (fun _ ↦ True)
        (if r.disk.hasBacking topPath then
          r.disk.appendBackingData false r.steps (.new topPath) t topPath
        else .ok (.new topPath, t)) := by
      split_ifs
      · exact appendBackingData_told false r.steps (.new topPath) t topPath
      · exact ⟨rfl, Told.refl t⟩
    refine hbacking.bind ?_
    rintro ⟨forest, t'⟩ ⟨hsame, htold⟩
    have hstart : Sees r.disk topPath [] ⟨forest, [], t'⟩ [topPath] := by
      refine ⟨⟨fun name item hitem ↦ ?_, fun _ dir hdir ↦ absurd hdir List.not_mem_nil⟩,
        Or.inr (List.mem_singleton_self topPath), fun dir hdir ↦ ?_,
        fun dir hdir ↦ absurd hdir List.not_mem_nil⟩
      · have hempty : (BuildForest.new topPath).buildItems[name]? = none :=
          TreeMap.getElem?_emptyc
        cases hempty.symm.trans (hsame ▸ hitem)
      · rw [List.mem_singleton.mp (hdir.resolve_left List.not_mem_nil)]
    refine (traverseDirs_items (q := ⟨[topPath], ∅, ∅⟩) hstrict _ r.steps hstart).mono
      (fun s hs ↦ ⟨hs.1, htold.trans hs.2⟩) fun _ _ ↦ trivial
  unfold Traverser.traverseForest
  refine hitems.bind fun s hs ↦ ?_
  rw [hstrict, if_neg Bool.false_ne_true]
  split_ifs
  · exact hs
  · trivial

end Directories

/-! ### All forests -/

/-- If there are no errors, the forests have their items. -/
def ItemsKept (disk : Disk) (forests : BuildForestMap) (t : Traversal) : Prop :=
  t.findings.errors = [] → ∀ (p : String) (forest : BuildForest), forests[p]? = some forest →
    HasItems disk p forest

section Forests

variable {r : Traverser}

theorem ItemsKept.told {disk : Disk} {forests : BuildForestMap} {t t' : Traversal}
    (h : ItemsKept disk forests t) (htold : Told t t') : ItemsKept disk forests t' :=
  fun hnone ↦ h (htold hnone)

theorem traverseForests_items (hstrict : r.allow10 = false) (depth : ℕ)
    (visiting : TreeSet String) {forests : BuildForestMap} {t : Traversal}
    (topPath description : String) (h : ItemsKept r.disk forests t) :
    Ends (fun x ↦ ItemsKept r.disk x.1 x.2 ∧ Told t x.2) (fun _ ↦ True)
      (r.traverseForests depth visiting forests t topPath description) := by
  induction depth generalizing visiting forests t topPath description with
  | zero => trivial
  | succ depth ih =>
    rw [Traverser.traverseForests]
    split_ifs
    · trivial
    · exact ⟨h, Told.refl t⟩
    have hconfig : Ends (fun _ ↦ True) (fun _ ↦ True) (r.disk.readConfig topPath) :=
      (readConfig_ends r.disk topPath).mono (fun _ _ ↦ trivial) fun _ _ ↦ trivial
    refine hconfig.bind fun config _ ↦ ?_
    split_ifs
    swap
    · trivial
    refine (traverseForest_items hstrict t topPath).bind ?_
    rintro s ⟨hitems, htold⟩
    have hfold := Ends.foldlM (l := s.forest.backingAreas)
      (g := r.traverseBackingArea (r.traverseForests depth (visiting.insert topPath)) topPath)
      (s := ⟨forests, [], s.traversal⟩) (E := fun _ ↦ True)
      (motive := fun _ x ↦ ItemsKept r.disk x.forests x.traversal ∧ Told s.traversal x.traversal)
      ⟨h.told htold, Told.refl _⟩ ?_
    · refine hfold.bind fun x hx ↦ ⟨fun hnone p forest hget ↦ ?_, htold.trans hx.2⟩
      rw [TreeMap.getElem?_insert] at hget
      split_ifs at hget with heq
      · obtain rfl := compare_eq_iff_eq.mp heq
        obtain rfl := Option.some_inj.mp hget
        have hall := hitems (hx.2 hnone)
        exact ⟨hall.found, hall.kept⟩
      · exact hx.1 hnone p forest hget
    · rintro before bdir - - x ⟨hkept, htold₁⟩
      unfold Traverser.traverseBackingArea
      refine (findTop_told r.steps x.traversal bdir _).bind ?_
      rintro ⟨btop, t₁⟩ htop
      dsimp only
      split_ifs
      · trivial
      · exact ⟨(hkept.told htop).told (told_error _ _ _),
          (htold₁.trans htop).trans (told_error _ _ _)⟩
      · exact ⟨(hkept.told htop).told (told_error _ _ _),
          (htold₁.trans htop).trans (told_error _ _ _)⟩
      · exact ⟨hkept.told htop, htold₁.trans htop⟩
      · refine (ih (visiting.insert topPath) btop _ (hkept.told htop)).bind ?_
        rintro ⟨forests₁, t₂⟩ ⟨hkept₁, htold₂⟩
        exact ⟨hkept₁, (htold₁.trans htop).trans htold₂⟩

theorem readForests_hasItems (hstrict : r.allow10 = false) {topPath : String}
    {forests : BuildForestMap} {t : Traversal} (h : r.readForests topPath = .ok (forests, t))
    (hnone : t.findings.errors = []) {p : String} {forest : BuildForest}
    (hforest : forests[p]? = some forest) : HasItems r.disk p forest := by
  have hstart : ItemsKept r.disk ∅ .new := by
    intro _ p forest hget
    cases TreeMap.getElem?_emptyc.symm.trans hget
  have hread : Ends (fun x ↦ ItemsKept r.disk x.1 x.2) (fun _ ↦ True) (r.readForests topPath) := by
    unfold Traverser.readForests
    refine (traverseForests_items hstrict r.steps ∅ topPath "root of local forest" hstart).bind ?_
    rintro ⟨forests, t⟩ hx
    rw [hstrict]
    exact hx.1
  rw [h] at hread
  exact hread hnone p forest hforest

/-- Two directories that are registered under one name are the same. -/
theorem HasItems.dir_unique {disk : Disk} {p : String} {forest : BuildForest}
    (h : HasItems disk p forest) {dir dir' : String} (hdir : ReflTransGen disk.Child p dir)
    (hdir' : ReflTransGen disk.Child p dir') (hname : (disk.config dir).item.name ≠ "")
    (hsame : (disk.config dir).item.name = (disk.config dir').item.name) : dir = dir' := by
  obtain ⟨item, hitem, hconfig⟩ := h.kept dir hdir hname
  obtain ⟨item', hitem', hconfig'⟩ := h.kept dir' hdir' (hsame ▸ hname)
  rw [← hsame, hitem, Option.some_inj] at hitem'
  rw [← hitem', hconfig] at hconfig'
  exact dir_eq_of_location (congrArg ItemConfig.location hconfig')

/-- Without 1.0 compatibility, and without errors, the items of every forest are exactly those of
the directories below its root that have a name, each with the configuration of its directory and in
a named tree of the forest. -/
theorem readForests_items (r : Traverser) (hstrict : r.allow10 = false) {topPath : String}
    (htop : topPath ≠ "") {forests : BuildForestMap} {t : Traversal}
    (h : r.readForests topPath = .ok (forests, t)) (hnone : t.findings.errors = []) {p : String}
    {forest : BuildForest} (hforest : forests[p]? = some forest) :
    (∀ name item, forest.buildItems[name]? = some item →
      item.treeName ≠ "" ∧ item.treeName ∈ forest.buildTrees ∧
        ∃ dir, ReflTransGen r.disk.Child p dir ∧ item.config = (r.disk.config dir).item ∧
          name = item.config.name ∧ name ≠ "") ∧
    (∀ dir, ReflTransGen r.disk.Child p dir → (r.disk.config dir).item.name ≠ "" →
      ∃ item, forest.buildItems[(r.disk.config dir).item.name]? = some item ∧
        item.config = (r.disk.config dir).item) ∧
    ∀ dir dir', ReflTransGen r.disk.Child p dir → ReflTransGen r.disk.Child p dir' →
      (r.disk.config dir).item.name ≠ "" →
      (r.disk.config dir).item.name = (r.disk.config dir').item.name → dir = dir' := by
  have hitems := readForests_hasItems hstrict h hnone hforest
  have hgathered := (readForests_gathers htop h).forest p forest hforest
  refine ⟨fun name item hitem ↦ ?_, hitems.kept, fun dir dir' ↦ hitems.dir_unique⟩
  obtain ⟨-, hmem⟩ := hgathered.item name item hitem
  obtain ⟨tree, htree⟩ := exists_of_mem hmem
  exact ⟨(hgathered.tree _ tree htree).name_ne, hmem, hitems.found name item hitem⟩

/-- The theorem, for a forest whose root has a child. -/
theorem readForests_items_threeForests : ∃ forests t forest item,
    (threeForests false).readForests "/a" = .ok (forests, t) ∧ forests["/a"]? = some forest ∧
      forest.buildItems["child"]? = some item ∧
        item.config = ((threeForests false).disk.config "/a/e").item ∧
          item.treeName ∈ forest.buildTrees := by
  have hvalue : ((threeForests false).readForests "/a").toOption.map
      (fun x ↦ (x.2.findings.errors, x.1.contains "/a")) = some ([], true) := rfl
  cases hread : (threeForests false).readForests "/a" with
  | error halt =>
    rw [hread] at hvalue
    cases hvalue
  | ok x =>
    obtain ⟨forests, t⟩ := x
    rw [hread] at hvalue
    obtain ⟨hnone, hmem⟩ := Prod.mk.inj (Option.some_inj.mp hvalue)
    obtain ⟨forest, hforest⟩ := exists_of_mem (TreeMap.contains_iff_mem.mp hmem)
    obtain ⟨hfound, hkept, -⟩ := readForests_items (threeForests false) rfl
      (by decide : "/a" ≠ "") hread hnone hforest
    have hchild : (threeForests false).disk.Child "/a" "/a/e" :=
      ⟨"e", List.mem_singleton_self "e", rfl, rfl, rfl⟩
    obtain ⟨item, hitem, hconfig⟩ := hkept "/a/e" (.single hchild) (by decide : "child" ≠ "")
    exact ⟨forests, t, forest, item, rfl, hforest, hitem, hconfig, (hfound _ item hitem).2.1⟩

end Forests

end Abuild
