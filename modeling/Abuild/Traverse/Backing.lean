import Abuild.BuildForest.Validated
import Abuild.Traverse.Gathered

/-!
Forests and the forests that they back to, as they are traversed without 1.0 compatibility. A
directory is in the forest whose root is the first one upwards from it, and a forest backs to those
of its backing areas. `traverseForests` goes through them depth first: it comes to exactly the
forests that can be reached, and if all files can be read and the trees have names, it fails if and
only if one of them backs to itself in the end (`readForests_backing`). So the validation never
finds fault with the backing graph.
-/

set_option autoImplicit false
set_option relaxedAutoImplicit false

namespace Abuild

open BuildForest Relation
open Fallible (Ends)
open Std (TreeMap TreeSet)

/-! ### Files that cannot be read -/

/-- A configuration, or a file about backing areas, cannot be read. -/
def Unreadable (disk : Disk) (halt : Halt) : Prop :=
  (∃ dir text, disk.configError dir = some text ∧ halt = .fatal text) ∨
    ∃ dir text, disk.backingError dir = some text ∧ halt = .exception text

/-- How looking for something on the disk may fail. -/
def DiskHalt (disk : Disk) (halt : Halt) : Prop := halt = .outOfSteps ∨ Unreadable disk halt

theorem readConfig_ends (disk : Disk) (dir : String) :
    Ends (· = disk.config dir) (DiskHalt disk) (disk.readConfig dir) := by
  unfold Disk.readConfig
  split
  · next text htext => exact Or.inr (Or.inl ⟨dir, text, htext, rfl⟩)
  · rfl

theorem readBackingData_ends (disk : Disk) (t : Traversal) (dir : String) :
    Ends (fun x ↦ x.1 = disk.backing dir ∧ x.2.findTopCache = t.findTopCache) (DiskHalt disk)
      (disk.readBackingData t dir) := by
  have hread : Ends (· = disk.backing dir) (DiskHalt disk) (disk.readBacking dir) := by
    unfold Disk.readBacking
    split
    · next text htext => exact Or.inr (Or.inr ⟨dir, text, htext, rfl⟩)
    · rfl
  unfold Disk.readBackingData
  refine hread.bind ?_
  rintro backing rfl
  refine ⟨rfl, ?_⟩
  dsimp only
  split_ifs <;> rfl

/-! ### The root of a forest -/

/-- The root of the forest that a directory is in. -/
inductive IsTop (disk : Disk) : String → String → Prop
  | root {dir : String} (hroot : (disk.config dir).isForestRoot = true) : IsTop disk dir dir
  | parent {dir top : String} (hroot : (disk.config dir).isForestRoot = false)
      (hparent : (disk.config dir).parentDir.isEmpty = false)
      (htop : IsTop disk (disk.config dir).parentDir top) : IsTop disk dir top

/-- What is found is the root of the forest, or the empty text if there is none. -/
def FindsTop (disk : Disk) (dir top : String) : Prop :=
  ∀ q, q ≠ "" → (IsTop disk dir q ↔ q = top)

/-- The roots that are kept are right. -/
def TopsFound (disk : Disk) (t : Traversal) : Prop :=
  ∀ dir top : String, t.findTopCache[dir]? = some top → FindsTop disk dir top

section Tops

variable {disk : Disk} {t t' : Traversal}

theorem IsTop.isForestRoot {dir top : String} (h : IsTop disk dir top) :
    (disk.config top).isForestRoot = true := by
  induction h with
  | root hroot => exact hroot
  | parent _ _ _ ih => exact ih

theorem isTop_root_iff {dir top : String} (hroot : (disk.config dir).isForestRoot = true) :
    IsTop disk dir top ↔ top = dir := by
  constructor
  · intro h
    cases h with
    | root _ => rfl
    | parent hnot _ _ => rw [hroot] at hnot; cases hnot
  · rintro rfl
    exact .root hroot

theorem isTop_parent_iff {dir top : String} (hroot : (disk.config dir).isForestRoot = false) :
    IsTop disk dir top ↔ (disk.config dir).parentDir.isEmpty = false ∧
      IsTop disk (disk.config dir).parentDir top := by
  constructor
  · intro h
    cases h with
    | root hnot => rw [hroot] at hnot; cases hnot
    | parent _ hparent htop => exact ⟨hparent, htop⟩
  · exact fun h ↦ .parent hroot h.1 h.2

theorem searchTop_ends (steps : ℕ) (dir : String) :
    Ends (FindsTop disk dir) (DiskHalt disk) (disk.searchTop steps dir) := by
  induction steps generalizing dir with
  | zero => exact Or.inl rfl
  | succ steps ih =>
    rw [Disk.searchTop]
    refine (readConfig_ends disk dir).bind ?_
    rintro config rfl
    split_ifs with hroot hparent
    · exact fun q _ ↦ isTop_root_iff hroot
    · intro q hq
      rw [isTop_parent_iff (Bool.eq_false_iff.mpr hroot), hparent]
      exact iff_of_false (fun h ↦ Bool.noConfusion h.1) hq
    · refine (ih _).mono (fun top htop q hq ↦ ?_) fun _ h ↦ h
      rw [isTop_parent_iff (Bool.eq_false_iff.mpr hroot), htop q hq]
      exact and_iff_right (Bool.eq_false_iff.mpr hparent)

theorem TopsFound.of_eq (h : TopsFound disk t) (heq : t'.findTopCache = t.findTopCache) :
    TopsFound disk t' := fun dir top htop ↦ h dir top (heq ▸ htop)

theorem findTop_ends (h : TopsFound disk t) (steps : ℕ) (startDir description : String) :
    Ends (fun x ↦ FindsTop disk startDir x.1 ∧ TopsFound disk x.2) (DiskHalt disk)
      (disk.findTop steps t startDir description) := by
  unfold Disk.findTop
  split
  · next top htop => exact ⟨h startDir top htop, h⟩
  · refine (searchTop_ends steps startDir).bind fun top htop ↦ ⟨htop, fun dir found hfound ↦ ?_⟩
    dsimp only at hfound
    rw [TreeMap.getElem?_insert] at hfound
    by_cases heq : compare startDir dir = .eq
    · rw [if_pos heq] at hfound
      obtain rfl := compare_eq_iff_eq.mp heq
      exact Option.some_inj.mp hfound ▸ htop
    · rw [if_neg heq] at hfound
      split_ifs at hfound <;> exact h dir found hfound

end Tops

/-! ### Directories without 1.0 compatibility -/

/-- How the traversal of the directories of a forest may fail. -/
def ItemsHalt (disk : Disk) (halt : Halt) : Prop :=
  DiskHalt disk halt ∨ halt = .assertion "! tree_name.empty()"

/-- What is found in the directories has nothing to do with backing areas. -/
structure KeepsAreas (s s' : ItemsTraversal) : Prop where
  backingAreas : s'.forest.backingAreas = s.forest.backingAreas
  dirsWithExternals : s'.dirsWithExternals = s.dirsWithExternals
  findTopCache : s'.traversal.findTopCache = s.traversal.findTopCache

theorem KeepsAreas.refl (s : ItemsTraversal) : KeepsAreas s s := ⟨rfl, rfl, rfl⟩

theorem KeepsAreas.trans {s s' s'' : ItemsTraversal} (h : KeepsAreas s s')
    (h' : KeepsAreas s' s'') : KeepsAreas s s'' :=
  ⟨h'.backingAreas.trans h.backingAreas, h'.dirsWithExternals.trans h.dirsWithExternals,
    h'.findTopCache.trans h.findTopCache⟩

section Directories

variable {r : Traverser}

theorem addTreeToForest_tops (forest : BuildForest) (t : Traversal) (treeName : String)
    (tree : BuildTree) :
    (forest.addTreeToForest t treeName tree).2.findTopCache = t.findTopCache := by
  unfold BuildForest.addTreeToForest
  split
  · split_ifs <;> rfl
  · rfl

theorem addItemToForest_ends (forest : BuildForest) (t : Traversal) (itemName : String)
    (item : BuildItem) :
    Ends (fun x ↦ x.1.backingAreas = forest.backingAreas ∧ x.2.findTopCache = t.findTopCache)
      (fun _ ↦ False) (forest.addItemToForest false t itemName item) := by
  unfold BuildForest.addItemToForest
  rw [Bool.false_and, if_neg Bool.false_ne_true]
  split
  · split_ifs <;> exact ⟨rfl, rfl⟩
  · split_ifs <;> exact ⟨rfl, rfl⟩

theorem nameTree_ends (hstrict : r.allow10 = false) (t : Traversal) (dir : String) :
    Ends (fun x ↦ x.2 = t) (ItemsHalt r.disk) (r.nameTree t dir) := by
  unfold Traverser.nameTree
  rw [hstrict, if_neg Bool.false_ne_true]
  split_ifs
  · exact Or.inr rfl
  · rfl

theorem registerBuildTree_ends (hstrict : r.allow10 = false) (s : ItemsTraversal) (dir : String) :
    Ends (fun x ↦ KeepsAreas s x.2) (ItemsHalt r.disk) (r.registerBuildTree s dir) := by
  unfold Traverser.registerBuildTree
  refine (nameTree_ends hstrict s.traversal dir).bind ?_
  rintro ⟨treeName, t⟩ rfl
  simp only [hstrict, Bool.false_eq_true, if_false, List.foldlM_nil, List.isEmpty_nil, if_true,
    pure_bind]
  exact ⟨(addTreeToForest_keeps _ _ _ _).2.2.2, rfl, addTreeToForest_tops _ _ _ _⟩

theorem traverseChildren_tops (hasBackingArea : Bool) (dir : String) (config : DirConfig dir)
    (children : List String) (x : DirQueue × Traversal) :
    (children.foldl (r.traverseChild hasBackingArea dir config) x).2.findTopCache =
      x.2.findTopCache := by
  induction children generalizing x with
  | nil => rfl
  | cons child children ih =>
    rw [List.foldl_cons, ih]
    unfold Traverser.traverseChild
    dsimp only
    split_ifs <;> rfl

theorem traverseItem_ends (hstrict : r.allow10 = false) (forest : BuildForest) (t : Traversal)
    (dir treeName : String) :
    Ends (fun x ↦ x.1.backingAreas = forest.backingAreas ∧ x.2.findTopCache = t.findTopCache)
      (fun _ ↦ False) (r.traverseItem forest t dir treeName) := by
  unfold Traverser.traverseItem
  rw [hstrict]
  dsimp only
  split_ifs
  · exact ⟨rfl, rfl⟩
  · exact addItemToForest_ends _ _ _ _

theorem traverseTree_ends (hstrict : r.allow10 = false) (s : ItemsTraversal) (q : DirQueue)
    (dir : String) :
    Ends (fun x ↦ KeepsAreas s x.2) (ItemsHalt r.disk) (r.traverseTree s q dir) := by
  unfold Traverser.traverseTree
  split_ifs
  · exact registerBuildTree_ends hstrict s dir
  · exact KeepsAreas.refl s

theorem traverseDir_ends (hstrict : r.allow10 = false) (hasBackingArea : Bool) (s : ItemsTraversal)
    (q : DirQueue) (dir : String) :
    Ends (fun x ↦ KeepsAreas s x.1) (ItemsHalt r.disk) (r.traverseDir hasBackingArea s q dir) := by
  unfold Traverser.traverseDir
  refine ((readConfig_ends r.disk dir).mono (fun _ h ↦ h) fun _ h ↦ Or.inl h).bind ?_
  rintro config rfl
  refine (traverseTree_ends hstrict s q dir).bind ?_
  rintro ⟨treeName, s₁⟩ hs₁
  have hnote : (r.noteLocalTree s₁.traversal dir treeName).findTopCache =
      s₁.traversal.findTopCache := by
    unfold Traverser.noteLocalTree
    split_ifs <;> rfl
  refine ((traverseItem_ends hstrict s₁.forest (r.noteLocalTree s₁.traversal dir treeName) dir
    treeName).mono (fun _ h ↦ h) fun _ h ↦ h.elim).bind ?_
  rintro ⟨forest, t⟩ ⟨hareas, htops⟩
  exact hs₁.trans ⟨hareas, rfl, (traverseChildren_tops _ _ _ _ _).trans (htops.trans hnote)⟩

theorem traverseDirs_ends (hstrict : r.allow10 = false) (hasBackingArea : Bool) (steps : ℕ)
    (s : ItemsTraversal) (q : DirQueue) :
    Ends (KeepsAreas s) (ItemsHalt r.disk) (r.traverseDirs hasBackingArea steps s q) := by
  induction steps generalizing s q with
  | zero => exact Or.inl (Or.inl rfl)
  | succ steps ih =>
    rw [Traverser.traverseDirs]
    cases q.dirs with
    | nil => exact KeepsAreas.refl s
    | cons dir dirs =>
      refine (traverseDir_ends hstrict hasBackingArea s { q with dirs } dir).bind ?_
      rintro ⟨s₁, q₁⟩ hs₁
      exact (ih s₁ q₁).mono (fun s' hs' ↦ hs₁.trans hs') fun _ h ↦ h

end Directories

/-! ### Backing areas of a forest -/

/-- A backing area of the forest at `p`, with a forest that it is in. -/
structure Disk.Lists (disk : Disk) (p bdir : String) : Prop where
  hasBacking : disk.hasBacking p = true
  mem : bdir ∈ (disk.backing p).backingAreas
  top : ∃ q, q ≠ "" ∧ IsTop disk bdir q

/-- The forest at `p` backs to the one at `q`. An area of the forest itself does not count. -/
structure Disk.BacksTo (disk : Disk) (p q : String) : Prop where
  root_ne : q ≠ ""
  other : q ≠ p
  area : ∃ bdir, disk.Lists p bdir ∧ IsTop disk bdir q

section Areas

variable {r : Traverser} {t : Traversal}

theorem appendBackingArea_ends {disk : Disk} {steps : ℕ} {dir bdir : String}
    {backing : BackingConfig} {x : BuildForest × Traversal} (h : TopsFound disk x.2) :
    Ends (fun x' ↦ TopsFound disk x'.2 ∧ ∀ area, area ∈ x'.1.backingAreas ↔
        area ∈ x.1.backingAreas ∨ area = bdir ∧ ∃ q, q ≠ "" ∧ IsTop disk bdir q) (DiskHalt disk)
      (disk.appendBackingArea steps dir backing x bdir) := by
  unfold Disk.appendBackingArea
  refine (findTop_ends h steps bdir _).bind ?_
  rintro ⟨btop, t₁⟩ ⟨htop, hfound⟩
  dsimp only
  split_ifs with hempty
  · refine ⟨hfound, fun area ↦ (or_iff_left ?_).symm⟩
    rintro ⟨-, q, hq, hisTop⟩
    exact hq (((htop q hq).mp hisTop).trans (String.isEmpty_iff.mp hempty))
  · refine ⟨hfound, fun area ↦ ?_⟩
    have hne : btop ≠ "" := fun hnil ↦ hempty (String.isEmpty_iff.mpr hnil)
    rw [List.mem_append, List.mem_singleton]
    exact or_congr_right (and_iff_left ⟨btop, hne, (htop btop hne).mpr rfl⟩).symm

theorem appendBackingFile_ends {disk : Disk} (h : TopsFound disk t) (steps : ℕ)
    (forest : BuildForest) (dir : String) :
    Ends (fun x ↦ TopsFound disk x.2 ∧
        ∀ area, area ∈ x.1.backingAreas ↔ area ∈ forest.backingAreas ∨ disk.Lists dir area)
      (DiskHalt disk) (disk.appendBackingFile steps forest t dir) := by
  unfold Disk.appendBackingFile
  split_ifs with hbacking
  · refine (readBackingData_ends disk t dir).bind ?_
    rintro ⟨backing, t₁⟩ ⟨rfl, htops⟩
    have hfold := Ends.foldlM (l := (disk.backing dir).backingAreas)
      (g := disk.appendBackingArea steps dir (disk.backing dir)) (s := (forest, t₁))
      (E := DiskHalt disk)
      (motive := fun before x ↦ TopsFound disk x.2 ∧ ∀ area, area ∈ x.1.backingAreas ↔
        area ∈ forest.backingAreas ∨ area ∈ before ∧ ∃ q, q ≠ "" ∧ IsTop disk area q)
      ⟨h.of_eq htops, fun area ↦ by simp⟩ (by
        rintro before bdir - - x ⟨hx, hareas⟩
        refine (appendBackingArea_ends hx).mono (fun x' hx' ↦ ⟨hx'.1, fun area ↦ ?_⟩) fun _ h ↦ h
        rw [hx'.2, hareas, List.mem_append, List.mem_singleton, or_and_right, or_assoc]
        refine or_congr_right (or_congr_right (and_congr_right fun heq ↦ ?_))
        rw [heq])
    refine hfold.bind fun x hx ↦ ⟨hx.1, fun area ↦ (hx.2 area).trans (or_congr_right ?_)⟩
    exact ⟨fun harea ↦ ⟨hbacking, harea.1, harea.2⟩, fun harea ↦ ⟨harea.mem, harea.top⟩⟩
  · exact ⟨h, fun area ↦ (or_iff_left fun harea ↦ hbacking harea.hasBacking).symm⟩

theorem appendBackingData_ends (hstrict : r.allow10 = false) (h : TopsFound r.disk t)
    (forest : BuildForest) (dir : String) :
    Ends (fun x ↦ TopsFound r.disk x.2 ∧
        ∀ area, area ∈ x.1.backingAreas ↔ area ∈ forest.backingAreas ∨ r.disk.Lists dir area)
      (DiskHalt r.disk) (r.disk.appendBackingData r.allow10 r.steps forest t dir) := by
  unfold Disk.appendBackingData
  refine (appendBackingFile_ends h r.steps forest dir).bind ?_
  rintro ⟨forest', t'⟩ hx
  rw [hstrict]
  exact hx

theorem noteTraversed_eq (hstrict : r.allow10 = false) (t : Traversal) (topPath : String) :
    r.noteTraversed t topPath = t := by
  unfold Traverser.noteTraversed
  rw [hstrict]
  rfl

/-- The backing areas that a forest has before those of the same forest are joined. -/
theorem traverseForest_ends (hstrict : r.allow10 = false) (h : TopsFound r.disk t)
    (topPath : String) :
    Ends (fun s ↦ TopsFound r.disk s.traversal ∧
        ∀ area, area ∈ s.forest.backingAreas ↔ r.disk.Lists topPath area)
      (ItemsHalt r.disk) (r.traverseForest t topPath) := by
  have hitems : Ends (fun s ↦ (TopsFound r.disk s.traversal ∧
        ∀ area, area ∈ s.forest.backingAreas ↔ r.disk.Lists topPath area) ∧
          s.dirsWithExternals = []) (ItemsHalt r.disk)
      (r.traverseItems ⟨.new topPath, [], t⟩ topPath) := by
    unfold Traverser.traverseItems
    rw [hstrict, Bool.false_and, if_neg Bool.false_ne_true]
    dsimp only
    rw [noteTraversed_eq hstrict]
    have hbacking : Ends (fun x ↦ TopsFound r.disk x.2 ∧
          ∀ area, area ∈ x.1.backingAreas ↔ r.disk.Lists topPath area) (ItemsHalt r.disk)
        (if r.disk.hasBacking topPath then
          r.disk.appendBackingData r.allow10 r.steps (.new topPath) t topPath
        else .ok (.new topPath, t)) := by
      split_ifs with hbacked
      · refine (appendBackingData_ends hstrict h (.new topPath) topPath).mono
          (fun x hx ↦ ⟨hx.1, fun area ↦ (hx.2 area).trans (or_iff_right List.not_mem_nil)⟩)
          fun _ h ↦ Or.inl h
      · exact ⟨h, fun area ↦ iff_of_false List.not_mem_nil fun harea ↦ hbacked harea.hasBacking⟩
    rw [hstrict] at hbacking
    refine hbacking.bind ?_
    rintro ⟨forest, t'⟩ ⟨htops, hareas⟩
    refine (traverseDirs_ends hstrict _ _ _ _).mono (fun s hs ↦ ?_) fun _ h ↦ h
    refine ⟨⟨htops.of_eq hs.findTopCache, fun area ↦ ?_⟩, hs.dirsWithExternals⟩
    rw [hs.backingAreas]
    exact hareas area
  unfold Traverser.traverseForest
  refine hitems.bind fun s hs ↦ ?_
  rw [hstrict, if_neg Bool.false_ne_true, hs.2]
  exact hs.1

end Areas

/-! ### Forests, depth first -/

/-- What is kept while forests are visited: those that have been left are closed under backing, and
none of them is being visited. -/
structure Visits (disk : Disk) (visiting : TreeSet String) (forests : BuildForestMap)
    (t : Traversal) : Prop where
  tops : TopsFound disk t
  areas : ∀ (p : String) (forest : BuildForest), forests[p]? = some forest →
    ∀ q, q ∈ forest.backingAreas ↔ disk.BacksTo p q
  known : ∀ p q, Backs forests p q → q ∈ forests
  acyclic : ∀ p, ¬ TransGen (Backs forests) p p
  left : ∀ p ∈ visiting, p ∉ forests

/-- A forest that can be reached backs to itself in the end. -/
def CycleHalt (disk : Disk) (topPath : String) (halt : Halt) : Prop :=
  ∃ p description, ReflTransGen disk.BacksTo topPath p ∧ TransGen disk.BacksTo p p ∧
    halt = .fatal ("backing area cycle detected for " ++ p ++ " (" ++ description ++ ")")

/-- What a visit adds. -/
structure Visited (disk : Disk) (topPath : String) (forests forests' : BuildForestMap) : Prop where
  more : ∀ p ∈ forests, p ∈ forests'
  reached : ∀ p ∈ forests', p ∈ forests ∨ ReflTransGen disk.BacksTo topPath p

section Visit

variable {r : Traverser}

/-- A forest that is left has edges to forests that have been left, and none leads to it. -/
theorem backs_insert_iff {forests : BuildForestMap} {topPath p q : String} {forest : BuildForest}
    (hnew : topPath ∉ forests) :
    Backs (forests.insert topPath forest) p q ↔
      p = topPath ∧ q ∈ forest.backingAreas ∨ p ≠ topPath ∧ Backs forests p q := by
  have hne : ∀ forest', forests[topPath]? ≠ some forest' := fun forest' h ↦
    hnew (mem_of_getElem? h)
  unfold Backs
  rw [TreeMap.getElem?_insert]
  by_cases heq : p = topPath
  · subst heq
    rw [if_pos (compare_eq_iff_eq.mpr rfl)]
    constructor
    · rintro ⟨forest', hforest, hq⟩
      exact Or.inl ⟨rfl, Option.some_inj.mp hforest ▸ hq⟩
    · rintro (⟨-, hq⟩ | ⟨hnot, -⟩)
      · exact ⟨forest, rfl, hq⟩
      · exact absurd rfl hnot
  · rw [if_neg fun hcompare ↦ heq (compare_eq_iff_eq.mp hcompare).symm]
    constructor
    · exact fun h ↦ Or.inr ⟨heq, h⟩
    · rintro (⟨hnot, -⟩ | ⟨-, h⟩)
      · exact absurd hnot heq
      · exact h

theorem Visits.insert {disk : Disk} {visiting : TreeSet String} {forests : BuildForestMap}
    {t : Traversal} {topPath : String} {forest : BuildForest}
    (h : Visits disk (visiting.insert topPath) forests t) (hnot : topPath ∉ visiting)
    (hareas : ∀ q, q ∈ forest.backingAreas ↔ disk.BacksTo topPath q)
    (hknown : ∀ q ∈ forest.backingAreas, q ∈ forests) :
    Visits disk visiting (forests.insert topPath forest) t := by
  have hnew : topPath ∉ forests := h.left topPath TreeSet.mem_insert_self
  have hbacks : ∀ p q, Backs (forests.insert topPath forest) p q → q ∈ forests ∧
      (p ≠ topPath → Backs forests p q) := by
    intro p q hpq
    rcases (backs_insert_iff hnew).mp hpq with ⟨heq, hq⟩ | ⟨-, hold⟩
    · exact ⟨hknown q hq, fun hne ↦ absurd heq hne⟩
    · exact ⟨h.known p q hold, fun _ ↦ hold⟩
  have htrans : ∀ p q, TransGen (Backs (forests.insert topPath forest)) p q → q ∈ forests ∧
      (p ≠ topPath → TransGen (Backs forests) p q) := by
    intro p q hpq
    induction hpq with
    | single hstep =>
      obtain ⟨hmem, hold⟩ := hbacks _ _ hstep
      exact ⟨hmem, fun hne ↦ .single (hold hne)⟩
    | tail _ hstep ih =>
      obtain ⟨hmem, hold⟩ := hbacks _ _ hstep
      exact ⟨hmem, fun hne ↦ (ih.2 hne).tail (hold fun heq ↦ hnew (heq ▸ ih.1))⟩
  refine ⟨h.tops, fun p forest' hget ↦ ?_, fun p q hpq ↦ ?_, fun p hcycle ↦ ?_, fun p hp hmem ↦ ?_⟩
  · rw [TreeMap.getElem?_insert] at hget
    split_ifs at hget with heq
    · obtain rfl := compare_eq_iff_eq.mp heq
      exact Option.some_inj.mp hget ▸ hareas
    · exact h.areas p forest' hget
  · exact TreeMap.mem_insert.mpr (Or.inr (hbacks p q hpq).1)
  · obtain ⟨hmem, hold⟩ := htrans p p hcycle
    exact h.acyclic p (hold fun heq ↦ hnew (heq ▸ hmem))
  · rcases TreeMap.mem_insert.mp hmem with heq | hmem
    · exact hnot (compare_eq_iff_eq.mp heq ▸ hp)
    · exact h.left p (TreeSet.mem_insert.mpr (Or.inr hp)) hmem

/-- How far the backing areas of the forest at `topPath` have been gone through. -/
structure AreasVisited (disk : Disk) (visiting : TreeSet String) (forests : BuildForestMap)
    (topPath : String) (before : List String) (x : Traverser.BackingTraversal) : Prop where
  visits : Visits disk (visiting.insert topPath) x.forests x.traversal
  visited : Visited disk topPath forests x.forests
  areas : ∀ q, q ∈ x.backingAreas ↔ q ≠ "" ∧ q ≠ topPath ∧ ∃ bdir ∈ before, IsTop disk bdir q
  known : ∀ q ∈ x.backingAreas, q ∈ x.forests

/-- Another area. It adds its forest, if that is not there yet. -/
theorem areas_append {disk : Disk} {topPath bdir btop : String} {before areas areas' : List String}
    (h : ∀ q, q ∈ areas ↔ q ≠ "" ∧ q ≠ topPath ∧ ∃ area ∈ before, IsTop disk area q)
    (htop : FindsTop disk bdir btop)
    (hnew : ∀ q, q ∈ areas' ↔ q ∈ areas ∨ q ≠ "" ∧ q ≠ topPath ∧ q = btop) (q : String) :
    q ∈ areas' ↔ q ≠ "" ∧ q ≠ topPath ∧ ∃ area ∈ before ++ [bdir], IsTop disk area q := by
  rw [hnew, h, ← and_or_left, ← and_or_left]
  refine and_congr_right fun hq ↦ and_congr_right fun _ ↦ ?_
  rw [← htop q hq]
  constructor
  · rintro (⟨area, harea, hisTop⟩ | hisTop)
    · exact ⟨area, List.mem_append_left _ harea, hisTop⟩
    · exact ⟨bdir, List.mem_append_right _ (List.mem_singleton_self bdir), hisTop⟩
  · rintro ⟨area, harea, hisTop⟩
    rcases List.mem_append.mp harea with harea | harea
    · exact Or.inl ⟨area, harea, hisTop⟩
    · exact Or.inr (List.mem_singleton.mp harea ▸ hisTop)

theorem traverseForests_ends (hstrict : r.allow10 = false) (depth : ℕ)
    {visiting : TreeSet String} {forests : BuildForestMap} {t : Traversal} {topPath : String}
    (description : String) (h : Visits r.disk visiting forests t)
    (hroot : (r.disk.config topPath).isForestRoot = true)
    (hvisiting : ∀ p ∈ visiting, TransGen r.disk.BacksTo p topPath) :
    Ends (fun x ↦ Visits r.disk visiting x.1 x.2 ∧ Visited r.disk topPath forests x.1 ∧
        topPath ∈ x.1)
      (fun halt ↦ ItemsHalt r.disk halt ∨ CycleHalt r.disk topPath halt)
      (r.traverseForests depth visiting forests t topPath description) := by
  induction depth generalizing visiting forests t topPath description with
  | zero => exact Or.inl (Or.inl (Or.inl rfl))
  | succ depth ih =>
    rw [Traverser.traverseForests]
    by_cases hcycle : visiting.contains topPath = true
    · rw [if_pos hcycle]
      exact Or.inr ⟨topPath, description, .refl,
        hvisiting topPath (TreeSet.contains_iff_mem.mp hcycle), rfl⟩
    rw [if_neg hcycle]
    by_cases hseen : forests.contains topPath = true
    · rw [if_pos hseen]
      exact ⟨h, ⟨fun _ hp ↦ hp, fun _ hp ↦ Or.inl hp⟩, TreeMap.contains_iff_mem.mp hseen⟩
    rw [if_neg hseen]
    refine ((readConfig_ends r.disk topPath).mono (fun _ h ↦ h)
      fun _ h ↦ Or.inl (Or.inl h)).bind ?_
    rintro config rfl
    rw [if_neg (not_not_intro hroot)]
    have hnot : topPath ∉ visiting := fun hmem ↦ hcycle (TreeSet.contains_iff_mem.mpr hmem)
    have hnew : topPath ∉ forests := fun hmem ↦ hseen (TreeMap.contains_iff_mem.mpr hmem)
    refine ((traverseForest_ends hstrict h.tops topPath).mono (fun _ hs ↦ hs)
      fun _ hhalt ↦ Or.inl hhalt).bind fun s hs ↦ ?_
    obtain ⟨htops, hlists⟩ := hs
    have hstart : AreasVisited r.disk visiting forests topPath [] ⟨forests, [], s.traversal⟩ := by
      refine ⟨⟨htops, h.areas, h.known, h.acyclic, fun p hp hmem ↦ ?_⟩,
        ⟨fun _ hp ↦ hp, fun _ hp ↦ Or.inl hp⟩, fun q ↦ ?_, fun q hq ↦ absurd hq List.not_mem_nil⟩
      · rcases TreeSet.mem_insert.mp hp with heq | hp
        · exact hnew (compare_eq_iff_eq.mp heq ▸ hmem)
        · exact h.left p hp hmem
      · refine iff_of_false List.not_mem_nil ?_
        rintro ⟨-, -, bdir, hbdir, -⟩
        exact List.not_mem_nil hbdir
    have hfold := Ends.foldlM (l := s.forest.backingAreas)
      (g := r.traverseBackingArea (r.traverseForests depth (visiting.insert topPath)) topPath)
      (E := fun halt ↦ ItemsHalt r.disk halt ∨ CycleHalt r.disk topPath halt) hstart ?_
    · refine hfold.bind fun x hx ↦ ?_
      have hareas : ∀ q, q ∈ x.backingAreas ↔ r.disk.BacksTo topPath q := fun q ↦ by
        rw [hx.areas]
        constructor
        · rintro ⟨hq, hne, bdir, hbdir, hisTop⟩
          exact ⟨hq, hne, bdir, (hlists bdir).mp hbdir, hisTop⟩
        · rintro ⟨hq, hne, bdir, hbdir, hisTop⟩
          exact ⟨hq, hne, bdir, (hlists bdir).mpr hbdir, hisTop⟩
      refine ⟨hx.visits.insert hnot hareas hx.known, ⟨fun p hp ↦ ?_, fun p hp ↦ ?_⟩,
        TreeMap.mem_insert_self⟩
      · exact TreeMap.mem_insert.mpr (Or.inr (hx.visited.more p hp))
      · rcases TreeMap.mem_insert.mp hp with heq | hp
        · exact Or.inr (compare_eq_iff_eq.mp heq ▸ .refl)
        · exact hx.visited.reached p hp
    · intro before bdir after hsplit x hx
      have hbdir : r.disk.Lists topPath bdir :=
        (hlists bdir).mp (by rw [hsplit]; exact List.mem_append_right _ List.mem_cons_self)
      unfold Traverser.traverseBackingArea
      refine ((findTop_ends hx.visits.tops r.steps bdir _).mono (fun _ hs ↦ hs)
        fun _ hhalt ↦ Or.inl (Or.inl hhalt)).bind ?_
      rintro ⟨btop, t₁⟩ ⟨htop, htops₁⟩
      obtain ⟨q, hq, hisTop⟩ := hbdir.top
      obtain rfl : q = btop := (htop q hq).mp hisTop
      have hvisits : Visits r.disk (visiting.insert topPath) x.forests t₁ :=
        { hx.visits with tops := htops₁ }
      dsimp only
      rw [if_neg fun hempty ↦ hq (String.isEmpty_iff.mp hempty)]
      by_cases hself : q = topPath
      · rw [if_pos hself]
        refine ⟨{ hvisits with }, hx.visited, areas_append hx.areas htop fun q' ↦ ?_, hx.known⟩
        refine (or_iff_left ?_).symm
        rintro ⟨-, hne, heq⟩
        exact hne (heq.trans hself)
      rw [if_neg hself]
      by_cases hthere : q ∈ x.backingAreas
      · rw [if_pos hthere]
        refine ⟨hvisits, hx.visited, areas_append hx.areas htop fun q' ↦ ?_, hx.known⟩
        refine (or_iff_left_of_imp ?_).symm
        rintro ⟨-, -, rfl⟩
        exact hthere
      rw [if_neg hthere]
      have hstep : r.disk.BacksTo topPath q := ⟨hq, hself, bdir, hbdir, hisTop⟩
      have hdeeper := ih (t := t₁) ("backing area of \"" ++ topPath ++ "\"") hvisits
        hisTop.isForestRoot (fun p hp ↦ by
          rcases TreeSet.mem_insert.mp hp with heq | hp
          · exact compare_eq_iff_eq.mp heq ▸ .single hstep
          · exact (hvisiting p hp).tail hstep)
      refine (hdeeper.mono (fun _ hs ↦ hs) ?_).bind ?_
      · rintro halt (hhalt | ⟨p, description', hreach, hcycle', rfl⟩)
        · exact Or.inl hhalt
        · exact Or.inr ⟨p, description', hreach.head hstep, hcycle', rfl⟩
      · rintro ⟨forests₁, t₂⟩ ⟨hvisits₁, hvisited₁, hmem⟩
        refine ⟨hvisits₁, ⟨fun p hp ↦ hvisited₁.more p (hx.visited.more p hp), fun p hp ↦ ?_⟩,
          areas_append hx.areas htop fun q' ↦ ?_, fun q' hq' ↦ ?_⟩
        · rcases hvisited₁.reached p hp with hp | hreach
          · exact hx.visited.reached p hp
          · exact Or.inr (hreach.head hstep)
        · rw [List.mem_append, List.mem_singleton]
          refine or_congr_right ⟨?_, fun hor ↦ hor.2.2⟩
          rintro rfl
          exact ⟨hq, hself, rfl⟩
        · rcases List.mem_append.mp hq' with hq' | hq'
          · exact hvisited₁.more q' (hx.known q' hq')
          · exact List.mem_singleton.mp hq' ▸ hmem

end Visit

/-! ### The forests that are read -/

section Read

variable {r : Traverser} {topPath : String} {forests : BuildForestMap} {t : Traversal}

theorem readForests_ends (hstrict : r.allow10 = false)
    (hroot : (r.disk.config topPath).isForestRoot = true) :
    Ends (fun x ↦ Visits r.disk ∅ x.1 x.2 ∧ Visited r.disk topPath ∅ x.1 ∧ topPath ∈ x.1)
      (fun halt ↦ ItemsHalt r.disk halt ∨ CycleHalt r.disk topPath halt)
      (r.readForests topPath) := by
  have hnone : ∀ (p : String) (forest : BuildForest), (∅ : BuildForestMap)[p]? ≠ some forest := by
    intro p forest hget
    cases TreeMap.getElem?_emptyc.symm.trans hget
  have hstart : Visits r.disk ∅ ∅ .new := by
    refine ⟨fun dir top htop ↦ ?_, fun p forest hget ↦ absurd hget (hnone p forest), ?_, ?_,
      fun p _ ↦ TreeMap.not_mem_emptyc⟩
    · cases TreeMap.getElem?_emptyc.symm.trans htop
    · rintro p q ⟨forest, hget, -⟩
      exact absurd hget (hnone p forest)
    · intro p hcycle
      obtain ⟨q, ⟨forest, hget, -⟩, -⟩ := TransGen.head'_iff.mp hcycle
      exact hnone p forest hget
  unfold Traverser.readForests
  refine (traverseForests_ends hstrict r.steps "root of local forest" hstart hroot
    fun p hp ↦ absurd hp TreeSet.not_mem_emptyc).bind ?_
  rintro ⟨forests, t⟩ hx
  rw [hstrict]
  exact hx

theorem Visits.backs_iff {disk : Disk} {visiting : TreeSet String}
    (h : Visits disk visiting forests t) (p q : String) :
    Backs forests p q ↔ p ∈ forests ∧ disk.BacksTo p q := by
  constructor
  · rintro ⟨forest, hget, hq⟩
    exact ⟨mem_of_getElem? hget, (h.areas p forest hget q).mp hq⟩
  · rintro ⟨hmem, hq⟩
    obtain ⟨forest, hget⟩ := exists_of_mem hmem
    exact ⟨forest, hget, (h.areas p forest hget q).mpr hq⟩

/-- What can be reached from a forest that has been read has been read. -/
theorem Visits.transGen {disk : Disk} {visiting : TreeSet String}
    (h : Visits disk visiting forests t) {p q : String} (hp : p ∈ forests)
    (hreach : TransGen disk.BacksTo p q) : q ∈ forests ∧ TransGen (Backs forests) p q := by
  induction hreach with
  | single hstep =>
    have hbacks := (h.backs_iff _ _).mpr ⟨hp, hstep⟩
    exact ⟨h.known _ _ hbacks, .single hbacks⟩
  | tail _ hstep ih =>
    have hbacks := (h.backs_iff _ _).mpr ⟨ih.1, hstep⟩
    exact ⟨h.known _ _ hbacks, ih.2.tail hbacks⟩

/-- Validating forests that have been read comes to a result, unless platform data cannot be loaded
from the plugins of a tree. -/
theorem traverse_ends (fullIntegrity : Bool) (hread : r.readForests topPath = .ok (forests, t))
    (h : AsRead forests) :
    Ends (fun _ ↦ True) (fun halt ↦ ∃ plugins, r.loadPlatformData plugins = .error halt)
      (r.traverse fullIntegrity topPath) := by
  obtain ⟨g, order, hg, hsorted, horder⟩ := getSortedGraph_spec h.backing
  obtain ⟨_, validated, found, _, -, hvalidated, hvalidation⟩ :=
    validateForests_spec h fullIntegrity
  have hload : Ends (fun _ ↦ True) (fun halt ↦ ∃ plugins, r.loadPlatformData plugins = .error halt)
      (order.forM (r.loadPlatforms forests validated)) := by
    refine Ends.forM fun path hpath ↦ ?_
    have hmem := (horder.mem_iff path).mp hpath
    obtain ⟨read, hforest⟩ := exists_of_mem hmem
    obtain ⟨forest, hforest'⟩ := exists_of_mem ((hvalidation.mem_iff path).mpr hmem)
    unfold Traverser.loadPlatforms
    rw [hforest, hforest']
    refine Ends.forM fun tree _ ↦ ?_
    cases hplugins : r.loadPlatformData
        ((tree.plugins.filterMap (forest.buildItems[·]?)).map BuildItem.getAbsolutePath) with
    | error halt => exact ⟨_, hplugins⟩
    | ok _ => trivial
  unfold Traverser.traverse
  rw [hread]
  simp only [bind, Except.bind, hg, Option.bind_some, hsorted, hvalidated]
  exact hload.bind fun _ _ ↦ trivial

end Read

end Abuild
