import Abuild.Upgrade.UpgradeLines

/-!
What is read from the lines of the trees. The names are read back, each once, since the writer
leaves out the names that it has written (`Left`). The lines of the trees are no errors exactly when
their paths can be read (`exists_read_forestLines`).
-/

set_option autoImplicit false
set_option relaxedAutoImplicit false

namespace Abuild.UpgradeData

open Std (TreeMap TreeSet)
open KeyVal (isSpace isKeyChar)
open Trim (trim)

variable (fs : FileSystem) (isDirectory : String → Bool) (fuel : ℕ)

/-! ### Headers -/

/-- The reader is at the lines of trees, with what it has kept before. -/
structure Entered (s s' : ReadState) : Prop where
  state : s'.state = .names
  ignoredDirectories : s'.ignoredDirectories = s.ignoredDirectories
  treeNames : s'.treeNames = s.treeNames
  errors : s'.errors = s.errors

theorem readWritten_comment {line : String} (hline : '\n' ∉ line.toList)
    (hcomment : IsComment line.toList) (s : ReadState) :
    readWritten fs isDirectory fuel s line = some (nextLine s) := by
  rw [readWritten_of_notMem hline]
  refine readLine_skip (Or.inr ?_) s
  obtain ⟨rest, hrest⟩ := List.head?_eq_some_iff.mp hcomment
  unfold IsComment
  rw [Trim.head?_trim, hrest, List.dropWhile_cons_of_neg (by decide)]
  rfl

/-- A blank line, the marker of a section of trees, and comments. -/
theorem exists_read_header {marker : String}
    (hmarker : marker = "[forest]" ∨ marker = "[orphan-trees]")
    {comments : List String} (h : ∀ line ∈ comments, '\n' ∉ line.toList ∧ IsComment line.toList)
    (s : ReadState) : ∃ s', ("" :: marker :: comments).foldlM (readWritten fs isDirectory fuel) s =
      some s' ∧ Entered s s' := by
  have hcomments : ∀ t : ReadState, Entered s t →
      ∃ s', comments.foldlM (readWritten fs isDirectory fuel) t = some s' ∧ Entered s s' := by
    induction comments with
    | nil => exact fun t ht ↦ ⟨t, rfl, ht⟩
    | cons line comments ih =>
      intro t ht
      obtain ⟨⟨hline, hcomment⟩, hrest⟩ := List.forall_mem_cons.mp h
      rw [Fallible.foldlM_cons, readWritten_comment fs isDirectory fuel hline hcomment]
      exact ih hrest (nextLine t) ⟨ht.state, ht.ignoredDirectories, ht.treeNames, ht.errors⟩
  rcases hmarker with rfl | rfl
  · exact hcomments { nextLine (nextLine s) with state := .names } ⟨rfl, rfl, rfl, rfl⟩
  · exact hcomments { nextLine (nextLine s) with state := .names } ⟨rfl, rfl, rfl, rfl⟩

theorem isComment_orphanComments :
    ∀ line ∈ orphanComments, '\n' ∉ line.toList ∧ IsComment line.toList := by
  decide +kernel

/-! ### One tree -/

/-- A tree whose line is a comment, or can be read. -/
def IsTreeText (path : String) : Prop :=
  IsComment (trim isSpace path.toList) ∨ IsWord (trim isSpace path.toList)

/-- A name that a user has given to a tree. -/
structure Named (path name : String) : Prop where
  key : IsKey path
  directory : isDirectory path = true
  treeName : IsTreeName name.toList
  named : name ≠ placeholder

theorem isTreeName_placeholder : IsTreeName placeholder.toList :=
  ⟨by decide, by simp [placeholder, isSpace]⟩

theorem IsTreeName.newline {name : List Char} (h : IsTreeName name) : '\n' ∉ name := fun hmem ↦ by
  cases h.2 '\n' hmem

theorem IsWord.newline {text : List Char} (h : IsWord text) : '\n' ∉ text := fun hmem ↦ by
  cases h.2 '\n' hmem

theorem not_mem_treeLine {path name : String} (hpath : '\n' ∉ path.toList)
    (hname : IsTreeName name.toList) : '\n' ∉ (treeLine path name).toList := by
  rw [toList_treeLine]
  refine List.not_mem_append hpath ?_
  exact List.not_mem_cons_of_ne_of_not_mem (by decide)
    (List.not_mem_cons_of_ne_of_not_mem (by decide) hname.newline)

section Tree

variable {s : ReadState} {path name : String}

theorem exists_read_unnamed (hpath : '\n' ∉ path.toList) (hstate : s.state = .names) :
    ∃ s', readWritten fs isDirectory fuel s (treeLine path placeholder) = some s' ∧
      s'.state = .names ∧ s'.ignoredDirectories = s.ignoredDirectories ∧
      s'.treeNames = s.treeNames ∧ (IsTreeText path → s'.errors = s.errors) ∧
      (s'.errors = [] → s.errors = [] ∧ IsTreeText path) := by
  rw [readWritten_of_notMem (not_mem_treeLine hpath isTreeName_placeholder),
    readLine_treeLine isTreeName_placeholder hstate]
  refine ⟨_, rfl, ?_⟩
  dsimp only
  split_ifs with hcomment hword
  · exact ⟨hstate, rfl, rfl, fun _ ↦ rfl, fun hnil ↦ ⟨hnil, Or.inl hcomment⟩⟩
  · exact ⟨hstate, rfl, rfl, fun _ ↦ rfl, fun hnil ↦ ⟨hnil, Or.inr hword⟩⟩
  · refine ⟨hstate, rfl, rfl, fun htext ↦ ?_, fun hnil ↦ ?_⟩
    · exact (htext.elim hcomment hword).elim
    · exact absurd hnil (List.append_ne_nil_of_right_ne_nil _ (List.cons_ne_nil _ _))

theorem exists_read_named (h : Named isDirectory path name) (hstate : s.state = .names) :
    ∃ s', readWritten fs isDirectory fuel s (treeLine path name) = some s' ∧
      s'.state = .names ∧ s'.ignoredDirectories = s.ignoredDirectories ∧
      (s'.errors = [] → s.errors = []) ∧
      (path ∉ s.treeNames → s'.errors = s.errors ∧
        s'.treeNames = s.treeNames.insert path name) := by
  rw [readWritten_of_notMem (not_mem_treeLine h.key.word.newline h.treeName),
    readLine_treeLine h.treeName hstate]
  refine ⟨_, rfl, ?_⟩
  dsimp only
  rw [trim_word h.key.word, if_neg h.key.comment, if_pos h.key.word, String.ofList_toList]
  unfold ReadState.addTree
  rw [if_neg h.named, if_pos h.directory]
  split_ifs with hmem
  · refine ⟨hstate, rfl, fun hnil ↦ ?_, fun hnot ↦ absurd hmem hnot⟩
    exact absurd hnil (List.append_ne_nil_of_right_ne_nil _ (List.cons_ne_nil _ _))
  · exact ⟨hstate, rfl, id, fun _ ↦ ⟨rfl, rfl⟩⟩

theorem IsKey.isTreeText (h : IsKey path) : IsTreeText path := by
  unfold IsTreeText
  rw [trim_word h.word]
  exact Or.inr h.word

end Tree

/-! ### The trees of a forest -/

/-- The names that are left to be written, while the others have been read back. -/
def Left (all names : TreeMap String String) (s : ReadState) : Prop :=
  ∀ path : String, (names[path]? = all[path]? ∧ s.treeNames[path]? = none) ∨
    (names[path]? = none ∧ s.treeNames[path]? = all[path]?)

/-- What the lines of some trees do, after which other names are left. -/
structure Kept (all names names' : TreeMap String String) (paths : List String)
    (s s' : ReadState) : Prop where
  ignoredDirectories : s'.ignoredDirectories = s.ignoredDirectories
  before : s'.errors = [] → s.errors = []
  texts : s'.errors = [] → ∀ path ∈ paths, IsTreeText path
  left : Left all names s → Left all names' s'
  errors : Left all names s → (∀ path ∈ paths, IsTreeText path) → s'.errors = s.errors

section Kept

variable {all names names' names'' : TreeMap String String} {paths paths' : List String}
  {s s' s'' : ReadState}

theorem Kept.refl : Kept all names names [] s s :=
  ⟨rfl, id, fun _ ↦ List.forall_mem_nil _, id, fun _ _ ↦ rfl⟩

theorem Kept.trans (h : Kept all names names' paths s s')
    (h' : Kept all names' names'' paths' s' s'') :
    Kept all names names'' (paths ++ paths') s s'' where
  ignoredDirectories := h'.ignoredDirectories.trans h.ignoredDirectories
  before hnil := h.before (h'.before hnil)
  texts hnil := List.forall_mem_append.mpr ⟨h.texts (h'.before hnil), h'.texts hnil⟩
  left hleft := h'.left (h.left hleft)
  errors hleft htexts := by
    obtain ⟨hpaths, hpaths'⟩ := List.forall_mem_append.mp htexts
    exact (h'.errors (h.left hleft) hpaths').trans (h.errors hleft hpaths)

theorem Left.of_treeNames (h : Left all names s) (heq : s'.treeNames = s.treeNames) :
    Left all names s' := by
  unfold Left
  rw [heq]
  exact h

theorem Entered.kept (h : Entered s s') : Kept all names names [] s s' where
  ignoredDirectories := h.ignoredDirectories
  before hnil := h.errors.symm.trans hnil
  texts _ := List.forall_mem_nil _
  left hleft := hleft.of_treeNames h.treeNames
  errors _ _ := h.errors

theorem Left.not_mem {path name : String} (h : Left all names s)
    (hname : names[path]? = some name) : path ∉ s.treeNames := by
  rcases h path with ⟨-, hnone⟩ | ⟨hnone, -⟩
  · exact TreeMap.mem_iff_isSome_getElem?.not.mpr (by rw [hnone]; exact Bool.false_ne_true)
  · cases hname.symm.trans hnone

theorem Left.of_none (h : Left all names s) (hnone : ∀ path : String, names[path]? = none) :
    Left all ∅ s := by
  intro path
  have hempty : (∅ : TreeMap String String)[path]? = none := TreeMap.getElem?_emptyc
  have hleft := h path
  rw [hnone path] at hleft
  rw [hempty]
  exact hleft

theorem Kept.of_none (h : Kept all names names' paths s s')
    (hnone : ∀ path : String, names'[path]? = none) : Kept all names ∅ paths s s' :=
  { h with left := fun hleft ↦ (h.left hleft).of_none hnone }

/-- A name that has been written is not written again. -/
theorem Left.erase {path name : String} (h : Left all names s) (hname : names[path]? = some name)
    (htreeNames : s'.treeNames = s.treeNames.insert path name) :
    Left all (names.erase path) s' := by
  intro other
  rw [htreeNames, TreeMap.getElem?_erase, TreeMap.getElem?_insert]
  split_ifs with heq
  · obtain rfl := Std.LawfulEqCmp.eq_of_compare heq
    refine Or.inr ⟨rfl, ?_⟩
    rcases h path with ⟨hleft, -⟩ | ⟨hnone, -⟩
    · exact hname.symm.trans hleft
    · cases hname.symm.trans hnone
  · exact h other

end Kept

def Within (names all : TreeMap String String) : Prop :=
  ∀ path name : String, names[path]? = some name → all[path]? = some name

theorem Within.erase {names all : TreeMap String String} (h : Within names all) (path : String) :
    Within (names.erase path) all := by
  intro other name hname
  rw [TreeMap.getElem?_erase] at hname
  split_ifs at hname
  exact h other name hname

section Writer

variable {all : TreeMap String String} {unnamedTrees : TreeSet String}

/-- The trees of a forest that get lines. -/
def namedTrees (unnamedTrees : TreeSet String) (trees : List String) : List String :=
  trees.filter fun path ↦ path ∉ unnamedTrees

variable (hall : ∀ path name, all[path]? = some name → Named isDirectory path name)

include hall

/-- The line of a tree with a name that is still left. -/
theorem exists_read_left {names : TreeMap String String} (hwithin : Within names all)
    {path name : String} (hname : names[path]? = some name) {s : ReadState}
    (hstate : s.state = .names) {paths : List String} (hpaths : ∀ path ∈ paths, IsTreeText path) :
    ∃ s', readWritten fs isDirectory fuel s (treeLine path name) = some s' ∧ s'.state = .names ∧
      Kept all names (names.erase path) paths s s' := by
  have hnamed := hall path name (hwithin path name hname)
  obtain ⟨s', hread, hstate', hignored, hbefore, hkept⟩ :=
    exists_read_named fs isDirectory fuel hnamed hstate
  exact ⟨s', hread, hstate',
    { ignoredDirectories := hignored
      before := hbefore
      texts := fun _ ↦ hpaths
      left := fun hleft ↦ hleft.erase hname (hkept (hleft.not_mem hname)).2
      errors := fun hleft _ ↦ (hkept (hleft.not_mem hname)).1 }⟩

theorem exists_read_trees {trees : List String}
    (htrees : ∀ path ∈ namedTrees unnamedTrees trees, '\n' ∉ path.toList)
    {names : TreeMap String String} (hwithin : Within names all) {s : ReadState}
    (hstate : s.state = .names) :
    ∃ s', (writeTrees unnamedTrees trees names).1.foldlM (readWritten fs isDirectory fuel) s =
        some s' ∧ Within (writeTrees unnamedTrees trees names).2 all ∧
      Kept all names (writeTrees unnamedTrees trees names).2 (namedTrees unnamedTrees trees)
        s s' := by
  induction trees generalizing names s with
  | nil => exact ⟨s, rfl, hwithin, Kept.refl⟩
  | cons path trees ih =>
    unfold writeTrees
    by_cases hunnamed : path ∈ unnamedTrees
    · have hfilter : namedTrees unnamedTrees (path :: trees) = namedTrees unnamedTrees trees :=
        List.filter_cons_of_neg (by simpa using hunnamed)
      rw [if_pos hunnamed, hfilter]
      rw [hfilter] at htrees
      exact ih htrees hwithin hstate
    · have hfilter : namedTrees unnamedTrees (path :: trees) =
          path :: namedTrees unnamedTrees trees := List.filter_cons_of_pos (by simpa using hunnamed)
      rw [hfilter] at htrees
      rw [if_neg hunnamed, hfilter]
      obtain ⟨hpath, htrees⟩ := List.forall_mem_cons.mp htrees
      cases hname : names[path]? with
      | some name =>
        have hkey := (hall path name (hwithin path name hname)).key
        obtain ⟨t, hread, hstate', hline⟩ := exists_read_left fs isDirectory fuel hall hwithin hname
          hstate (List.forall_mem_singleton.mpr hkey.isTreeText)
        obtain ⟨s', hrest, hwithin', hmore⟩ := ih htrees (hwithin.erase path) hstate'
        refine ⟨s', ?_, hwithin', hline.trans hmore⟩
        dsimp only
        rw [Fallible.foldlM_cons, hread]
        exact hrest
      | none =>
        obtain ⟨t, hread, hstate', hignored, htreeNames, htext, hnil⟩ :=
          exists_read_unnamed fs isDirectory fuel hpath hstate
        have hline : Kept all names names [path] s t :=
          { ignoredDirectories := hignored
            before := fun hempty ↦ (hnil hempty).1
            texts := fun hempty ↦ List.forall_mem_singleton.mpr (hnil hempty).2
            left := fun hleft ↦ hleft.of_treeNames htreeNames
            errors := fun _ htexts ↦ htext (htexts path List.mem_cons_self) }
        obtain ⟨s', hrest, hwithin', hmore⟩ := ih htrees hwithin hstate'
        refine ⟨s', ?_, hwithin', hline.trans hmore⟩
        dsimp only
        rw [Fallible.foldlM_cons, hread]
        exact hrest

/-! ### All trees -/

/-- The trees of all forests that get lines. -/
def forestTrees (unnamedTrees : TreeSet String) (forests : List (String × List String)) :
    List String :=
  forests.flatMap fun (_, trees) ↦ namedTrees unnamedTrees trees

theorem exists_read_forests {forests : List (String × List String)}
    (hroots : ∀ root trees, (root, trees) ∈ forests → '\n' ∉ root.toList)
    (htrees : ∀ path ∈ forestTrees unnamedTrees forests, '\n' ∉ path.toList)
    {names : TreeMap String String} (hwithin : Within names all) (s : ReadState) :
    ∃ s', (writeForests unnamedTrees forests names).1.foldlM (readWritten fs isDirectory fuel) s =
        some s' ∧ Within (writeForests unnamedTrees forests names).2 all ∧
      Kept all names (writeForests unnamedTrees forests names).2
        (forestTrees unnamedTrees forests) s s' := by
  induction forests generalizing names s with
  | nil => exact ⟨s, rfl, hwithin, Kept.refl⟩
  | cons forest forests ih =>
    obtain ⟨root, trees⟩ := forest
    have hroot := hroots root trees List.mem_cons_self
    have hlines : forestTrees unnamedTrees ((root, trees) :: forests) =
        namedTrees unnamedTrees trees ++ forestTrees unnamedTrees forests := List.flatMap_cons
    rw [hlines] at htrees ⊢
    obtain ⟨hfirst, hothers⟩ := List.forall_mem_append.mp htrees
    have hcomment : ∀ line ∈ ["# root: " ++ root], '\n' ∉ line.toList ∧ IsComment line.toList := by
      refine List.forall_mem_singleton.mpr ⟨?_, ?_⟩
      · rw [String.toList_append]
        exact List.not_mem_append (by decide) hroot
      · exact Util.head_append rfl
    obtain ⟨s₁, hheader, hentered⟩ := exists_read_header fs isDirectory fuel (Or.inl rfl)
      hcomment s
    obtain ⟨s₂, hread, hwithin₂, hkept₂⟩ :=
      exists_read_trees fs isDirectory fuel hall hfirst hwithin hentered.state
    obtain ⟨s₃, hmore, hwithin₃, hkept₃⟩ := ih
      (fun root' trees' hmem ↦ hroots root' trees' (List.mem_cons_of_mem _ hmem)) hothers
      hwithin₂ s₂
    have hkept := (hentered.kept.trans hkept₂).trans hkept₃
    refine ⟨s₃, ?_, hwithin₃, hkept⟩
    unfold writeForests
    dsimp only
    rw [List.foldlM_append, List.foldlM_append, hheader]
    show ((writeTrees unnamedTrees trees names).1.foldlM (readWritten fs isDirectory fuel) s₁).bind
      (List.foldlM (readWritten fs isDirectory fuel) · _) = _
    rw [hread]
    exact hmore

/-- Names that are left, each of which gets a line. -/
theorem exists_read_orphans {orphans : List (String × String)}
    (hdistinct : orphans.Pairwise fun p q ↦ p.1 ≠ q.1) {names : TreeMap String String}
    (horphans : ∀ path name, (path, name) ∈ orphans ↔ names[path]? = some name)
    (hwithin : Within names all) {s : ReadState} (hstate : s.state = .names) :
    ∃ s', (orphans.map fun (path, name) ↦ treeLine path name).foldlM
        (readWritten fs isDirectory fuel) s = some s' ∧ Kept all names ∅ [] s s' := by
  induction orphans generalizing names s with
  | nil =>
    have hnone (path : String) : names[path]? = none :=
      Option.eq_none_iff_forall_ne_some.mpr fun name hname ↦
        List.not_mem_nil ((horphans path name).mpr hname)
    exact ⟨s, rfl, Kept.refl.of_none hnone⟩
  | cons orphan orphans ih =>
    obtain ⟨path, name⟩ := orphan
    obtain ⟨hfirst, hrest⟩ := List.pairwise_cons.mp hdistinct
    have hname := (horphans path name).mp List.mem_cons_self
    obtain ⟨t, hread, hstate', hline⟩ := exists_read_left fs isDirectory fuel hall hwithin hname
      hstate (List.forall_mem_nil _)
    have horphans' (other value : String) :
        (other, value) ∈ orphans ↔ (names.erase path)[other]? = some value := by
      rw [TreeMap.getElem?_erase]
      split_ifs with heq
      · obtain rfl := Std.LawfulEqCmp.eq_of_compare heq
        exact iff_of_false (fun hmem ↦ hfirst _ hmem rfl) id
      · have hne : other ≠ path := fun hself ↦ heq (by rw [hself]; exact compare_eq_iff_eq.mpr rfl)
        rw [← horphans other value, List.mem_cons, Prod.mk.injEq]
        exact ⟨Or.inr, fun hor ↦ hor.resolve_left fun hand ↦ hne hand.1⟩
    obtain ⟨s', hmore, hkept⟩ := ih hrest horphans' (hwithin.erase path) hstate'
    refine ⟨s', ?_, hline.trans hkept⟩
    rw [List.map_cons, Fallible.foldlM_cons, hread]
    exact hmore

theorem exists_read_orphanLines {names : TreeMap String String} (hwithin : Within names all)
    (s : ReadState) : ∃ s', (orphanLines names).foldlM (readWritten fs isDirectory fuel) s =
      some s' ∧ Kept all names ∅ [] s s' := by
  unfold orphanLines
  split_ifs with hempty
  · exact ⟨s, rfl, Kept.refl.of_none fun path ↦ TreeMap.getElem?_of_isEmpty hempty⟩
  · obtain ⟨t, hheader, hentered⟩ := exists_read_header fs isDirectory fuel (Or.inr rfl)
      isComment_orphanComments s
    have hdistinct : names.toList.Pairwise fun p q ↦ p.1 ≠ q.1 :=
      TreeMap.distinct_keys_toList.imp fun hne heq ↦
        hne (by rw [heq]; exact compare_eq_iff_eq.mpr rfl)
    obtain ⟨s', hread, hkept⟩ := exists_read_orphans fs isDirectory fuel hall hdistinct
      (fun path name ↦ TreeMap.mem_toList_iff_getElem?_eq_some) hwithin hentered.state
    refine ⟨s', ?_, hentered.kept.trans hkept⟩
    rw [List.foldlM_append, hheader]
    exact hread

/-- All lines after those of the directories to ignore. -/
theorem exists_read_forestLines {ud : UpgradeData} (hud : ud.treeNames = all)
    (hroots : ∀ root trees, (root, trees) ∈ ud.forestContents.toList → '\n' ∉ root.toList)
    (htrees : ∀ path ∈ forestTrees ud.unnamedTrees ud.forestContents.toList, '\n' ∉ path.toList)
    (s : ReadState) :
    ∃ s', ud.forestLines.foldlM (readWritten fs isDirectory fuel) s = some s' ∧
      Kept all all ∅ (forestTrees ud.unnamedTrees ud.forestContents.toList) s s' := by
  subst hud
  obtain ⟨t, hforests, hwithin, hkept⟩ := exists_read_forests fs isDirectory fuel hall hroots htrees
    (fun path name hname ↦ hname) s
  obtain ⟨s', horphans, hkept'⟩ := exists_read_orphanLines fs isDirectory fuel hall hwithin t
  have hboth := hkept.trans hkept'
  rw [List.append_nil] at hboth
  refine ⟨s', ?_, hboth⟩
  unfold forestLines
  dsimp only
  rw [List.foldlM_append, hforests]
  exact horphans

end Writer

end Abuild.UpgradeData
