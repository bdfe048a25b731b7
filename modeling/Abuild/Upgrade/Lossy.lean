import Mathlib.Algebra.Order.BigOperators.Group.List
import Abuild.Upgrade.RoundTrip

/-!
Where there are no links, and the paths of the forests are single lines, nothing else can be read
back (`readable_of_roundTrips`). A directory that is not read back from its own line would have to
be read from that of another one. That line loses characters, spaces or backslashes, so that the
other directory has more of them, and is not read back from its own line either; there are only
finitely many (`isIgnoredLine_of_leadsTo`).
-/

set_option autoImplicit false
set_option relaxedAutoImplicit false

namespace Abuild.UpgradeData

open Std (TreeMap TreeSet)
open KeyVal (isSpace isKeyChar)
open Trim (trim)
open Util (absToRel getCurrentDirectory canonicalizePath normalizePathSeparators IsDirectPath
  pathString IsName split dropCommon)

/-! ### The characters of a relative path -/

section Characters

variable {q : Char → Bool}

theorem countP_splitChars {sep : Char} (hsep : q sep = false) (cs : List Char) :
    ((Util.splitChars sep cs).map (List.countP q)).sum = cs.countP q := by
  induction cs with
  | nil => rfl
  | cons c cs ih =>
    rw [Util.splitChars_cons, List.countP_cons, ← ih]
    obtain ⟨part, parts, hparts⟩ := List.exists_cons_of_ne_nil (Util.splitChars_ne_nil sep cs)
    rw [hparts]
    split_ifs with hc hq hq
    · rw [hc, hsep] at hq
      cases hq
    · simp
    · simp [hq]
      omega
    · simp [hq]

theorem countP_split (hslash : q '/' = false) (path : String) :
    ((split '/' path).map fun part ↦ part.toList.countP q).sum = path.toList.countP q := by
  unfold split
  rw [List.map_map, ← countP_splitChars hslash]
  simp [Function.comp_def]

theorem dropCommon_append (common ps ls : List String) :
    dropCommon (common ++ ps) (common ++ ls) = dropCommon ps ls := by
  induction common with
  | nil => rfl
  | cons c common ih => rw [List.cons_append, List.cons_append, Util.dropCommon_cons_self, ih]

/-- Apart from dots and slashes, a relative path has the characters of the names that the
directories do not have in common. -/
theorem countP_absToRel_le (hslash : q '/' = false) (hdot : q '.' = false)
    {kept appended topnames : List String} (h : ∀ name ∈ kept ++ appended, IsName name)
    (htop : ∀ name ∈ topnames, IsName name) (hkept : kept <+: topnames) :
    (absToRel (pathString (kept ++ appended)) (pathString topnames)).toList.countP q ≤
      (appended.map fun name ↦ name.toList.countP q).sum := by
  rw [← countP_split hslash, Util.split_absToRel h htop]
  split_ifs with heq htopnames
  · simp [hdot]
  · rw [htopnames, List.prefix_nil] at hkept
    rw [hkept]
    simp [hdot]
  · obtain ⟨rest, rfl⟩ := hkept
    rw [dropCommon_append, List.map_append, List.sum_append]
    have hup : ((List.replicate (dropCommon appended rest).2.length "..").map
        fun part ↦ part.toList.countP q).sum = 0 := by
      simp [hdot]
    rw [hup, Nat.zero_add]
    refine List.Sublist.sum_le_sum ?_ fun count _ ↦ Nat.zero_le count
    exact (Util.dropCommon_fst_suffix appended rest).sublist.map _

end Characters

/-! ### A directory that is read from a line -/

/-- The characters that a line can lose. -/
def isLost (c : Char) : Bool := isSpace c || c = '\\'

theorem countP_normalize_le (path : String) :
    (normalizePathSeparators path).toList.countP isLost ≤ path.toList.countP isLost := by
  unfold normalizePathSeparators
  rw [String.toList_map, List.countP_map]
  refine List.countP_mono_left fun c _ hc ↦ ?_
  by_cases hslash : c = '\\'
  · rw [hslash]
    rfl
  · rwa [Function.comp_apply, if_neg hslash] at hc

theorem countP_normalize_lt {path : String} (h : '\\' ∈ path.toList) :
    (normalizePathSeparators path).toList.countP isLost < path.toList.countP isLost := by
  obtain ⟨front, back, hpath⟩ := List.append_of_mem h
  have hfront := countP_normalize_le (String.ofList front)
  have hback := countP_normalize_le (String.ofList back)
  unfold normalizePathSeparators at hfront hback ⊢
  rw [String.toList_map, String.toList_ofList] at hfront hback
  rw [String.toList_map, hpath, List.map_append, List.map_cons, List.countP_append,
    List.countP_append, List.countP_cons, List.countP_cons]
  have hslash : isLost '\\' = true := rfl
  have hkept : isLost (if '\\' = '\\' then '/' else '\\') = false := rfl
  rw [hslash, hkept, if_pos rfl, if_neg Bool.false_ne_true]
  omega

section Line

variable {fs : FileSystem} {fuel : ℕ} {dir : String}

/-- A directory that is read from a line has no more spaces and backslashes in its own line. -/
theorem countP_leadsTo_le (hlinks : ∀ path, fs.lstat path ≠ some .symbolicLink)
    (hcwd : IsDirectPath fs (getCurrentDirectory fs)) {text : List Char}
    (h : LeadsTo fs fuel text dir) :
    (absToRel dir (getCurrentDirectory fs)).toList.countP isLost ≤
      (normalizePathSeparators (String.ofList text)).toList.countP isLost := by
  obtain ⟨-, sawLoop, hrun⟩ := h
  obtain ⟨topnames, htop, htopnames, -⟩ := hcwd
  obtain ⟨kept, appended, hkept, hsublist, rfl, hnames⟩ :=
    Util.exists_kept_of_canonicalizePath hlinks htop htopnames hrun
  rw [htop, ← countP_split (q := isLost) rfl (normalizePathSeparators _)]
  refine (countP_absToRel_le rfl rfl hnames htopnames hkept).trans ?_
  exact (hsublist.map _).sum_le_sum fun count _ ↦ Nat.zero_le count

/-- Only a line that is read as it is keeps all its spaces and backslashes. -/
theorem isIgnoredLine_or_lt (hlinks : ∀ path, fs.lstat path ≠ some .symbolicLink)
    (hcwd : IsDirectPath fs (getCurrentDirectory fs)) {rel : String} {line : List Char}
    (hline : line ∈ pieces rel) (h : LeadsTo fs fuel (trim isSpace line) dir) :
    IsIgnoredLine rel.toList ∨
      (absToRel dir (getCurrentDirectory fs)).toList.countP isLost < rel.toList.countP isLost := by
  obtain ⟨body, rfl, hbody, hsublist⟩ := Lines.exists_of_mem_lines hline
  rw [Trim.trim_append_of_all body (List.forall_mem_singleton.mpr rfl)] at h
  have hread := countP_leadsTo_le hlinks hcwd h
  have hnormalize := countP_normalize_le (String.ofList (trim isSpace body))
  rw [String.toList_ofList] at hnormalize
  have htrim := (Trim.trim_sublist isSpace body).countP_le (p := isLost)
  by_cases hnewline : '\n' ∈ rel.toList
  · -- The newline is in no line.
    have hcount := (List.perm_cons_erase hnewline).countP_eq isLost
    have herase := (hsublist.erase '\n').countP_le (p := isLost)
    rw [List.erase_of_not_mem hbody] at herase
    rw [List.countP_cons_of_pos (by rfl)] at hcount
    refine Or.inr ?_
    omega
  · rw [pieces_of_notMem hnewline, List.mem_singleton] at hline
    obtain rfl := List.append_cancel_right hline
    by_cases htrimmed : trim isSpace rel.toList = rel.toList
    · by_cases hslash : '\\' ∈ rel.toList
      · have hlt := countP_normalize_lt hslash
        rw [htrimmed, String.ofList_toList] at hread
        exact Or.inr (hread.trans_lt hlt)
      · obtain ⟨-, hcomment, hmarker⟩ := h.1
        rw [htrimmed] at hcomment hmarker
        exact Or.inl ⟨hnewline, htrimmed, hcomment, hmarker, hslash⟩
    · have hspace (c : Char) (hc : isSpace c = true) : isLost c = true := by
        unfold isLost
        rw [hc]
        rfl
      have hlt := Trim.countP_trim_lt hspace htrimmed
      refine Or.inr ?_
      omega

end Line

/-! ### What has been read back -/

section Converse

variable {fs : FileSystem} {isDirectory : String → Bool} {ud : UpgradeData}

/-- Directories each of which is read from the line of one of them have lines that are read as they
are. -/
theorem isIgnoredLine_of_leadsTo (hlinks : ∀ path, fs.lstat path ≠ some .symbolicLink)
    (hcwd : IsDirectPath fs (getCurrentDirectory fs)) (fuel : ℕ) {dirs : Finset String}
    (hdirect : ∀ dir ∈ dirs, IsDirectPath fs dir)
    (h : ∀ dir ∈ dirs, ∃ other ∈ dirs, ∃ line ∈ pieces (absToRel other (getCurrentDirectory fs)),
      LeadsTo fs fuel (trim isSpace line) dir) :
    ∀ dir ∈ dirs, IsIgnoredLine (absToRel dir (getCurrentDirectory fs)).toList := by
  classical
  by_contra hlost
  push Not at hlost
  obtain ⟨lost, hlost, hbad⟩ := hlost
  -- One with the most spaces and backslashes among those that are not read as they are.
  obtain ⟨dir, hdir, hmax⟩ := Finset.exists_max_image
    (dirs.filter fun dir ↦ ¬ IsIgnoredLine (absToRel dir (getCurrentDirectory fs)).toList)
    (fun dir ↦ (absToRel dir (getCurrentDirectory fs)).toList.countP isLost)
    ⟨lost, Finset.mem_filter.mpr ⟨hlost, hbad⟩⟩
  obtain ⟨hdir, hdirBad⟩ := Finset.mem_filter.mp hdir
  obtain ⟨other, hother, line, hline, hleads⟩ := h dir hdir
  by_cases hgood : IsIgnoredLine (absToRel other (getCurrentDirectory fs)).toList
  · rw [pieces_of_notMem hgood.newline, List.mem_singleton] at hline
    rw [hline, Trim.trim_append_of_all _ (List.forall_mem_singleton.mpr rfl),
      hgood.trimmed] at hleads
    obtain ⟨-, sawLoop, hrun⟩ := hleads
    rw [String.ofList_toList] at hrun
    obtain ⟨fuel', hrun'⟩ := Util.canonicalizePath_relative (hdirect other hother) hcwd hgood.slash
    obtain rfl : dir = other := congrArg Prod.fst (Util.canonicalizePath_unique hrun hrun')
    exact hdirBad hgood
  · have hlt := (isIgnoredLine_or_lt hlinks hcwd hline hleads).resolve_left hgood
    have hle := hmax other (Finset.mem_filter.mpr ⟨hother, hgood⟩)
    exact absurd hle (Nat.not_le_of_lt hlt)

theorem foldlM_readWritten {fuel : ℕ} {written : List String} {s s' : ReadState}
    (h : written.foldlM (readWritten fs isDirectory fuel) s = some s') :
    (written.flatMap pieces).foldlM (ReadState.readLine fs isDirectory fuel) s = some s' :=
  (foldlM_pieces written s).trans h

/-- Only names of words are read back, whatever else there is in the file. -/
theorem keys_of_roundTrips (h : RoundTrips fs isDirectory ud) :
    ∀ path ∈ ud.treeNames, IsKey path := by
  obtain ⟨fuel, s', hrun, -, htreeNames, -⟩ := h
  obtain ⟨s, -, -, hempty, -, heq⟩ := readUpgradeData_eq fs isDirectory fuel ud
  rw [heq] at hrun
  obtain ⟨t, hfirst, hsecond⟩ := Option.bind_eq_some_iff.mp hrun
  have hstart : ∀ path ∈ s.treeNames, IsKey path := fun path hpath ↦ by
    rw [hempty] at hpath
    exact absurd hpath TreeMap.not_mem_emptyc
  have hkeys := isKey_of_foldlM (foldlM_readWritten hsecond)
    (isKey_of_foldlM (foldlM_readWritten hfirst) hstart)
  intro path hpath
  refine hkeys path (TreeMap.mem_iff_isSome_getElem?.mpr ?_)
  rw [htreeNames]
  exact TreeMap.mem_iff_isSome_getElem?.mp hpath

theorem readable_of_roundTrips (hlinks : ∀ path, fs.lstat path ≠ some .symbolicLink)
    (h : Existing fs isDirectory ud) (hlines : SingleLines ud)
    (hround : RoundTrips fs isDirectory ud) : Readable fs ud := by
  have hkeys := keys_of_roundTrips hround
  obtain ⟨fuel, s', hrun, herrors, htreeNames, hignored⟩ := hround
  obtain ⟨s, -, hempty, -, -, heq⟩ := readUpgradeData_eq fs isDirectory fuel ud
  rw [heq] at hrun
  obtain ⟨t, hfirst, hsecond⟩ := Option.bind_eq_some_iff.mp hrun
  obtain ⟨s'', hsecond', hkept⟩ := exists_read_forestLines fs isDirectory fuel (h.named hkeys) rfl
    hlines.forestRoots hlines.forestTrees t
  obtain rfl : s'' = s' := Option.some.inj (hsecond'.symm.trans hsecond)
  -- The directories have been read from their lines, before those of the forests.
  have hread : ∀ dir ∈ ud.ignoredDirectories, ∃ other ∈ ud.ignoredDirectories,
      ∃ line ∈ pieces (absToRel other (getCurrentDirectory fs)),
        LeadsTo fs fuel (trim isSpace line) dir := by
    intro dir hdir
    have hmem : dir ∈ t.ignoredDirectories := by
      rw [← hkept.ignoredDirectories]
      exact (hignored dir).mpr hdir
    rcases exists_line_of_foldlM (foldlM_readWritten hfirst) hmem with hstart | ⟨line, hline,
      hleads⟩
    · rw [hempty] at hstart
      exact absurd hstart TreeSet.not_mem_emptyc
    · obtain ⟨rel, hrel, hline⟩ := List.mem_flatMap.mp hline
      obtain ⟨other, hother, rfl⟩ := List.mem_map.mp hrel
      exact ⟨other, TreeSet.mem_toList.mp hother, line, hline, hleads⟩
  have hdirect : ∀ dir ∈ ud.ignoredDirectories, IsDirectPath fs dir := by
    intro dir hdir
    obtain ⟨other, -, line, -, -, sawLoop, hrun⟩ := hread dir hdir
    obtain ⟨topnames, htop, htopnames, -⟩ := h.current
    obtain ⟨kept, appended, -, -, heq, hnames⟩ :=
      Util.exists_kept_of_canonicalizePath hlinks htop htopnames hrun
    exact ⟨kept ++ appended, heq, hnames, fun l _ _ ↦ hlinks _⟩
  have hmem (dir : String) : dir ∈ ud.ignoredDirectories.toList.toFinset ↔
      dir ∈ ud.ignoredDirectories := List.mem_toFinset.trans TreeSet.mem_toList
  have hignoredLines : ∀ dir ∈ ud.ignoredDirectories.toList.toFinset,
      IsIgnoredLine (absToRel dir (getCurrentDirectory fs)).toList := by
    refine isIgnoredLine_of_leadsTo hlinks h.current fuel
      (fun dir hdir ↦ hdirect dir ((hmem dir).mp hdir)) fun dir hdir ↦ ?_
    obtain ⟨other, hother, hrest⟩ := hread dir ((hmem dir).mp hdir)
    exact ⟨other, (hmem other).mpr hother, hrest⟩
  exact
    { keys := hkeys
      direct := hdirect
      ignored := fun dir hdir ↦ hignoredLines dir ((hmem dir).mpr hdir)
      lines := hlines
      trees := fun root trees hforest path hpath hunnamed ↦
        hkept.texts herrors path (mem_forestTrees.mpr ⟨root, trees, hforest, hpath, hunnamed⟩) }

end Converse

/-- The paths that can be read back are read back; where there are no links, and the paths of the
forests are single lines, no others are. -/
theorem roundTrips_and_readable {fs : FileSystem} {isDirectory : String → Bool} {ud : UpgradeData}
    (h : Existing fs isDirectory ud) :
    (Readable fs ud → RoundTrips fs isDirectory ud) ∧
      ((∀ path, fs.lstat path ≠ some .symbolicLink) → SingleLines ud →
        RoundTrips fs isDirectory ud → Readable fs ud) :=
  ⟨roundTrips_of_readable h, fun hlinks hlines ↦ readable_of_roundTrips hlinks h hlines⟩

/-! ### A tree in a directory -/

/-- A file system without links, in whose root there is one tree. -/
def treeInRoot (path : String) : FileSystem where
  lstat dir := if dir = "/usr" ∨ dir = "/" ++ path then some .other else none
  readlink _ := none
  getcwd := "/"
  absolute := FileSystem.absolute_root

def inRoot (path dir : String) : Bool := dir = path || dir = "../usr"

/-- A forest of one tree, which has a name, and a directory to ignore. -/
def oneTree (path : String) : UpgradeData where
  ignoredDirectories := (∅ : TreeSet String).insert "/usr"
  treeNames := (∅ : TreeMap String String).insert path "core"
  forestContents := (∅ : TreeMap String (List String)).insert path [path]
  unnamedTrees := ∅

section OneTree

variable (path : String)

theorem treeInRoot_noLinks (dir : String) : (treeInRoot path).lstat dir ≠ some .symbolicLink := by
  unfold treeInRoot
  dsimp only
  split_ifs <;> decide

theorem getCurrentDirectory_treeInRoot :
    getCurrentDirectory (treeInRoot path) = pathString [] := by
  have hroot : normalizePathSeparators "/" = pathString [] := by decide +kernel
  exact hroot

theorem isDirectPath_treeInRoot {names : List String} (h : ∀ name ∈ names, IsName name) :
    IsDirectPath (treeInRoot path) (pathString names) :=
  ⟨names, rfl, h, fun _ _ _ ↦ treeInRoot_noLinks path _⟩

theorem mem_treeNames_oneTree {other : String} :
    other ∈ (oneTree path).treeNames ↔ other = path := by
  unfold oneTree
  rw [TreeMap.mem_insert, compare_eq_iff_eq, or_iff_left TreeMap.not_mem_emptyc]
  exact eq_comm

theorem mem_ignoredDirectories_oneTree {dir : String} :
    dir ∈ (oneTree path).ignoredDirectories ↔ dir = "/usr" := by
  unfold oneTree
  rw [TreeSet.mem_insert, compare_eq_iff_eq, or_iff_left TreeSet.not_mem_emptyc]
  exact eq_comm

theorem absToRel_usr : absToRel "/usr" (getCurrentDirectory (treeInRoot path)) = "../usr" := by
  have hrel : absToRel "/usr" (pathString []) = "../usr" := by decide +kernel
  rw [getCurrentDirectory_treeInRoot, hrel]

theorem existing_oneTree : Existing (treeInRoot path) (inRoot path) (oneTree path) where
  current := by
    rw [getCurrentDirectory_treeInRoot]
    exact isDirectPath_treeInRoot path (List.forall_mem_nil _)
  trees other hother := by
    rw [(mem_treeNames_oneTree path).mp hother]
    simp [inRoot]
  names other name hname := by
    have hcore : name = "core" := by
      unfold oneTree at hname
      rw [TreeMap.getElem?_insert] at hname
      split_ifs at hname
      · exact (Option.some.inj hname).symm
      · cases TreeMap.getElem?_emptyc.symm.trans hname
    rw [hcore]
    exact ⟨⟨by decide, by simp [isSpace]⟩, by decide⟩
  ignored dir hdir := by
    rw [(mem_ignoredDirectories_oneTree path).mp hdir]
    rw [absToRel_usr]
    simp [inRoot]

variable {path}

theorem root_oneTree {root : String} (h : root ∈ (oneTree path).forestContents) : root = path := by
  unfold oneTree at h
  rw [TreeMap.mem_insert, compare_eq_iff_eq, or_iff_left TreeMap.not_mem_emptyc] at h
  exact h.symm

theorem tree_oneTree {root tree : String} {trees : List String}
    (h : (oneTree path).forestContents[root]? = some trees)
    (htree : tree ∈ trees) :
    tree = path := by
  unfold oneTree at h
  rw [TreeMap.getElem?_insert] at h
  split_ifs at h
  · rw [← Option.some.inj h] at htree
    exact List.mem_singleton.mp htree
  · cases TreeMap.getElem?_emptyc.symm.trans h

end OneTree

theorem readable_oneTree : Readable (treeInRoot "my-tree") (oneTree "my-tree") where
  keys path hpath := by
    rw [(mem_treeNames_oneTree _).mp hpath]
    exact ⟨by decide +kernel, by decide +kernel⟩
  direct dir hdir := by
    rw [(mem_ignoredDirectories_oneTree _).mp hdir]
    have husr : IsName "usr" := ⟨by decide, by decide, by decide, by decide⟩
    exact isDirectPath_treeInRoot _ (List.forall_mem_singleton.mpr husr)
  ignored dir hdir := by
    rw [(mem_ignoredDirectories_oneTree _).mp hdir, absToRel_usr]
    exact ⟨by decide, by decide +kernel, by decide, by decide +kernel, by decide⟩
  lines :=
    { roots := fun root hroot ↦ by
        rw [root_oneTree hroot]
        decide
      trees := fun root trees hforest path hpath _ ↦ by
        rw [tree_oneTree hforest hpath]
        decide }
  trees root trees hforest path hpath _ := by
    rw [tree_oneTree hforest hpath]
    exact Or.inr (by decide +kernel)

theorem roundTrips_oneTree :
    RoundTrips (treeInRoot "my-tree") (inRoot "my-tree") (oneTree "my-tree") ∧
      Readable (treeInRoot "my-tree") (oneTree "my-tree") := by
  obtain ⟨hreads, hreadable⟩ := roundTrips_and_readable (existing_oneTree "my-tree")
  have hround := hreads readable_oneTree
  exact ⟨hround, hreadable (treeInRoot_noLinks _) readable_oneTree.lines hround⟩

/-- A tree in a directory with a space in its name. -/
theorem not_roundTrips_space :
    Existing (treeInRoot "my tree") (inRoot "my tree") (oneTree "my tree") ∧
    (readUpgradeData (treeInRoot "my tree") (inRoot "my tree") 10
      ((oneTree "my tree").writeUpgradeData (treeInRoot "my tree"))).map (·.errors) =
        some [(⟨"abuild.upgrade-data", 7, 0⟩, "invalid tree name")] ∧
    ¬ RoundTrips (treeInRoot "my tree") (inRoot "my tree") (oneTree "my tree") := by
  refine ⟨existing_oneTree _, by decide +kernel, fun hround ↦ ?_⟩
  have hkey := keys_of_roundTrips hround "my tree" ((mem_treeNames_oneTree _).mpr rfl)
  have hspace := hkey.word.2 ' ' (by decide)
  cases hspace

end Abuild.UpgradeData
