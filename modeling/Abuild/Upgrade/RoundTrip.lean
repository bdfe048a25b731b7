import Abuild.Upgrade.ReadBack

/-!
When the upgrade data can be read back. Paths stand in the file as they are, so that a path for a
tree has to be a word, and the relative path of a directory to ignore a line that is no comment, no
section marker, and has no spaces at its ends (`Readable`). Then everything is read back
(`roundTrips_of_readable`).
-/

set_option autoImplicit false
set_option relaxedAutoImplicit false

namespace Abuild.UpgradeData

open Std (TreeMap TreeSet)
open KeyVal (isSpace isKeyChar)
open Trim (trim)
open Util (absToRel getCurrentDirectory canonicalizePath IsDirectPath)

/-! ### The condition -/

/-- A line that is read as it is, in the section of the directories to ignore. A backslash is taken
for a slash. -/
structure IsIgnoredLine (line : List Char) : Prop where
  newline : '\n' ∉ line
  trimmed : trim isSpace line = line
  comment : ¬ IsComment line
  marker : matchSection line = none
  slash : '\\' ∉ line

/-- The paths of the forests are single lines. -/
structure SingleLines (ud : UpgradeData) : Prop where
  roots : ∀ root ∈ ud.forestContents, '\n' ∉ root.toList
  trees : ∀ (root : String) (trees : List String), ud.forestContents[root]? = some trees →
    ∀ path ∈ trees, path ∉ ud.unnamedTrees → '\n' ∉ path.toList

/-- The paths that can be read back. -/
structure Readable (fs : FileSystem) (ud : UpgradeData) : Prop where
  keys : ∀ path ∈ ud.treeNames, IsKey path
  direct : ∀ dir ∈ ud.ignoredDirectories, IsDirectPath fs dir
  ignored : ∀ dir ∈ ud.ignoredDirectories,
    IsIgnoredLine (absToRel dir (getCurrentDirectory fs)).toList
  lines : SingleLines ud
  trees : ∀ (root : String) (trees : List String), ud.forestContents[root]? = some trees →
    ∀ path ∈ trees, path ∉ ud.unnamedTrees → IsTreeText path

/-- Existing directories, a current directory, and names that the reader accepts. -/
structure Existing (fs : FileSystem) (isDirectory : String → Bool) (ud : UpgradeData) : Prop where
  current : IsDirectPath fs (getCurrentDirectory fs)
  trees : ∀ path ∈ ud.treeNames, isDirectory path = true
  names : ∀ path name : String, ud.treeNames[path]? = some name →
    IsTreeName name.toList ∧ name ≠ placeholder
  ignored : ∀ dir ∈ ud.ignoredDirectories,
    isDirectory (absToRel dir (getCurrentDirectory fs)) = true

section Forward

variable {fs : FileSystem} {isDirectory : String → Bool} {fuel : ℕ} {ud : UpgradeData}

/-! ### The directories to ignore -/

theorem readWritten_ignored {line path : String} (h : IsIgnoredLine line.toList)
    (hdirectory : isDirectory line = true) {sawLoop : Bool}
    (hrun : canonicalizePath fs fuel line = some (path, sawLoop)) {s : ReadState}
    (hstate : s.state = .ignoredDirs) :
    readWritten fs isDirectory fuel s line =
      some { nextLine s with ignoredDirectories := s.ignoredDirectories.insert path } := by
  have hne : trim isSpace line.toList ≠ [] := by
    rw [h.trimmed]
    intro hnil
    rw [String.toList_eq_nil_iff.mp hnil] at hrun
    cases hrun
  have hnext : (nextLine s).state = .ignoredDirs := hstate
  rw [readWritten_of_notMem h.newline, readLine_content hne (by rw [h.trimmed]; exact h.comment),
    h.trimmed]
  unfold ReadState.readContent
  rw [h.marker, hnext]
  show ReadState.addIgnored fs isDirectory fuel (nextLine s) (String.ofList line.toList) = _
  unfold ReadState.addIgnored
  rw [String.ofList_toList, if_pos hdirectory, hrun]
  rfl

/-- Each directory is read back from its line. -/
theorem exists_read_ignored {rel : String → String} {dirs : List String}
    (hlines : ∀ dir ∈ dirs, IsIgnoredLine (rel dir).toList)
    (hdirs : ∀ dir ∈ dirs, isDirectory (rel dir) = true)
    (hruns : ∀ dir ∈ dirs, canonicalizePath fs fuel (rel dir) = some (dir, false)) {s : ReadState}
    (hstate : s.state = .ignoredDirs) :
    ∃ s', (dirs.map rel).foldlM (readWritten fs isDirectory fuel) s = some s' ∧
      s'.treeNames = s.treeNames ∧ s'.errors = s.errors ∧
      ∀ dir, dir ∈ s'.ignoredDirectories ↔ dir ∈ s.ignoredDirectories ∨ dir ∈ dirs := by
  induction dirs generalizing s with
  | nil => exact ⟨s, rfl, rfl, rfl, fun dir ↦ by simp⟩
  | cons dir dirs ih =>
    obtain ⟨hline, hlines⟩ := List.forall_mem_cons.mp hlines
    obtain ⟨hdir, hdirs⟩ := List.forall_mem_cons.mp hdirs
    obtain ⟨hrun, hruns⟩ := List.forall_mem_cons.mp hruns
    have hread := readWritten_ignored hline hdir hrun hstate
    obtain ⟨s', hrest, htreeNames, herrors, hmem⟩ := ih hlines hdirs hruns
      (s := { nextLine s with ignoredDirectories := s.ignoredDirectories.insert dir }) hstate
    refine ⟨s', ?_, htreeNames, herrors, fun other ↦ ?_⟩
    · rw [List.map_cons, Fallible.foldlM_cons, hread]
      exact hrest
    · rw [hmem, TreeSet.mem_insert, compare_eq_iff_eq, List.mem_cons]
      grind

theorem exists_fuel {rel : String → String} {dirs : List String}
    (h : ∀ dir ∈ dirs, ∃ fuel, canonicalizePath fs fuel (rel dir) = some (dir, false)) :
    ∃ fuel, ∀ dir ∈ dirs, canonicalizePath fs fuel (rel dir) = some (dir, false) := by
  induction dirs with
  | nil => exact ⟨0, List.forall_mem_nil _⟩
  | cons dir dirs ih =>
    obtain ⟨hdir, hdirs⟩ := List.forall_mem_cons.mp h
    obtain ⟨fuel, hrun⟩ := hdir
    obtain ⟨fuel', hruns⟩ := ih hdirs
    refine ⟨fuel + fuel', List.forall_mem_cons.mpr ⟨Util.canonicalizePath_mono hrun fuel', ?_⟩⟩
    intro other hother
    rw [Nat.add_comm]
    exact Util.canonicalizePath_mono (hruns other hother) fuel

/-! ### The whole file -/

/-- After its header the file has the lines of the directories to ignore, and those of the trees. -/
theorem readUpgradeData_eq (fs : FileSystem) (isDirectory : String → Bool) (fuel : ℕ)
    (ud : UpgradeData) : ∃ s, s.state = .ignoredDirs ∧ s.ignoredDirectories = ∅ ∧
      s.treeNames = ∅ ∧ s.errors = [] ∧
      readUpgradeData fs isDirectory fuel (ud.writeUpgradeData fs) =
        ((ud.ignoredDirectories.toList.map fun dir ↦ absToRel dir (getCurrentDirectory fs)).foldlM
          (readWritten fs isDirectory fuel) s).bind
            (ud.forestLines.foldlM (readWritten fs isDirectory fuel)) := by
  refine ⟨{ ReadState.initial with state := .ignoredDirs, lineno := 2 }, rfl, rfl, rfl, rfl, ?_⟩
  have hheader : headerLines.foldlM (readWritten fs isDirectory fuel) .initial =
      some { ReadState.initial with state := .ignoredDirs, lineno := 2 } := rfl
  unfold writeUpgradeData
  rw [readUpgradeData_join, List.append_assoc, List.foldlM_append, hheader]
  exact List.foldlM_append

theorem mem_forestTrees {path : String} :
    path ∈ forestTrees ud.unnamedTrees ud.forestContents.toList ↔
      ∃ (root : String) (trees : List String), ud.forestContents[root]? = some trees ∧
        path ∈ trees ∧ path ∉ ud.unnamedTrees := by
  unfold forestTrees namedTrees
  simp

theorem SingleLines.forestRoots (h : SingleLines ud) :
    ∀ root trees, (root, trees) ∈ ud.forestContents.toList → '\n' ∉ root.toList :=
  fun root trees hmem ↦ h.roots root (TreeMap.mem_iff_isSome_getElem?.mpr
    (by rw [TreeMap.mem_toList_iff_getElem?_eq_some.mp hmem]; rfl))

theorem SingleLines.forestTrees (h : SingleLines ud) :
    ∀ path ∈ forestTrees ud.unnamedTrees ud.forestContents.toList, '\n' ∉ path.toList := by
  intro path hpath
  obtain ⟨root, trees, hforest, hpath, hunnamed⟩ := mem_forestTrees.mp hpath
  exact h.trees root trees hforest path hpath hunnamed

theorem Existing.named (h : Existing fs isDirectory ud)
    (hkeys : ∀ path ∈ ud.treeNames, IsKey path) :
    ∀ path name, ud.treeNames[path]? = some name → Named isDirectory path name := by
  intro path name hname
  have hpath : path ∈ ud.treeNames := TreeMap.mem_iff_isSome_getElem?.mpr (by rw [hname]; rfl)
  obtain ⟨htreeName, hnamed⟩ := h.names path name hname
  exact ⟨hkeys path hpath, h.trees path hpath, htreeName, hnamed⟩

/-- What can be read is read back. -/
theorem roundTrips_of_readable (h : Existing fs isDirectory ud) (hread : Readable fs ud) :
    RoundTrips fs isDirectory ud := by
  have hruns : ∀ dir ∈ ud.ignoredDirectories.toList, ∃ fuel, canonicalizePath fs fuel
      (absToRel dir (getCurrentDirectory fs)) = some (dir, false) := fun dir hdir ↦ by
    rw [TreeSet.mem_toList] at hdir
    exact Util.canonicalizePath_relative (hread.direct dir hdir) h.current
      (hread.ignored dir hdir).slash
  obtain ⟨fuel, hruns⟩ := exists_fuel hruns
  obtain ⟨s, hstate, hignored, htreeNames, herrors, hrun⟩ :=
    readUpgradeData_eq fs isDirectory fuel ud
  obtain ⟨t, hfirst, htreeNames', herrors', hmem⟩ := exists_read_ignored
    (fun dir hdir ↦ hread.ignored dir (TreeSet.mem_toList.mp hdir))
    (fun dir hdir ↦ h.ignored dir (TreeSet.mem_toList.mp hdir)) hruns hstate
  obtain ⟨s', hsecond, hkept⟩ := exists_read_forestLines fs isDirectory fuel (h.named hread.keys)
    rfl hread.lines.forestRoots hread.lines.forestTrees t
  have htexts : ∀ path ∈ forestTrees ud.unnamedTrees ud.forestContents.toList, IsTreeText path := by
    intro path hpath
    obtain ⟨root, trees, hforest, hpath, hunnamed⟩ := mem_forestTrees.mp hpath
    exact hread.trees root trees hforest path hpath hunnamed
  -- No name has been read before the lines of the trees.
  have hleft : Left ud.treeNames ud.treeNames t := fun path ↦ by
    rw [htreeNames', htreeNames]
    exact Or.inl ⟨rfl, TreeMap.getElem?_emptyc⟩
  refine ⟨fuel, s', ?_, ?_, fun path ↦ ?_, fun dir ↦ ?_⟩
  · rw [hrun, hfirst]
    exact hsecond
  · rw [hkept.errors hleft htexts, herrors', herrors]
  · rcases hkept.left hleft path with ⟨hnone, hread⟩ | ⟨-, hread⟩
    · rw [hread, ← hnone]
      exact TreeMap.getElem?_emptyc.symm
    · exact hread
  · rw [hkept.ignoredDirectories, hmem, hignored, TreeSet.mem_toList]
    exact or_iff_right TreeSet.not_mem_emptyc

end Forward

end Abuild.UpgradeData
