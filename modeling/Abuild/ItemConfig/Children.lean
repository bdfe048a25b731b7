import Abuild.ItemConfig
import Abuild.Library.Attached
import Abuild.Util.Split

/-!
The children of an item. `checkChildren` keeps a child without its trailing slash and remembers it
with the slash for the flag that follows, so that `-optional` does not always reach its child.
-/

set_option autoImplicit false
set_option relaxedAutoImplicit false

namespace Abuild.ItemConfig

open Attached
open Std (TreeMap TreeSet)

/-! ### Slashes -/

/-- A path without any slashes at its end. -/
def withoutSlashes (path : String) : String := String.ofList (path.toList.rdropWhile (· = '/'))

theorem withoutSlashes_eq_self_iff {path : String} :
    withoutSlashes path = path ↔ path.toList.getLast? ≠ some '/' := by
  unfold withoutSlashes
  rw [← String.toList_inj, String.toList_ofList]
  rcases List.eq_nil_or_concat path.toList with hnil | ⟨front, c, hconcat⟩
  · rw [hnil]
    simp
  · rw [hconcat, List.concat_eq_append, List.rdropWhile_concat, List.getLast?_concat]
    by_cases hc : c = '/'
    · subst hc
      refine iff_of_false (fun heq ↦ ?_) (not_not.mpr rfl)
      have hle := (List.rdropWhile_prefix (p := fun c ↦ decide (c = '/')) (l := front)).length_le
      have hlength := congrArg List.length heq
      rw [if_pos (decide_eq_true rfl), List.length_append, List.length_singleton] at hlength
      omega
    · rw [if_neg (by simpa using hc)]
      exact iff_of_true rfl fun h ↦ hc (Option.some_inj.mp h)

theorem withoutSlashes_idem (path : String) :
    withoutSlashes (withoutSlashes path) = withoutSlashes path := by
  unfold withoutSlashes
  rw [String.toList_ofList, List.rdropWhile_idempotent]

theorem withoutSlashes_concat (path : String) :
    withoutSlashes (path ++ "/") = withoutSlashes path := by
  unfold withoutSlashes
  rw [String.toList_append]
  exact congrArg String.ofList (List.rdropWhile_concat_pos _ _ _ (decide_eq_true rfl))

theorem stripTrailingSlash_cases (path : String) :
    (path.toList.getLast? ≠ some '/' ∧ Util.stripTrailingSlash path = path) ∨
      path = Util.stripTrailingSlash path ++ "/" := by
  unfold Util.stripTrailingSlash
  split_ifs with hslash
  · refine Or.inr ?_
    rw [← String.toList_inj, String.toList_append, String.toList_ofList]
    exact (List.dropLast_append_getLast? '/' hslash).symm
  · exact Or.inl ⟨hslash, rfl⟩

/-- One slash is stripped, which is all where there are no two. -/
theorem withoutSlashes_strip (path : String) :
    withoutSlashes (Util.stripTrailingSlash path) = withoutSlashes path := by
  rcases stripTrailingSlash_cases path with ⟨-, heq⟩ | heq
  · rw [heq]
  · conv_rhs => rw [heq, withoutSlashes_concat]

/-! ### A run of the loop -/

def isDirectoryWord (word : String) : Bool := word ≠ "-optional"

section Loop

variable {fs : FileSystem} {isFile : String → Bool} {dir : String} {location : FileLocation}
  {words : List String} {start : List ErrorMessage} {r : ChildrenCheck} {word : String}

/-- What a word does that is not reported. -/
theorem checkChild_cases (h : (checkChild fs isFile dir location r word).errors = []) :
    r.errors = [] ∧
      ((isDirectoryWord word = false ∧ r.lastChild ≠ "" ∧
          checkChild fs isFile dir location r word =
            { r with optionalChildren := r.optionalChildren.insert r.lastChild }) ∨
        isDirectoryWord word = true ∧
          checkChild fs isFile dir location r word =
            { r with
              children := r.children ++ [Util.stripTrailingSlash word], lastChild := word }) := by
  unfold checkChild at h ⊢
  unfold isDirectoryWord
  by_cases hoptional : word = "-optional"
  · rw [if_pos hoptional] at h ⊢
    by_cases hlast : r.lastChild.isEmpty = true
    · rw [if_pos hlast] at h
      exact absurd h (by simp)
    · rw [if_neg hlast] at h ⊢
      refine ⟨h, Or.inl ⟨by simpa using hoptional, fun hnil ↦ hlast ?_, rfl⟩⟩
      exact String.isEmpty_iff.mpr hnil
  · rw [if_neg hoptional] at h ⊢
    dsimp only at h ⊢
    by_cases hparent : ".." ∈ Util.split '/' (Util.stripTrailingSlash word)
    · rw [if_pos hparent] at h
      exact absurd h (by simp)
    · rw [if_neg hparent] at h ⊢
      obtain ⟨hr, hchild⟩ := List.append_eq_nil_iff.mp h
      refine ⟨hr, Or.inr ⟨by simpa using hoptional, ?_⟩⟩
      rw [hr, hchild]
      rfl

/-- What the loop has when it reports no error: the stripped directories, and the directories that
flags belong to as they are written. -/
structure ChildrenRead (words : List String) (r : ChildrenCheck) : Prop where
  children : r.children = (words.filter isDirectoryWord).map Util.stripTrailingSlash
  lastChild : r.lastChild = (owner isDirectoryWord words).getD ""
  optional : ∀ child : String, child ∈ r.optionalChildren ↔
    Belongs isDirectoryWord words "-optional" child

theorem childrenRead_nil : ChildrenRead [] ⟨[], ∅, "", start⟩ :=
  ⟨rfl, rfl, fun _ ↦ iff_of_false TreeSet.not_mem_emptyc belongs_nil⟩

theorem ChildrenRead.directory (h : ChildrenRead words r) (hword : isDirectoryWord word = true) :
    ChildrenRead (words ++ [word])
      { r with children := r.children ++ [Util.stripTrailingSlash word], lastChild := word } := by
  refine ⟨?_, ?_, fun child ↦ ?_⟩
  · rw [List.filter_append, List.map_append, ← h.children, List.filter_cons_of_pos hword]
    rfl
  · rw [owner_concat, if_pos hword]
    rfl
  · rw [belongs_concat, ← h.optional child]
    refine (or_iff_left ?_).symm
    rintro ⟨rfl, -⟩
    cases hword

theorem ChildrenRead.flag (h : ChildrenRead words r) (hword : isDirectoryWord word = false)
    (hlast : r.lastChild ≠ "") : ChildrenRead (words ++ [word])
      { r with optionalChildren := r.optionalChildren.insert r.lastChild } := by
  have hflag : word = "-optional" := by simpa [isDirectoryWord] using hword
  have howner : owner isDirectoryWord words = some r.lastChild := by
    rw [h.lastChild] at hlast ⊢
    cases hlast' : owner isDirectoryWord words with
    | none =>
      rw [hlast'] at hlast
      exact absurd rfl hlast
    | some last => rfl
  refine ⟨?_, ?_, fun child ↦ ?_⟩
  · rw [List.filter_append, List.filter_cons_of_neg (by simp [hword]), List.filter_nil,
      List.append_nil]
    exact h.children
  · rw [owner_concat, if_neg (by simp [hword])]
    exact h.lastChild
  · rw [belongs_concat, ← h.optional child, TreeSet.mem_insert, compare_eq_iff_eq, howner,
      Option.some_inj, or_comm]
    exact or_congr_right (iff_and_self.mpr fun _ ↦ hflag)

theorem childrenRead_foldl
    (h : (words.foldl (checkChild fs isFile dir location) ⟨[], ∅, "", start⟩).errors = []) :
    start = [] ∧
      ChildrenRead words (words.foldl (checkChild fs isFile dir location) ⟨[], ∅, "", start⟩) := by
  induction words using List.reverseRecOn with
  | nil => exact ⟨h, childrenRead_nil⟩
  | append_singleton words word ih =>
    rw [List.foldl_concat] at h ⊢
    obtain ⟨hr, ⟨hword, hlast, heq⟩ | ⟨hword, heq⟩⟩ := checkChild_cases h
    · obtain ⟨hstart, hread⟩ := ih hr
      rw [heq]
      exact ⟨hstart, hread.flag hword hlast⟩
    · obtain ⟨hstart, hread⟩ := ih hr
      rw [heq]
      exact ⟨hstart, hread.directory hword⟩

end Loop

/-! ### Children and their flags -/

/-- Some occurrence of the directory is followed by the flag. -/
def FollowedByOptional (words : List String) (word : String) : Prop :=
  word ≠ "-optional" ∧ ∃ before after, words = before ++ word :: "-optional" :: after

/-- The flag belongs to the directories that it follows. -/
theorem belongs_iff_followed {words : List String} {word : String} :
    Belongs isDirectoryWord words "-optional" word ↔ FollowedByOptional words word := by
  constructor
  · rintro ⟨before, after, rfl, howner⟩
    obtain ⟨front, flags, rfl, hword, hflags⟩ := owner_eq_some_iff.mp howner
    refine ⟨by simpa [isDirectoryWord] using hword, ?_⟩
    cases flags with
    | nil => exact ⟨front, after, by simp⟩
    | cons flag flags =>
      have hflag : flag = "-optional" := by
        simpa [isDirectoryWord] using hflags flag List.mem_cons_self
      exact ⟨front, flags ++ "-optional" :: after, by simp [hflag]⟩
  · rintro ⟨hword, before, after, rfl⟩
    refine ⟨before ++ [word], after, by simp, ?_⟩
    rw [owner_concat, if_pos (by simpa [isDirectoryWord] using hword)]

/-- What is expected of the children and of their flags, with paths without slashes at their
ends. -/
structure ReadsChildren (words : List String) (r : ChildrenCheck) : Prop where
  children : ∀ child, child ∈ r.children ↔
    ∃ word ∈ words, word ≠ "-optional" ∧ withoutSlashes word = child
  optional : ∀ child ∈ r.children, (childIsOptional r child = true ↔
    ∃ word, FollowedByOptional words word ∧ withoutSlashes word = child)

/-- No directory ends with two slashes, and a directory with a slash that the flag follows is also
followed by it without the slash. -/
structure SlashesAgree (words : List String) : Prop where
  single : ∀ word ∈ words, word ≠ "-optional" → ¬ ['/', '/'] <:+ word.toList
  followed : ∀ word, FollowedByOptional words word → FollowedByOptional words (withoutSlashes word)

theorem stripTrailingSlash_eq_iff {path : String} :
    Util.stripTrailingSlash path = withoutSlashes path ↔ ¬ ['/', '/'] <:+ path.toList := by
  rw [← withoutSlashes_strip, eq_comm, withoutSlashes_eq_self_iff, not_iff_not]
  constructor
  · intro hlast
    rcases stripTrailingSlash_cases path with ⟨hno, heq⟩ | heq
    · rw [heq] at hlast
      exact absurd hlast hno
    · obtain ⟨front, hfront⟩ := List.getLast?_eq_some_iff.mp hlast
      refine ⟨front, ?_⟩
      rw [heq, String.toList_append, hfront, List.append_assoc]
      rfl
  · rintro ⟨front, hfront⟩
    unfold Util.stripTrailingSlash
    rw [← hfront, if_pos (by simp), String.toList_ofList]
    simp

theorem mem_of_followed {words : List String} {word : String} (h : FollowedByOptional words word) :
    word ∈ words := by
  obtain ⟨-, before, after, rfl⟩ := h
  exact List.mem_append_right _ List.mem_cons_self

theorem readsChildren_iff {words : List String} {r : ChildrenCheck} (h : ChildrenRead words r) :
    ReadsChildren words r ↔ SlashesAgree words := by
  have hmem : ∀ child, child ∈ r.children ↔
      ∃ word ∈ words, word ≠ "-optional" ∧ Util.stripTrailingSlash word = child := by
    intro child
    rw [h.children, List.mem_map]
    simp only [List.mem_filter, isDirectoryWord, decide_eq_true_iff, and_assoc]
  have hoptional : ∀ child, childIsOptional r child = true ↔ FollowedByOptional words child := by
    intro child
    rw [← belongs_iff_followed, ← h.optional child]
    exact TreeSet.contains_iff_mem
  constructor
  · intro hreads
    have hsingle : ∀ word ∈ words, word ≠ "-optional" → ¬ ['/', '/'] <:+ word.toList := by
      intro word hword hdirectory
      obtain ⟨other, -, -, hother⟩ := (hreads.children _).mp
        ((hmem _).mpr ⟨word, hword, hdirectory, rfl⟩)
      rw [← stripTrailingSlash_eq_iff, ← withoutSlashes_strip word, ← hother, withoutSlashes_idem]
    refine ⟨hsingle, fun word hword ↦ ?_⟩
    have hchild : withoutSlashes word ∈ r.children :=
      (hreads.children _).mpr ⟨word, mem_of_followed hword, hword.1, rfl⟩
    exact (hoptional _).mp ((hreads.optional _ hchild).mpr ⟨word, hword, rfl⟩)
  · intro hagree
    have hstrip : ∀ word ∈ words, word ≠ "-optional" →
        Util.stripTrailingSlash word = withoutSlashes word := fun word hword hdirectory ↦
      stripTrailingSlash_eq_iff.mpr (hagree.single word hword hdirectory)
    have hchildren : ∀ child, child ∈ r.children ↔
        ∃ word ∈ words, word ≠ "-optional" ∧ withoutSlashes word = child := by
      intro child
      rw [hmem]
      refine exists_congr fun word ↦ and_congr_right fun hword ↦ and_congr_right fun hdirectory ↦ ?_
      rw [hstrip word hword hdirectory]
    refine ⟨hchildren, fun child hchild ↦ ?_⟩
    rw [hoptional]
    constructor
    · intro hfollowed
      obtain ⟨word, -, -, rfl⟩ := (hchildren child).mp hchild
      exact ⟨_, hfollowed, withoutSlashes_idem word⟩
    · rintro ⟨word, hword, rfl⟩
      exact hagree.followed word hword

theorem checkChildren_read {fs : FileSystem} {isFile : String → Bool} {dir : String}
    {location : FileLocation} {value : String}
    (h : (checkChildren fs isFile dir location value).errors = []) :
    ChildrenRead (Util.splitBySpace value) (checkChildren fs isFile dir location value) := by
  unfold checkChildren checkRelativePaths at h ⊢
  dsimp only at h ⊢
  obtain ⟨hstart, hread⟩ := childrenRead_foldl h
  have hrelative : (Util.splitBySpace value).filter (fun path ↦ !Util.isAbsolutePath path) =
      Util.splitBySpace value := by
    refine List.filter_eq_self.mpr fun path hpath ↦ ?_
    have hnot := List.filter_eq_nil_iff.mp (List.map_eq_nil_iff.mp hstart) path hpath
    simpa using hnot
  rw [hrelative] at hread ⊢
  exact hread

/-- The children are read as expected exactly where the slashes of the directories agree. -/
theorem checkChildren_iff {fs : FileSystem} {isFile : String → Bool} {dir : String}
    {location : FileLocation} {value : String}
    (h : (checkChildren fs isFile dir location value).errors = []) :
    ReadsChildren (Util.splitBySpace value) (checkChildren fs isFile dir location value) ↔
      SlashesAgree (Util.splitBySpace value) :=
  readsChildren_iff (checkChildren_read h)

/-- A disk on which there is nothing. -/
def emptyDisk : FileSystem := ⟨fun _ ↦ none, fun _ ↦ none, "/", rfl⟩

theorem checkChildren_iff_bar : ReadsChildren (Util.splitBySpace "foo/ bar -optional")
    (checkChildren emptyDisk (fun _ ↦ false) "/dir" .empty "foo/ bar -optional") := by
  have hwords : Util.splitBySpace "foo/ bar -optional" = ["foo/", "bar", "-optional"] := by
    decide +kernel
  have herrors : (checkChildren emptyDisk (fun _ ↦ false) "/dir" .empty
      "foo/ bar -optional").errors = [] := by decide +kernel
  refine (checkChildren_iff herrors).mpr ?_
  rw [hwords]
  constructor
  · simp only [List.forall_mem_cons]
    exact ⟨fun _ ↦ by decide, fun _ ↦ by decide, fun h ↦ absurd rfl h,
      fun _ h ↦ absurd h List.not_mem_nil⟩
  · rintro word ⟨hne, before, after, heq⟩
    rcases before with _ | ⟨first, _ | ⟨second, before⟩⟩
    · simp at heq
    · obtain ⟨-, rfl, -⟩ : first = "foo/" ∧ word = "bar" ∧ after = [] := by
        simpa [eq_comm] using heq
      exact ⟨by decide, ["foo/"], [], by decide +kernel⟩
    · have hlength := congrArg List.length heq
      simp only [List.length_cons, List.length_append, List.length_nil] at hlength
      omega

/-- The flag after a directory with a slash does not reach the child. -/
theorem not_readsChildren_slash :
    (checkChildren emptyDisk (fun _ ↦ false) "/dir" .empty "foo/ -optional").errors = [] ∧
      ¬ ReadsChildren (Util.splitBySpace "foo/ -optional")
        (checkChildren emptyDisk (fun _ ↦ false) "/dir" .empty "foo/ -optional") := by
  have hwords : Util.splitBySpace "foo/ -optional" = ["foo/", "-optional"] := by decide +kernel
  have herrors : (checkChildren emptyDisk (fun _ ↦ false) "/dir" .empty
      "foo/ -optional").errors = [] := by decide +kernel
  refine ⟨herrors, fun hreads ↦ ?_⟩
  have hagree := (readsChildren_iff (checkChildren_read herrors)).mp hreads
  rw [hwords] at hagree
  have hfollowed := hagree.followed "foo/" ⟨by decide, [], [], rfl⟩
  exact absurd (mem_of_followed hfollowed) (by decide +kernel)

end Abuild.ItemConfig
