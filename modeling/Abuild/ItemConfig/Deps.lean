import Abuild.ItemConfig
import Abuild.Library.Attached
import Abuild.Library.FirstBy
import Abuild.Library.Fallible
import Abuild.PlatformSelector.Grammar

/-!
The dependencies of an item. Each modifier belongs to the nearest name before it. `Checked` says
what the loop of `checkDeps` has after some words, and when it has reported an error.
-/

set_option autoImplicit false
set_option relaxedAutoImplicit false

namespace Abuild.ItemConfig

open Attached FirstBy Fallible
open PlatformSelector (initializeWith)
open Std (TreeMap TreeSet)

/-! ### Words -/

def names (words : List String) : List String := words.filter isItemName

/-- The name that a modifier after the words belongs to. -/
def lastName (words : List String) : Option String := owner isItemName words

/-- A modifier is given for a dependency. -/
def GivenFor (words : List String) (modifier dep : String) : Prop :=
  Belongs isItemName words modifier dep

def HasPlatform (words : List String) (dep : String) : Prop :=
  ∃ word platformType, matchPlatform word = some platformType ∧ GivenFor words word dep

def IsModifier (word : String) : Prop :=
  (matchFlag word).isSome ∨ (matchPlatform word).isSome ∨ word = "-optional"

/-- A selector that a dependency can be declared with. -/
def ValidSelector (text : String) : Prop :=
  ∃ p, initializeWith .new text = some (p, true) ∧ p.skip = false ∧
    p.platformType ≠ PlatformSelector.any

/-- What is wrong with a word that comes after some others. -/
inductive Bad (before : List String) (word : String) : Prop
  | unknown (hname : isItemName word = false) (hmodifier : ¬ IsModifier word)
  | first (hname : isItemName word = false) (hmodifier : IsModifier word)
    (hfirst : lastName before = none)
  | platformTwice (dep : String) (hplatform : (matchPlatform word).isSome)
    (hdep : lastName before = some dep) (htwice : HasPlatform before dep)
  | platformRepeated (dep : String) (hplatform : (matchPlatform word).isSome)
    (hdep : lastName before = some dep) (hrepeated : 1 < (names before).count dep)
  | nameRepeated (hname : isItemName word = true) (hplatform : HasPlatform before word)
  | selector (platformType dep : String) (hplatform : matchPlatform word = some platformType)
    (hdep : lastName before = some dep) (hcolon : ':' ∈ platformType.toList)
    (hselector : ¬ ValidSelector platformType)

/-- Somewhere among the words one is wrong. -/
def SomeBad (words : List String) : Prop :=
  ∃ before word after, words = before ++ word :: after ∧ Bad before word

theorem someBad_concat {words : List String} {word : String} :
    SomeBad (words ++ [word]) ↔ SomeBad words ∨ Bad words word := by
  constructor
  · rintro ⟨before, bad, after, heq, hbad⟩
    rcases Precedence.append_singleton_eq_split heq with ⟨rfl, rfl, -⟩ | ⟨rest, -, rfl⟩
    · exact Or.inr hbad
    · exact Or.inl ⟨before, bad, rest, rfl, hbad⟩
  · rintro (⟨before, bad, after, rfl, hbad⟩ | hbad)
    · exact ⟨before, bad, after ++ [word], by simp, hbad⟩
    · exact ⟨words, word, [], rfl, hbad⟩

/-! ### What the loop has -/

structure NamesChecked (words : List String) (r : DepsCheck) : Prop where
  deps : r.deps = firstBy id (names words)
  lastDep : r.lastDep = (lastName words).getD ""
  seen : ∀ dep : String, dep ∈ r.depsSeen ↔ dep ∈ names words
  duplicated : ∀ dep : String, dep ∈ r.duplicatedDeps ↔ 1 < (names words).count dep

structure Checked (words : List String) (r : DepsCheck) : Prop extends NamesChecked words r where
  flags : ∀ dep flag : String, r.flagData.isSet dep flag = true ↔
    ∃ word, matchFlag word = some flag ∧ GivenFor words word dep
  platforms : ∀ dep : String, dep ∈ r.depPlatformTypes ↔ HasPlatform words dep
  optional : ∀ dep : String, dep ∈ r.optionalDeps ↔ GivenFor words "-optional" dep
  errors : r.errors ≠ [] ↔ SomeBad words
  platformTypes : r.errors = [] → ∀ dep platformType : String,
    r.depPlatformTypes[dep]? = some platformType ↔
      ∃ word, matchPlatform word = some platformType ∧ GivenFor words word dep
  selectors : r.errors = [] → ∀ (dep : String) (p : PlatformSelector),
    r.depPlatformSelectors[dep]? = some p ↔ ∃ platformType : String,
      r.depPlatformTypes[dep]? = some platformType ∧ ':' ∈ platformType.toList ∧
        initializeWith .new platformType = some (p, true)

theorem checked_nil : Checked [] .empty where
  deps := rfl
  lastDep := rfl
  seen := fun _ ↦ iff_of_false TreeSet.not_mem_emptyc List.not_mem_nil
  duplicated := fun _ ↦ iff_of_false TreeSet.not_mem_emptyc (by simp [names])
  flags := fun dep flag ↦ by
    refine iff_of_false ?_ fun ⟨_, _, h⟩ ↦ belongs_nil h
    simp [DepsCheck.empty, FlagData.isSet, FlagData.empty]
  platforms := fun _ ↦ iff_of_false TreeMap.not_mem_emptyc fun ⟨_, _, _, h⟩ ↦ belongs_nil h
  optional := fun _ ↦ iff_of_false TreeSet.not_mem_emptyc belongs_nil
  errors := iff_of_false (not_not.mpr rfl) fun ⟨_, _, _, h, _⟩ ↦ by simp at h
  platformTypes := fun _ dep platformType ↦ by
    refine iff_of_false ?_ fun ⟨_, _, h⟩ ↦ belongs_nil h
    simp [DepsCheck.empty]
  selectors := fun _ dep p ↦ by
    refine iff_of_false ?_ fun ⟨_, h, _⟩ ↦ ?_
    · simp [DepsCheck.empty]
    · simp [DepsCheck.empty] at h

/-! ### Kinds of words -/

theorem not_isItemName_of_dash {word : String} (h : word.toList.head? = some '-') :
    isItemName word = false := by
  have hfirst : ∀ (first : String) (rest : List String), Util.split '.' word = first :: rest →
      first.toList.head? = some '-' := by
    intro first rest hsplit
    obtain ⟨cs, hcs⟩ := List.head?_eq_some_iff.mp h
    unfold Util.split at hsplit
    rw [hcs, Util.splitChars_cons, if_neg (by decide)] at hsplit
    obtain ⟨part, parts, hparts⟩ := List.exists_cons_of_ne_nil (Util.splitChars_ne_nil '.' cs)
    rw [hparts, List.modifyHead_cons, List.map_cons] at hsplit
    rw [← (List.cons.inj hsplit).1, String.toList_ofList]
    rfl
  unfold isItemName
  cases hsplit : Util.split '.' word with
  | nil => rfl
  | cons first rest => simp [hfirst first rest hsplit]

theorem head_of_modifier {word : String} (h : IsModifier word) : word.toList.head? = some '-' := by
  have hmatch : ∀ {front : String}, front.toList.head? = some '-' →
      (PlatformTables.matchItem front word).isSome → word.toList.head? = some '-' := by
    intro front hfront hsome
    obtain ⟨name, hname⟩ := Option.isSome_iff_exists.mp hsome
    obtain ⟨rfl, -⟩ := PlatformTables.matchItem_eq_some_iff.mp hname
    obtain ⟨cs, hcs⟩ := List.head?_eq_some_iff.mp hfront
    rw [String.toList_append, hcs]
    rfl
  rcases h with hflag | hplatform | rfl
  · exact hmatch rfl hflag
  · exact hmatch rfl hplatform
  · rfl

theorem not_isModifier_of_name {word : String} (h : isItemName word = true) :
    ¬ IsModifier word := by
  intro hmodifier
  rw [not_isItemName_of_dash (head_of_modifier hmodifier)] at h
  cases h

/-- The second characters of the modifiers tell them apart. -/
theorem second_of_flag {word flag : String} (h : matchFlag word = some flag) :
    word.toList[1]? = some 'f' := by
  obtain ⟨rfl, -⟩ := PlatformTables.matchItem_eq_some_iff.mp h
  rw [String.toList_append]
  rfl

theorem second_of_platform {word platformType : String}
    (h : matchPlatform word = some platformType) : word.toList[1]? = some 'p' := by
  obtain ⟨rfl, -⟩ := PlatformTables.matchItem_eq_some_iff.mp h
  rw [String.toList_append]
  rfl

theorem matchPlatform_of_flag {word flag : String} (h : matchFlag word = some flag) :
    matchPlatform word = none := by
  cases hplatform : matchPlatform word with
  | none => rfl
  | some platformType =>
    have hsecond := (second_of_flag h).symm.trans (second_of_platform hplatform)
    exact absurd hsecond (by decide)

theorem ne_optional_of_flag {word flag : String} (h : matchFlag word = some flag) :
    word ≠ "-optional" := by
  rintro rfl
  exact absurd (second_of_flag h) (by decide)

theorem ne_optional_of_platform {word platformType : String}
    (h : matchPlatform word = some platformType) : word ≠ "-optional" := by
  rintro rfl
  exact absurd (second_of_platform h) (by decide)

/-! ### One more word -/

section Step

variable {words : List String} {word dep : String} {r : DepsCheck} {location : FileLocation}

theorem names_concat : names (words ++ [word]) =
    if isItemName word = true then names words ++ [word] else names words := by
  unfold names
  rw [List.filter_append]
  split_ifs with h
  · rw [List.filter_cons_of_pos h, List.filter_nil]
  · rw [List.filter_cons_of_neg h, List.filter_nil, List.append_nil]

theorem lastName_concat : lastName (words ++ [word]) =
    if isItemName word = true then some word else lastName words :=
  owner_concat

theorem given_concat {modifier : String} : GivenFor (words ++ [word]) modifier dep ↔
    GivenFor words modifier dep ∨ word = modifier ∧ lastName words = some dep :=
  belongs_concat

theorem exists_given_concat {read : String → Option String} {text : String} :
    (∃ modifier, read modifier = some text ∧ GivenFor (words ++ [word]) modifier dep) ↔
      (∃ modifier, read modifier = some text ∧ GivenFor words modifier dep) ∨
        read word = some text ∧ lastName words = some dep := by
  simp only [given_concat]
  constructor
  · rintro ⟨modifier, hread, hgiven | ⟨rfl, hlast⟩⟩
    · exact Or.inl ⟨modifier, hread, hgiven⟩
    · exact Or.inr ⟨hread, hlast⟩
  · rintro (⟨modifier, hread, hgiven⟩ | ⟨hread, hlast⟩)
    · exact ⟨modifier, hread, Or.inl hgiven⟩
    · exact ⟨word, hread, Or.inr ⟨rfl, hlast⟩⟩

theorem hasPlatform_concat : HasPlatform (words ++ [word]) dep ↔
    HasPlatform words dep ∨ (matchPlatform word).isSome ∧ lastName words = some dep := by
  unfold HasPlatform
  constructor
  · rintro ⟨modifier, platformType, hread, hgiven⟩
    rcases given_concat.mp hgiven with hgiven | ⟨rfl, hlast⟩
    · exact Or.inl ⟨modifier, platformType, hread, hgiven⟩
    · exact Or.inr ⟨by rw [hread]; rfl, hlast⟩
  · rintro (⟨modifier, platformType, hread, hgiven⟩ | ⟨hsome, hlast⟩)
    · exact ⟨modifier, platformType, hread, given_concat.mpr (Or.inl hgiven)⟩
    · obtain ⟨platformType, hread⟩ := Option.isSome_iff_exists.mp hsome
      exact ⟨word, platformType, hread, given_concat.mpr (Or.inr ⟨rfl, hlast⟩)⟩

theorem mem_names_of_given {modifier : String} (h : GivenFor words modifier dep) :
    dep ∈ names words := by
  obtain ⟨before, after, rfl, howner⟩ := h
  refine List.mem_filter.mpr ⟨?_, isOwner_of_owner howner⟩
  exact List.mem_append_left _ (mem_of_owner howner)

theorem ne_empty_of_lastName (h : lastName words = some dep) : dep ≠ "" := by
  rintro rfl
  have hname : isItemName "" = true := isOwner_of_owner h
  cases hname

/-- The last name, where there is one, is what the loop remembers. -/
theorem NamesChecked.lastDep_isEmpty (h : NamesChecked words r) :
    r.lastDep.isEmpty = true ↔ lastName words = none := by
  rw [String.isEmpty_iff, h.lastDep]
  cases hlast : lastName words with
  | none => exact iff_of_true rfl rfl
  | some dep => exact iff_of_false (ne_empty_of_lastName hlast) (Option.some_ne_none dep)

theorem NamesChecked.lastName_eq (h : NamesChecked words r) (hlast : ¬ r.lastDep.isEmpty = true) :
    lastName words = some r.lastDep := by
  rw [h.lastDep_isEmpty] at hlast
  obtain ⟨dep, hdep⟩ := Option.ne_none_iff_exists'.mp hlast
  rw [h.lastDep, hdep]
  rfl

/-- A modifier leaves the names as they are. -/
theorem NamesChecked.modifier (h : NamesChecked words r) (hname : isItemName word = false)
    {r' : DepsCheck} (hdeps : r'.deps = r.deps) (hlast : r'.lastDep = r.lastDep)
    (hseen : r'.depsSeen = r.depsSeen) (hduplicated : r'.duplicatedDeps = r.duplicatedDeps) :
    NamesChecked (words ++ [word]) r' := by
  have hnames : names (words ++ [word]) = names words := by
    rw [names_concat, if_neg (by simp [hname])]
  have hlastName : lastName (words ++ [word]) = lastName words := by
    rw [lastName_concat, if_neg (by simp [hname])]
  constructor
  · rw [hdeps, hnames]
    exact h.deps
  · rw [hlast, hlastName]
    exact h.lastDep
  · rw [hseen, hnames]
    exact h.seen
  · rw [hduplicated, hnames]
    exact h.duplicated

theorem error_errors (message : String) : (r.error location message).errors ≠ [] :=
  List.append_ne_nil_of_right_ne_nil _ (List.cons_ne_nil _ _)

/-- A word that is only reported. -/
theorem Checked.refuse (h : Checked words r) (hname : isItemName word = false)
    (hbad : Bad words word) (hnone : IsModifier word → lastName words = none) (message : String) :
    Checked (words ++ [word]) (r.error location message) := by
  have hlast : ∀ {dep : String}, IsModifier word → lastName words ≠ some dep := by
    intro dep hmodifier hdep
    rw [hnone hmodifier] at hdep
    cases hdep
  have herrors : (r.error location message).errors ≠ [] := error_errors message
  refine ⟨h.toNamesChecked.modifier hname rfl rfl rfl rfl, fun dep flag ↦ ?_, fun dep ↦ ?_,
    fun dep ↦ ?_, iff_of_true herrors (someBad_concat.mpr (Or.inr hbad)),
    fun hnil ↦ absurd hnil herrors, fun hnil ↦ absurd hnil herrors⟩
  · rw [exists_given_concat]
    refine (h.flags dep flag).trans (or_iff_left fun ⟨hread, hdep⟩ ↦ hlast (Or.inl ?_) hdep).symm
    rw [hread]
    rfl
  · rw [hasPlatform_concat]
    exact (h.platforms dep).trans
      (or_iff_left fun ⟨hread, hdep⟩ ↦ hlast (Or.inr (Or.inl hread)) hdep).symm
  · rw [given_concat]
    exact (h.optional dep).trans
      (or_iff_left fun ⟨hword, hdep⟩ ↦ hlast (Or.inr (Or.inr hword)) hdep).symm

/-- What a name does that has not been seen, and what one does that has. -/
theorem checkName_cases (location : FileLocation) (word : String) (r : DepsCheck) :
    (word ∉ r.depsSeen ∧ checkName location word r =
        { r with
          lastDep := word
          deps := r.deps ++ [word]
          depsSeen := r.depsSeen.insert word }) ∨
      word ∈ r.depsSeen ∧ ∃ warnings errors, checkName location word r =
          { r with
            lastDep := word
            duplicatedDeps := r.duplicatedDeps.insert word
            warnings
            errors } ∧
        ((word ∉ r.depPlatformTypes ∧ errors = r.errors) ∨
          word ∈ r.depPlatformTypes ∧ errors ≠ []) := by
  unfold checkName
  by_cases hseen : r.depsSeen.contains word = true
  · refine Or.inr ⟨TreeSet.contains_iff_mem.mp hseen, ?_⟩
    dsimp only
    rw [if_pos hseen]
    by_cases hplatform : r.depPlatformTypes.contains word = true
    · rw [if_pos hplatform]
      exact ⟨_, _, rfl, Or.inr ⟨TreeMap.contains_iff_mem.mp hplatform,
        List.append_ne_nil_of_right_ne_nil _ (List.cons_ne_nil _ _)⟩⟩
    · rw [if_neg hplatform]
      exact ⟨_, _, rfl, Or.inl ⟨fun hmem ↦ hplatform (TreeMap.contains_iff_mem.mpr hmem), rfl⟩⟩
  · refine Or.inl ⟨fun hmem ↦ hseen (TreeSet.contains_iff_mem.mpr hmem), ?_⟩
    dsimp only
    rw [if_neg hseen]

theorem count_names_concat (hname : isItemName word = true) :
    (names (words ++ [word])).count dep =
      (names words).count dep + if word = dep then 1 else 0 := by
  rw [names_concat, if_pos hname, List.count_append, List.count_singleton]
  simp only [beq_iff_eq]

theorem NamesChecked.name (h : NamesChecked words r) (hname : isItemName word = true) :
    NamesChecked (words ++ [word]) (checkName location word r) := by
  have hnames : names (words ++ [word]) = names words ++ [word] := by
    rw [names_concat, if_pos hname]
  have hlast : lastName (words ++ [word]) = some word := by
    rw [lastName_concat, if_pos hname]
  have hfirst : firstBy id (names (words ++ [word])) =
      if word ∈ names words then firstBy id (names words)
      else firstBy id (names words) ++ [word] := by
    rw [hnames, firstBy_append_singleton]
    refine if_congr ?_ rfl rfl
    rw [mem_map_firstBy, List.map_id]
    rfl
  have hmem : ∀ dep, dep ∈ names (words ++ [word]) ↔ dep ∈ names words ∨ dep = word := by
    intro dep
    rw [hnames, List.mem_append, List.mem_singleton]
  rcases checkName_cases location word r with ⟨hnew, hcheck⟩ | ⟨hseen, warnings, errors, hcheck, -⟩
  · rw [hcheck]
    have hcount : (names words).count word = 0 :=
      List.count_eq_zero.mpr fun hin ↦ hnew ((h.seen word).mpr hin)
    refine ⟨?_, by rw [hlast]; rfl, fun dep ↦ ?_, fun dep ↦ ?_⟩
    · rw [hfirst, if_neg fun hin ↦ hnew ((h.seen word).mpr hin), ← h.deps]
    · rw [hmem, TreeSet.mem_insert, compare_eq_iff_eq, h.seen, or_comm, eq_comm]
    · rw [count_names_concat hname]
      refine (h.duplicated dep).trans ?_
      split_ifs with heq
      · rw [← heq, hcount]
        decide
      · rfl
  · rw [hcheck]
    have hin : word ∈ names words := (h.seen word).mp hseen
    refine ⟨?_, by rw [hlast]; rfl, fun dep ↦ ?_, fun dep ↦ ?_⟩
    · rw [hfirst, if_pos hin, ← h.deps]
    · rw [hmem]
      refine (h.seen dep).trans (or_iff_left_of_imp ?_).symm
      rintro rfl
      exact hin
    · rw [count_names_concat hname, TreeSet.mem_insert, compare_eq_iff_eq, h.duplicated]
      split_ifs with heq
      · refine iff_of_true (Or.inl heq) ?_
        have hpos := List.count_pos_iff.mpr hin
        rw [← heq]
        omega
      · exact or_iff_right heq

theorem bad_name_iff (hname : isItemName word = true) :
    Bad words word ↔ HasPlatform words word := by
  have hmodifier := not_isModifier_of_name hname
  constructor
  · intro hbad
    cases hbad with
    | unknown hname' => cases hname.symm.trans hname'
    | first hname' => cases hname.symm.trans hname'
    | platformTwice dep hplatform => exact absurd (Or.inr (Or.inl hplatform)) hmodifier
    | platformRepeated dep hplatform => exact absurd (Or.inr (Or.inl hplatform)) hmodifier
    | nameRepeated _ hplatform => exact hplatform
    | selector platformType dep hplatform =>
      refine absurd (Or.inr (Or.inl ?_)) hmodifier
      rw [hplatform]
      rfl
  · exact Bad.nameRepeated hname

/-- A name that comes again is not added to the dependencies. -/
theorem Checked.name (h : Checked words r) (hname : isItemName word = true) :
    Checked (words ++ [word]) (checkName location word r) := by
  have hmodifier := not_isModifier_of_name hname
  have hflags : ∀ dep flag, (∃ modifier, matchFlag modifier = some flag ∧
      GivenFor (words ++ [word]) modifier dep) ↔
        ∃ modifier, matchFlag modifier = some flag ∧ GivenFor words modifier dep := by
    intro dep flag
    rw [exists_given_concat]
    refine or_iff_left fun ⟨hread, _⟩ ↦ hmodifier (Or.inl ?_)
    rw [hread]
    rfl
  have hplatforms : ∀ dep, HasPlatform (words ++ [word]) dep ↔ HasPlatform words dep := fun dep ↦
    hasPlatform_concat.trans (or_iff_left fun ⟨hread, _⟩ ↦ hmodifier (Or.inr (Or.inl hread)))
  have hoptional : ∀ dep, GivenFor (words ++ [word]) "-optional" dep ↔
      GivenFor words "-optional" dep := fun dep ↦
    given_concat.trans (or_iff_left fun ⟨hword, _⟩ ↦ hmodifier (Or.inr (Or.inr hword)))
  have htypes : ∀ dep platformType, (∃ modifier, matchPlatform modifier = some platformType ∧
      GivenFor (words ++ [word]) modifier dep) ↔
        ∃ modifier, matchPlatform modifier = some platformType ∧ GivenFor words modifier dep := by
    intro dep platformType
    rw [exists_given_concat]
    refine or_iff_left fun ⟨hread, _⟩ ↦ hmodifier (Or.inr (Or.inl ?_))
    rw [hread]
    rfl
  have hnames : NamesChecked (words ++ [word]) (checkName location word r) :=
    h.toNamesChecked.name hname
  have hbad : SomeBad (words ++ [word]) ↔ SomeBad words ∨ HasPlatform words word := by
    rw [someBad_concat, bad_name_iff hname]
  rcases checkName_cases location word r with
    ⟨hnew, hcheck⟩ | ⟨-, warnings, errors, hcheck, ⟨hnone, rfl⟩ | ⟨hplatform, herrors⟩⟩
  · rw [hcheck] at hnames ⊢
    have hno : ¬ HasPlatform words word := by
      rintro ⟨modifier, platformType, -, hgiven⟩
      exact hnew ((h.seen word).mpr (mem_names_of_given hgiven))
    refine ⟨hnames, fun dep flag ↦ (h.flags dep flag).trans (hflags dep flag).symm,
      fun dep ↦ (h.platforms dep).trans (hplatforms dep).symm,
      fun dep ↦ (h.optional dep).trans (hoptional dep).symm,
      h.errors.trans (hbad.trans (or_iff_left hno)).symm, fun hnil dep platformType ↦ ?_,
      h.selectors⟩
    exact (h.platformTypes hnil dep platformType).trans (htypes dep platformType).symm
  · rw [hcheck] at hnames ⊢
    have hno : ¬ HasPlatform words word := fun hhas ↦ hnone ((h.platforms word).mpr hhas)
    refine ⟨hnames, fun dep flag ↦ (h.flags dep flag).trans (hflags dep flag).symm,
      fun dep ↦ (h.platforms dep).trans (hplatforms dep).symm,
      fun dep ↦ (h.optional dep).trans (hoptional dep).symm,
      h.errors.trans (hbad.trans (or_iff_left hno)).symm, fun hnil dep platformType ↦ ?_,
      h.selectors⟩
    exact (h.platformTypes hnil dep platformType).trans (htypes dep platformType).symm
  · rw [hcheck] at hnames ⊢
    refine ⟨hnames, fun dep flag ↦ (h.flags dep flag).trans (hflags dep flag).symm,
      fun dep ↦ (h.platforms dep).trans (hplatforms dep).symm,
      fun dep ↦ (h.optional dep).trans (hoptional dep).symm,
      iff_of_true herrors (hbad.mpr (Or.inr ((h.platforms word).mp hplatform))),
      fun hnil ↦ absurd hnil herrors, fun hnil ↦ absurd hnil herrors⟩

/-! ### Flags and optional dependencies -/

theorem isSet_addFlag {d : FlagData} {name flag name' flag' : String} :
    (d.addFlag name flag).isSet name' flag' = true ↔
      d.isSet name' flag' = true ∨ name = name' ∧ flag = flag' := by
  unfold FlagData.isSet FlagData.addFlag
  dsimp only
  rw [TreeMap.getElem?_insert]
  split_ifs with hname
  · obtain rfl := compare_eq_iff_eq.mp hname
    rw [TreeMap.getD_eq_getD_getElem?]
    cases d.flagData[name]? with
    | none => simp [TreeSet.contains_insert]
    | some flags => simp [TreeSet.contains_insert, or_comm]
  · have hne : name ≠ name' := fun heq ↦ hname (compare_eq_iff_eq.mpr heq)
    exact (or_iff_left fun h ↦ hne h.1).symm

/-- A modifier that is no platform is not wrong after a name. -/
theorem not_bad_of_modifier (hname : isItemName word = false) (hmodifier : IsModifier word)
    (hplatform : matchPlatform word = none) (hlast : lastName words = some dep) :
    ¬ Bad words word := by
  have hno : ¬ (matchPlatform word).isSome = true := by
    rw [hplatform]
    exact Bool.false_ne_true
  intro hbad
  cases hbad with
  | unknown _ hnot => exact hnot hmodifier
  | first _ _ hfirst => cases hlast.symm.trans hfirst
  | platformTwice _ hsome => exact hno hsome
  | platformRepeated _ hsome => exact hno hsome
  | nameRepeated hname' => cases hname.symm.trans hname'
  | selector _ _ hsome =>
    rw [hsome] at hno
    exact hno rfl

theorem Checked.flag (h : Checked words r) (hname : isItemName word = false) {flag : String}
    (hflag : matchFlag word = some flag) :
    Checked (words ++ [word]) (checkFlag location word flag r) := by
  have hmodifier : IsModifier word := Or.inl (by rw [hflag]; rfl)
  have hplatform := matchPlatform_of_flag hflag
  unfold checkFlag
  split_ifs with hempty
  · have hlast := h.lastDep_isEmpty.mp hempty
    exact h.refuse hname (.first hname hmodifier hlast) (fun _ ↦ hlast) _
  · have hlast := h.lastName_eq hempty
    have hnot : ¬ Bad words word := not_bad_of_modifier hname hmodifier hplatform hlast
    refine ⟨h.toNamesChecked.modifier hname rfl rfl rfl rfl, fun dep flag' ↦ ?_, fun dep ↦ ?_,
      fun dep ↦ ?_, ?_, fun hnil dep platformType ↦ ?_, h.selectors⟩
    · rw [exists_given_concat, isSet_addFlag, h.flags dep flag', hflag, hlast, Option.some_inj,
        Option.some_inj, and_comm (a := flag = flag')]
    · rw [hasPlatform_concat, hplatform]
      exact (h.platforms dep).trans (or_iff_left fun h ↦ Bool.false_ne_true h.1).symm
    · rw [given_concat]
      exact (h.optional dep).trans (or_iff_left fun h ↦ ne_optional_of_flag hflag h.1).symm
    · exact h.errors.trans (someBad_concat.trans (or_iff_left hnot)).symm
    · rw [exists_given_concat, hplatform]
      exact (h.platformTypes hnil dep platformType).trans
        (or_iff_left fun h ↦ Option.some_ne_none _ h.1.symm).symm

theorem Checked.optionalWord (h : Checked words r) (hname : isItemName word = false)
    (hflag : matchFlag word = none) (hplatform : matchPlatform word = none)
    (hword : word = "-optional") : Checked (words ++ [word]) (checkOptional location r) := by
  have hmodifier : IsModifier word := Or.inr (Or.inr hword)
  unfold checkOptional
  split_ifs with hempty
  · have hlast := h.lastDep_isEmpty.mp hempty
    exact h.refuse hname (.first hname hmodifier hlast) (fun _ ↦ hlast) _
  · have hlast := h.lastName_eq hempty
    have hnot : ¬ Bad words word := not_bad_of_modifier hname hmodifier hplatform hlast
    refine ⟨h.toNamesChecked.modifier hname rfl rfl rfl rfl, fun dep flag ↦ ?_, fun dep ↦ ?_,
      fun dep ↦ ?_, ?_, fun hnil dep platformType ↦ ?_, h.selectors⟩
    · rw [exists_given_concat, hflag]
      exact (h.flags dep flag).trans (or_iff_left fun h ↦ Option.some_ne_none _ h.1.symm).symm
    · rw [hasPlatform_concat, hplatform]
      exact (h.platforms dep).trans (or_iff_left fun h ↦ Bool.false_ne_true h.1).symm
    · rw [given_concat, TreeSet.mem_insert, compare_eq_iff_eq, h.optional dep, hlast,
        Option.some_inj, or_comm]
      exact or_congr_right (iff_and_self.mpr fun _ ↦ hword)
    · exact h.errors.trans (someBad_concat.trans (or_iff_left hnot)).symm
    · rw [exists_given_concat, hplatform]
      exact (h.platformTypes hnil dep platformType).trans
        (or_iff_left fun h ↦ Option.some_ne_none _ h.1.symm).symm

/-! ### Platforms -/

/-- What a selector of a dependency is read as. -/
theorem exists_readSelector (text : String) : ∃ selector, readSelector text = some selector ∧
    (selector = none ↔ ¬ ValidSelector text) ∧
    ∀ p, selector = some p → initializeWith .new text = some (p, true) := by
  obtain ⟨p, valid, hread⟩ := PlatformSelector.exists_initializeWith text
  have hvalid : ValidSelector text ↔
      valid = true ∧ p.skip = false ∧ p.platformType ≠ PlatformSelector.any := by
    constructor
    · rintro ⟨p', hread', hrest⟩
      obtain ⟨rfl, rfl⟩ := Prod.mk.inj (Option.some_inj.mp (hread.symm.trans hread'))
      exact ⟨rfl, hrest⟩
    · rintro ⟨rfl, hrest⟩
      exact ⟨p, hread, hrest⟩
  unfold readSelector
  rw [hread]
  refine ⟨_, rfl, ?_, fun p' hp' ↦ ?_⟩
  · rw [hvalid]
    dsimp only
    split_ifs with h
    · exact iff_of_false id (not_not.mpr h)
    · exact iff_of_true rfl h
  · dsimp only at hp'
    split_ifs at hp' with h
    obtain rfl := Option.some_inj.mp hp'
    rw [h.1]

/-- The errors about a second platform. -/
theorem exists_declared (location : FileLocation) (r : DepsCheck) :
    ∃ errors, (if r.depPlatformTypes.contains r.lastDep then
        r.error location ("a platform has already been declared for dependency \"" ++
          r.lastDep ++ "\"")
      else if r.duplicatedDeps.contains r.lastDep then
        r.error location ("platform specification applies to a dependency (\"" ++ r.lastDep ++
          "\") that had been previously declared")
      else r) = { r with errors } ∧
      (errors = [] ↔ r.errors = [] ∧ r.lastDep ∉ r.depPlatformTypes ∧
        r.lastDep ∉ r.duplicatedDeps) := by
  split_ifs with htypes hduplicated
  · have hmem := TreeMap.contains_iff_mem.mp htypes
    exact ⟨_, rfl, iff_of_false (error_errors _) fun h ↦ h.2.1 hmem⟩
  · have hmem := TreeSet.contains_iff_mem.mp hduplicated
    exact ⟨_, rfl, iff_of_false (error_errors _) fun h ↦ h.2.2 hmem⟩
  · refine ⟨r.errors, rfl, (and_iff_left ⟨fun hmem ↦ ?_, fun hmem ↦ ?_⟩).symm⟩
    · exact htypes (TreeMap.contains_iff_mem.mpr hmem)
    · exact hduplicated (TreeSet.contains_iff_mem.mpr hmem)

/-- What a platform does after a name. -/
theorem exists_checkPlatform (location : FileLocation) (word platformType : String)
    (hempty : ¬ r.lastDep.isEmpty = true) :
    ∃ depPlatformSelectors errors, checkPlatform location word platformType r =
        some { r with
          depPlatformTypes := r.depPlatformTypes.insert r.lastDep platformType
          depPlatformSelectors
          errors } ∧
      (errors = [] ↔ (r.errors = [] ∧ r.lastDep ∉ r.depPlatformTypes ∧
        r.lastDep ∉ r.duplicatedDeps) ∧ (':' ∈ platformType.toList → ValidSelector platformType)) ∧
      (errors = [] → (':' ∉ platformType.toList ∧ depPlatformSelectors = r.depPlatformSelectors) ∨
        ':' ∈ platformType.toList ∧ ∃ p, initializeWith .new platformType = some (p, true) ∧
          depPlatformSelectors = r.depPlatformSelectors.insert r.lastDep p) := by
  obtain ⟨errors, hdeclared, herrors⟩ := exists_declared location r
  unfold checkPlatform
  rw [if_neg hempty, hdeclared]
  by_cases hcolon : ':' ∈ platformType.toList
  · dsimp only
    rw [if_pos (List.contains_iff_mem.mpr hcolon)]
    obtain ⟨selector, hread, hnone, hsome⟩ := exists_readSelector platformType
    rw [hread]
    cases selector with
    | none =>
      refine ⟨_, _, rfl, iff_of_false ?_ ?_, fun hnil ↦ ?_⟩
      · exact List.append_ne_nil_of_right_ne_nil _ (List.cons_ne_nil _ _)
      · exact fun h ↦ hnone.mp rfl (h.2 hcolon)
      · exact absurd hnil (List.append_ne_nil_of_right_ne_nil _ (List.cons_ne_nil _ _))
    | some p =>
      have hvalid : ValidSelector platformType := by
        by_contra hnot
        cases hnone.mpr hnot
      refine ⟨_, _, rfl, herrors.trans (and_iff_left fun _ ↦ hvalid).symm, fun _ ↦ Or.inr ?_⟩
      exact ⟨hcolon, p, hsome p rfl, rfl⟩
  · dsimp only
    rw [if_neg fun h ↦ hcolon (List.contains_iff_mem.mp h)]
    refine ⟨_, _, rfl, herrors.trans (and_iff_left fun h ↦ absurd h hcolon).symm, fun _ ↦ ?_⟩
    exact Or.inl ⟨hcolon, rfl⟩

/-- What can be wrong with a platform after a name. -/
theorem bad_platform_iff (hname : isItemName word = false) {platformType : String}
    (hplatform : matchPlatform word = some platformType) (hlast : lastName words = some dep) :
    Bad words word ↔ HasPlatform words dep ∨ 1 < (names words).count dep ∨
      (':' ∈ platformType.toList ∧ ¬ ValidSelector platformType) := by
  have hsome : (matchPlatform word).isSome = true := by
    rw [hplatform]
    rfl
  constructor
  · intro hbad
    cases hbad with
    | unknown _ hnot => exact absurd (Or.inr (Or.inl hsome)) hnot
    | first _ _ hfirst => cases hlast.symm.trans hfirst
    | platformTwice dep' _ hdep htwice =>
      obtain rfl := Option.some_inj.mp (hlast.symm.trans hdep)
      exact Or.inl htwice
    | platformRepeated dep' _ hdep hrepeated =>
      obtain rfl := Option.some_inj.mp (hlast.symm.trans hdep)
      exact Or.inr (Or.inl hrepeated)
    | nameRepeated hname' => cases hname.symm.trans hname'
    | selector platformType' dep' hplatform' _ hcolon hselector =>
      obtain rfl := Option.some_inj.mp (hplatform.symm.trans hplatform')
      exact Or.inr (Or.inr ⟨hcolon, hselector⟩)
  · rintro (htwice | hrepeated | ⟨hcolon, hselector⟩)
    · exact .platformTwice dep hsome hlast htwice
    · exact .platformRepeated dep hsome hlast hrepeated
    · exact .selector platformType dep hplatform hlast hcolon hselector

theorem Checked.platform (h : Checked words r) (hname : isItemName word = false)
    (hflag : matchFlag word = none) {platformType : String}
    (hplatform : matchPlatform word = some platformType) :
    ∃ r', checkPlatform location word platformType r = some r' ∧ Checked (words ++ [word]) r' := by
  have hsome : (matchPlatform word).isSome = true := by
    rw [hplatform]
    rfl
  have hmodifier : IsModifier word := Or.inr (Or.inl hsome)
  by_cases hempty : r.lastDep.isEmpty = true
  · have hlast := h.lastDep_isEmpty.mp hempty
    refine ⟨_, if_pos hempty, ?_⟩
    exact h.refuse hname (.first hname hmodifier hlast) (fun _ ↦ hlast) _
  have hlast := h.lastName_eq hempty
  obtain ⟨depPlatformSelectors, errors, hcheck, herrors, hselectors⟩ :=
    exists_checkPlatform location word platformType hempty
  refine ⟨_, hcheck, h.toNamesChecked.modifier hname rfl rfl rfl rfl, fun dep flag ↦ ?_,
    fun dep ↦ ?_, fun dep ↦ ?_, ?_, fun hnil dep platformType' ↦ ?_, fun hnil dep p ↦ ?_⟩
  · rw [exists_given_concat, hflag]
    exact (h.flags dep flag).trans (or_iff_left fun h ↦ Option.some_ne_none _ h.1.symm).symm
  · rw [hasPlatform_concat, TreeMap.mem_insert, compare_eq_iff_eq, h.platforms dep, hlast,
      Option.some_inj, or_comm]
    exact or_congr_right (and_iff_right hsome).symm
  · rw [given_concat]
    exact (h.optional dep).trans (or_iff_left fun h ↦ ne_optional_of_platform hplatform h.1).symm
  · rw [someBad_concat, bad_platform_iff hname hplatform hlast, ← h.errors,
      ← h.platforms, ← h.duplicated, ne_eq, herrors, not_and_or, not_and_or, not_and_or, not_not,
      not_not, Classical.not_imp, or_assoc, or_assoc]
  · obtain ⟨⟨hnil', hnew, -⟩, -⟩ := herrors.mp hnil
    rw [exists_given_concat, ← h.platformTypes hnil' dep platformType', hplatform, hlast,
      TreeMap.getElem?_insert]
    split_ifs with hdep
    · obtain rfl := compare_eq_iff_eq.mp hdep
      have hnone : r.depPlatformTypes[r.lastDep]? = none := TreeMap.getElem?_eq_none hnew
      rw [hnone]
      simp
    · have hne : r.lastDep ≠ dep := fun heq ↦ hdep (compare_eq_iff_eq.mpr heq)
      exact (or_iff_left fun h ↦ hne (Option.some_inj.mp h.2)).symm
  · obtain ⟨⟨hnil', hnew, -⟩, -⟩ := herrors.mp hnil
    dsimp only
    rw [TreeMap.getElem?_insert]
    by_cases hdep : compare r.lastDep dep = .eq
    · obtain rfl := compare_eq_iff_eq.mp hdep
      rw [if_pos hdep]
      have hnone : r.depPlatformSelectors[r.lastDep]? = none := by
        rw [← Option.not_isSome_iff_eq_none]
        intro hsome
        obtain ⟨p, hp⟩ := Option.isSome_iff_exists.mp hsome
        obtain ⟨platformType', htype, -⟩ := (h.selectors hnil' r.lastDep p).mp hp
        exact hnew (TreeMap.mem_iff_isSome_getElem?.mpr (by rw [htype]; rfl))
      rcases hselectors hnil with ⟨hcolon, heq⟩ | ⟨hcolon, p', hp', heq⟩
      · rw [heq, hnone]
        refine iff_of_false (by simp) ?_
        rintro ⟨platformType', htype, hin, -⟩
        obtain rfl := Option.some_inj.mp htype
        exact hcolon hin
      · rw [heq, TreeMap.getElem?_insert_self]
        constructor
        · intro hp
          obtain rfl := Option.some_inj.mp hp
          exact ⟨platformType, rfl, hcolon, hp'⟩
        · rintro ⟨platformType', htype, -, hp⟩
          obtain rfl := Option.some_inj.mp htype
          exact congrArg some (Prod.mk.inj (Option.some_inj.mp (hp'.symm.trans hp))).1
    · rw [if_neg hdep, ← h.selectors hnil' dep p]
      rcases hselectors hnil with ⟨-, heq⟩ | ⟨-, p', -, heq⟩
      · rw [heq]
      · rw [heq, TreeMap.getElem?_insert, if_neg hdep]

end Step

/-! ### The whole value -/

theorem Checked.step {words : List String} {word : String} {r : DepsCheck}
    {location : FileLocation} (h : Checked words r) :
    ∃ r', checkDep location r word = some r' ∧ Checked (words ++ [word]) r' := by
  unfold checkDep
  by_cases hname : isItemName word = true
  · rw [if_pos hname]
    exact ⟨_, rfl, h.name hname⟩
  rw [if_neg hname]
  have hname := Bool.eq_false_iff.mpr hname
  cases hflag : matchFlag word with
  | some flag => exact ⟨_, rfl, h.flag hname hflag⟩
  | none =>
    cases hplatform : matchPlatform word with
    | some platformType => exact h.platform hname hflag hplatform
    | none =>
      dsimp only
      by_cases hword : word = "-optional"
      · rw [if_pos hword]
        exact ⟨_, rfl, h.optionalWord hname hflag hplatform hword⟩
      · rw [if_neg hword]
        have hunknown : ¬ IsModifier word := by
          unfold IsModifier
          rw [hflag, hplatform]
          rintro (hsome | hsome | heq)
          · cases hsome
          · cases hsome
          · exact hword heq
        exact ⟨_, rfl, h.refuse hname (.unknown hname hunknown) (fun hmod ↦ absurd hmod hunknown) _⟩

theorem exists_checked (location : FileLocation) (words : List String) :
    ∃ r, words.foldlM (checkDep location) .empty = some r ∧ Checked words r := by
  induction words using List.reverseRecOn with
  | nil => exact ⟨.empty, rfl, checked_nil⟩
  | append_singleton words word ih =>
    obtain ⟨r, hr, hchecked⟩ := ih
    obtain ⟨r', hr', hchecked'⟩ := hchecked.step
    refine ⟨r', ?_, hchecked'⟩
    rw [List.foldlM_append, hr]
    show [word].foldlM (checkDep location) r = some r'
    rw [foldlM_cons, hr']
    rfl

/-- The dependencies that a value without errors declares, with what is given for each. -/
structure Declares (words : List String) (r : DepsCheck) : Prop where
  deps : r.deps = firstBy id (names words)
  flags : ∀ dep flag : String, r.flagData.isSet dep flag = true ↔
    ∃ word, matchFlag word = some flag ∧ GivenFor words word dep
  optional : ∀ dep : String, r.optionalDeps.contains dep = true ↔ GivenFor words "-optional" dep
  platformTypes : ∀ dep platformType : String, r.depPlatformTypes[dep]? = some platformType ↔
    ∃ word, matchPlatform word = some platformType ∧ GivenFor words word dep
  selectors : ∀ (dep : String) (p : PlatformSelector), r.depPlatformSelectors[dep]? = some p ↔
    ∃ platformType : String, r.depPlatformTypes[dep]? = some platformType ∧
      ':' ∈ platformType.toList ∧ initializeWith .new platformType = some (p, true)

/-- An error is reported exactly where a word is wrong, and without one all that is declared belongs
to the nearest name before it. -/
theorem checkDeps_spec (location : FileLocation) (value : String) :
    ∃ r, checkDeps location value = some r ∧
      (r.errors ≠ [] ↔ SomeBad (Util.splitBySpace value)) ∧
      (r.errors = [] → Declares (Util.splitBySpace value) r) := by
  obtain ⟨r, hr, h⟩ := exists_checked location (Util.splitBySpace value)
  refine ⟨r, hr, h.errors, fun hnil ↦ ?_⟩
  exact ⟨h.deps, h.flags, fun dep ↦ TreeSet.contains_iff_mem.trans (h.optional dep),
    h.platformTypes hnil, h.selectors hnil⟩

end Abuild.ItemConfig
