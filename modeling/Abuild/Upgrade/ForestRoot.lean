import Abuild.Library.Ancestor
import Abuild.Util.CanonicalPath

/-!
The root of a proposed forest (`Abuild-upgrade.cc`). `getForestRoot` goes up from the first
directory until each directory is under the one it has come to. Since no other directory is found
to be under the root, it does not come to an end when it goes up to the root for another directory
(`getForestRoot_iff`).
-/

set_option autoImplicit false
set_option relaxedAutoImplicit false

namespace Abuild.Upgrade

open Ancestor PathResolution Util

section Code

variable (fs : FileSystem) (bound : ℕ)

/-- The inner loop of `getForestRoot`. -/
def raiseTo (dir : String) : ℕ → String → Option String
  | 0, _ => none
  | fuel + 1, result => do
    let (canonical, _) ← canonicalizePath fs bound dir
    if isDirUnder canonical result then some result else raiseTo dir fuel (dirname result)

/-- The loops of `getForestRoot`, with a bound on the steps of each loop in them. -/
def forestRoot (forest : List String) : Option String := do
  let (start, _) ← canonicalizePath fs bound (← forest.head?)
  forest.foldlM (fun result dir ↦ raiseTo fs bound dir bound result) start

def getForestRoot (forest : List String) : Option String := do
  let result ← forestRoot fs bound forest
  -- The assertion at the end.
  if isDirUnder result (getCurrentDirectory fs) then
    some (absToRel result (getCurrentDirectory fs))
  else none

end Code

/-! ### Going up -/

/-- A canonical directory. -/
structure IsDirectory (fs : FileSystem) (names : List String) : Prop where
  name : ∀ name ∈ names, IsName name
  backslash : ∀ name ∈ names, '\\' ∉ name.toList
  canonical : ∃ fuel, canonicalizePath fs fuel (pathString names) = some (pathString names, false)

theorem pathString_concat {names : List String} (hne : names ≠ []) (name : String) :
    pathString (names ++ [name]) = pathString names ++ "/" ++ name := by
  unfold pathString
  rw [String.intercalate_append_of_ne_nil hne (List.cons_ne_nil _ _), String.intercalate_singleton,
    String.append_assoc, String.append_assoc, String.append_assoc]

theorem dirname_of_slash {front : List Char} {name : String} (hslash : '/' ∉ name.toList)
    (hbackslash : '\\' ∉ name.toList) :
    dirname (String.ofList (front ++ '/' :: name.toList)) =
      if front = [] then "/" else String.ofList front := by
  have hall : ∀ c ∈ name.toList.reverse, (decide (¬ (c = '/' ∨ c = '\\'))) = true := by
    intro c hc
    rw [List.mem_reverse] at hc
    refine decide_eq_true (not_or.mpr ⟨?_, ?_⟩)
    · rintro rfl
      exact hslash hc
    · rintro rfl
      exact hbackslash hc
  unfold dirname
  rw [String.toList_ofList, List.reverse_append, List.reverse_cons, List.append_assoc,
    List.dropWhile_append_of_pos hall, List.singleton_append,
    List.dropWhile_cons_of_neg (by decide)]
  dsimp only
  rw [List.reverse_reverse, List.isEmpty_reverse]
  cases front <;> rfl

/-- The directory that holds the last name. -/
theorem dirname_concat {names : List String} {name : String} (hslash : '/' ∉ name.toList)
    (hbackslash : '\\' ∉ name.toList) :
    dirname (pathString (names ++ [name])) = pathString names := by
  by_cases hnil : names = []
  · subst hnil
    have hpath : pathString ([] ++ [name]) = String.ofList ([] ++ '/' :: name.toList) := by
      rw [← String.toList_inj, String.toList_ofList]
      simp [pathString]
    rw [hpath, dirname_of_slash hslash hbackslash, if_pos rfl]
    rfl
  · have hpath : pathString (names ++ [name]) =
        String.ofList ((pathString names).toList ++ '/' :: name.toList) := by
      rw [pathString_concat hnil, ← String.toList_inj, String.toList_ofList]
      simp
    have hne : (pathString names).toList ≠ [] := fun hempty ↦ by
      have hhead := head_pathString names
      rw [hempty] at hhead
      cases hhead
    rw [hpath, dirname_of_slash hslash hbackslash, if_neg hne, String.ofList_toList]

theorem dirname_root : dirname (pathString []) = pathString [] := by
  decide

section Raise

variable {fs : FileSystem} {bound : ℕ} {place : List String}
  (hcanonical : canonicalizePath fs bound (pathString place) = some (pathString place, false))

include hcanonical

theorem raiseTo_succ (fuel : ℕ) (result : String) :
    raiseTo fs bound (pathString place) (fuel + 1) result =
      if isDirUnder (pathString place) result then some result
      else raiseTo fs bound (pathString place) fuel (dirname result) := by
  rw [raiseTo, hcanonical]
  rfl

/-- From the root it goes up to the root again. -/
theorem raiseTo_root (hplace : ∀ name ∈ place, IsName name) (hne : place ≠ []) (fuel : ℕ) :
    raiseTo fs bound (pathString place) fuel (pathString []) = none := by
  induction fuel with
  | zero => rfl
  | succ fuel ih =>
    rw [raiseTo_succ hcanonical, if_neg (mt (isDirUnder_root_iff hplace).mp hne), dirname_root]
    exact ih

/-- It goes up to the deepest common ancestor, unless that is the root. -/
theorem raiseTo_eq (hplace : ∀ name ∈ place, IsName name) {names : List String}
    (hnames : ∀ name ∈ names, IsName name) (hbackslash : ∀ name ∈ names, '\\' ∉ name.toList)
    (hroot : commonPrefix names place = [] → place = []) {fuel : ℕ} (hfuel : names.length < fuel) :
    raiseTo fs bound (pathString place) fuel (pathString names) =
      some (pathString (commonPrefix names place)) := by
  induction names using List.reverseRecOn generalizing fuel with
  | nil =>
    have hnil := hroot rfl
    obtain ⟨fuel, rfl⟩ := Nat.exists_eq_succ_of_ne_zero (Nat.ne_of_gt hfuel)
    rw [Nat.succ_eq_add_one, raiseTo_succ hcanonical,
      if_pos ((isDirUnder_root_iff hplace).mpr hnil)]
    rfl
  | append_singleton names name ih =>
    have hconcat : names ++ [name] ≠ [] :=
      List.append_ne_nil_of_right_ne_nil _ (List.cons_ne_nil _ _)
    have hunder := isDirUnder_iff_of_ne_root hplace hnames hconcat
    obtain ⟨fuel, rfl⟩ := Nat.exists_eq_succ_of_ne_zero (Nat.ne_zero_of_lt hfuel)
    rw [Nat.succ_eq_add_one, raiseTo_succ hcanonical]
    by_cases hle : names ++ [name] <+: place
    · rw [if_pos (hunder.mpr hle), commonPrefix_eq_left hle]
    · have hmem : name ∈ names ++ [name] := List.mem_append_right _ List.mem_cons_self
      rw [commonPrefix_concat hle] at hroot ⊢
      rw [if_neg (mt hunder.mp hle), dirname_concat (hnames name hmem).slash (hbackslash name hmem)]
      rw [List.length_append, List.length_singleton, Nat.succ_eq_add_one] at hfuel
      refine ih (fun n hn ↦ hnames n (List.mem_append_left _ hn))
        (fun n hn ↦ hbackslash n (List.mem_append_left _ hn)) hroot ?_
      omega

theorem raiseTo_eq_none (hplace : ∀ name ∈ place, IsName name) (hne : place ≠ [])
    {names : List String}
    (hnames : ∀ name ∈ names, IsName name) (hbackslash : ∀ name ∈ names, '\\' ∉ name.toList)
    (hroot : commonPrefix names place = []) (fuel : ℕ) :
    raiseTo fs bound (pathString place) fuel (pathString names) = none := by
  induction names using List.reverseRecOn generalizing fuel with
  | nil => exact raiseTo_root hcanonical hplace hne fuel
  | append_singleton names name ih =>
    have hconcat : names ++ [name] ≠ [] :=
      List.append_ne_nil_of_right_ne_nil _ (List.cons_ne_nil _ _)
    have hle : ¬ names ++ [name] <+: place := fun hle ↦ by
      rw [commonPrefix_eq_left hle] at hroot
      exact hconcat hroot
    cases fuel with
    | zero => rfl
    | succ fuel =>
      have hmem : name ∈ names ++ [name] := List.mem_append_right _ List.mem_cons_self
      rw [commonPrefix_concat hle] at hroot
      rw [raiseTo_succ hcanonical,
        if_neg (mt (isDirUnder_iff_of_ne_root hplace hnames hconcat).mp hle),
        dirname_concat (hnames name hmem).slash (hbackslash name hmem)]
      exact ih (fun n hn ↦ hnames n (List.mem_append_left _ hn))
        (fun n hn ↦ hbackslash n (List.mem_append_left _ hn)) hroot fuel

end Raise

/-! ### All directories -/

section Forest

variable {fs : FileSystem}

/-- The ancestor does not get to be the root for a directory other than the root. -/
def StaysBelowRoot (ancestor : List String) : List (List String) → Prop
  | [] => True
  | place :: places =>
    (commonPrefix ancestor place = [] → place = []) ∧
      StaysBelowRoot (commonPrefix ancestor place) places

theorem staysBelowRoot_iff {front : List (List String)} {ancestor : List String}
    (h : IsDeepestCommon ancestor front) (places : List (List String)) :
    StaysBelowRoot ancestor places ↔ ∀ mid place, mid ++ [place] <+: places →
      place = [] ∨ ∃ name, ∀ p ∈ front ++ mid ++ [place], [name] <+: p := by
  induction places generalizing front ancestor with
  | nil =>
    refine iff_of_true trivial fun mid place hmid ↦ ?_
    exact absurd (List.prefix_nil.mp hmid)
      (List.append_ne_nil_of_right_ne_nil _ (List.cons_ne_nil _ _))
  | cons place places ih =>
    have hconcat : IsDeepestCommon (commonPrefix ancestor place) (front ++ [place]) := h.concat
    have hfirst : (commonPrefix ancestor place = [] → place = []) ↔
        (place = [] ∨ ∃ name, ∀ p ∈ front ++ [place], [name] <+: p) := by
      rw [hconcat.eq_nil_iff, ← not_exists, ← or_iff_not_imp_left, or_comm]
    rw [StaysBelowRoot, hfirst, ih hconcat]
    constructor
    · rintro ⟨hplace, hplaces⟩ mid last hmid
      cases mid with
      | nil =>
        obtain rfl := (List.cons_prefix_cons.mp hmid).1
        rw [List.append_nil]
        exact hplace
      | cons m mid =>
        obtain ⟨rfl, hrest⟩ := List.cons_prefix_cons.mp hmid
        rw [List.append_cons front m mid]
        exact hplaces mid last hrest
    · intro hall
      refine ⟨?_, fun mid last hmid ↦ ?_⟩
      · have hself := hall [] place (List.cons_prefix_cons.mpr ⟨rfl, List.nil_prefix⟩)
        rw [List.append_nil] at hself
        exact hself
      · rw [← List.append_cons]
        exact hall (place :: mid) last (List.cons_prefix_cons.mpr ⟨rfl, hmid⟩)

/-- The canonical paths that are looked for within a bound are found. -/
def Found (fs : FileSystem) (bound : ℕ) (places : List (List String)) : Prop :=
  ∀ place ∈ places, canonicalizePath fs bound (pathString place) = some (pathString place, false)

theorem exists_found {places : List (List String)} (h : ∀ place ∈ places, IsDirectory fs place) :
    ∃ bound, ∀ more, Found fs (bound + more) places := by
  induction places with
  | nil => exact ⟨0, fun _ ↦ List.forall_mem_nil _⟩
  | cons place places ih =>
    obtain ⟨hplace, hplaces⟩ := List.forall_mem_cons.mp h
    obtain ⟨fuel, hfuel⟩ := hplace.canonical
    obtain ⟨bound, hbound⟩ := ih hplaces
    refine ⟨fuel + bound, fun more ↦ List.forall_mem_cons.mpr ⟨?_, fun p hp ↦ ?_⟩⟩
    · rw [Nat.add_assoc]
      exact canonicalizePath_mono hfuel _
    · have hmore := hbound (fuel + more) p hp
      rwa [Nat.add_left_comm, ← Nat.add_assoc] at hmore

section Fold

variable {bound : ℕ} {places : List (List String)} (h : ∀ place ∈ places, IsDirectory fs place)
  (hfound : Found fs bound places)

include h hfound

theorem foldlM_raiseTo_eq {ancestor : List String} (hnames : ∀ name ∈ ancestor, IsName name)
    (hbackslash : ∀ name ∈ ancestor, '\\' ∉ name.toList) (hlength : ancestor.length < bound)
    (hstays : StaysBelowRoot ancestor places) :
    (places.map pathString).foldlM (fun result dir ↦ raiseTo fs bound dir bound result)
      (pathString ancestor) = some (pathString (places.foldl commonPrefix ancestor)) := by
  induction places generalizing ancestor with
  | nil => rfl
  | cons place places ih =>
    obtain ⟨hplace, hplaces⟩ := List.forall_mem_cons.mp h
    obtain ⟨hcanonical, hrest⟩ := List.forall_mem_cons.mp hfound
    have hle := ((prefix_commonPrefix_iff ancestor place).mp (List.prefix_refl _)).1
    rw [List.map_cons, List.foldlM_cons,
      raiseTo_eq hcanonical hplace.name hnames hbackslash hstays.1 hlength]
    exact ih hplaces hrest (fun name hname ↦ hnames name (hle.subset hname))
      (fun name hname ↦ hbackslash name (hle.subset hname)) (hle.length_le.trans_lt hlength)
      hstays.2

theorem staysBelowRoot_of_foldlM {ancestor : List String} (hnames : ∀ name ∈ ancestor, IsName name)
    (hbackslash : ∀ name ∈ ancestor, '\\' ∉ name.toList) (hlength : ancestor.length < bound)
    {result : String}
    (hfold : (places.map pathString).foldlM (fun result dir ↦ raiseTo fs bound dir bound result)
      (pathString ancestor) = some result) : StaysBelowRoot ancestor places := by
  induction places generalizing ancestor with
  | nil => exact trivial
  | cons place places ih =>
    obtain ⟨hplace, hplaces⟩ := List.forall_mem_cons.mp h
    obtain ⟨hcanonical, hrest⟩ := List.forall_mem_cons.mp hfound
    have hle := ((prefix_commonPrefix_iff ancestor place).mp (List.prefix_refl _)).1
    rw [List.map_cons, List.foldlM_cons] at hfold
    have hroot : commonPrefix ancestor place = [] → place = [] := by
      intro hnil
      by_contra hne
      rw [raiseTo_eq_none hcanonical hplace.name hne hnames hbackslash hnil] at hfold
      cases hfold
    rw [raiseTo_eq hcanonical hplace.name hnames hbackslash hroot hlength] at hfold
    exact ⟨hroot, ih hplaces hrest (fun name hname ↦ hnames name (hle.subset hname))
      (fun name hname ↦ hbackslash name (hle.subset hname)) (hle.length_le.trans_lt hlength) hfold⟩

end Fold

theorem isDeepestCommon_foldl {front : List (List String)} {ancestor : List String}
    (h : IsDeepestCommon ancestor front) (places : List (List String)) :
    IsDeepestCommon (places.foldl commonPrefix ancestor) (front ++ places) := by
  induction places generalizing front ancestor with
  | nil =>
    rw [List.append_nil]
    exact h
  | cons place places ih =>
    rw [List.append_cons]
    exact ih h.concat

/-- The loops start at the first directory. -/
theorem forestRoot_eq {bound : ℕ} {place : List String} {places : List (List String)}
    (hfound : Found fs bound (place :: places)) :
    forestRoot fs bound ((place :: places).map pathString) =
      ((place :: places).map pathString).foldlM (fun result dir ↦ raiseTo fs bound dir bound result)
        (pathString place) := by
  unfold forestRoot
  rw [List.map_cons, List.head?_cons]
  dsimp only [Option.bind_eq_bind, Option.bind_some]
  rw [hfound place List.mem_cons_self]
  rfl

/-- The first directory is under itself. -/
theorem staysBelowRoot_self (place : List String) (places : List (List String)) :
    StaysBelowRoot place (place :: places) ↔ StaysBelowRoot place places := by
  rw [StaysBelowRoot, commonPrefix_eq_left (List.prefix_refl place)]
  exact and_iff_right id

theorem staysBelowRoot_forest_iff (place : List String) (places : List (List String)) :
    StaysBelowRoot place (place :: places) ↔ ∀ front p, front ++ [p] <+: place :: places →
      p = [] ∨ ∃ name, ∀ p' ∈ front ++ [p], [name] <+: p' := by
  rw [staysBelowRoot_self, staysBelowRoot_iff isDeepestCommon_singleton]
  constructor
  · intro hall front p hfront
    cases front with
    | nil =>
      obtain rfl := (List.cons_prefix_cons.mp hfront).1
      cases p with
      | nil => exact Or.inl rfl
      | cons name rest =>
        exact Or.inr ⟨name, List.forall_mem_singleton.mpr (List.prefix_append [name] rest)⟩
    | cons q front =>
      obtain ⟨rfl, hrest⟩ := List.cons_prefix_cons.mp hfront
      exact hall front p hrest
  · exact fun hall mid p hmid ↦ hall (place :: mid) p (List.cons_prefix_cons.mpr ⟨rfl, hmid⟩)

theorem exists_forestRoot {place : List String} {places : List (List String)}
    (h : ∀ p ∈ place :: places, IsDirectory fs p)
    (hstays : StaysBelowRoot place (place :: places)) :
    ∃ bound ancestor, IsDeepestCommon ancestor (place :: places) ∧ ∀ more,
      forestRoot fs (bound + more) ((place :: places).map pathString) =
        some (pathString ancestor) := by
  have hplace := h place List.mem_cons_self
  obtain ⟨bound, hbound⟩ := exists_found h
  refine ⟨bound + (place.length + 1), (place :: places).foldl commonPrefix place, ?_, fun more ↦ ?_⟩
  · rw [List.foldl_cons, commonPrefix_eq_left (List.prefix_refl place)]
    exact isDeepestCommon_foldl isDeepestCommon_singleton places
  · rw [Nat.add_assoc, forestRoot_eq (hbound _)]
    exact foldlM_raiseTo_eq h (hbound _) hplace.name hplace.backslash (by omega) hstays

/-- The current directory and the directories of a forest in it or below it. -/
structure IsForestBelow (fs : FileSystem) (cwd : List String) (forest : List (List String)) :
    Prop where
  current : getCurrentDirectory fs = pathString cwd
  names : ∀ name ∈ cwd, IsName name
  nonempty : forest ≠ []
  directories : ∀ place ∈ forest, IsDirectory fs place
  below : ∀ place ∈ forest, cwd <+: place

/-- Each directory is the root, or has an ancestor below the root in common with those before it. -/
def MeetsBelowRoot (forest : List (List String)) : Prop :=
  ∀ front place, front ++ [place] <+: forest →
    place = [] ∨ ∃ name, ∀ p ∈ front ++ [place], [name] <+: p

theorem staysBelowRoot_of_forestRoot {bound : ℕ} {place : List String} {places : List (List String)}
    (h : ∀ p ∈ place :: places, IsDirectory fs p)
    (hsome : ∀ more, ∃ result,
      forestRoot fs (bound + more) ((place :: places).map pathString) = some result) :
    StaysBelowRoot place (place :: places) := by
  have hplace := h place List.mem_cons_self
  obtain ⟨enough, henough⟩ := exists_found h
  have hfound := henough (bound + (place.length + 1))
  have hbounds : enough + (bound + (place.length + 1)) =
      bound + (enough + (place.length + 1)) := Nat.add_left_comm _ _ _
  rw [hbounds] at hfound
  obtain ⟨result, hresult⟩ := hsome (enough + (place.length + 1))
  have hfold := forestRoot_eq hfound
  rw [hresult] at hfold
  exact staysBelowRoot_of_foldlM h hfound hplace.name hplace.backslash (by omega) hfold.symm

/-- The loops end exactly when each directory is the root or has an ancestor below
the root in common with those before it. -/
theorem exists_forestRoot_iff {forest : List (List String)} (hne : forest ≠ [])
    (h : ∀ place ∈ forest, IsDirectory fs place) :
    (∃ bound, ∀ more, ∃ result,
      forestRoot fs (bound + more) (forest.map pathString) = some result) ↔
    MeetsBelowRoot forest := by
  obtain ⟨place, places, rfl⟩ := List.exists_cons_of_ne_nil hne
  rw [MeetsBelowRoot, ← staysBelowRoot_forest_iff]
  constructor
  · rintro ⟨bound, hsome⟩
    exact staysBelowRoot_of_forestRoot h hsome
  · intro hstays
    obtain ⟨bound, ancestor, -, hrun⟩ := exists_forestRoot h hstays
    exact ⟨bound, fun more ↦ ⟨_, hrun more⟩⟩

/-- They end with the deepest common ancestor. -/
theorem MeetsBelowRoot.exists_forestRoot {forest : List (List String)}
    (hmeets : MeetsBelowRoot forest)
    (hne : forest ≠ []) (h : ∀ place ∈ forest, IsDirectory fs place) :
    ∃ bound ancestor, IsDeepestCommon ancestor forest ∧
      ∀ more, forestRoot fs (bound + more) (forest.map pathString) =
        some (pathString ancestor) := by
  obtain ⟨place, places, rfl⟩ := List.exists_cons_of_ne_nil hne
  exact Upgrade.exists_forestRoot h ((staysBelowRoot_forest_iff place places).mpr hmeets)

/-- The loops go up to the root only when it is one of the directories. -/
theorem MeetsBelowRoot.eq_root_iff {forest : List (List String)} (hmeets : MeetsBelowRoot forest)
    {ancestor : List String} (hancestor : IsDeepestCommon ancestor forest) (hne : forest ≠ []) :
    ancestor = [] ↔ [] ∈ forest := by
  constructor
  · intro hroot
    have hlast : forest.dropLast ++ [forest.getLast hne] = forest :=
      List.dropLast_append_getLast hne
    have hall : forest.dropLast ++ [forest.getLast hne] <+: forest := by
      rw [hlast]
    rcases hmeets _ _ hall with hlastRoot | ⟨name, hname⟩
    · rw [← hlastRoot]
      exact List.getLast_mem hne
    · rw [hlast] at hname
      exact absurd hname (hancestor.eq_nil_iff.mp hroot name)
  · intro hmem
    exact List.prefix_nil.mp (hancestor.common [] hmem)

/-- Without the assertion there is no result but that of the loops. -/
theorem exists_forestRoot_of_getForestRoot {bound : ℕ} {forest : List (List String)}
    {result : String}
    (hrun : getForestRoot fs bound (forest.map pathString) = some result) :
    ∃ root, forestRoot fs bound (forest.map pathString) = some root ∧
      isDirUnder root (getCurrentDirectory fs) = true := by
  unfold getForestRoot at hrun
  obtain ⟨root, hroot, hend⟩ := Option.bind_eq_some_iff.mp hrun
  split_ifs at hend with hunder
  exact ⟨root, hroot, hunder⟩

section GetForestRoot

variable {cwd : List String} {forest : List (List String)} (h : IsForestBelow fs cwd forest)

include h

/-- Below a current directory other than the root all directories meet in it or below it. -/
theorem IsForestBelow.meetsBelowRoot (hne : cwd ≠ []) : MeetsBelowRoot forest := by
  obtain ⟨name, rest, rfl⟩ := List.exists_cons_of_ne_nil hne
  intro front place hfront
  refine Or.inr ⟨name, fun p hp ↦ ?_⟩
  exact (List.prefix_append [name] rest).trans (h.below p (hfront.subset hp))

/-- The assertion at the end: the deepest common ancestor is in the current directory or below it,
yet nothing but the root itself is found to be under the root. -/
theorem IsForestBelow.assertion_iff {ancestor : List String}
    (hancestor : IsDeepestCommon ancestor forest) :
    isDirUnder (pathString ancestor) (getCurrentDirectory fs) = true ↔
      cwd ≠ [] ∨ ancestor = [] := by
  obtain ⟨place, hplace⟩ := List.exists_mem_of_ne_nil forest h.nonempty
  have hnames : ∀ name ∈ ancestor, IsName name := fun name hname ↦
    (h.directories place hplace).name name ((hancestor.common place hplace).subset hname)
  rw [h.current]
  by_cases hroot : cwd = []
  · subst hroot
    rw [isDirUnder_root_iff hnames]
    exact (or_iff_right (not_not_intro rfl)).symm
  · refine iff_of_true ?_ (Or.inl hroot)
    exact (isDirUnder_iff_of_ne_root hnames h.names hroot).mpr (hancestor.deepest _ h.below)

theorem IsForestBelow.exists_getForestRoot_iff :
    (∃ bound ancestor, IsDeepestCommon ancestor forest ∧
      ∀ more, getForestRoot fs (bound + more) (forest.map pathString) =
        some (absToRel (pathString ancestor) (pathString cwd))) ↔
    cwd ≠ [] ∨ [] ∈ forest ∧ MeetsBelowRoot forest := by
  constructor
  · rintro ⟨bound, result, -, hsome⟩
    refine or_iff_not_imp_left.mpr fun hroot ↦ ?_
    have hloops := fun more ↦ exists_forestRoot_of_getForestRoot (hsome more)
    have hmeets : MeetsBelowRoot forest :=
      (exists_forestRoot_iff h.nonempty h.directories).mp
        ⟨bound, fun more ↦ (hloops more).imp fun _ ↦ And.left⟩
    obtain ⟨enough, ancestor, hancestor, hrun⟩ := hmeets.exists_forestRoot h.nonempty h.directories
    obtain ⟨root, hfound, hunder⟩ := hloops enough
    rw [Nat.add_comm, hrun] at hfound
    obtain rfl := Option.some.inj hfound
    have hnil := ((h.assertion_iff hancestor).mp hunder).resolve_left hroot
    exact ⟨(hmeets.eq_root_iff hancestor h.nonempty).mp hnil, hmeets⟩
  · intro hcases
    have hmeets : MeetsBelowRoot forest := by
      rcases hcases with hne | ⟨-, hmeets⟩
      · exact h.meetsBelowRoot hne
      · exact hmeets
    obtain ⟨bound, ancestor, hancestor, hrun⟩ := hmeets.exists_forestRoot h.nonempty h.directories
    have hunder : isDirUnder (pathString ancestor) (getCurrentDirectory fs) = true :=
      (h.assertion_iff hancestor).mpr
        (hcases.imp_right fun hroot ↦ (hmeets.eq_root_iff hancestor h.nonempty).mpr hroot.1)
    refine ⟨bound, ancestor, hancestor, fun more ↦ ?_⟩
    unfold getForestRoot
    rw [hrun]
    dsimp only [Option.bind_eq_bind, Option.bind_some]
    rw [if_pos hunder, h.current]

end GetForestRoot

end Forest

/-- The loops of `getForestRoot` end with the deepest common ancestor exactly when each directory
is the root or has an ancestor below the root in common with those before it. `getForestRoot`
returns the path to it exactly when the current directory is not the root, or when the loops end
and the root is one of the directories. -/
theorem getForestRoot_iff {fs : FileSystem} {cwd : List String} {forest : List (List String)}
    (h : IsForestBelow fs cwd forest) :
    ((∃ bound ancestor, IsDeepestCommon ancestor forest ∧
        ∀ more, forestRoot fs (bound + more) (forest.map pathString) =
          some (pathString ancestor)) ↔ MeetsBelowRoot forest) ∧
      ((∃ bound ancestor, IsDeepestCommon ancestor forest ∧
        ∀ more, getForestRoot fs (bound + more) (forest.map pathString) =
          some (absToRel (pathString ancestor) (pathString cwd))) ↔
        cwd ≠ [] ∨ [] ∈ forest ∧ MeetsBelowRoot forest) := by
  refine ⟨⟨?_, fun hmeets ↦ ?_⟩, h.exists_getForestRoot_iff⟩
  · rintro ⟨bound, ancestor, -, hrun⟩
    exact (exists_forestRoot_iff h.nonempty h.directories).mp ⟨bound, fun more ↦ ⟨_, hrun more⟩⟩
  · exact hmeets.exists_forestRoot h.nonempty h.directories

/-! ### Two directories in the root -/

theorem isDirectory_of_noLinks {fs : FileSystem}
    (hlinks : ∀ path, fs.lstat path ≠ some .symbolicLink)
    {names : List String} (hnames : ∀ name ∈ names, IsName name)
    (hbackslash : ∀ name ∈ names, '\\' ∉ name.toList) : IsDirectory fs names := by
  obtain ⟨met, hresolves⟩ := denotes_pathString hnames
    fun l _ _ ↦ links_eq_none hlinks startsAtRoot l
  exact ⟨hnames, hbackslash, canonicalizePath_of_noLinks hlinks (head_pathString names)
    (not_mem_pathString hbackslash) hresolves⟩

theorem isDirectory_noLink {names : List String} (h : names ⊆ ["home", "usr", "local"]) :
    IsDirectory noLink names := by
  have hnames : ∀ name ∈ ["home", "usr", "local"], IsName name ∧ '\\' ∉ name.toList := by
    intro name hname
    have hcases : name = "home" ∨ name = "usr" ∨ name = "local" := by simpa using hname
    rcases hcases with rfl | rfl | rfl <;>
      exact ⟨⟨by decide, by decide, by decide, by decide⟩, by decide⟩
  exact isDirectory_of_noLinks noLink_noLinks (fun name hname ↦ (hnames name (h hname)).1)
    fun name hname ↦ (hnames name (h hname)).2

theorem isForestBelow_noLink {forest : List (List String)} (hne : forest ≠ [])
    (h : ∀ place ∈ forest, place ⊆ ["home", "usr", "local"]) : IsForestBelow noLink [] forest where
  current := by decide +kernel
  names _ hname := absurd hname List.not_mem_nil
  nonempty := hne
  directories place hplace := isDirectory_noLink (h place hplace)
  below _ _ := List.nil_prefix

/-- From the root as the current directory the path to a directory of it is not returned, even
where the loops have come to it. -/
theorem getForestRoot_usr_local :
    IsForestBelow noLink [] [["usr", "local"], ["usr"]] ∧
      ((∃ bound ancestor, IsDeepestCommon ancestor [["usr", "local"], ["usr"]] ∧ ∀ more,
        forestRoot noLink (bound + more) ([["usr", "local"], ["usr"]].map pathString) =
          some (pathString ancestor)) ↔ MeetsBelowRoot [["usr", "local"], ["usr"]]) ∧
      ((∃ bound ancestor, IsDeepestCommon ancestor [["usr", "local"], ["usr"]] ∧ ∀ more,
        getForestRoot noLink (bound + more) ([["usr", "local"], ["usr"]].map pathString) =
          some (absToRel (pathString ancestor) (pathString []))) ↔
        ([] : List String) ≠ [] ∨
          [] ∈ [["usr", "local"], ["usr"]] ∧ MeetsBelowRoot [["usr", "local"], ["usr"]]) := by
  have h : IsForestBelow noLink [] [["usr", "local"], ["usr"]] :=
    isForestBelow_noLink (List.cons_ne_nil _ _) (by decide)
  exact ⟨h, getForestRoot_iff h⟩

/-- With the root as the current directory, which is the ancestor of two directories in it, the
loops do not end; where they end below it, the assertion fails. -/
theorem forestRoot_home_usr_eq_none :
    IsForestBelow noLink [] [["home"], ["usr"]] ∧
      (∀ bound, forestRoot noLink bound ([["home"], ["usr"]].map pathString) = none ∧
        getForestRoot noLink bound ([["home"], ["usr"]].map pathString) = none) ∧
      IsForestBelow noLink [] [["usr", "local"], ["usr"]] ∧
      ¬ ∃ bound ancestor, IsDeepestCommon ancestor [["usr", "local"], ["usr"]] ∧ ∀ more,
        getForestRoot noLink (bound + more) ([["usr", "local"], ["usr"]].map pathString) =
          some (absToRel (pathString ancestor) (pathString [])) := by
  have h : IsForestBelow noLink [] [["home"], ["usr"]] :=
    isForestBelow_noLink (List.cons_ne_nil _ _) (by decide)
  have h' : IsForestBelow noLink [] [["usr", "local"], ["usr"]] :=
    isForestBelow_noLink (List.cons_ne_nil _ _) (by decide)
  refine ⟨h, fun bound ↦ ?_, h', mt h'.exists_getForestRoot_iff.mp ?_⟩
  · have hloops : forestRoot noLink bound ([["home"], ["usr"]].map pathString) = none := by
      match bound with
      | 0 => decide +kernel
      | 1 => decide +kernel
      | 2 => decide +kernel
      | more + 3 =>
        have hhome : canonicalizePath noLink 3 (pathString ["home"]) =
            some (pathString ["home"], false) := by
          decide +kernel
        have husr : canonicalizePath noLink 3 (pathString ["usr"]) =
            some (pathString ["usr"], false) := by
          decide +kernel
        have hfound : Found noLink (3 + more) [["home"], ["usr"]] :=
          List.forall_mem_cons.mpr ⟨canonicalizePath_mono hhome more,
            List.forall_mem_singleton.mpr (canonicalizePath_mono husr more)⟩
        rw [Nat.add_comm, forestRoot_eq hfound]
        refine Option.eq_none_iff_forall_ne_some.mpr fun result hresult ↦ ?_
        have hdirectory := h.directories ["home"] List.mem_cons_self
        have hstays := staysBelowRoot_of_foldlM h.directories hfound hdirectory.name
          hdirectory.backslash (by rw [List.length_singleton]; omega) hresult
        exact absurd (hstays.2.1 rfl) (List.cons_ne_nil _ _)
    refine ⟨hloops, ?_⟩
    unfold getForestRoot
    rw [hloops]
    rfl
  · rintro (hne | ⟨hmem, -⟩)
    · exact hne rfl
    · exact absurd hmem (by decide)

end Abuild.Upgrade
