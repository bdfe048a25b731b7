import Abuild.Library.PathResolution
import Abuild.Util
import Abuild.Util.Split

/-!
What a path leads to in a file system, and when `canonicalizePath` finds it. The loop follows the
resolution of the path as long as no link is met twice (`loop_of_resolves`, `resolves_of_loop`):
a link that was followed before is taken for a loop. It reads a target that starts with a backslash
as one from the root, of which it leaves out the first component. `canonicalizes_iff` says that
nothing else goes wrong.
-/

set_option autoImplicit false
set_option relaxedAutoImplicit false

namespace Abuild.Util

open PathResolution

/-! ### Strings -/

/-- The first component of a path from the root is empty. -/
theorem split_absolute {path : String} (h : path.toList.head? = some '/') :
    ∃ rest, split '/' path = "" :: rest := by
  obtain ⟨cs, hcs⟩ := List.head?_eq_some_iff.mp h
  unfold split
  rw [hcs, splitChars_cons, if_pos rfl]
  exact ⟨_, rfl⟩

/-! ### Paths -/

def component (component : String) : Component String :=
  if component = "" ∨ component = "." then .here
  else if component = ".." then .parent
  else .name component

def components (path : String) : List (Component String) := (split '/' path).map component

/-- The path of a location. -/
def pathString (names : List String) : String := "/" ++ "/".intercalate names

/-- A target that is absolute is read from the root after its first component. -/
def linkTo (absolute : Bool) (target : String) : Link String :=
  ⟨absolute, if absolute then (components target).tail else components target⟩

def linkTarget (fs : FileSystem) (path : String) : Option String :=
  if fs.lstat path = some .symbolicLink then fs.readlink path else none

/-- The links of a file system, with the targets that are absolute. -/
def links (fs : FileSystem) (absolute : String → Bool) (location : List String) :
    Option (Link String) :=
  (linkTarget fs (pathString location)).map fun target ↦ linkTo (absolute target) target

/-- The targets that are absolute for the file system. -/
def startsAtRoot (target : String) : Bool := target.toList.head? = some '/'

/-- Where a path from the root leads. -/
def Denotes (fs : FileSystem) (path : String) (location : List String) : Prop :=
  ∃ met, Resolves (links fs startsAtRoot) [] (components path) met location

/-- All links have targets, which are not empty and fit into the buffer. -/
def LinksFit (fs : FileSystem) : Prop :=
  ∀ path, fs.lstat path = some .symbolicLink →
    ∃ target, fs.readlink path = some target ∧ target ≠ "" ∧ target.length < 2048

/-- A name in a canonical path. -/
structure IsName (name : String) : Prop where
  nonempty : name ≠ ""
  dot : name ≠ "."
  dotdot : name ≠ ".."
  slash : '/' ∉ name.toList

/-- The canonical path of a path: an absolute path without empty components, `.` or `..`, no
beginning of which is a link, that leads where the path does, and no loop is reported. -/
structure Canonicalizes (fs : FileSystem) (path canonical : String) (sawLoop : Bool) : Prop where
  absolute : ∃ names, canonical = pathString names ∧ (∀ name ∈ names, IsName name) ∧
    ∀ l, l <+: names → l ≠ [] → fs.lstat (pathString l) ≠ some .symbolicLink
  denotes : ∃ location, Denotes fs (absolutePath fs path) location ∧ Denotes fs canonical location
  noLoop : sawLoop = false

theorem IsName.component_eq {name : String} (h : IsName name) : component name = .name name := by
  unfold component
  rw [if_neg (not_or.mpr ⟨h.nonempty, h.dot⟩), if_neg h.dotdot]

theorem intercalate_root {names : List String} (h : names ≠ []) :
    "/".intercalate ("" :: names) = pathString names := by
  rw [String.intercalate_cons_of_ne_nil h, String.empty_append]
  rfl

/-- The path of a location that meets no link leads to the location. -/
theorem resolves_pathString {links : List String → Option (Link String)} {names : List String}
    (h : ∀ name ∈ names, IsName name) (hclear : Clear links names) :
    Resolves links [] (components (pathString names)) [] names := by
  cases names with
  | nil =>
    have hsplit : split '/' ("/".intercalate ["", ""]) = ["", ""] :=
      split_intercalate (by simp) (List.cons_ne_nil _ _)
    have hcomponents : components (pathString []) = [.here, .here] := congrArg (List.map _) hsplit
    rw [hcomponents]
    exact .here (.here .done)
  | cons name names =>
    have hslash : ∀ part ∈ "" :: name :: names, '/' ∉ part.toList :=
      List.forall_mem_cons.mpr ⟨List.not_mem_nil, fun part hpart ↦ (h part hpart).slash⟩
    have hnames : (name :: names).map component = (name :: names).map .name :=
      List.map_congr_left fun part hpart ↦ (h part hpart).component_eq
    have hcomponents : components (pathString (name :: names)) =
        .here :: (name :: names).map .name := by
      unfold components
      rw [← intercalate_root (List.cons_ne_nil _ _),
        split_intercalate hslash (List.cons_ne_nil _ _),
        List.map_cons, hnames]
      rfl
    rw [hcomponents]
    exact .here (resolves_of_clear hclear)

theorem denotes_pathString {fs : FileSystem} {names : List String}
    (h : ∀ name ∈ names, IsName name) (hclear : Clear (links fs startsAtRoot) names) :
    Denotes fs (pathString names) names :=
  ⟨[], resolves_pathString h hclear⟩

theorem links_eq_none_iff {fs : FileSystem} {absolute : String → Bool} {location : List String} :
    links fs absolute location = none ↔ linkTarget fs (pathString location) = none :=
  Option.map_eq_none_iff

theorem clear_links {fs : FileSystem} {absolute absolute' : String → Bool} {location : List String}
    (h : Clear (links fs absolute) location) : Clear (links fs absolute') location :=
  fun l hl hne ↦ links_eq_none_iff.mpr (links_eq_none_iff.mp (h l hl hne))

theorem readLink_eq_none_of_linkTarget {fs : FileSystem} {path : String}
    (h : linkTarget fs path = none) : readLink fs path = none := by
  unfold linkTarget at h
  unfold readLink
  split_ifs at h ⊢ with hlink
  · rw [h]
    rfl
  · rfl

section LinksFit

variable {fs : FileSystem}

theorem LinksFit.linkTarget_eq_none_iff (h : LinksFit fs) {path : String} :
    linkTarget fs path = none ↔ fs.lstat path ≠ some .symbolicLink := by
  unfold linkTarget
  split_ifs with hlink
  · obtain ⟨target, htarget, -, -⟩ := h path hlink
    exact iff_of_false (fun hnone ↦ by cases htarget.symm.trans hnone) fun hne ↦ hne hlink
  · exact iff_of_true rfl hlink

/-- The whole target of a link fits into the buffer. -/
theorem LinksFit.readLink_eq (h : LinksFit fs) (path : String) :
    readLink fs path = linkTarget fs path := by
  unfold readLink linkTarget
  split_ifs with hlink
  · obtain ⟨target, htarget, hne, hlength⟩ := h path hlink
    have htake : target.toList.take 2047 = target.toList :=
      List.take_of_length_le (by rw [String.length_toList]; omega)
    have hpos : target.toList.length > 0 := by
      rw [String.length_toList]
      exact Nat.pos_of_ne_zero fun hzero ↦ hne (String.length_eq_zero_iff.mp hzero)
    rw [htarget, Option.bind_some]
    dsimp only
    rw [htake, if_pos hpos, String.ofList_toList]
  · rfl

end LinksFit

/-! ### One component -/

/-- The state of the loop when a location has been reached. -/
structure Reached (fs : FileSystem) (location : List String) (c : Canonicalization) : Prop where
  result : c.result = "" :: location
  names : ∀ name ∈ location, IsName name
  slash : ∀ part ∈ c.components, '/' ∉ part.toList
  clear : Clear (links fs isAbsolutePath) location
  seen : ∀ path ∈ c.sawlinks, linkTarget fs path ≠ none

section Step

variable {fs : FileSystem} {location : List String} {c : Canonicalization}

/-- A location that has been reached is no link. -/
theorem Reached.checkLink_eq (h : Reached fs location c) :
    checkLink fs c = c := by
  unfold checkLink
  split_ifs with hlength
  · have hne : location ≠ [] := by
      rintro rfl
      rw [h.result] at hlength
      exact absurd hlength (by decide)
    have hnone : linkTarget fs (pathString location) = none :=
      links_eq_none_iff.mp (h.clear location (List.prefix_refl _) hne)
    dsimp only
    rw [h.result, intercalate_root hne, if_neg fun hseen ↦ h.seen _ hseen hnone,
      readLink_eq_none_of_linkTarget hnone]
  · rfl

theorem Reached.drop {part : String} {parts : List String} (h : Reached fs location c)
    (hparts : c.components = part :: parts) :
    Reached fs location { c with components := parts } := by
  refine ⟨h.result, h.names, fun part' hpart' ↦ h.slash part' ?_, h.clear, h.seen⟩
  rw [hparts]
  exact List.mem_cons_of_mem _ hpart'

theorem component_eq_parent {part : String} (h : component part = .parent) : part = ".." := by
  unfold component at h
  split_ifs at h with hor hdotdot
  exact hdotdot

theorem component_eq_name {part name : String} (h : component part = .name name) :
    part = name ∧ name ≠ "" ∧ name ≠ "." ∧ name ≠ ".." := by
  unfold component at h
  split_ifs at h with hor hdotdot
  cases h
  exact ⟨rfl, fun hempty ↦ hor (Or.inl hempty), fun hdot ↦ hor (Or.inr hdot), hdotdot⟩

/-- A component that is a name stands for itself. -/
theorem Reached.isName {part name : String} {parts : List String} (h : Reached fs location c)
    (hparts : c.components = part :: parts) (hpart : component part = .name name) :
    part = name ∧ IsName part := by
  obtain ⟨rfl, hempty, hdot, hdotdot⟩ := component_eq_name hpart
  refine ⟨rfl, hempty, hdot, hdotdot, h.slash part ?_⟩
  rw [hparts]
  exact List.mem_cons_self

theorem Reached.step_here (h : Reached fs location c) {part : String}
    (hpart : component part = .here) : canonicalizeStep fs part c = c := by
  have hadd : addComponent part c.result = c.result := by
    unfold component at hpart
    split_ifs at hpart with hor
    unfold addComponent
    rw [h.result]
    rcases hor with rfl | rfl
    · exact if_pos ⟨rfl, by simp⟩
    · rw [if_neg (by simp), if_pos rfl]
  unfold canonicalizeStep
  rw [hadd]
  exact h.checkLink_eq

theorem Reached.step_parent (h : Reached fs location c) {part : String}
    (hpart : component part = .parent) :
    canonicalizeStep fs part c = { c with result := "" :: location.dropLast } ∧
      Reached fs location.dropLast { c with result := "" :: location.dropLast } := by
  have hadd : addComponent part c.result = "" :: location.dropLast := by
    rw [component_eq_parent hpart, h.result]
    cases location <;> rfl
  have hreached : Reached fs location.dropLast { c with result := "" :: location.dropLast } :=
    ⟨rfl, fun name hname ↦ h.names name (List.mem_of_mem_dropLast hname), h.slash, h.clear.dropLast,
      h.seen⟩
  unfold canonicalizeStep
  rw [hadd]
  exact ⟨hreached.checkLink_eq, hreached⟩

theorem Reached.addComponent_name (h : Reached fs location c) {name : String}
    (hname : IsName name) : addComponent name c.result = "" :: (location ++ [name]) := by
  have hempty : ¬ name.isEmpty := fun hempty ↦ hname.nonempty (String.isEmpty_iff.mp hempty)
  unfold addComponent
  rw [if_neg fun hand ↦ hempty hand.1, if_neg hname.dot, if_neg hname.dotdot, h.result]
  rfl

/-- The location of a name, when it is no link. -/
theorem Reached.step_name (h : Reached fs location c) {name : String}
    (hname : IsName name) (hnone : links fs isAbsolutePath (location ++ [name]) = none) :
    canonicalizeStep fs name c = { c with result := "" :: (location ++ [name]) } ∧
      Reached fs (location ++ [name]) { c with result := "" :: (location ++ [name]) } := by
  have hreached : Reached fs (location ++ [name]) { c with result := "" :: (location ++ [name]) } :=
    ⟨rfl, List.forall_mem_append.mpr ⟨h.names, List.forall_mem_singleton.mpr hname⟩, h.slash,
      h.clear.concat hnone, h.seen⟩
  unfold canonicalizeStep
  rw [h.addComponent_name hname]
  exact ⟨hreached.checkLink_eq, hreached⟩

/-- A link that was followed before. -/
theorem Reached.step_seen (h : Reached fs location c) {name : String} (hname : IsName name)
    (hseen : pathString (location ++ [name]) ∈ c.sawlinks) :
    (canonicalizeStep fs name c).sawLoop = true := by
  have hne : location ++ [name] ≠ [] := List.append_ne_nil_of_right_ne_nil _ (List.cons_ne_nil _ _)
  unfold canonicalizeStep
  rw [h.addComponent_name hname, checkLink, if_pos (by simp)]
  dsimp only
  rw [intercalate_root hne, if_pos hseen]

/-- The components of a link that has not been followed yet come before the others. -/
theorem Reached.step_link (hfit : LinksFit fs) (h : Reached fs location c) {name : String}
    (hname : IsName name) {link : Link String}
    (hlink : links fs isAbsolutePath (location ++ [name]) = some link)
    (hseen : pathString (location ++ [name]) ∉ c.sawlinks) :
    Reached fs (link.start location) (canonicalizeStep fs name c) ∧
      (canonicalizeStep fs name c).components.map component =
        link.target ++ c.components.map component ∧
      (canonicalizeStep fs name c).sawlinks =
        insert (pathString (location ++ [name])) c.sawlinks ∧
      (canonicalizeStep fs name c).sawLoop = c.sawLoop := by
  have hne : location ++ [name] ≠ [] := List.append_ne_nil_of_right_ne_nil _ (List.cons_ne_nil _ _)
  obtain ⟨target, htarget, rfl⟩ := Option.map_eq_some_iff.mp hlink
  have hstep : canonicalizeStep fs name c = followLink target
      { c with
        result := "" :: (location ++ [name])
        sawlinks := insert (pathString (location ++ [name])) c.sawlinks } := by
    unfold canonicalizeStep
    rw [h.addComponent_name hname, checkLink, if_pos (by simp)]
    dsimp only
    rw [intercalate_root hne, if_neg hseen, hfit.readLink_eq, htarget]
  have hseen' : ∀ path ∈ insert (pathString (location ++ [name])) c.sawlinks,
      linkTarget fs path ≠ none := by
    intro path hpath
    rcases Finset.mem_insert.mp hpath with rfl | hpath
    · rw [htarget]
      exact Option.some_ne_none target
    · exact h.seen path hpath
  have hslash : ∀ part ∈ split '/' target ++ c.components, '/' ∉ part.toList :=
    List.forall_mem_append.mpr ⟨fun part hpart ↦ not_mem_of_mem_split hpart, h.slash⟩
  rw [hstep]
  unfold followLink linkTo Link.start components
  dsimp only
  split_ifs with habsolute
  · obtain ⟨first, rest, hrest⟩ := List.exists_cons_of_ne_nil (split_ne_nil '/' target)
    rw [hrest] at hslash ⊢
    refine ⟨⟨rfl, List.forall_mem_nil _, ?_, clear_nil, hseen'⟩, ?_, rfl, rfl⟩
    · exact fun part hpart ↦ hslash part (List.mem_cons_of_mem _ hpart)
    · exact List.map_append
  · refine ⟨⟨?_, h.names, hslash, h.clear, hseen'⟩, List.map_append, rfl, rfl⟩
    show ("" :: location ++ [name]).dropLast = "" :: location
    exact List.dropLast_concat

end Step

/-! ### The loop -/

section Loop

variable {fs : FileSystem}

theorem checkLink_sawLoop {c : Canonicalization} (h : c.sawLoop = true) :
    (checkLink fs c).sawLoop = true := by
  unfold checkLink
  dsimp only
  split_ifs
  · rfl
  · split
    · exact h
    · unfold followLink
      dsimp only
      split_ifs <;> exact h
  · exact h

theorem canonicalizeLoop_cons {c : Canonicalization} {part : String} {parts : List String}
    (h : c.components = part :: parts) (fuel : ℕ) : canonicalizeLoop fs (fuel + 1) c =
      canonicalizeLoop fs fuel (canonicalizeStep fs part { c with components := parts }) := by
  rw [canonicalizeLoop, h]

theorem canonicalizeLoop_nil {c : Canonicalization} (h : c.components = []) (fuel : ℕ) :
    canonicalizeLoop fs (fuel + 1) c = some c := by
  rw [canonicalizeLoop, h]

/-- A loop that was seen is not forgotten. -/
theorem canonicalizeLoop_sawLoop {fuel : ℕ} {c c' : Canonicalization}
    (h : canonicalizeLoop fs fuel c = some c') (hloop : c'.sawLoop = false) :
    c.sawLoop = false := by
  induction fuel generalizing c with
  | zero => cases h
  | succ fuel ih =>
    cases hparts : c.components with
    | nil =>
      rw [canonicalizeLoop_nil hparts] at h
      cases h
      exact hloop
    | cons part parts =>
      rw [canonicalizeLoop_cons hparts] at h
      refine Bool.eq_false_of_not_eq_true fun htrue ↦ ?_
      have hstep : (canonicalizeStep fs part { c with components := parts }).sawLoop = true :=
        checkLink_sawLoop htrue
      exact Bool.false_ne_true ((ih h).symm.trans hstep)

/-- The loop follows the resolution of a path, when no link is met twice. Only where links are met
do they have to fit. -/
theorem loop_of_resolves {location destination : List String}
    {path : List (Component String)} {met : List (List String)}
    (h : Resolves (links fs isAbsolutePath) location path met destination) :
    (met ≠ [] → LinksFit fs) → ∀ {c : Canonicalization}, Reached fs location c →
      c.components.map component = path → (met.map pathString).Nodup →
      (∀ l ∈ met, pathString l ∉ c.sawlinks) → ∃ fuel c', canonicalizeLoop fs fuel c = some c' ∧
        Reached fs destination c' ∧ c'.sawLoop = c.sawLoop := by
  induction h with
  | done =>
    intro _ c hreached hpath _ _
    exact ⟨1, c, canonicalizeLoop_nil (List.map_eq_nil_iff.mp hpath) 0, hreached, rfl⟩
  | here rest ih =>
    intro hfit c hreached hpath hnodup hseen
    obtain ⟨part, parts, hparts, hpart, hrest⟩ := List.map_eq_cons_iff.mp hpath
    have hdrop := hreached.drop hparts
    obtain ⟨fuel, c', hloop, hc'⟩ := ih hfit hdrop hrest hnodup hseen
    refine ⟨fuel + 1, c', ?_, hc'⟩
    rw [canonicalizeLoop_cons hparts, hdrop.step_here hpart]
    exact hloop
  | parent rest ih =>
    intro hfit c hreached hpath hnodup hseen
    obtain ⟨part, parts, hparts, hpart, hrest⟩ := List.map_eq_cons_iff.mp hpath
    obtain ⟨hstep, hnext⟩ := (hreached.drop hparts).step_parent hpart
    obtain ⟨fuel, c', hloop, hc'⟩ := ih hfit hnext hrest hnodup hseen
    refine ⟨fuel + 1, c', ?_, hc'⟩
    rw [canonicalizeLoop_cons hparts, hstep]
    exact hloop
  | name hnone rest ih =>
    intro hfit c hreached hpath hnodup hseen
    obtain ⟨part, parts, hparts, hpart, hrest⟩ := List.map_eq_cons_iff.mp hpath
    obtain ⟨rfl, hname⟩ := hreached.isName hparts hpart
    obtain ⟨hstep, hnext⟩ := (hreached.drop hparts).step_name hname hnone
    obtain ⟨fuel, c', hloop, hc'⟩ := ih hfit hnext hrest hnodup hseen
    refine ⟨fuel + 1, c', ?_, hc'⟩
    rw [canonicalizeLoop_cons hparts, hstep]
    exact hloop
  | link hlink rest ih =>
    intro hfit c hreached hpath hnodup hseen
    obtain ⟨part, parts, hparts, hpart, hrest⟩ := List.map_eq_cons_iff.mp hpath
    obtain ⟨rfl, hname⟩ := hreached.isName hparts hpart
    obtain ⟨hfirst, hnodup⟩ := List.nodup_cons.mp hnodup
    have hfits := hfit (List.cons_ne_nil _ _)
    have hnew := hseen _ List.mem_cons_self
    obtain ⟨hnext, hcomponents, hsawlinks, hsawLoop⟩ :=
      (hreached.drop hparts).step_link hfits hname hlink hnew
    rw [hrest] at hcomponents
    obtain ⟨fuel, c', hloop, hdestination, hc'⟩ :=
      ih (fun _ ↦ hfits) hnext hcomponents hnodup fun l hl ↦ by
      rw [hsawlinks, Finset.mem_insert, not_or]
      refine ⟨fun heq ↦ hfirst ?_, hseen l (List.mem_cons_of_mem _ hl)⟩
      exact heq ▸ List.mem_map_of_mem hl
    exact ⟨fuel + 1, c', (canonicalizeLoop_cons hparts fuel).trans hloop, hdestination,
      hc'.trans hsawLoop⟩

/-- Without a link that comes up again, the loop has followed the resolution of the path. -/
theorem resolves_of_loop (hfit : LinksFit fs) {fuel : ℕ} {c' : Canonicalization}
    (hfalse : c'.sawLoop = false) :
    ∀ {c : Canonicalization} {location : List String}, Reached fs location c →
      canonicalizeLoop fs fuel c = some c' →
      ∃ met destination, Resolves (links fs isAbsolutePath) location (c.components.map component)
        met destination ∧ (met.map pathString).Nodup ∧ (∀ l ∈ met, pathString l ∉ c.sawlinks) ∧
        Reached fs destination c' := by
  induction fuel with
  | zero =>
    intro c location _ hloop
    cases hloop
  | succ fuel ih =>
    intro c location hreached hloop
    cases hparts : c.components with
    | nil =>
      rw [canonicalizeLoop_nil hparts] at hloop
      cases hloop
      exact ⟨[], location, .done, List.nodup_nil, List.forall_mem_nil _, hreached⟩
    | cons part parts =>
      rw [canonicalizeLoop_cons hparts] at hloop
      have hdrop := hreached.drop hparts
      rw [List.map_cons]
      cases hpart : component part with
      | here =>
        rw [hdrop.step_here hpart] at hloop
        obtain ⟨met, destination, hresolves, hmet⟩ := ih hdrop hloop
        exact ⟨met, destination, .here hresolves, hmet⟩
      | parent =>
        obtain ⟨hstep, hnext⟩ := hdrop.step_parent hpart
        rw [hstep] at hloop
        obtain ⟨met, destination, hresolves, hmet⟩ := ih hnext hloop
        exact ⟨met, destination, .parent hresolves, hmet⟩
      | name name =>
        obtain ⟨rfl, hname⟩ := hreached.isName hparts hpart
        have hnew : pathString (location ++ [part]) ∉ c.sawlinks := fun hseen ↦
          Bool.false_ne_true
            ((canonicalizeLoop_sawLoop hloop hfalse).symm.trans (hdrop.step_seen hname hseen))
        cases hlink : links fs isAbsolutePath (location ++ [part]) with
        | none =>
          obtain ⟨hstep, hnext⟩ := hdrop.step_name hname hlink
          rw [hstep] at hloop
          obtain ⟨met, destination, hresolves, hmet⟩ := ih hnext hloop
          exact ⟨met, destination, .name hlink hresolves, hmet⟩
        | some link =>
          obtain ⟨hnext, hcomponents, hsawlinks, -⟩ := hdrop.step_link hfit hname hlink hnew
          obtain ⟨met, destination, hresolves, hnodup, hseen, hdestination⟩ := ih hnext hloop
          rw [hcomponents] at hresolves
          simp only [hsawlinks, Finset.mem_insert, not_or] at hseen
          refine ⟨_, destination, .link hlink hresolves, ?_, ?_, hdestination⟩
          · refine List.nodup_cons.mpr ⟨fun hmem ↦ ?_, hnodup⟩
            obtain ⟨l, hl, heq⟩ := List.mem_map.mp hmem
            exact (hseen l hl).1 heq
          · exact List.forall_mem_cons.mpr ⟨hnew, fun l hl ↦ (hseen l hl).2⟩

/-! ### The whole path -/

theorem head_normalizePathSeparators (path : String) :
    (normalizePathSeparators path).toList.head? =
      path.toList.head?.map fun c ↦ if c = '\\' then '/' else c := by
  unfold normalizePathSeparators
  rw [String.toList_map, List.head?_map]

theorem normalizePathSeparators_eq_self {path : String} (hslash : '\\' ∉ path.toList) :
    normalizePathSeparators path = path := by
  have hsame : ∀ c ∈ path.toList, (if c = '\\' then '/' else c) = c := by
    intro c hc
    exact if_neg fun heq ↦ hslash (by rwa [heq] at hc)
  unfold normalizePathSeparators
  rw [← String.toList_inj, String.toList_map, List.map_congr_left hsame, List.map_id']

theorem head_append {s t : String} {c : Char} (h : s.toList.head? = some c) :
    (s ++ t).toList.head? = some c := by
  rw [String.toList_append, List.head?_append, h]
  rfl

theorem head_absolutePath (fs : FileSystem) (path : String) :
    (absolutePath fs path).toList.head? = some '/' := by
  unfold absolutePath
  dsimp only
  split_ifs with habsolute
  · unfold isAbsolutePath at habsolute
    cases hpath : (normalizePathSeparators path).toList with
    | nil =>
      rw [hpath] at habsolute
      cases habsolute
    | cons c cs =>
      -- No character of a path that has been normalized is a backslash.
      have hhead := head_normalizePathSeparators path
      rw [hpath] at habsolute hhead
      obtain ⟨c', -, hc'⟩ := Option.map_eq_some_iff.mp hhead.symm
      rw [List.head?_cons, ← hc']
      rcases Bool.or_eq_true_iff.mp habsolute with hc | hc
      · exact congrArg some (hc'.trans (of_decide_eq_true hc))
      · rw [of_decide_eq_true hc] at hc'
        split_ifs at hc'
        · cases hc'
        · contradiction
  · refine head_append (head_append ?_)
    unfold getCurrentDirectory
    rw [head_normalizePathSeparators, fs.absolute]
    rfl

/-- After the first component the loop is at the root. -/
theorem exists_start (fs : FileSystem) (path : String) :
    ∃ start, Reached fs [] start ∧ start.sawlinks = ∅ ∧ start.sawLoop = false ∧
      components (absolutePath fs path) = .here :: start.components.map component ∧
      ∀ fuel, canonicalizeLoop fs (fuel + 1) ⟨split '/' (absolutePath fs path), [], ∅, false⟩ =
        canonicalizeLoop fs fuel start := by
  obtain ⟨rest, hsplit⟩ := split_absolute (head_absolutePath fs path)
  refine ⟨⟨rest, [""], ∅, false⟩, ⟨rfl, List.forall_mem_nil _, fun part hpart ↦ ?_, clear_nil,
    fun _ h ↦ absurd h (Finset.notMem_empty _)⟩, rfl, rfl, ?_, fun fuel ↦ ?_⟩
  · have hmem : part ∈ split '/' (absolutePath fs path) := by
      rw [hsplit]
      exact List.mem_cons_of_mem _ hpart
    exact not_mem_of_mem_split hmem
  · unfold components
    rw [hsplit]
    rfl
  · rw [hsplit]
    rfl

/-- The canonical path of a location. -/
theorem Reached.canonical_eq {location : List String} {c : Canonicalization}
    (h : Reached fs location c) :
    (if c.result.length = 1 then "/".intercalate c.result ++ "/" else "/".intercalate c.result) =
      pathString location := by
  rw [h.result]
  cases location with
  | nil => simp [pathString]
  | cons name names => exact (if_neg (by simp)).trans (intercalate_root (List.cons_ne_nil _ _))

/-- With no link that comes up again, the path has been resolved. -/
theorem resolves_of_canonicalizes (hfit : LinksFit fs) {path canonical : String} {fuel : ℕ}
    {sawLoop : Bool} (hrun : canonicalizePath fs fuel path = some (canonical, sawLoop))
    (h : Canonicalizes fs path canonical sawLoop) :
    ∃ met location, Resolves (links fs isAbsolutePath) [] (components (absolutePath fs path)) met
        location ∧ (met.map pathString).Nodup ∧ Denotes fs (absolutePath fs path) location := by
  obtain ⟨start, hreached, -, -, hcomponents, hstart⟩ := exists_start fs path
  unfold canonicalizePath at hrun
  rw [Option.ite_none_left_eq_some, Option.map_eq_some_iff] at hrun
  obtain ⟨-, c, hloop, heq⟩ := hrun
  obtain ⟨rfl, rfl⟩ := Prod.mk.inj heq
  cases fuel with
  | zero => cases hloop
  | succ fuel =>
    rw [hstart] at hloop
    obtain ⟨met, destination, hresolves, hnodup, -, hdestination⟩ :=
      resolves_of_loop hfit h.noLoop hreached hloop
    obtain ⟨location, hdenotes, _, hcanonical⟩ := h.denotes
    rw [hdestination.canonical_eq] at hcanonical
    -- The canonical path leads to the place where the loop ended.
    obtain ⟨_, hself⟩ := denotes_pathString hdestination.names (clear_links hdestination.clear)
    obtain rfl := (hcanonical.unique hself).2
    rw [hcomponents]
    exact ⟨met, location, .here hresolves, hnodup, hdenotes⟩

/-- The path that the loop finds when no link is met twice. -/
theorem canonicalizePath_of_resolves {path : String} (hpath : path ≠ "")
    {met : List (List String)} {location : List String} (hfit : met ≠ [] → LinksFit fs)
    (hresolves : Resolves (links fs isAbsolutePath) [] (components (absolutePath fs path)) met
      location) (hnodup : (met.map pathString).Nodup) :
    (∃ fuel, canonicalizePath fs fuel path = some (pathString location, false)) ∧
      (∀ name ∈ location, IsName name) ∧ Clear (links fs isAbsolutePath) location := by
  obtain ⟨start, hreached, hsawlinks, hsawLoop, hcomponents, hstart⟩ := exists_start fs path
  have hempty : ¬ path.isEmpty := fun h ↦ hpath (String.isEmpty_iff.mp h)
  rw [hcomponents] at hresolves
  cases hresolves with
  | here hresolves =>
    obtain ⟨fuel, c, hloop, hdestination, hc⟩ := loop_of_resolves hresolves hfit hreached rfl
      hnodup fun l _ ↦ by rw [hsawlinks]; exact Finset.notMem_empty _
    refine ⟨⟨fuel + 1, ?_⟩, hdestination.names, hdestination.clear⟩
    unfold canonicalizePath
    rw [if_neg hempty, hstart, hloop]
    exact congrArg some (Prod.ext hdestination.canonical_eq (hc.trans hsawLoop))

theorem canonicalizes_of_resolves (hfit : LinksFit fs) {path : String} (hpath : path ≠ "")
    {met : List (List String)} {location : List String}
    (hresolves : Resolves (links fs isAbsolutePath) [] (components (absolutePath fs path)) met
      location) (hnodup : (met.map pathString).Nodup)
    (hdenotes : Denotes fs (absolutePath fs path) location) :
    ∃ fuel canonical sawLoop, canonicalizePath fs fuel path = some (canonical, sawLoop) ∧
      Canonicalizes fs path canonical sawLoop := by
  obtain ⟨⟨fuel, hrun⟩, hnames, hclear⟩ := canonicalizePath_of_resolves hpath
    (fun _ ↦ hfit) hresolves hnodup
  refine ⟨fuel, pathString location, false, hrun, ⟨location, rfl, hnames, fun l hl hne ↦ ?_⟩,
    ⟨location, hdenotes, denotes_pathString hnames (clear_links hclear)⟩, rfl⟩
  exact hfit.linkTarget_eq_none_iff.mp (links_eq_none_iff.mp (hclear l hl hne))

/-- The bound on the steps does not matter when it is large enough. -/
theorem canonicalizeLoop_unique {fuel fuel' : ℕ} {c d d' : Canonicalization}
    (h : canonicalizeLoop fs fuel c = some d) (h' : canonicalizeLoop fs fuel' c = some d') :
    d = d' := by
  induction fuel generalizing c fuel' with
  | zero => cases h
  | succ fuel ih =>
    cases fuel' with
    | zero => cases h'
    | succ fuel' =>
      cases hparts : c.components with
      | nil =>
        rw [canonicalizeLoop_nil hparts] at h h'
        exact Option.some.inj (h.symm.trans h')
      | cons part parts =>
        rw [canonicalizeLoop_cons hparts] at h h'
        exact ih h h'

theorem canonicalizePath_unique {fuel fuel' : ℕ} {path : String} {d d' : String × Bool}
    (h : canonicalizePath fs fuel path = some d) (h' : canonicalizePath fs fuel' path = some d') :
    d = d' := by
  unfold canonicalizePath at h h'
  rw [Option.ite_none_left_eq_some, Option.map_eq_some_iff] at h h'
  obtain ⟨-, c, hloop, rfl⟩ := h
  obtain ⟨-, c', hloop', rfl⟩ := h'
  rw [canonicalizeLoop_unique hloop hloop']

/-- Where no target starts with a backslash, it is enough that no link is met twice. -/
theorem canonicalizes_of_nodup (hfit : LinksFit fs) {path : String} (hpath : path ≠ "")
    {met : List (List String)} {location : List String}
    (hresolves : Resolves (links fs startsAtRoot) [] (components (absolutePath fs path)) met
      location) (hnodup : (met.map pathString).Nodup)
    (hslash : ∀ l ∈ met, ∀ target, linkTarget fs (pathString l) = some target →
      target.toList.head? ≠ some '\\') :
    ∃ fuel canonical sawLoop, canonicalizePath fs fuel path = some (canonical, sawLoop) ∧
      Canonicalizes fs path canonical sawLoop := by
  have hread : Resolves (links fs isAbsolutePath) [] (components (absolutePath fs path)) met
      location := by
    refine hresolves.congr (fun l hl ↦ links_eq_none_iff.mpr (links_eq_none_iff.mp hl))
      fun l hl ↦ ?_
    refine Option.map_congr fun target htarget ↦ ?_
    have hhead := hslash l hl target htarget
    have habsolute : isAbsolutePath target = startsAtRoot target := by
      unfold isAbsolutePath startsAtRoot
      cases hcs : target.toList with
      | nil => rfl
      | cons c cs =>
        rw [hcs, List.head?_cons, ne_eq, Option.some_inj] at hhead
        simp [hhead]
    rw [habsolute]
  exact canonicalizes_of_resolves hfit hpath hread hnodup ⟨met, hresolves⟩

end Loop

/-- A path is canonicalized exactly when no link is met twice on the way, and reading the targets
that start with a backslash from the root, after their first component, leads to the same place. -/
theorem canonicalizes_iff {fs : FileSystem} (hfit : LinksFit fs) {path : String}
    (hpath : path ≠ "") :
    (∃ fuel canonical sawLoop, canonicalizePath fs fuel path = some (canonical, sawLoop) ∧
      Canonicalizes fs path canonical sawLoop) ↔
    ∃ met location, Resolves (links fs isAbsolutePath) [] (components (absolutePath fs path)) met
        location ∧ (met.map pathString).Nodup ∧ Denotes fs (absolutePath fs path) location := by
  constructor
  · rintro ⟨fuel, canonical, sawLoop, hrun, h⟩
    exact resolves_of_canonicalizes hfit hrun h
  · rintro ⟨met, location, hresolves, hnodup, hdenotes⟩
    exact canonicalizes_of_resolves hfit hpath hresolves hnodup hdenotes

/-! ### A link in a directory -/

/-- `/a/l` is a link to `b`. -/
def oneLink : FileSystem where
  lstat path := if path = "/a/l" then some .symbolicLink else some .other
  readlink path := if path = "/a/l" then some "b" else none
  getcwd := "/"
  absolute := FileSystem.absolute_root

theorem oneLink_fit : LinksFit oneLink := by
  intro path hlink
  have hpath : path = "/a/l" := by
    by_contra hne
    exact absurd hlink (by simp [oneLink, hne])
  exact ⟨"b", by simp [oneLink, hpath], by decide, by decide⟩

theorem absolutePath_eq_self (fs : FileSystem) {path : String} (h : isAbsolutePath path = true)
    (hslash : '\\' ∉ path.toList) : absolutePath fs path = path := by
  unfold absolutePath
  rw [normalizePathSeparators_eq_self hslash]
  exact if_pos h

/-- The end of the path of a location is that of its last name. -/
theorem pathString_ne {location : List String} : pathString (location ++ ["b"]) ≠ "/a/l" := by
  have hend : ∃ s, pathString (location ++ ["b"]) = s ++ "b" := by
    unfold pathString
    by_cases hnil : location = []
    · exact ⟨"/", by rw [hnil]; simp⟩
    · refine ⟨"/" ++ ("/".intercalate location ++ "/"), ?_⟩
      rw [String.intercalate_append_of_ne_nil hnil (List.cons_ne_nil _ _),
        String.intercalate_singleton, String.append_assoc, String.append_assoc, String.append_assoc]
  obtain ⟨s, hs⟩ := hend
  intro heq
  have hlast := congrArg (fun path : String ↦ path.toList.getLast?) (hs.symm.trans heq)
  simp at hlast

theorem links_oneLink_eq_none {location : List String} (h : pathString location ≠ "/a/l") :
    links oneLink startsAtRoot location = none := by
  refine links_eq_none_iff.mpr (oneLink_fit.linkTarget_eq_none_iff.mpr fun hlink ↦ ?_)
  exact absurd hlink (by simp [oneLink, h])

/-- No path loops. -/
theorem oneLink_resolves (path : List (Component String)) (location : List String) :
    ∃ met destination, Resolves (links oneLink startsAtRoot) location path met destination := by
  induction path generalizing location with
  | nil => exact ⟨[], location, .done⟩
  | cons part path ih =>
    cases part with
    | here =>
      obtain ⟨met, destination, h⟩ := ih location
      exact ⟨met, destination, .here h⟩
    | parent =>
      obtain ⟨met, destination, h⟩ := ih location.dropLast
      exact ⟨met, destination, .parent h⟩
    | name name =>
      by_cases hlink : pathString (location ++ [name]) = "/a/l"
      · have htarget : links oneLink startsAtRoot (location ++ [name]) =
            some ⟨false, [.name "b"]⟩ := by
          unfold links
          rw [hlink]
          rfl
        obtain ⟨met, destination, h⟩ := ih (location ++ ["b"])
        exact ⟨_, destination, .link htarget (.name (links_oneLink_eq_none pathString_ne) h)⟩
      · obtain ⟨met, destination, h⟩ := ih (location ++ [name])
        exact ⟨met, destination, .name (links_oneLink_eq_none hlink) h⟩

theorem canonicalizes_oneLink : ∃ fuel canonical sawLoop,
    canonicalizePath oneLink fuel "/a/l/x" = some (canonical, sawLoop) ∧
      Canonicalizes oneLink "/a/l/x" canonical sawLoop := by
  refine (canonicalizes_iff oneLink_fit (by decide)).mpr ⟨[["a", "l"]], ["a", "b", "x"], ?_, ?_, ?_⟩
  · rw [absolutePath_eq_self oneLink (by decide) (by decide)]
    exact .here (.name rfl (.link rfl (.name rfl (.name rfl .done))))
  · decide
  · rw [absolutePath_eq_self oneLink (by decide) (by decide)]
    exact ⟨[["a", "l"]], .here (.name rfl (.link rfl (.name rfl (.name rfl .done))))⟩

/-- A path that goes through the link twice. -/
theorem canonicalizePath_link_twice :
    LinksFit oneLink ∧ (∀ path location, ∃ met destination,
      Resolves (links oneLink startsAtRoot) location path met destination) ∧
    canonicalizePath oneLink 10 "/a/l/../l" = some ("/a/l", true) ∧
    ¬ ∃ fuel canonical sawLoop,
      canonicalizePath oneLink fuel "/a/l/../l" = some (canonical, sawLoop) ∧
        Canonicalizes oneLink "/a/l/../l" canonical sawLoop := by
  have hrun : canonicalizePath oneLink 10 "/a/l/../l" = some ("/a/l", true) := by
    unfold canonicalizePath
    rw [absolutePath_eq_self oneLink (by decide) (by decide)]
    decide
  refine ⟨oneLink_fit, oneLink_resolves, hrun, ?_⟩
  rintro ⟨fuel, canonical, sawLoop, hrun', h⟩
  have hloop := congrArg Prod.snd (canonicalizePath_unique hrun hrun')
  exact absurd (hloop.trans h.noLoop) (by decide)

end Abuild.Util
