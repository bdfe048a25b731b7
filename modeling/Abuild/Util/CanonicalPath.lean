import Abuild.Util.RelativePath

/-!
The paths that `canonicalizePath` returns. Its loop ends when there are only finitely many links,
since each link is followed once (`canonicalizeLoop_ends`). Without links the canonical paths are
those of lists of names (`isCanonical_iff`), and the relative path from one to the other, put after
the one, leads to the other (`canonicalizePath_absToRel`).
-/

set_option autoImplicit false
set_option relaxedAutoImplicit false

namespace Abuild.Util

open PathResolution

/-! ### The end of the loop -/

section Ends

variable {fs : FileSystem} {c c' : Canonicalization}

theorem canonicalizeLoop_mono {fuel : ℕ} (h : canonicalizeLoop fs fuel c = some c') (more : ℕ) :
    canonicalizeLoop fs (fuel + more) c = some c' := by
  induction fuel generalizing c with
  | zero => cases h
  | succ fuel ih =>
    rw [Nat.add_right_comm]
    cases hparts : c.components with
    | nil =>
      rw [canonicalizeLoop_nil hparts] at h ⊢
      exact h
    | cons part parts =>
      rw [canonicalizeLoop_cons hparts] at h ⊢
      exact ih h

theorem canonicalizePath_mono {fuel : ℕ} {path : String} {d : String × Bool}
    (h : canonicalizePath fs fuel path = some d) (more : ℕ) :
    canonicalizePath fs (fuel + more) path = some d := by
  unfold canonicalizePath at h ⊢
  rw [Option.ite_none_left_eq_some, Option.map_eq_some_iff] at h ⊢
  obtain ⟨hempty, c, hloop, hd⟩ := h
  exact ⟨hempty, c, canonicalizeLoop_mono hloop more, hd⟩

theorem readLink_eq_none {path : String} (h : fs.lstat path ≠ some .symbolicLink) :
    readLink fs path = none := if_neg h

/-- A step goes on to the next component, or follows a link that it has not followed before. -/
theorem checkLink_cases (fs : FileSystem) (c : Canonicalization) :
    ((checkLink fs c).components = c.components ∧ (checkLink fs c).sawlinks = c.sawlinks) ∨
      ∃ soFar, fs.lstat soFar = some .symbolicLink ∧ soFar ∉ c.sawlinks ∧
        (checkLink fs c).sawlinks = insert soFar c.sawlinks := by
  unfold checkLink
  dsimp only
  split_ifs with hlength hseen
  · exact Or.inl ⟨rfl, rfl⟩
  · cases hread : readLink fs ("/".intercalate c.result) with
    | none => exact Or.inl ⟨rfl, rfl⟩
    | some newpath =>
      have hlink : fs.lstat ("/".intercalate c.result) = some .symbolicLink := by
        by_contra hne
        exact Option.some_ne_none _ (hread.symm.trans (readLink_eq_none hne))
      refine Or.inr ⟨_, hlink, hseen, ?_⟩
      unfold followLink
      dsimp only
      split_ifs <;> rfl
  · exact Or.inl ⟨rfl, rfl⟩

/-- The loop ends: by induction on the links that have not been followed, of which there are fewer
after each link, and then on the components, of which there are fewer after the other steps. -/
theorem exists_canonicalizeLoop {linkPaths : Finset String}
    (hlinks : ∀ path, fs.lstat path = some .symbolicLink → path ∈ linkPaths) (unseen : ℕ) :
    ∀ (parts : List String) (c : Canonicalization), c.components = parts →
      (linkPaths \ c.sawlinks).card = unseen →
      ∃ fuel c', canonicalizeLoop fs fuel c = some c' := by
  induction unseen using Nat.strong_induction_on with
  | h unseen ihlinks =>
    intro parts
    induction parts with
    | nil => exact fun c hparts _ ↦ ⟨1, c, canonicalizeLoop_nil hparts 0⟩
    | cons part parts ihparts =>
      intro c hparts hunseen
      have hnext : ∃ fuel c', canonicalizeLoop fs fuel
          (canonicalizeStep fs part { c with components := parts }) = some c' := by
        rcases checkLink_cases fs
          { c with components := parts, result := addComponent part c.result } with
          ⟨hcomponents, hsawlinks⟩ | ⟨soFar, hlink, hnew, hsawlinks⟩
        · refine ihparts _ hcomponents ?_
          unfold canonicalizeStep
          rw [hsawlinks]
          exact hunseen
        · refine ihlinks _ ?_ _ _ rfl rfl
          unfold canonicalizeStep
          rw [hsawlinks, ← hunseen]
          refine Finset.card_lt_card (Finset.ssubset_iff_of_subset ?_ |>.mpr ⟨soFar, ?_, ?_⟩)
          · exact Finset.sdiff_subset_sdiff (Finset.Subset.refl _) (Finset.subset_insert _ _)
          · exact Finset.mem_sdiff.mpr ⟨hlinks soFar hlink, hnew⟩
          · exact fun hmem ↦ (Finset.mem_sdiff.mp hmem).2 (Finset.mem_insert_self _ _)
      obtain ⟨fuel, c', hloop⟩ := hnext
      exact ⟨fuel + 1, c', (canonicalizeLoop_cons hparts fuel).trans hloop⟩

end Ends

/-- With finitely many links the loop ends for every path, whatever the links lead to. -/
theorem canonicalizeLoop_ends {fs : FileSystem}
    (hfinite : {path | fs.lstat path = some .symbolicLink}.Finite) (path : String) :
    ∃ fuel c, ∀ more, canonicalizeLoop fs (fuel + more)
      ⟨split '/' (absolutePath fs path), [], ∅, false⟩ = some c := by
  have hlinks : ∀ path, fs.lstat path = some .symbolicLink → path ∈ hfinite.toFinset :=
    fun path hlink ↦ hfinite.mem_toFinset.mpr hlink
  obtain ⟨fuel, c, hloop⟩ := exists_canonicalizeLoop hlinks _ _
    ⟨split '/' (absolutePath fs path), [], ∅, false⟩ rfl rfl
  exact ⟨fuel, c, canonicalizeLoop_mono hloop⟩

/-- `/a` is a link that leads back to itself. -/
def selfLink : FileSystem where
  lstat path := if path = "/a" then some .symbolicLink else some .other
  readlink path := if path = "/a" then some "/b/../a" else none
  getcwd := "/"
  absolute := FileSystem.absolute_root

theorem canonicalizeLoop_ends_selfLink :
    {path | selfLink.lstat path = some .symbolicLink}.Finite ∧
      ∃ fuel c, ∀ more, canonicalizeLoop selfLink (fuel + more)
        ⟨split '/' (absolutePath selfLink "/a/x"), [], ∅, false⟩ = some c := by
  have hfinite : {path | selfLink.lstat path = some .symbolicLink}.Finite := by
    refine (Set.finite_singleton "/a").subset fun path hlink ↦ ?_
    by_contra hne
    exact absurd hlink (by simp [selfLink, show path ≠ "/a" from hne])
  exact ⟨hfinite, canonicalizeLoop_ends hfinite "/a/x"⟩

/-! ### The components of a relative path -/

theorem intercalate_concat {parts : List String} (hne : parts ≠ []) :
    "/".intercalate (parts ++ [""]) = "/".intercalate parts ++ "/" := by
  rw [String.intercalate_append_of_ne_nil hne (List.cons_ne_nil _ _), String.intercalate_singleton,
    String.append_empty]

theorem mem_of_mem_withoutSlash {path : String} {c : Char} (h : c ∈ (withoutSlash path).toList) :
    c ∈ path.toList := by
  unfold withoutSlash at h
  split at h
  · rename_i rest hreverse
    rw [String.toList_ofList, List.mem_reverse] at h
    rw [← List.mem_reverse, hreverse]
    exact List.mem_cons_of_mem _ h
  · exact h

/-- The last component is left out when it is empty. -/
theorem split_withoutSlash_of_concat {path : String} {parts : List String}
    (h : split '/' path = parts ++ [""]) (hne : parts ≠ []) :
    split '/' (withoutSlash path) = parts := by
  have hpath : path = String.ofList (("/".intercalate parts).toList ++ ['/']) := by
    rw [← intercalate_split path, h, intercalate_concat hne, ← String.toList_inj,
      String.toList_ofList, String.toList_append]
    rfl
  rw [hpath, withoutSlash_concat, String.ofList_toList]
  refine split_intercalate (fun part hpart ↦ ?_) hne
  have hmem : part ∈ split '/' path := by
    rw [h]
    exact List.mem_append_left _ hpart
  exact not_mem_of_mem_split hmem

theorem withoutSlash_of_split {path : String} (h : (split '/' path).getLast? ≠ some "") :
    withoutSlash path = path := by
  refine withoutSlash_of_getLast? fun hlast ↦ h ?_
  obtain ⟨front, hfront⟩ := List.getLast?_eq_some_iff.mp hlast
  unfold split
  rw [hfront, splitChars_concat, List.map_append]
  exact List.getLast?_concat

/-- The steps up come first. -/
theorem split_up (litems : List String) (rest : String) :
    split '/' (litems.foldl (fun result _ ↦ result ++ "../") "" ++ rest) =
      List.replicate litems.length ".." ++ split '/' rest := by
  have hfold : ∀ (litems : List String) (result : String),
      litems.foldl (fun result _ ↦ result ++ "../") result ++ rest =
        result ++ (litems.foldl (fun result _ ↦ result ++ "../") "" ++ rest) := by
    intro litems
    induction litems with
    | nil => exact fun result ↦ by rw [List.foldl_nil, List.foldl_nil, String.empty_append]
    | cons l litems ih =>
      intro result
      rw [List.foldl_cons, List.foldl_cons, ih, ih ("" ++ "../"), String.empty_append,
        String.append_assoc]
  induction litems with
  | nil => exact congrArg (split '/') String.empty_append
  | cons l litems ih =>
    rw [List.foldl_cons, hfold, List.length_cons, List.replicate_succ, List.cons_append, ← ih,
      String.empty_append]
    have hup : ∀ more : String, "../" ++ more = ".." ++ ("/" ++ more) := fun more ↦ by
      rw [← String.append_assoc]
      rfl
    rw [hup, split_append]
    rfl

section Relative

variable {pitems litems : List String}

/-- A path that leads up from the components of one directory and down to those of another one. -/
theorem split_relative (h : ∀ name ∈ pitems, IsName name) (hne : pitems ≠ [] ∨ litems ≠ []) :
    split '/' (withoutSlash
        (litems.foldl (fun result _ ↦ result ++ "../") "" ++ "/".intercalate pitems)) =
      List.replicate litems.length ".." ++ pitems := by
  have hsplit := split_up litems ("/".intercalate pitems)
  by_cases hnil : pitems = []
  · subst hnil
    have hlength : List.replicate litems.length ".." ≠ [] := by
      rw [ne_eq, List.replicate_eq_nil_iff, List.length_eq_zero_iff]
      exact hne.resolve_left fun hself ↦ hself rfl
    rw [split_withoutSlash_of_concat hsplit hlength, List.append_nil]
  · rw [split_intercalate (fun name hname ↦ (h name hname).slash) hnil] at hsplit
    rw [withoutSlash_of_split, hsplit]
    rw [hsplit, List.getLast?_append_of_ne_nil _ hnil]
    intro hlast
    exact (h "" (List.mem_of_getLast? hlast)).nonempty rfl

theorem relative_nonempty (h : ∀ name ∈ pitems, IsName name) (hne : pitems ≠ [] ∨ litems ≠ []) :
    ¬ (litems.foldl (fun result _ ↦ result ++ "../") "" ++ "/".intercalate pitems).isEmpty := by
  intro hempty
  have hsplit := split_relative h hne
  rw [String.isEmpty_iff.mp hempty] at hsplit
  have hparts : [""] = List.replicate litems.length ".." ++ pitems := hsplit
  have hmem : "" ∈ List.replicate litems.length ".." ++ pitems := by
    rw [← hparts]
    exact List.mem_cons_self
  rcases List.mem_append.mp hmem with hup | hname
  · exact absurd (List.eq_of_mem_replicate hup) (by decide)
  · exact (h "" hname).nonempty rfl

end Relative

theorem exists_dropCommon (ps ls : List String) :
    ∃ common, ps = common ++ (dropCommon ps ls).1 ∧ ls = common ++ (dropCommon ps ls).2 := by
  fun_induction dropCommon ps ls with
  | case1 ps l ls ih =>
    obtain ⟨common, hps, hls⟩ := ih
    exact ⟨l :: common, congrArg (l :: ·) hps, congrArg (l :: ·) hls⟩
  | case2 p ps l ls hne => exact ⟨[], rfl, rfl⟩
  | case3 ps ls hne => exact ⟨[], rfl, rfl⟩

section Directories

variable {names topnames : List String} (h : ∀ name ∈ names, IsName name)
  (htop : ∀ name ∈ topnames, IsName name)

include h htop

/-- The components of the relative path from one directory to another one. From the root there is
a step up, which leads nowhere. -/
theorem split_absToRel : split '/' (absToRel (pathString names) (pathString topnames)) =
    if names = topnames then ["."]
    else if topnames = [] then ".." :: names
    else List.replicate (dropCommon names topnames).2.length ".." ++
      (dropCommon names topnames).1 := by
  have hsplit := split_pathString h
  have hsplitTop := split_pathString htop
  split_ifs with heq htopnames
  · subst heq
    have hcommon : ∀ parts : List String, dropCommon parts parts = ([], []) := by
      intro parts
      induction parts with
      | nil => rfl
      | cons part parts ih => rw [dropCommon_cons_self, ih]
    rw [absToRel_eq (hcommon _)]
    rfl
  · -- The second empty component of the root is no name.
    have hcommon : dropCommon (split '/' (pathString names)) (split '/' (pathString topnames)) =
        (names, [""]) := by
      obtain ⟨name, rest, rfl⟩ := List.exists_cons_of_ne_nil fun hnil ↦
        heq (hnil.trans htopnames.symm)
      rw [hsplit, if_neg (List.cons_ne_nil _ _), hsplitTop, if_pos htopnames, dropCommon_cons_self,
        dropCommon, if_neg (h name List.mem_cons_self).nonempty]
    have hne : names ≠ [] := fun hnil ↦ heq (hnil.trans htopnames.symm)
    rw [absToRel_eq hcommon]
    dsimp only
    rw [if_neg (relative_nonempty h (Or.inl hne)), split_relative h (Or.inl hne)]
    rfl
  · obtain ⟨common, hps, hls⟩ := exists_dropCommon names topnames
    have hitems : ∀ name ∈ (dropCommon names topnames).1, IsName name := fun name hname ↦
      h name ((dropCommon_fst_suffix names topnames).subset hname)
    have hne : (dropCommon names topnames).1 ≠ [] ∨ (dropCommon names topnames).2 ≠ [] := by
      refine not_and_or.mp fun hboth ↦ heq ?_
      obtain ⟨hfst, hsnd⟩ := hboth
      rw [hfst] at hps
      rw [hsnd] at hls
      exact hps.trans hls.symm
    by_cases hnames : names = []
    · obtain ⟨name, rest, rfl⟩ := List.exists_cons_of_ne_nil htopnames
      have hcommon : dropCommon (split '/' (pathString names))
          (split '/' (pathString (name :: rest))) = ([""], name :: rest) := by
        rw [hsplit, if_pos hnames, hsplitTop, if_neg htopnames, dropCommon_cons_self, dropCommon,
          if_neg (Ne.symm (htop name List.mem_cons_self).nonempty)]
      have hdrop : dropCommon names (name :: rest) = ([], name :: rest) := by
        rw [hnames]
        rfl
      have hempty : "/".intercalate [""] = "/".intercalate [] := rfl
      rw [hdrop] at hitems hne ⊢
      rw [absToRel_eq hcommon, hempty]
      dsimp only
      rw [if_neg (relative_nonempty hitems hne), split_relative hitems hne]
    · have hcommon : dropCommon (split '/' (pathString names)) (split '/' (pathString topnames)) =
          ((dropCommon names topnames).1, (dropCommon names topnames).2) := by
        rw [hsplit, if_neg hnames, hsplitTop, if_neg htopnames, dropCommon_cons_self]
      rw [absToRel_eq hcommon]
      dsimp only
      rw [if_neg (relative_nonempty hitems hne), split_relative hitems hne]

/-- No component of the relative path is empty. -/
theorem not_mem_split_absToRel :
    "" ∉ split '/' (absToRel (pathString names) (pathString topnames)) := by
  have hnames : "" ∉ names := fun hempty ↦ (h "" hempty).nonempty rfl
  rw [split_absToRel h htop]
  split_ifs
  · decide
  · exact List.not_mem_cons_of_ne_of_not_mem (by decide) hnames
  · refine List.not_mem_append (fun hup ↦ ?_) fun hname ↦ ?_
    · exact absurd (List.eq_of_mem_replicate hup) (by decide)
    · exact hnames ((dropCommon_fst_suffix names topnames).subset hname)

/-- The relative path leads from the one directory to the other one, when there is no link on the
way to it. -/
theorem resolves_absToRel {links : List String → Option (Link String)}
    (hclear : Clear links names) :
    Resolves links topnames (components (absToRel (pathString names) (pathString topnames))) []
      names := by
  have hmap : ∀ parts : List String, (∀ name ∈ parts, IsName name) →
      parts.map component = parts.map .name :=
    fun parts hparts ↦ List.map_congr_left fun name hname ↦ (hparts name hname).component_eq
  unfold components
  rw [split_absToRel h htop]
  split_ifs with heq htopnames
  · rw [heq]
    exact .here .done
  · rw [List.map_cons, hmap names h, htopnames]
    exact .parent (resolves_of_clear hclear)
  · obtain ⟨common, hps, hls⟩ := exists_dropCommon names topnames
    rw [List.map_append, List.map_replicate, hmap _ fun name hname ↦
      h name ((dropCommon_fst_suffix names topnames).subset hname)]
    rw [hps] at hclear
    have hdown : Resolves links (common ++ (dropCommon names topnames).2)
        (List.replicate (dropCommon names topnames).2.length .parent ++
          (dropCommon names topnames).1.map .name) [] (common ++ (dropCommon names topnames).1) :=
      resolves_parents (resolves_of_clear hclear)
    rw [← hps, ← hls] at hdown
    exact hdown

end Directories

/-! ### Relative paths from the current directory -/

/-- A canonical path that meets no link. -/
def IsDirectPath (fs : FileSystem) (path : String) : Prop :=
  ∃ names, path = pathString names ∧ (∀ name ∈ names, IsName name) ∧
    ∀ l, l <+: names → l ≠ [] → fs.lstat (pathString l) ≠ some .symbolicLink

theorem clear_of_lstat {fs : FileSystem} {names : List String} (absolute : String → Bool)
    (h : ∀ l, l <+: names → l ≠ [] → fs.lstat (pathString l) ≠ some .symbolicLink) :
    Clear (links fs absolute) names :=
  fun l hl hne ↦ links_eq_none_iff.mpr (if_neg (h l hl hne))

theorem absolutePath_cases (fs : FileSystem) (path : String) :
    absolutePath fs path = normalizePathSeparators path ∨
      absolutePath fs path = getCurrentDirectory fs ++ "/" ++ normalizePathSeparators path := by
  unfold absolutePath
  dsimp only
  split_ifs
  · exact Or.inl rfl
  · exact Or.inr rfl

theorem absolutePath_relative (fs : FileSystem) {path : String} (hempty : "" ∉ split '/' path)
    (hslash : '\\' ∉ path.toList) :
    absolutePath fs path = getCurrentDirectory fs ++ "/" ++ path := by
  have hrelative : ¬ isAbsolutePath path = true := by
    unfold isAbsolutePath
    cases hpath : path.toList with
    | nil => exact Bool.false_ne_true
    | cons c cs =>
      intro hc
      rcases Bool.or_eq_true_iff.mp hc with hc | hc
      · have hhead : path.toList.head? = some '/' := by
          rw [hpath, of_decide_eq_true hc]
          rfl
        obtain ⟨rest, hrest⟩ := split_absolute hhead
        exact hempty (by rw [hrest]; exact List.mem_cons_self)
      · exact hslash (by rw [hpath, of_decide_eq_true hc]; exact List.mem_cons_self)
  unfold absolutePath
  rw [normalizePathSeparators_eq_self hslash]
  exact if_neg hrelative

/-- The relative path of a directory from the current one is canonicalized to the directory. -/
theorem canonicalizePath_relative {fs : FileSystem} {path : String} (hpath : IsDirectPath fs path)
    (hcwd : IsDirectPath fs (getCurrentDirectory fs))
    (hslash : '\\' ∉ (absToRel path (getCurrentDirectory fs)).toList) :
    ∃ fuel, canonicalizePath fs fuel (absToRel path (getCurrentDirectory fs)) =
      some (path, false) := by
  obtain ⟨names, rfl, hnames, hclear⟩ := hpath
  obtain ⟨topnames, htop, htopnames, hclearTop⟩ := hcwd
  have hempty := not_mem_split_absToRel hnames htopnames
  rw [← htop] at hempty
  have hne : absToRel (pathString names) (getCurrentDirectory fs) ≠ "" := fun hnil ↦
    hempty (by rw [hnil]; exact List.mem_cons_self)
  have hto := resolves_pathString htopnames (clear_of_lstat isAbsolutePath hclearTop)
  have hfrom := resolves_absToRel hnames htopnames (clear_of_lstat isAbsolutePath hclear)
  have hwhole : Resolves (links fs isAbsolutePath) []
      (components (absolutePath fs (absToRel (pathString names) (getCurrentDirectory fs)))) []
      names := by
    rw [absolutePath_relative fs hempty hslash, htop]
    unfold components
    rw [String.append_assoc, split_append, List.map_append]
    exact hto.append hfrom
  exact (canonicalizePath_of_resolves hne (fun hmet ↦ absurd rfl hmet) hwhole List.nodup_nil).1

/-! ### Canonical paths without links -/

/-- A path that `canonicalizePath` returns. -/
def IsCanonical (fs : FileSystem) (path : String) : Prop :=
  ∃ fuel input sawLoop, canonicalizePath fs fuel input = some (path, sawLoop)

/-- The components that are names stand for themselves. -/
theorem eq_of_map_component {names parts : List String}
    (h : names.map .name = parts.map component) : parts = names := by
  induction names generalizing parts with
  | nil => exact List.map_eq_nil_iff.mp h.symm
  | cons name names ih =>
    obtain ⟨part, rest, rfl, hpart, hrest⟩ := List.map_eq_cons_iff.mp h.symm
    rw [(component_eq_name hpart).1, ih hrest.symm]

section NoLinks

variable {fs : FileSystem}

theorem not_mem_normalizePathSeparators (path : String) :
    '\\' ∉ (normalizePathSeparators path).toList := by
  unfold normalizePathSeparators
  rw [String.toList_map]
  intro hmem
  obtain ⟨c, -, hc⟩ := List.mem_map.mp hmem
  by_cases hslash : c = '\\'
  · rw [if_pos hslash] at hc
    exact absurd hc (by decide)
  · rw [if_neg hslash] at hc
    exact hslash hc

theorem not_mem_absolutePath (fs : FileSystem) (path : String) :
    '\\' ∉ (absolutePath fs path).toList := by
  unfold absolutePath
  dsimp only
  split_ifs
  · exact not_mem_normalizePathSeparators path
  · rw [String.toList_append, String.toList_append]
    intro hmem
    rcases List.mem_append.mp hmem with hmem | hmem
    · rcases List.mem_append.mp hmem with hmem | hmem
      · exact not_mem_normalizePathSeparators _ hmem
      · exact absurd hmem (by decide)
    · exact not_mem_normalizePathSeparators path hmem

theorem mem_intercalate {parts : List String} {c : Char} (hc : c ∈ ("/".intercalate parts).toList) :
    c = '/' ∨ ∃ part ∈ parts, c ∈ part.toList :=
  mem_join rfl hc

theorem head_pathString (names : List String) : (pathString names).toList.head? = some '/' := by
  unfold pathString
  exact head_append rfl

theorem not_mem_pathString {names : List String} (h : ∀ name ∈ names, '\\' ∉ name.toList) :
    '\\' ∉ (pathString names).toList := by
  unfold pathString
  rw [String.toList_append]
  intro hslash
  rcases List.mem_append.mp hslash with hslash | hslash
  · exact absurd hslash (by decide)
  · rcases mem_intercalate hslash with hslash | ⟨name, hname, hslash⟩
    · exact absurd hslash (by decide)
    · exact h name hname hslash

/-- Apart from dots and slashes there are only characters of the path in a relative path. -/
theorem not_mem_absToRel {path container : String} (h : '\\' ∉ path.toList) :
    '\\' ∉ (absToRel path container).toList := by
  have hup : ∀ (litems : List String) (result : String), '\\' ∉ result.toList →
      '\\' ∉ (litems.foldl (fun result _ ↦ result ++ "../") result).toList := by
    intro litems
    induction litems with
    | nil => exact fun result hresult ↦ hresult
    | cons l litems ih =>
      refine fun result hresult ↦ ih _ ?_
      rw [String.toList_append]
      exact List.not_mem_append hresult (by decide)
  cases hcommon : dropCommon (split '/' path) (split '/' container) with
  | mk pitems litems =>
    have hpitems : ∀ part ∈ pitems, '\\' ∉ part.toList := fun part hpart hslash ↦ by
      have hsuffix := dropCommon_fst_suffix (split '/' path) (split '/' container)
      rw [hcommon] at hsuffix
      exact h (mem_of_mem_split (hsuffix.subset hpart) hslash)
    have hresult : '\\' ∉ (litems.foldl (fun result _ ↦ result ++ "../") "" ++
        "/".intercalate pitems).toList := by
      rw [String.toList_append]
      refine List.not_mem_append (hup litems "" List.not_mem_nil) fun hslash ↦ ?_
      rcases mem_intercalate hslash with hslash | ⟨part, hpart, hslash⟩
      · exact absurd hslash (by decide)
      · exact hpitems part hpart hslash
    rw [absToRel_eq hcommon]
    dsimp only
    split_ifs
    · decide
    · exact fun hslash ↦ hresult (mem_of_mem_withoutSlash hslash)

variable (hlinks : ∀ path, fs.lstat path ≠ some .symbolicLink)

include hlinks

theorem linksFit_of_noLinks : LinksFit fs := fun path hlink ↦ absurd hlink (hlinks path)

theorem links_eq_none (absolute : String → Bool) (location : List String) :
    links fs absolute location = none :=
  links_eq_none_iff.mpr ((linksFit_of_noLinks hlinks).linkTarget_eq_none_iff.mpr (hlinks _))

theorem canonicalizeLoop_noLinks {fuel : ℕ} {c c' : Canonicalization} (hsaw : c.sawlinks = ∅)
    (h : canonicalizeLoop fs fuel c = some c') : c'.sawLoop = c.sawLoop := by
  induction fuel generalizing c with
  | zero => cases h
  | succ fuel ih =>
    cases hparts : c.components with
    | nil =>
      rw [canonicalizeLoop_nil hparts] at h
      cases h
      rfl
    | cons part parts =>
      have hstep : canonicalizeStep fs part { c with components := parts } =
          { c with components := parts, result := addComponent part c.result } := by
        unfold canonicalizeStep checkLink
        dsimp only
        rw [hsaw, if_neg (Finset.notMem_empty _), readLink_eq_none (hlinks _), ite_self]
      rw [canonicalizeLoop_cons hparts, hstep] at h
      have hsaw' : ({ c with
          components := parts
          result := addComponent part c.result } : Canonicalization).sawlinks = ∅ := hsaw
      have hrest := ih hsaw' h
      exact hrest

/-- Without links a path leads to the path of a location. -/
theorem canonicalizePath_of_noLinks {path : String} (hhead : path.toList.head? = some '/')
    (hslash : '\\' ∉ path.toList) {met : List (List String)} {location : List String}
    (h : Resolves (links fs startsAtRoot) [] (components path) met location) :
    ∃ fuel, canonicalizePath fs fuel path = some (pathString location, false) := by
  have habsolute : absolutePath fs path = path := by
    refine absolutePath_eq_self fs ?_ hslash
    obtain ⟨cs, hcs⟩ := List.head?_eq_some_iff.mp hhead
    unfold isAbsolutePath
    rw [hcs]
    rfl
  have hempty : path ≠ "" := fun hnil ↦ by
    rw [hnil] at hhead
    cases hhead
  have hlinksEq : links fs isAbsolutePath = links fs startsAtRoot :=
    funext fun l ↦ (links_eq_none hlinks _ l).trans (links_eq_none hlinks _ l).symm
  have hmet := h.met_eq_nil (links_eq_none hlinks _)
  rw [← hlinksEq, ← habsolute, hmet] at h
  exact (canonicalizePath_of_resolves hempty (fun _ ↦ linksFit_of_noLinks hlinks) h
    List.nodup_nil).1

/-- Without links a path leads up from the current directory, and down by some of its own
components. -/
theorem exists_kept_of_canonicalizePath {topnames : List String}
    (hcwd : getCurrentDirectory fs = pathString topnames) (htop : ∀ name ∈ topnames, IsName name)
    {fuel : ℕ} {input path : String} {sawLoop : Bool}
    (h : canonicalizePath fs fuel input = some (path, sawLoop)) : ∃ kept appended,
      kept <+: topnames ∧ List.Sublist appended (split '/' (normalizePathSeparators input)) ∧
      path = pathString (kept ++ appended) ∧ ∀ name ∈ kept ++ appended, IsName name := by
  have hnone := links_eq_none hlinks isAbsolutePath
  have hne : input ≠ "" := by
    rintro rfl
    cases h
  have hlocation : ∃ location destination, location <+: topnames ∧
      Resolves (links fs isAbsolutePath) location (components (normalizePathSeparators input)) []
        destination ∧
      Resolves (links fs isAbsolutePath) [] (components (absolutePath fs input)) []
        destination := by
    rcases absolutePath_cases fs input with habsolute | habsolute
    · obtain ⟨destination, hto⟩ :=
        exists_resolves hnone [] (components (normalizePathSeparators input))
      exact ⟨[], destination, List.nil_prefix, hto, by rw [habsolute]; exact hto⟩
    · obtain ⟨destination, hto⟩ :=
        exists_resolves hnone topnames (components (normalizePathSeparators input))
      refine ⟨topnames, destination, List.prefix_refl _, hto, ?_⟩
      have hfrom := resolves_pathString htop fun l _ _ ↦ hnone l
      unfold components
      rw [habsolute, hcwd, String.append_assoc, split_append, List.map_append]
      exact hfrom.append hto
  obtain ⟨location, destination, hlocation, hto, hwhole⟩ := hlocation
  obtain ⟨⟨fuel', hrun⟩, hnames, -⟩ := canonicalizePath_of_resolves hne
    (fun hmet ↦ absurd rfl hmet) hwhole List.nodup_nil
  obtain ⟨kept, appended, hkept, rfl, hsublist⟩ := hto.exists_kept hnone
  obtain ⟨parts, hparts, hmap⟩ := List.sublist_map_iff.mp hsublist
  obtain rfl := eq_of_map_component hmap
  refine ⟨kept, parts, hkept.trans hlocation, hparts, ?_, hnames⟩
  exact congrArg Prod.fst (canonicalizePath_unique h hrun)

/-- A canonical path consists of names, without backslashes. -/
theorem isCanonical_iff {path : String} : IsCanonical fs path ↔
    ∃ names, path = pathString names ∧ ∀ name ∈ names, IsName name ∧ '\\' ∉ name.toList := by
  have hfit := linksFit_of_noLinks hlinks
  constructor
  · rintro ⟨fuel, input, sawLoop, hrun⟩
    obtain ⟨start, hreached, hsawlinks, hsawLoop, hcomponents, hstart⟩ := exists_start fs input
    unfold canonicalizePath at hrun
    rw [Option.ite_none_left_eq_some, Option.map_eq_some_iff] at hrun
    obtain ⟨-, c, hloop, heq⟩ := hrun
    cases fuel with
    | zero => cases hloop
    | succ fuel =>
      rw [hstart] at hloop
      have hfalse := (canonicalizeLoop_noLinks hlinks hsawlinks hloop).trans hsawLoop
      obtain ⟨met, destination, hresolves, -, -, hdestination⟩ :=
        resolves_of_loop hfit hfalse hreached hloop
      refine ⟨destination, ?_, fun name hname ↦ ⟨hdestination.names name hname, fun hslash ↦ ?_⟩⟩
      · rw [← hdestination.canonical_eq]
        exact (congrArg Prod.fst heq).symm
      · have hmem : .name name ∈ components (absolutePath fs input) := by
          rw [hcomponents]
          refine List.mem_cons_of_mem _ ?_
          exact (hresolves.mem_of_noLinks (links_eq_none hlinks _) hname).resolve_left
            List.not_mem_nil
        obtain ⟨part, hpart, heq⟩ := List.mem_map.mp hmem
        obtain ⟨rfl, -⟩ := component_eq_name heq
        exact not_mem_absolutePath fs input (mem_of_mem_split hpart hslash)
  · rintro ⟨names, rfl, hnames⟩
    obtain ⟨met, hresolves⟩ := denotes_pathString (fun name hname ↦ (hnames name hname).1)
      fun l _ _ ↦ links_eq_none hlinks startsAtRoot l
    obtain ⟨fuel, hrun⟩ := canonicalizePath_of_noLinks hlinks (head_pathString names)
      (not_mem_pathString fun name hname ↦ (hnames name hname).2) hresolves
    exact ⟨fuel, _, false, hrun⟩

/-- The relative path from one canonical path to another one, put after the one, is a path of the
other one. -/
theorem canonicalizePath_absToRel {path container : String} (hpath : IsCanonical fs path)
    (hcontainer : IsCanonical fs container) : ∃ fuel, ∀ more,
      canonicalizePath fs (fuel + more) (container ++ "/" ++ absToRel path container) =
        some (path, false) := by
  obtain ⟨names, rfl, hnames⟩ := (isCanonical_iff hlinks).mp hpath
  obtain ⟨topnames, rfl, htopnames⟩ := (isCanonical_iff hlinks).mp hcontainer
  have hnone := links_eq_none hlinks startsAtRoot
  obtain ⟨met, hto⟩ := denotes_pathString (fun name hname ↦ (htopnames name hname).1)
    fun l _ _ ↦ hnone l
  have hfrom := resolves_absToRel (fun name hname ↦ (hnames name hname).1)
    (fun name hname ↦ (htopnames name hname).1) fun l _ _ ↦ hnone l
  have hwhole : Resolves (links fs startsAtRoot) [] (components
      (pathString topnames ++ "/" ++ absToRel (pathString names) (pathString topnames)))
      (met ++ []) names := by
    unfold components
    rw [String.append_assoc, split_append, List.map_append]
    exact hto.append hfrom
  have htop : '\\' ∉ (pathString topnames).toList :=
    not_mem_pathString fun name hname ↦ (htopnames name hname).2
  have hrel : '\\' ∉ (absToRel (pathString names) (pathString topnames)).toList :=
    not_mem_absToRel (not_mem_pathString fun name hname ↦ (hnames name hname).2)
  have hslash : '\\' ∉ (pathString topnames ++ "/" ++
      absToRel (pathString names) (pathString topnames)).toList := by
    rw [String.toList_append, String.toList_append]
    exact List.not_mem_append (List.not_mem_append htop (by decide)) hrel
  obtain ⟨fuel, hrun⟩ := canonicalizePath_of_noLinks hlinks
    (head_append (head_append (head_pathString topnames))) hslash hwhole
  exact ⟨fuel, canonicalizePath_mono hrun⟩

end NoLinks

/-- A file system without links. -/
def noLink : FileSystem where
  lstat path := if path = "/home" ∨ path = "/usr" then some .other else none
  readlink _ := none
  getcwd := "/"
  absolute := FileSystem.absolute_root

theorem noLink_noLinks (path : String) : noLink.lstat path ≠ some .symbolicLink := by
  unfold noLink
  dsimp only
  split_ifs <;> decide

theorem canonicalizePath_absToRel_noLink : ∃ fuel, ∀ more,
    canonicalizePath noLink (fuel + more) ("/" ++ "/" ++ absToRel "/usr" "/") =
      some ("/usr", false) := by
  have husr : IsCanonical noLink "/usr" := ⟨10, "/usr/.", false, by decide +kernel⟩
  have hroot : IsCanonical noLink "/" := ⟨10, "//", false, by decide +kernel⟩
  exact canonicalizePath_absToRel noLink_noLinks husr hroot

end Abuild.Util
