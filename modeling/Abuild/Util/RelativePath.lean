import Abuild.Util.Canonicalize

/-!
Relative paths between canonical directories. `isDirUnder` asks for the relative path of a directory
whether it starts with `..`. The root directory is split into two empty components, the second of
which no other directory has in common with it, so that a directory is not found to be under the
root (`isDirUnder_iff`).
-/

set_option autoImplicit false
set_option relaxedAutoImplicit false

namespace Abuild.Util

/-! ### Common beginnings -/

theorem dropCommon_snd_eq_nil_iff (ps ls : List String) :
    (dropCommon ps ls).2 = [] ↔ ls <+: ps := by
  fun_induction dropCommon ps ls with
  | case1 ps l ls ih =>
    rw [ih, List.cons_prefix_cons]
    exact (and_iff_right rfl).symm
  | case2 p ps l ls hne =>
    rw [List.cons_prefix_cons]
    exact iff_of_false (List.cons_ne_nil _ _) fun hprefixes ↦ hne hprefixes.1.symm
  | case3 ps ls hne =>
    cases ls with
    | nil => exact iff_of_true rfl List.nil_prefix
    | cons l ls =>
      cases ps with
      | nil => exact iff_of_false (List.cons_ne_nil _ _) (by simp)
      | cons p ps => exact absurd rfl (hne p ps l ls rfl)

theorem dropCommon_fst_suffix (ps ls : List String) : (dropCommon ps ls).1 <:+ ps := by
  fun_induction dropCommon ps ls with
  | case1 ps l ls ih => exact ih.trans (List.suffix_cons _ _)
  | case2 p ps l ls hne => exact List.suffix_refl _
  | case3 ps ls hne => exact List.suffix_refl _

theorem dropCommon_cons_self (c : String) (ps ls : List String) :
    dropCommon (c :: ps) (c :: ls) = dropCommon ps ls := by
  rw [dropCommon, if_pos rfl]

/-! ### The relative path -/

/-- A relative path that leads up. -/
def leadsUp (rel : String) : Bool := rel = ".." || "../".toList.isPrefixOf rel.toList

theorem isDirUnder_eq (dir topdir : String) :
    isDirUnder dir topdir = !leadsUp (absToRel dir topdir) :=
  rfl

/-- The path without a slash at its end. -/
def withoutSlash (path : String) : String :=
  match path.toList.reverse with
  | '/' :: rest => String.ofList rest.reverse
  | _ => path

theorem absToRel_eq {path container : String} {pitems litems : List String}
    (h : dropCommon (split '/' path) (split '/' container) = (pitems, litems)) :
    absToRel path container =
      let result := litems.foldl (fun result _ ↦ result ++ "../") "" ++ "/".intercalate pitems
      if result.isEmpty then "." else withoutSlash result := by
  unfold absToRel
  rw [h]
  rfl

theorem withoutSlash_concat (front : List Char) :
    withoutSlash (String.ofList (front ++ ['/'])) = String.ofList front := by
  unfold withoutSlash
  rw [String.toList_ofList, List.reverse_append, List.reverse_singleton, List.singleton_append]
  show String.ofList front.reverse.reverse = _
  rw [List.reverse_reverse]

theorem withoutSlash_of_getLast? {path : String} (h : path.toList.getLast? ≠ some '/') :
    withoutSlash path = path := by
  unfold withoutSlash
  split
  · rename_i rest hreverse
    rw [List.getLast?_eq_head?_reverse, hreverse] at h
    exact absurd rfl h
  · rfl

/-- A path that begins with `../` still leads up without the slash at its end. -/
theorem leadsUp_withoutSlash (rest : List Char) :
    leadsUp (withoutSlash (String.ofList ('.' :: '.' :: '/' :: rest))) = true := by
  rcases List.eq_nil_or_concat rest with rfl | ⟨front, last, rfl⟩
  · rfl
  · have happend : '.' :: '.' :: '/' :: front.concat last =
        ('.' :: '.' :: '/' :: front) ++ [last] := by
      rw [List.concat_eq_append]
      rfl
    rw [happend]
    by_cases hlast : last = '/'
    · rw [hlast, withoutSlash_concat]
      simp [leadsUp]
    · rw [withoutSlash_of_getLast?]
      · simp [leadsUp]
      · rw [String.toList_ofList, List.getLast?_concat]
        exact fun heq ↦ hlast (Option.some_inj.mp heq)

theorem exists_foldl_up (litems : List String) (result : String) :
    ∃ rest, litems.foldl (fun result _ ↦ result ++ "../") result = result ++ rest := by
  induction litems generalizing result with
  | nil => exact ⟨"", String.append_empty.symm⟩
  | cons l litems ih =>
    obtain ⟨rest, hrest⟩ := ih (result ++ "../")
    exact ⟨"../" ++ rest, hrest.trans String.append_assoc⟩

/-- The path from a directory that has components left leads up. -/
theorem isDirUnder_of_rest {dir topdir l : String} {pitems litems : List String}
    (h : dropCommon (split '/' dir) (split '/' topdir) = (pitems, l :: litems)) :
    isDirUnder dir topdir = false := by
  obtain ⟨rest, hrest⟩ := exists_foldl_up litems ("" ++ "../")
  have hresult : (l :: litems).foldl (fun result _ ↦ result ++ "../") "" ++
      "/".intercalate pitems =
        String.ofList ('.' :: '.' :: '/' :: (rest ++ "/".intercalate pitems).toList) := by
    rw [List.foldl_cons, hrest, String.append_assoc]
    refine String.toList_inj.mp ?_
    simp
  rw [isDirUnder_eq, absToRel_eq h, hresult]
  dsimp only
  rw [if_neg (by simp), leadsUp_withoutSlash]
  rfl

/-- The names of a path do not lead up. -/
theorem leadsUp_intercalate {names : List String} (h : ∀ name ∈ names, IsName name)
    (hne : names ≠ []) : leadsUp ("/".intercalate names) = false := by
  obtain ⟨name, rest, rfl⟩ := List.exists_cons_of_ne_nil hne
  have hsplit := split_intercalate (fun name hname ↦ (h name hname).slash) hne
  refine Bool.eq_false_iff.mpr fun hup ↦ (h name List.mem_cons_self).dotdot ?_
  have hfirst : ∃ more, split '/' ("/".intercalate (name :: rest)) = ".." :: more := by
    rcases Bool.or_eq_true_iff.mp hup with heq | hprefixes
    · rw [of_decide_eq_true heq]
      exact ⟨[], rfl⟩
    · obtain ⟨cs, hcs⟩ := List.isPrefixOf_iff_prefix.mp hprefixes
      have hup : "../".toList ++ cs = '.' :: '.' :: '/' :: cs := rfl
      unfold split
      rw [← hcs, hup, splitChars_cons, if_neg (by decide), splitChars_cons, if_neg (by decide),
        splitChars_cons, if_pos rfl]
      exact ⟨_, rfl⟩
  obtain ⟨more, hmore⟩ := hfirst
  exact (List.cons_eq_cons.mp (hsplit.symm.trans hmore)).1

theorem splitChars_concat (sep : Char) (cs : List Char) :
    splitChars sep (cs ++ [sep]) = splitChars sep cs ++ [[]] := by
  induction cs with
  | nil =>
    rw [List.nil_append, splitChars_cons, if_pos rfl]
    rfl
  | cons c cs ih =>
    rw [List.cons_append, splitChars_cons, splitChars_cons, ih]
    split_ifs
    · rfl
    · obtain ⟨part, parts, hparts⟩ := List.exists_cons_of_ne_nil (splitChars_ne_nil sep cs)
      rw [hparts]
      rfl

/-- There is no slash at the end of a path of names. -/
theorem getLast?_intercalate {names : List String} (h : ∀ name ∈ names, IsName name)
    (hne : names ≠ []) : ("/".intercalate names).toList.getLast? ≠ some '/' := by
  intro hlast
  obtain ⟨front, hfront⟩ := List.getLast?_eq_some_iff.mp hlast
  have hempty : "" ∈ split '/' ("/".intercalate names) := by
    unfold split
    rw [hfront, splitChars_concat]
    exact List.mem_map.mpr ⟨[], List.mem_append_right _ List.mem_cons_self, rfl⟩
  rw [split_intercalate (fun name hname ↦ (h name hname).slash) hne] at hempty
  exact (h "" hempty).nonempty rfl

/-- The path from a directory that has no components left consists of the names that follow. -/
theorem isDirUnder_of_names {dir topdir : String} {pitems : List String}
    (h : dropCommon (split '/' dir) (split '/' topdir) = (pitems, []))
    (hnames : ∀ name ∈ pitems, IsName name) : isDirUnder dir topdir = true := by
  rw [isDirUnder_eq, absToRel_eq h, List.foldl_nil, String.empty_append]
  dsimp only
  split_ifs with hempty
  · rfl
  · have hne : pitems ≠ [] := by
      rintro rfl
      exact hempty rfl
    rw [withoutSlash_of_getLast? (getLast?_intercalate hnames hne), leadsUp_intercalate hnames hne]
    rfl

/-! ### Directories -/

theorem split_pathString {names : List String} (h : ∀ name ∈ names, IsName name) :
    split '/' (pathString names) = "" :: if names = [] then [""] else names := by
  split_ifs with hnil
  · subst hnil
    have hslash : ∀ part ∈ ["", ""], '/' ∉ part.toList := by simp
    exact split_intercalate hslash (List.cons_ne_nil _ _)
  · rw [← intercalate_root hnil]
    refine split_intercalate ?_ (List.cons_ne_nil _ _)
    exact List.forall_mem_cons.mpr ⟨List.not_mem_nil, fun name hname ↦ (h name hname).slash⟩

section Directories

variable {names topnames : List String} (h : ∀ name ∈ names, IsName name)

include h

/-- Only the root is found to be under the root. -/
theorem isDirUnder_root_iff :
    isDirUnder (pathString names) (pathString []) = true ↔ names = [] := by
  refine ⟨fun hunder ↦ ?_, fun hnil ↦ by rw [hnil]; rfl⟩
  by_contra hne
  obtain ⟨name, rest, rfl⟩ := List.exists_cons_of_ne_nil hne
  have hcommon : dropCommon (split '/' (pathString (name :: rest))) (split '/' (pathString [])) =
      (name :: rest, [""]) := by
    rw [split_pathString h, if_neg hne, split_pathString (List.forall_mem_nil _), if_pos rfl,
      dropCommon_cons_self, dropCommon, if_neg (h name List.mem_cons_self).nonempty]
  rw [isDirUnder_of_rest hcommon] at hunder
  exact Bool.false_ne_true hunder

theorem isDirUnder_iff_of_ne_root (htop : ∀ name ∈ topnames, IsName name) (hne : topnames ≠ []) :
    isDirUnder (pathString names) (pathString topnames) = true ↔ topnames <+: names := by
  by_cases hnames : names = []
  · subst hnames
    obtain ⟨name, rest, rfl⟩ := List.exists_cons_of_ne_nil hne
    have hcommon : dropCommon (split '/' (pathString [])) (split '/' (pathString (name :: rest))) =
        ([""], name :: rest) := by
      rw [split_pathString htop, if_neg hne, split_pathString h, if_pos rfl,
        dropCommon_cons_self, dropCommon, if_neg (Ne.symm (htop name List.mem_cons_self).nonempty)]
    rw [isDirUnder_of_rest hcommon, List.prefix_nil]
    exact iff_of_false Bool.false_ne_true hne
  · have hcommon : dropCommon (split '/' (pathString names)) (split '/' (pathString topnames)) =
        dropCommon names topnames := by
      rw [split_pathString htop, if_neg hne, split_pathString h, if_neg hnames,
        dropCommon_cons_self]
    rw [← dropCommon_snd_eq_nil_iff]
    have hsuffix := dropCommon_fst_suffix names topnames
    cases hdrop : dropCommon names topnames with
    | mk pitems litems =>
      rw [hdrop] at hcommon hsuffix
      cases litems with
      | nil =>
        refine iff_of_true (isDirUnder_of_names hcommon fun name hname ↦ ?_) rfl
        exact h name (hsuffix.subset hname)
      | cons l litems =>
        rw [isDirUnder_of_rest hcommon]
        exact iff_of_false Bool.false_ne_true (List.cons_ne_nil _ _)

/-- A canonical directory is found to be under another one exactly when the names of the other are
a beginning of its own, unless the other one is the root. -/
theorem isDirUnder_iff (htop : ∀ name ∈ topnames, IsName name) :
    (isDirUnder (pathString names) (pathString topnames) = true ↔ topnames <+: names) ↔
      (topnames = [] → names = []) := by
  by_cases hroot : topnames = []
  · subst hroot
    rw [iff_true_right List.nil_prefix, imp_iff_right rfl]
    exact isDirUnder_root_iff h
  · exact iff_of_true (isDirUnder_iff_of_ne_root h htop hroot) fun hnil ↦ absurd hnil hroot

end Directories

/-- A directory in the root. -/
theorem not_isDirUnder_root :
    ¬ (isDirUnder "/usr" "/" = true ↔ ([] : List String) <+: ["usr"]) := by
  decide +kernel

theorem isDirUnder_usr_local :
    (isDirUnder (pathString ["usr", "local"]) (pathString ["usr"]) = true ↔
        ["usr"] <+: ["usr", "local"]) ↔
      (["usr"] = ([] : List String) → ["usr", "local"] = ([] : List String)) := by
  have husr : IsName "usr" := ⟨by decide, by decide, by decide, by decide⟩
  have hlocal : IsName "local" := ⟨by decide, by decide, by decide, by decide⟩
  have hnames : ∀ name ∈ ["usr", "local"], IsName name := by
    rintro name (_ | ⟨_, _ | ⟨_, ⟨⟩⟩⟩)
    · exact husr
    · exact hlocal
  exact isDirUnder_iff hnames (List.forall_mem_singleton.mpr husr)

end Abuild.Util
