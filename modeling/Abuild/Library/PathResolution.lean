import Mathlib.Data.List.Infix

/-!
The resolution of paths in a tree of names, some of which are links to other paths. A location is
the list of the names that lead to it from the root. `Resolves` follows a path from a location and
keeps the locations of the links it meets, in order; where a path leads is unique, and is a
location none of whose beginnings is a link. The reading of the links is a parameter, and only that
of the links that are met matters.
-/

set_option autoImplicit false
set_option relaxedAutoImplicit false

namespace PathResolution

variable {Name : Type*}

inductive Component (Name : Type*)
  | here
  | parent
  | name (n : Name)
deriving DecidableEq

/-- What a link leads to, from the root or from the location that holds the link. -/
structure Link (Name : Type*) where
  fromRoot : Bool
  target : List (Component Name)

def Link.start (link : Link Name) (location : List Name) : List Name :=
  if link.fromRoot then [] else location

/-- Where a path leads from a location, and the links that are met. -/
inductive Resolves (links : List Name → Option (Link Name)) :
    List Name → List (Component Name) → List (List Name) → List Name → Prop
  | done {location : List Name} : Resolves links location [] [] location
  | here {location destination : List Name} {path : List (Component Name)}
      {met : List (List Name)} (rest : Resolves links location path met destination) :
      Resolves links location (.here :: path) met destination
  | parent {location destination : List Name} {path : List (Component Name)}
      {met : List (List Name)} (rest : Resolves links location.dropLast path met destination) :
      Resolves links location (.parent :: path) met destination
  | name {location destination : List Name} {path : List (Component Name)}
      {met : List (List Name)} {n : Name} (hnone : links (location ++ [n]) = none)
      (rest : Resolves links (location ++ [n]) path met destination) :
      Resolves links location (.name n :: path) met destination
  | link {location destination : List Name} {path : List (Component Name)}
      {met : List (List Name)} {n : Name} {link : Link Name}
      (hlink : links (location ++ [n]) = some link)
      (rest : Resolves links (link.start location) (link.target ++ path) met destination) :
      Resolves links location (.name n :: path) ((location ++ [n]) :: met) destination

variable {links links' : List Name → Option (Link Name)} {location destination : List Name}
  {path : List (Component Name)} {met : List (List Name)}

theorem Resolves.unique (h : Resolves links location path met destination)
    {met' : List (List Name)} {destination' : List Name}
    (h' : Resolves links location path met' destination') :
    met = met' ∧ destination = destination' := by
  induction h generalizing met' destination' with
  | done =>
    cases h'
    exact ⟨rfl, rfl⟩
  | here rest ih =>
    cases h' with
    | here rest' => exact ih rest'
  | parent rest ih =>
    cases h' with
    | parent rest' => exact ih rest'
  | name hnone rest ih =>
    cases h' with
    | name hnone' rest' => exact ih rest'
    | link hlink' rest' => exact absurd (hnone.symm.trans hlink') (Option.some_ne_none _).symm
  | link hlink rest ih =>
    cases h' with
    | name hnone' rest' => exact absurd (hnone'.symm.trans hlink) (Option.some_ne_none _).symm
    | link hlink' rest' =>
      obtain rfl := Option.some.inj (hlink.symm.trans hlink')
      obtain ⟨hmet, hdestination⟩ := ih rest'
      exact ⟨congrArg _ hmet, hdestination⟩

/-- Only the links that are met matter. -/
theorem Resolves.congr (h : Resolves links location path met destination)
    (hnone : ∀ l, links l = none → links' l = none) (hmet : ∀ l ∈ met, links' l = links l) :
    Resolves links' location path met destination := by
  induction h with
  | done => exact .done
  | here rest ih => exact .here (ih hmet)
  | parent rest ih => exact .parent (ih hmet)
  | name hlink rest ih => exact .name (hnone _ hlink) (ih hmet)
  | link hlink rest ih =>
    have hhead := hmet _ List.mem_cons_self
    exact .link (hhead.trans hlink) (ih fun l hl ↦ hmet l (List.mem_cons_of_mem _ hl))

/-- No beginning of a location is a link. -/
def Clear (links : List Name → Option (Link Name)) (location : List Name) : Prop :=
  ∀ l, l <+: location → l ≠ [] → links l = none

theorem clear_nil : Clear links [] :=
  fun _ hl hne ↦ absurd (List.prefix_nil.mp hl) hne

theorem Clear.of_prefix {location' : List Name} (h : Clear links location)
    (hle : location' <+: location) : Clear links location' :=
  fun l hl hne ↦ h l (hl.trans hle) hne

theorem Clear.dropLast (h : Clear links location) : Clear links location.dropLast :=
  h.of_prefix (List.dropLast_prefix location)

theorem Clear.start (h : Clear links location) (link : Link Name) :
    Clear links (link.start location) := by
  unfold Link.start
  split_ifs
  · exact clear_nil
  · exact h

theorem Clear.concat {n : Name} (h : Clear links location)
    (hnone : links (location ++ [n]) = none) :
    Clear links (location ++ [n]) := by
  intro l hl hne
  rcases List.prefix_concat_iff.mp hl with rfl | hl
  · exact hnone
  · exact h l hl hne

/-- A path leads to a location that meets no link. -/
theorem Resolves.clear (h : Resolves links location path met destination)
    (hclear : Clear links location) : Clear links destination := by
  induction h with
  | done => exact hclear
  | here rest ih => exact ih hclear
  | parent rest ih => exact ih hclear.dropLast
  | name hnone rest ih => exact ih (hclear.concat hnone)
  | link hlink rest ih => exact ih (hclear.start _)

/-- The path of the names of a location that meets no link leads to the location. -/
theorem resolves_of_clear {names : List Name} (h : Clear links (location ++ names)) :
    Resolves links location (names.map .name) [] (location ++ names) := by
  induction names generalizing location with
  | nil =>
    rw [List.append_nil]
    exact .done
  | cons n names ih =>
    have hassoc : location ++ n :: names = (location ++ [n]) ++ names :=
      List.append_cons location n names
    rw [hassoc] at h ⊢
    have hnone : links (location ++ [n]) = none :=
      h _ (List.prefix_append _ _) (List.append_ne_nil_of_right_ne_nil _ (List.cons_ne_nil _ _))
    exact .name hnone (ih h)

/-- As many steps up as there are names lead out of them. -/
theorem resolves_parents {names : List Name} (h : Resolves links location path met destination) :
    Resolves links (location ++ names) (List.replicate names.length .parent ++ path) met
      destination := by
  induction names using List.reverseRecOn with
  | nil =>
    rw [List.append_nil]
    exact h
  | append_singleton names n ih =>
    rw [List.length_append, List.length_singleton, List.replicate_succ, List.cons_append]
    refine .parent ?_
    rw [← List.append_assoc, List.dropLast_concat]
    exact ih

/-- Without links the names of the place where a path leads are among those of the path. -/
theorem Resolves.mem_of_noLinks (h : Resolves links location path met destination)
    (hnone : ∀ l, links l = none) {n : Name} (hn : n ∈ destination) :
    n ∈ location ∨ .name n ∈ path := by
  induction h with
  | done => exact Or.inl hn
  | here rest ih => exact (ih hn).imp_right (List.mem_cons_of_mem _)
  | parent rest ih => exact (ih hn).imp List.mem_of_mem_dropLast (List.mem_cons_of_mem _)
  | name _ rest ih =>
    rcases ih hn with hlocation | hpath
    · rcases List.mem_append.mp hlocation with hlocation | hlast
      · exact Or.inl hlocation
      · rw [List.mem_singleton.mp hlast]
        exact Or.inr List.mem_cons_self
    · exact Or.inr (List.mem_cons_of_mem _ hpath)
  | link hlink _ _ => exact absurd (hlink.symm.trans (hnone _)) (Option.some_ne_none _)

theorem Resolves.met_eq_nil (h : Resolves links location path met destination)
    (hnone : ∀ l, links l = none) : met = [] := by
  induction h with
  | done => rfl
  | here _ ih => exact ih
  | parent _ ih => exact ih
  | name _ _ ih => exact ih
  | link hlink _ _ => exact absurd (hlink.symm.trans (hnone _)) (Option.some_ne_none _)

/-- Without links every path leads somewhere. -/
theorem exists_resolves (hnone : ∀ l, links l = none) (location : List Name)
    (path : List (Component Name)) :
    ∃ destination, Resolves links location path [] destination := by
  induction path generalizing location with
  | nil => exact ⟨location, .done⟩
  | cons part path ih =>
    cases part with
    | here =>
      obtain ⟨destination, h⟩ := ih location
      exact ⟨destination, .here h⟩
    | parent =>
      obtain ⟨destination, h⟩ := ih location.dropLast
      exact ⟨destination, .parent h⟩
    | name n =>
      obtain ⟨destination, h⟩ := ih (location ++ [n])
      exact ⟨destination, .name (hnone _) h⟩

/-- Without links a path leads up to a beginning of its location, and down by some of its names. -/
theorem Resolves.exists_kept (h : Resolves links location path met destination)
    (hnone : ∀ l, links l = none) : ∃ kept appended, kept <+: location ∧
      destination = kept ++ appended ∧ List.Sublist (appended.map .name) path := by
  induction h with
  | @done location => exact ⟨location, [], List.prefix_refl _, (List.append_nil _).symm, .slnil⟩
  | here _ ih =>
    obtain ⟨kept, appended, hkept, hdestination, hsublist⟩ := ih
    exact ⟨kept, appended, hkept, hdestination, hsublist.cons _⟩
  | parent _ ih =>
    obtain ⟨kept, appended, hkept, hdestination, hsublist⟩ := ih
    exact ⟨kept, appended, hkept.trans (List.dropLast_prefix _), hdestination, hsublist.cons _⟩
  | @name location _ _ _ n _ _ ih =>
    obtain ⟨kept, appended, hkept, hdestination, hsublist⟩ := ih
    rcases List.prefix_concat_iff.mp hkept with rfl | hkept
    · refine ⟨location, n :: appended, List.prefix_refl _, ?_, hsublist.cons_cons _⟩
      rw [hdestination, List.append_assoc]
      rfl
    · exact ⟨kept, appended, hkept, hdestination, hsublist.cons _⟩
  | link hlink _ _ => exact absurd (hlink.symm.trans (hnone _)) (Option.some_ne_none _)

/-- Paths that lead on from each other. -/
theorem Resolves.append {path' : List (Component Name)} {met' : List (List Name)}
    {destination' : List Name} (h : Resolves links location path met destination)
    (h' : Resolves links destination path' met' destination') :
    Resolves links location (path ++ path') (met ++ met') destination' := by
  induction h with
  | done => exact h'
  | here _ ih => exact .here (ih h')
  | parent _ ih => exact .parent (ih h')
  | name hnone _ ih => exact .name hnone (ih h')
  | link hlink _ ih =>
    have hrest := ih h'
    rw [List.append_assoc] at hrest
    exact .link hlink hrest

end PathResolution
