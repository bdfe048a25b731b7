import Abuild.ItemConfig
import Abuild.Util.Split

/-!
Scopes, by the components of names. `checkVisibleTo` keeps a value that ends with a star although it
has reported it, which `checkVisibleTo_iff` describes; for values that have been cleaned up,
`accessibleFrom` compares scopes as it should.
-/

set_option autoImplicit false
set_option relaxedAutoImplicit false

namespace Abuild.ItemConfig

open Std (TreeMap TreeSet)

/-! ### Scopes -/

def components (name : String) : List String := Util.split '.' name

/-- The scope that an item is in, as components. -/
def enclosing (name : String) : List String := (components name).dropLast

def ProperAncestor (scope other : List String) : Prop := scope <+: other ∧ scope ≠ other

/-- A value that makes an item visible to more than its enclosing scope. -/
inductive Widens (name : String) : String → Prop
  | everywhere : Widens name "*"
  | scope (p : String) (h : ProperAncestor (components p) (enclosing name)) :
    Widens name (p ++ ".*")

/-- What the later code assumes of a value. -/
def Sanitised (name value : String) : Prop := value = "" ∨ Widens name value

theorem joint_dot : ".".toList = ['.'] := rfl

theorem components_ne_nil (name : String) : components name ≠ [] := Util.split_ne_nil '.' name

theorem dot_not_mem {name part : String} (h : part ∈ components name) : '.' ∉ part.toList :=
  Util.not_mem_of_mem_split h

theorem join_components (name : String) : ".".intercalate (components name) = name :=
  Util.join_split joint_dot name

theorem components_eq_append (name : String) :
    ∃ last, components name = enclosing name ++ [last] :=
  ⟨(components name).getLast (components_ne_nil name),
    (List.dropLast_append_getLast (components_ne_nil name)).symm⟩

theorem components_star (p : String) : components (p ++ ".*") = components p ++ ["*"] := by
  have happend := Util.split_append_join joint_dot p "*"
  exact happend

/-- A value whose last component is a star stands for all items, or for a scope. -/
theorem star_cases {value : String} (h : (components value).getLast? = some "*") :
    value = "*" ∨ ∃ p, value = p ++ ".*" ∧ (components value).dropLast = components p := by
  obtain ⟨last, hvalue⟩ := components_eq_append value
  have hlast : last = "*" := by
    rw [hvalue, List.getLast?_concat] at h
    exact Option.some_inj.mp h
  subst hlast
  have hjoin := join_components value
  rw [hvalue] at hjoin
  cases hscope : enclosing value with
  | nil =>
    rw [hscope] at hjoin
    exact Or.inl hjoin.symm
  | cons first rest =>
    have hne : enclosing value ≠ [] := by
      rw [hscope]
      exact List.cons_ne_nil _ _
    refine Or.inr ⟨".".intercalate (enclosing value), ?_, ?_⟩
    · rw [String.intercalate_append_of_ne_nil hne (List.cons_ne_nil _ _),
        String.intercalate_singleton, String.append_assoc] at hjoin
      exact hjoin.symm
    · refine (Util.split_join joint_dot (fun part hpart ↦ ?_) hne).symm
      exact dot_not_mem (List.mem_of_mem_dropLast hpart)

theorem star_ne_empty (p : String) : p ++ ".*" ≠ "" := by
  intro h
  have hchars := congrArg String.toList h
  rw [String.toList_append] at hchars
  cases (List.append_eq_nil_iff.mp hchars).2

theorem star_ne_everywhere (p : String) : p ++ ".*" ≠ "*" := by
  intro h
  have hlength := congrArg (List.length ∘ components) h
  have hone : (components "*").length = 1 := by decide
  have hpos := List.length_pos_of_ne_nil (components_ne_nil p)
  rw [Function.comp_apply, Function.comp_apply, components_star, List.length_append, hone,
    List.length_singleton] at hlength
  omega

theorem widens_star_iff {name p : String} :
    Widens name (p ++ ".*") ↔ ProperAncestor (components p) (enclosing name) := by
  constructor
  · intro h
    generalize hvalue : p ++ ".*" = value at h
    cases h with
    | everywhere => exact absurd hvalue (star_ne_everywhere p)
    | scope q h =>
      have hsame := congrArg components hvalue
      rw [components_star, components_star] at hsame
      rw [(List.append_inj' hsame rfl).1]
      exact h
  · exact Widens.scope p

theorem startsWith_iff {name scope : String} :
    startsWith name scope = true ↔ scope.toList <+: name.toList := by
  unfold startsWith
  rw [decide_eq_true_iff, List.prefix_iff_eq_take]
  exact eq_comm

/-- The text of a scope is the beginning of the names below it. -/
theorem startsWith_scope_iff {scope : List String} (h : ∀ part ∈ scope, '.' ∉ part.toList)
    (hne : scope ≠ []) (name : String) :
    startsWith name (".".intercalate scope ++ ".") = true ↔
      ∃ rest, rest ≠ [] ∧ components name = scope ++ rest :=
  startsWith_iff.trans (Util.join_prefix_iff joint_dot h hne name)

/-! ### `checkVisibleTo` -/

theorem isAncestorScope_iff {name : String} (hname : 1 < (components name).length) (p : String) :
    isAncestorScope name (components p) = true ↔
      ProperAncestor (components p) (enclosing name) := by
  have hlength : (enclosing name).length = (components name).length - 1 := List.length_dropLast
  unfold isAncestorScope
  split_ifs with hlong hnil
  · refine iff_of_false id fun ⟨hleading, hother⟩ ↦ hother ?_
    refine hleading.eq_of_length_le ?_
    rw [hlength]
    have hlong : (components name).length - 2 < (components p).length := hlong
    omega
  · exact absurd (List.isEmpty_iff.mp hnil) (components_ne_nil p)
  · rw [startsWith_scope_iff (fun part hpart ↦ dot_not_mem hpart) (components_ne_nil p)]
    have hlong : ¬ (components name).length - 2 < (components p).length := hlong
    constructor
    · rintro ⟨rest, hrest, happend⟩
      have hsum := congrArg List.length happend
      rw [List.length_append] at hsum
      refine ⟨?_, fun heq ↦ ?_⟩
      · unfold enclosing
        rw [happend, List.dropLast_append_of_ne_nil hrest]
        exact List.prefix_append _ _
      · rw [heq, hlength] at hlong
        omega
    · rintro ⟨⟨rest, happend⟩, -⟩
      obtain ⟨last, hlast⟩ := components_eq_append name
      refine ⟨rest ++ [last], List.append_ne_nil_of_right_ne_nil _ (List.cons_ne_nil _ _), ?_⟩
      rw [hlast, ← happend, List.append_assoc]

/-- What is expected of a check of a value: what is kept is sanitised, and any other value is
reported and cleared. -/
def ChecksValue (name value : String) (r : String × List ErrorMessage) : Prop :=
  Sanitised name r.1 ∧ (¬ Sanitised name value → r.1 = "" ∧ r.2 ≠ [])

/-- The outcomes of `checkVisibleTo`. An error about a scope does not clear it. -/
theorem checkVisibleTo_cases (location : FileLocation) (name value : String) :
    (value = "" ∧ checkVisibleTo location name value = ("", [])) ∨
      (value ≠ "" ∧ ¬ (1 < (components name).length ∧ (components value).getLast? = some "*") ∧
        ∃ e, checkVisibleTo location name value = ("", [e])) ∨
      value ≠ "" ∧ 1 < (components name).length ∧ (components value).getLast? = some "*" ∧
        ∃ errors, checkVisibleTo location name value = (value, errors) ∧
          (errors = [] ↔ isAncestorScope name (components value).dropLast = true) := by
  unfold checkVisibleTo
  by_cases hempty : value = ""
  · exact Or.inl ⟨hempty, by rw [hempty]; rfl⟩
  · refine Or.inr ?_
    rw [if_neg (fun h ↦ hempty (String.isEmpty_iff.mp h))]
    by_cases hname : (Util.split '.' name).length > 1
    · rw [if_pos hname]
      by_cases hstar : (components value).getLast? = some "*"
      · refine Or.inr ⟨hempty, hname, hstar, ?_⟩
        show ∃ errors, (if (components value).getLast? ≠ some "*" then _ else _) = _ ∧ _
        rw [if_neg (not_not.mpr hstar)]
        split_ifs with hancestor
        · exact ⟨[], rfl, iff_of_true rfl hancestor⟩
        · exact ⟨_, rfl, iff_of_false (List.cons_ne_nil _ _) hancestor⟩
      · exact Or.inl ⟨hempty, fun h ↦ hstar h.2,
          (location, "visible-to value must be * or end with .*"), if_pos hstar⟩
    · rw [if_neg hname]
      exact Or.inl ⟨hempty, fun h ↦ hname h.1, _, rfl⟩

/-- The value is handled as expected, unless it names a scope for an item that is not public, and
that scope is not a proper ancestor of the item's enclosing scope. -/
theorem checkVisibleTo_iff (location : FileLocation) (name value : String) :
    ChecksValue name value (checkVisibleTo location name value) ↔
      ¬ (1 < (components name).length ∧
        ∃ p, value = p ++ ".*" ∧ ¬ ProperAncestor (components p) (enclosing name)) := by
  rcases checkVisibleTo_cases location name value with
    ⟨rfl, hcheck⟩ | ⟨-, hnot, e, hcheck⟩ | ⟨hempty, hname, hstar, errors, hcheck, -⟩
  · rw [hcheck]
    refine iff_of_true ⟨Or.inl rfl, fun h ↦ absurd (Or.inl rfl) h⟩ fun ⟨_, p, hp, _⟩ ↦ ?_
    exact star_ne_empty p hp.symm
  · rw [hcheck]
    refine iff_of_true ⟨Or.inl rfl, fun _ ↦ ⟨rfl, List.cons_ne_nil _ _⟩⟩ ?_
    rintro ⟨hname, p, rfl, -⟩
    refine hnot ⟨hname, ?_⟩
    rw [components_star, List.getLast?_concat]
  · rw [hcheck]
    rcases star_cases hstar with rfl | ⟨p, rfl, hdrop⟩
    · refine iff_of_true ⟨Or.inr .everywhere, fun h ↦ absurd (Or.inr .everywhere) h⟩ ?_
      exact fun ⟨_, p, hp, _⟩ ↦ star_ne_everywhere p hp.symm
    · constructor
      · rintro ⟨hsanitised, -⟩ ⟨-, q, hq, hnot⟩
        rcases hsanitised with hnil | hwidens
        · exact hempty hnil
        · rw [show (p ++ ".*", errors).1 = q ++ ".*" from hq] at hwidens
          exact hnot (widens_star_iff.mp hwidens)
      · intro hgood
        have hancestor : ProperAncestor (components p) (enclosing name) := by
          by_contra hnot
          exact hgood ⟨hname, p, rfl, hnot⟩
        have hsanitised : Sanitised name (p ++ ".*") := Or.inr (.scope p hancestor)
        exact ⟨hsanitised, fun h ↦ absurd hsanitised h⟩

theorem not_checksValue_other :
    ¬ ChecksValue "a.b.c" "x.*" (checkVisibleTo .empty "a.b.c" "x.*") := by
  rintro ⟨hsanitised, -⟩
  have hkept : (checkVisibleTo .empty "a.b.c" "x.*").1 = "x" ++ ".*" := by decide +kernel
  rw [hkept] at hsanitised
  rcases hsanitised with hempty | hwidens
  · exact star_ne_empty "x" hempty
  · have hancestor := (widens_star_iff.mp hwidens).1
    exact absurd hancestor (by decide +kernel)

/-! ### `accessibleFrom` -/

/-- The scope from which an item is visible, as components. -/
def visibleScope (name visibility : String) : List String :=
  if visibility = "" then enclosing name else (components visibility).dropLast

theorem components_of_isItemName {name : String} (h : isItemName name = true) :
    ∀ part ∈ components name, part ≠ "" := by
  have hname : ∀ part : String, PlatformSelector.isName part = true → part ≠ "" := by
    rintro part hpart rfl
    cases hpart
  unfold isItemName at h
  intro part hpart
  unfold components at hpart
  cases hsplit : Util.split '.' name with
  | nil => exact absurd hsplit (Util.split_ne_nil '.' name)
  | cons first rest =>
    rw [hsplit] at h hpart
    obtain ⟨hfirst, hrest⟩ := Bool.and_eq_true_iff.mp h
    rcases List.mem_cons.mp hpart with rfl | hpart
    · exact hname part (Bool.and_eq_true_iff.mp hfirst).1
    · exact hname part (List.all_eq_true.mp hrest part hpart)

/-- The scope of a name is all but its last component, with a dot. -/
theorem matchScope_eq {name : String} (h : isItemName name = true) : matchScope name =
    if enclosing name = [] then none else some (".".intercalate (enclosing name) ++ ".") := by
  obtain ⟨last, hlast⟩ := components_eq_append name
  have hmem : last ∈ components name := by
    rw [hlast]
    exact List.mem_append_right _ List.mem_cons_self
  have hne : last.toList.reverse ≠ [] := by
    rw [ne_eq, List.reverse_eq_nil_iff, String.toList_eq_nil_iff]
    exact components_of_isItemName h last hmem
  have hdots : ∀ c ∈ last.toList.reverse, decide (c ≠ '.') = true := by
    intro c hc
    rw [decide_eq_true_iff]
    rintro rfl
    exact dot_not_mem hmem (List.mem_reverse.mp hc)
  have hjoin := join_components name
  rw [hlast] at hjoin
  unfold matchScope
  by_cases henclosing : enclosing name = []
  · rw [if_pos henclosing]
    rw [henclosing] at hjoin
    have hname : name = last := hjoin.symm
    have hdrop : name.toList.reverse.dropWhile (fun c ↦ decide (c ≠ '.')) = [] := by
      rw [hname, List.dropWhile_eq_nil_iff]
      exact hdots
    dsimp only
    rw [hdrop]
    rfl
  · rw [if_neg henclosing]
    rw [String.intercalate_append_of_ne_nil henclosing (List.cons_ne_nil _ _),
      String.intercalate_singleton] at hjoin
    have hreverse : name.toList.reverse = last.toList.reverse ++
        '.' :: (".".intercalate (enclosing name)).toList.reverse := by
      have hchars := congrArg String.toList hjoin
      rw [← hchars]
      simp
    have htake : name.toList.reverse.takeWhile (fun c ↦ decide (c ≠ '.')) =
        last.toList.reverse := by
      rw [hreverse, List.takeWhile_append_of_pos hdots]
      simp
    have hdrop : name.toList.reverse.dropWhile (fun c ↦ decide (c ≠ '.')) =
        '.' :: (".".intercalate (enclosing name)).toList.reverse := by
      rw [hreverse, List.dropWhile_append_of_pos hdots]
      simp
    dsimp only
    rw [htake, hdrop, if_neg]
    · simp [← String.toList_inj]
    · rintro (hfront | hback)
      · cases hfront
      · exact hne (List.isEmpty_iff.mp hback)

/-- The text of a scope grants access to what lies in it, and to the item that owns it. -/
theorem scope_grants_iff {scope : List String} (h : ∀ part ∈ scope, '.' ∉ part.toList)
    (hne : scope ≠ []) (accessor : String) :
    (startsWith accessor (".".intercalate scope ++ ".") = true ∨
      ".".intercalate scope ++ "." = accessor ++ ".") ↔ scope <+: components accessor := by
  rw [startsWith_scope_iff h hne]
  have howner : ".".intercalate scope ++ "." = accessor ++ "." ↔ components accessor = scope := by
    constructor
    · intro heq
      have hsame : ".".intercalate scope = accessor := by
        rw [← String.toList_inj, String.toList_append, String.toList_append] at heq
        exact String.toList_inj.mp (List.append_inj' heq rfl).1
      rw [← hsame]
      exact Util.split_join joint_dot h hne
    · rintro rfl
      rw [join_components]
  rw [howner]
  constructor
  · rintro (⟨rest, -, happend⟩ | rfl)
    · exact ⟨rest, happend.symm⟩
    · exact List.prefix_rfl
  · rintro ⟨rest, happend⟩
    by_cases hrest : rest = []
    · rw [hrest, List.append_nil] at happend
      exact Or.inr happend.symm
    · exact Or.inl ⟨rest, hrest, happend.symm⟩

theorem visibleScope_of_star (name p : String) : visibleScope name (p ++ ".*") = components p := by
  unfold visibleScope
  rw [if_neg (star_ne_empty p), components_star, List.dropLast_concat]

/-- An item has access to another one exactly where it lies in the scope that the other one is
visible from. -/
theorem accessibleFrom_iff (accessorName : String) {accesseeName : String}
    (hname : isItemName accesseeName = true) {builditems : TreeMap String String}
    (hvisible : Sanitised accesseeName (builditems.getD accesseeName "")) :
    ∃ accessible, accessibleFrom builditems accessorName accesseeName = some accessible ∧
      (accessible = true ↔
        visibleScope accesseeName (builditems.getD accesseeName "") <+:
          components accessorName) := by
  unfold accessibleFrom
  rw [matchScope_eq hname]
  by_cases hpublic : enclosing accesseeName = []
  · rw [if_pos hpublic]
    refine ⟨true, rfl, iff_of_true rfl ?_⟩
    rcases hvisible with hempty | hwidens
    · rw [hempty]
      show enclosing accesseeName <+: _
      rw [hpublic]
      exact List.nil_prefix
    · generalize builditems.getD accesseeName "" = visibility at hwidens
      cases hwidens with
      | everywhere => exact List.nil_prefix
      | scope p h =>
        rw [hpublic] at h
        exact absurd (List.prefix_nil.mp h.1) (components_ne_nil p)
  · rw [if_neg hpublic]
    dsimp only
    generalize builditems.getD accesseeName "" = visibility at hvisible
    have hgrants : ∀ {scope : List String}, (∀ part ∈ scope, '.' ∉ part.toList) → scope ≠ [] →
        ((startsWith accessorName (".".intercalate scope ++ ".") ||
            decide (".".intercalate scope ++ "." = accessorName ++ ".")) = true ↔
          scope <+: components accessorName) := by
      intro scope hdots hne
      rw [Bool.or_eq_true, decide_eq_true_iff]
      exact scope_grants_iff hdots hne accessorName
    rcases hvisible with rfl | hwidens
    · refine ⟨_, rfl, hgrants (fun part hpart ↦ ?_) hpublic⟩
      exact dot_not_mem (List.mem_of_mem_dropLast hpart)
    · cases hwidens with
      | everywhere =>
        refine ⟨_, rfl, iff_of_true ?_ List.nil_prefix⟩
        rw [Bool.or_eq_true]
        exact Or.inl (startsWith_iff.mpr List.nil_prefix)
      | scope p h =>
        have hlast : (p ++ ".*").toList.getLast? = some '*' := by
          rw [String.toList_append]
          exact List.getLast?_append_of_ne_nil _ (List.cons_ne_nil _ _)
        have hscope : String.ofList (p ++ ".*").toList.dropLast =
            ".".intercalate (components p) ++ "." := by
          rw [join_components, ← String.toList_inj, String.toList_ofList, String.toList_append,
            List.dropLast_append_of_ne_nil (by decide), String.toList_append]
          rfl
        have hempty : ¬ (p ++ ".*").isEmpty = true := fun hnil ↦
          star_ne_empty p (String.isEmpty_iff.mp hnil)
        rw [if_neg (star_ne_everywhere p), if_neg hempty, if_pos hlast, hscope,
          visibleScope_of_star]
        exact ⟨_, rfl, hgrants (fun part hpart ↦ dot_not_mem hpart) (components_ne_nil p)⟩

theorem accessibleFrom_iff_widened :
    accessibleFrom (.ofList [("a.b.c", "a.*")]) "a.d" "a.b.c" = some true ∧
      accessibleFrom (.ofList [("a.b.c", "a.*")]) "ab.d" "a.b.c" = some false := by
  have hname : isItemName "a.b.c" = true := by decide +kernel
  have hvalue : (TreeMap.ofList [("a.b.c", "a.*")] : TreeMap String String).getD "a.b.c" "" =
      "a" ++ ".*" := by decide +kernel
  have hancestor : ProperAncestor (components "a") (enclosing "a.b.c") := by
    unfold ProperAncestor
    decide +kernel
  have hvisible :
    Sanitised "a.b.c" ((TreeMap.ofList [("a.b.c", "a.*")] : TreeMap String String).getD
      "a.b.c" "") := by
    rw [hvalue]
    exact Or.inr (.scope "a" hancestor)
  obtain ⟨accessible, haccess, hiff⟩ := accessibleFrom_iff "a.d" hname hvisible
  obtain ⟨accessible', haccess', hiff'⟩ := accessibleFrom_iff "ab.d" hname hvisible
  rw [hvalue, visibleScope_of_star] at hiff hiff'
  have htrue : accessible = true := hiff.mpr (by decide +kernel)
  have hfalse : accessible' = false := by
    rw [← Bool.not_eq_true, hiff']
    decide +kernel
  exact ⟨haccess.trans (congrArg some htrue), haccess'.trans (congrArg some hfalse)⟩

end Abuild.ItemConfig
