import Abuild.Library.OnePass
import Abuild.BuildForest.Expand
import Abuild.PlatformTypes
import Abuild.PlatformTables.Check
import Abuild.Util.Split

/-!
What `updatePlatformTypes` leaves. An item inherits its types from its dependencies by the types
that these end with, so that the items follow a rule about the end of the pass, and the pass ends in
the same way in every order in which dependencies come first.
-/

set_option autoImplicit false
set_option relaxedAutoImplicit false

namespace Abuild.PlatformTypes

open Precedence OnePass BuildForest
open PlatformTables (IsName)
open Std (TreeMap TreeSet)

/-! ### Names that are joined -/

theorem intercalate_inj {l m : List String} (hl : ∀ name ∈ l, IsName name)
    (hm : ∀ name ∈ m, IsName name) (h : " ".intercalate l = " ".intercalate m) : l = m := by
  have hpart : ∀ {name : String}, IsName name → name ≠ "" ∧ ' ' ∉ name.toList := by
    refine fun {name} hname ↦ ⟨hname.nonempty, fun hin ↦ ?_⟩
    cases hname.spaces ' ' hin
  exact Util.join_inj rfl (fun name hname ↦ hpart (hl name hname))
    (fun name hname ↦ hpart (hm name hname)) h

/-! ### The types of an item -/

/-- Two items have the same set of platform types. -/
def SameTypes (a b : BuildItem) : Prop :=
  ∀ platformType : String, platformType ∈ a.platformTypes ↔ platformType ∈ b.platformTypes

theorem mem_getPlatformTypes {item : BuildItem} {platformType : String} :
    platformType ∈ item.getPlatformTypes ↔ platformType ∈ item.platformTypes :=
  TreeMap.mem_keys

theorem getPlatformTypes_eq_iff {a b : BuildItem} :
    a.getPlatformTypes = b.getPlatformTypes ↔ SameTypes a b := by
  constructor
  · intro h platformType
    rw [← mem_getPlatformTypes, h, mem_getPlatformTypes]
  · intro h
    have hsorted : ∀ item : BuildItem, item.getPlatformTypes.Pairwise (· < ·) := fun item ↦
      TreeMap.ordered_keys.imp fun hlt ↦ compare_lt_iff_lt.mp hlt
    refine (hsorted a).eq_of_mem_iff (hsorted b) fun {platformType} ↦ ?_
    rw [mem_getPlatformTypes, mem_getPlatformTypes]
    exact h platformType

theorem mem_setPlatformTypes {item : BuildItem} {platformTypes : List String}
    {platformType : String} :
    platformType ∈ (item.setPlatformTypes platformTypes).platformTypes ↔
      platformType ∈ platformTypes ∨ platformType ∈ item.platformTypes := by
  have hfold : ∀ types : TreeMap String (List String),
      platformType ∈ platformTypes.foldl (fun types name ↦ types.insert name []) types ↔
        platformType ∈ platformTypes ∨ platformType ∈ types := by
    induction platformTypes with
    | nil => simp
    | cons name names ih =>
      intro types
      rw [List.foldl_cons, ih, TreeMap.mem_insert, compare_eq_iff_eq, List.mem_cons]
      constructor
      · rintro (h | rfl | h)
        · exact Or.inl (Or.inr h)
        · exact Or.inl (Or.inl rfl)
        · exact Or.inr h
      · rintro ((rfl | h) | h)
        · exact Or.inr (Or.inl rfl)
        · exact Or.inl h
        · exact Or.inr (Or.inr h)
  exact hfold item.platformTypes

/-! ### Dependencies that agree -/

/-- There are dependencies, all of them have a target type of their own, and the same platform
types. -/
structure Agree (values : String → Option BuildItem) (deps : List String) : Prop where
  nonempty : deps ≠ []
  built : ∀ dep ∈ deps, ∃ item, values dep = some item ∧ item.targetType ≠ .all
  same : ∀ dep ∈ deps, ∀ dep' ∈ deps, ∀ a b, values dep = some a → values dep' = some b →
    SameTypes a b

theorem Agree.congr {values values' : String → Option BuildItem} {deps : List String}
    (h : Agree values deps) (hvalues : ∀ dep ∈ deps, values dep = values' dep) :
    Agree values' deps where
  nonempty := h.nonempty
  built := fun dep hdep ↦ hvalues dep hdep ▸ h.built dep hdep
  same := fun dep hdep dep' hdep' ↦
    hvalues dep hdep ▸ hvalues dep' hdep' ▸ h.same dep hdep dep' hdep'

/-- The platform types are names, as those that configuration files declare. -/
def NamedTypes (builditems : BuildItemMap) : Prop :=
  ∀ (name : String) (item : BuildItem), builditems[name]? = some item →
    ∀ platformType ∈ item.getPlatformTypes, IsName platformType

section Candidate

variable {builditems : BuildItemMap} {deps : List String}

theorem checkCandidate_some_iff {first types : String} :
    checkCandidate builditems deps (some first) = some (some types) ↔ types = first ∧
      ∀ dep ∈ deps, ∃ item, builditems[dep]? = some item ∧ item.targetType ≠ .all ∧
        " ".intercalate item.getPlatformTypes = first := by
  induction deps with
  | nil =>
    unfold checkCandidate
    simp [eq_comm]
  | cons dep deps ih =>
    unfold checkCandidate
    rw [List.forall_mem_cons]
    cases hdep : builditems[dep]? with
    | none => simp
    | some item =>
      by_cases hall : item.targetType = .all
      · simp [hall]
      · by_cases hfirst : first = " ".intercalate item.getPlatformTypes
        · simp only [hall, hfirst, if_false, if_true]
          rw [← hfirst, ih]
          simp [hfirst, hall]
        · simp [hall, hfirst, eq_comm]

theorem exists_checkCandidate_iff (hnamed : NamedTypes builditems) :
    (∃ types, checkCandidate builditems deps none = some (some types)) ↔
      Agree (builditems[·]?) deps := by
  cases deps with
  | nil => exact iff_of_false (fun ⟨_, h⟩ ↦ by cases h) fun h ↦ h.nonempty rfl
  | cons dep deps =>
    unfold checkCandidate
    cases hdep : builditems[dep]? with
    | none =>
      refine iff_of_false (fun ⟨_, h⟩ ↦ by cases h) fun h ↦ ?_
      obtain ⟨item, hitem, -⟩ := h.built dep List.mem_cons_self
      cases hdep.symm.trans hitem
    | some item =>
      by_cases hall : item.targetType = .all
      · refine iff_of_false (fun ⟨_, h⟩ ↦ by simp [hall] at h) fun h ↦ ?_
        obtain ⟨item', hitem', htype⟩ := h.built dep List.mem_cons_self
        obtain rfl := Option.some_inj.mp (hdep.symm.trans hitem')
        exact htype hall
      · simp only [hall, if_false, checkCandidate_some_iff]
        have hjoin : ∀ (name : String) (other : BuildItem), builditems[name]? = some other →
            (" ".intercalate other.getPlatformTypes = " ".intercalate item.getPlatformTypes ↔
              SameTypes other item) := by
          intro name other hother
          rw [← getPlatformTypes_eq_iff]
          exact ⟨intercalate_inj (hnamed name other hother) (hnamed dep item hdep), congrArg _⟩
        constructor
        · rintro ⟨types, -, hdeps⟩
          have hsame : ∀ name ∈ dep :: deps, ∃ other, builditems[name]? = some other ∧
              other.targetType ≠ .all ∧ SameTypes other item := by
            refine List.forall_mem_cons.mpr ⟨⟨item, hdep, hall, fun _ ↦ Iff.rfl⟩, ?_⟩
            intro name hname
            obtain ⟨other, hother, htype, htypes⟩ := hdeps name hname
            exact ⟨other, hother, htype, (hjoin name other hother).mp htypes⟩
          refine ⟨List.cons_ne_nil _ _, fun name hname ↦ ?_, ?_⟩
          · obtain ⟨other, hother, htype, -⟩ := hsame name hname
            exact ⟨other, hother, htype⟩
          · intro name hname name' hname' a b ha hb platformType
            obtain ⟨other, hother, -, htypes⟩ := hsame name hname
            obtain ⟨other', hother', -, htypes'⟩ := hsame name' hname'
            obtain rfl := Option.some_inj.mp (hother.symm.trans ha)
            obtain rfl := Option.some_inj.mp (hother'.symm.trans hb)
            exact (htypes platformType).trans (htypes' platformType).symm
        · intro h
          refine ⟨_, rfl, fun name hname ↦ ?_⟩
          have hname := List.mem_cons_of_mem dep hname
          obtain ⟨other, hother, htype⟩ := h.built name hname
          refine ⟨other, hother, htype, (hjoin name other hother).mpr ?_⟩
          exact h.same name hname dep List.mem_cons_self other item hother hdep

end Candidate

/-! ### The rule of the pass -/

/-- An item that takes the types of another one. -/
def inheritFrom (item first : BuildItem) : BuildItem :=
  (item.setPlatformTypes first.getPlatformTypes).setTargetType first.targetType

open Classical in
/-- What an item ends with, from what the others do. -/
noncomputable def inherited (before : BuildItemMap) (name : String)
    (values : String → Option BuildItem) : Option BuildItem :=
  before[name]?.map fun item ↦
    if item.isLocal = true ∧ item.targetType = .all ∧ Agree values item.deps then
      ((item.deps.head?.bind values).map (inheritFrom item)).getD item
    else item

theorem isLocal_inherited (before : BuildItemMap) :
    IsLocal (DepOn BuildItem.entry before) (inherited before) := by
  classical
  intro name f g hfg
  unfold inherited
  cases hitem : before[name]? with
  | none => rfl
  | some item =>
    have hdeps : ∀ dep ∈ item.deps, f dep = g dep := fun dep hdep ↦ hfg dep ⟨item, hitem, hdep⟩
    have hagree : Agree f item.deps ↔ Agree g item.deps :=
      ⟨fun h ↦ h.congr hdeps, fun h ↦ h.congr fun dep hdep ↦ (hdeps dep hdep).symm⟩
    have hhead : item.deps.head?.bind f = item.deps.head?.bind g := by
      cases hfront : item.deps with
      | nil => rfl
      | cons dep deps => exact hdeps dep (hfront ▸ List.mem_cons_self)
    simp only [Option.map_some, hagree, hhead]

/-! ### One step -/

section Step

variable {builditems before : BuildItemMap} {name : String} {item : BuildItem}

theorem Agree.exists_first {values : String → Option BuildItem} {deps : List String}
    (h : Agree values deps) : ∃ front first, deps.head? = some front ∧ front ∈ deps ∧
      values front = some first ∧ first.targetType ≠ .all := by
  obtain ⟨front, rest, rfl⟩ := List.exists_cons_of_ne_nil h.nonempty
  obtain ⟨first, hfirst, htype⟩ := h.built front List.mem_cons_self
  exact ⟨front, first, rfl, List.mem_cons_self, hfirst, htype⟩

theorem NamedTypes.insert (h : NamedTypes builditems)
    (hitem : ∀ platformType ∈ item.getPlatformTypes, IsName platformType) :
    NamedTypes (builditems.insert name item) := by
  intro name' item' hitem'
  rw [TreeMap.getElem?_insert] at hitem'
  split_ifs at hitem' with hname
  · obtain rfl := Option.some_inj.mp hitem'
    exact hitem
  · exact h name' item' hitem'

theorem NamedTypes.inheritFrom (h : NamedTypes builditems) {front : String} {first : BuildItem}
    (hitem : builditems[name]? = some item) (hfirst : builditems[front]? = some first) :
    ∀ platformType ∈ (inheritFrom item first).getPlatformTypes, IsName platformType := by
  intro platformType htype
  rcases mem_setPlatformTypes.mp (mem_getPlatformTypes.mp htype) with htype | htype
  · exact h front first hfirst platformType htype
  · exact h name item hitem platformType (mem_getPlatformTypes.mpr htype)

/-- A step leaves the items as they are, or lets one inherit. -/
theorem updateItem_spec (hnamed : NamedTypes builditems) (hitem : builditems[name]? = some item) :
    (item.isLocal = true ∧ item.targetType = .all ∧ Agree (builditems[·]?) item.deps ∧
      ∃ front first, item.deps.head? = some front ∧ builditems[front]? = some first ∧
        updateItem builditems name = some (builditems.insert name (inheritFrom item first))) ∨
    ¬ (item.isLocal = true ∧ item.targetType = .all ∧ Agree (builditems[·]?) item.deps) ∧
      updateItem builditems name = some builditems := by
  unfold updateItem
  rw [hitem, Option.bind_eq_bind, Option.bind_some]
  by_cases hlocal : item.isLocal = true
  · by_cases hall : item.targetType = .all
    · rw [if_neg (not_not.mpr hlocal), if_neg (not_not.mpr hall)]
      by_cases hagree : Agree (builditems[·]?) item.deps
      · obtain ⟨types, htypes⟩ := (exists_checkCandidate_iff hnamed).mpr hagree
        obtain ⟨front, first, hfront, -, hfirst, -⟩ := hagree.exists_first
        refine Or.inl ⟨hlocal, hall, hagree, front, first, hfront, hfirst, ?_⟩
        rw [htypes, hfront]
        show (builditems[front]?).bind _ = _
        rw [hfirst]
        rfl
      · refine Or.inr ⟨fun h ↦ hagree h.2.2, ?_⟩
        have hnone : ∀ types, checkCandidate builditems item.deps none ≠ some (some types) :=
          fun types htypes ↦ hagree ((exists_checkCandidate_iff hnamed).mp ⟨types, htypes⟩)
        rcases hcandidate : checkCandidate builditems item.deps none with _ | _ | types
        · rfl
        · rfl
        · exact absurd hcandidate (hnone types)
    · rw [if_neg (not_not.mpr hlocal), if_pos hall]
      exact Or.inr ⟨fun h ↦ hall h.2.1, rfl⟩
  · rw [if_pos hlocal]
    exact Or.inr ⟨fun h ↦ hlocal h.1, rfl⟩

/-- A step follows the rule. -/
theorem exists_updateItem (hnamed : NamedTypes builditems) (hitem : before[name]? = some item)
    (hvalue : builditems[name]? = before[name]?) :
    ∃ builditems', updateItem builditems name = some builditems' ∧ NamedTypes builditems' ∧
      (fun name' ↦ builditems'[name']?) = Function.update (fun name' ↦ builditems[name']?) name
        (inherited before name fun name' ↦ builditems[name']?) := by
  classical
  rw [hitem] at hvalue
  unfold inherited
  rw [hitem, Option.map_some]
  rcases updateItem_spec hnamed hvalue with
    ⟨hlocal, hall, hagree, front, first, hfront, hfirst, hstep⟩ | ⟨hnot, hstep⟩
  · refine ⟨_, hstep, hnamed.insert (hnamed.inheritFrom hvalue hfirst), ?_⟩
    rw [if_pos ⟨hlocal, hall, hagree⟩, hfront, Option.bind_some, hfirst]
    funext name'
    rw [TreeMap.getElem?_insert, Function.update_apply]
    exact if_congr (compare_eq_iff_eq.trans eq_comm) rfl rfl
  · refine ⟨builditems, hstep, hnamed, ?_⟩
    rw [if_neg hnot]
    exact (Function.update_eq_self_iff.mpr hvalue.symm).symm

end Step

/-! ### The whole pass -/

/-- What the items are promised to be once they have been checked without an error: an item that is
local and of target type `all` has no platform types. -/
structure ErrorFree (builditems : BuildItemMap) : Prop where
  named : NamedTypes builditems
  nothing : ∀ (name : String) (item : BuildItem), builditems[name]? = some item →
    item.isLocal = true → item.targetType = .all → item.getPlatformTypes = []

/-- The items after an update. A local item of target type `all` gets another target type exactly
where its dependencies agree at the end, and then it ends with the set of their platform types. -/
structure Updated (before after : BuildItemMap) : Prop where
  inherits : ∀ (name : String) (item : BuildItem), before[name]? = some item →
    item.isLocal = true → item.targetType = .all → ∃ item', after[name]? = some item' ∧
      (item'.targetType ≠ .all ↔ Agree (after[·]?) item.deps) ∧
      (Agree (after[·]?) item.deps →
        (∀ dep ∈ item.deps, ∀ d, after[dep]? = some d → SameTypes item' d) ∧
        ∃ dep ∈ item.deps, ∃ d, after[dep]? = some d ∧ item'.targetType = d.targetType)
  other : ∀ name : String, (∀ item, before[name]? = some item →
    ¬ (item.isLocal = true ∧ item.targetType = .all ∧ Agree (after[·]?) item.deps)) →
      after[name]? = before[name]?

section Pass

variable {before after : BuildItemMap} {order : List String}

theorem SameTypes.inheritFrom {item first : BuildItem} (h : item.getPlatformTypes = []) :
    SameTypes (inheritFrom item first) first := by
  intro platformType
  have hown : platformType ∉ item.platformTypes := by
    rw [← mem_getPlatformTypes, h]
    exact List.not_mem_nil
  refine mem_setPlatformTypes.trans ?_
  rw [mem_getPlatformTypes]
  exact or_iff_left hown

theorem Updated.of_solves (h : ErrorFree before)
    (hmem : ∀ name : String, name ∈ order ↔ (before[name]?).isSome)
    (hsolves : Solves (inherited before) order (before[·]?) (after[·]?)) :
    Updated before after := by
  classical
  have hlast : ∀ (name : String) (item : BuildItem), before[name]? = some item →
      after[name]? = inherited before name (after[·]?) := by
    intro name item hitem
    exact hsolves.rule name ((hmem name).mpr (by rw [hitem]; rfl))
  have hother : ∀ name : String, (∀ item, before[name]? = some item →
      ¬ (item.isLocal = true ∧ item.targetType = .all ∧ Agree (after[·]?) item.deps)) →
        after[name]? = before[name]? := by
    intro name hnot
    cases hitem : before[name]? with
    | none =>
      have hsame := hsolves.other name fun hin ↦ by
        have hsome := (hmem name).mp hin
        rw [hitem] at hsome
        cases hsome
      exact hsame.trans hitem
    | some item =>
      rw [hlast name item hitem]
      unfold inherited
      rw [hitem, Option.map_some, if_neg (hnot item hitem)]
  refine ⟨fun name item hitem hlocal hall ↦ ?_, hother⟩
  by_cases hagree : Agree (after[·]?) item.deps
  · obtain ⟨front, first, hfront, hin, hfirst, htype⟩ := hagree.exists_first
    refine ⟨inheritFrom item first, ?_, iff_of_true htype hagree, fun _ ↦
      ⟨fun dep hdep d hd platformType ↦ ?_, front, hin, first, hfirst, rfl⟩⟩
    · rw [hlast name item hitem]
      unfold inherited
      rw [hitem, Option.map_some, if_pos ⟨hlocal, hall, hagree⟩, hfront, Option.bind_some, hfirst]
      rfl
    · exact (SameTypes.inheritFrom (h.nothing name item hitem hlocal hall) platformType).trans
        (hagree.same front hin dep hdep first d hfirst hd platformType)
  · refine ⟨item, (hother name fun item' hitem' h' ↦ ?_).trans hitem,
      iff_of_false (not_not.mpr hall) hagree, fun h' ↦ absurd h' hagree⟩
    obtain rfl := Option.some_inj.mp (hitem.symm.trans hitem')
    exact hagree h'.2.2

/-- The pass gets to its end and follows the rule. -/
theorem exists_pass (hnamed : NamedTypes before) (hnodup : order.Nodup)
    (hmem : ∀ name : String, name ∈ order ↔ (before[name]?).isSome)
    (hordered : Ordered (DepOn BuildItem.entry before) order) :
    ∃ after, order.foldlM updateItem before = some after ∧ NamedTypes after ∧
      Solves (inherited before) order (before[·]?) (after[·]?) := by
  refine exists_solves (fun (builditems : BuildItemMap) name ↦ builditems[name]?)
    (isLocal_inherited before) hordered hnodup hnamed fun name hname builditems hnamed' hvalue ↦ ?_
  obtain ⟨item, hitem⟩ := Option.isSome_iff_exists.mp ((hmem name).mp hname)
  exact exists_updateItem hnamed' hitem hvalue

end Pass

/-- An item of target type `all` inherits where its dependencies agree at the end, the other items
stay as they are, and the order does not matter. -/
theorem updatePlatformTypes_spec {forest : BuildForest} (h : ErrorFree forest.buildItems)
    (hnodup : forest.sortedItemNames.Nodup)
    (hmem : ∀ name : String, name ∈ forest.sortedItemNames ↔ (forest.buildItems[name]?).isSome)
    (hordered : Ordered (DepOn BuildItem.entry forest.buildItems) forest.sortedItemNames) :
    ∃ after, updatePlatformTypes forest = some { forest with buildItems := after } ∧
      Updated forest.buildItems after ∧
      ∀ order : List String, order.Nodup →
        (∀ name : String, name ∈ order ↔ (forest.buildItems[name]?).isSome) →
        Ordered (DepOn BuildItem.entry forest.buildItems) order →
        ∃ after', updatePlatformTypes { forest with sortedItemNames := order } =
            some { forest with sortedItemNames := order, buildItems := after' } ∧
          ∀ name : String, after'[name]? = after[name]? := by
  obtain ⟨after, hrun, -, hsolves⟩ := exists_pass h.named hnodup hmem hordered
  refine ⟨after, ?_, .of_solves h hmem hsolves, fun order hnodup' hmem' hordered' ↦ ?_⟩
  · unfold updatePlatformTypes
    rw [hrun]
    rfl
  · obtain ⟨after', hrun', -, hsolves'⟩ := exists_pass h.named hnodup' hmem' hordered'
    refine ⟨after', ?_, fun name ↦ ?_⟩
    · unfold updatePlatformTypes
      rw [hrun']
      rfl
    · have hsame := hsolves'.congr fun name ↦ (hmem' name).trans (hmem name).symm
      exact congrFun (hsame.unique (isLocal_inherited forest.buildItems) hordered hsolves) name

/-! ### A program and its library -/

/-- A library for one platform type, and a program of target type `all` that depends on it. -/
def program : BuildItemMap :=
  let item := fun (name : String) (deps : List String) ↦ BuildItem.new name "tree"
    ⟨name, .empty, "/tree/" ++ name, deps, ∅, ∅, ∅, [], .empty, .empty⟩
  .ofList
    [("library", ((item "library" []).setPlatformTypes ["native"]).setTargetType .objectCode),
      ("program", (item "program" ["library"]).setTargetType .all)]

def programForest : BuildForest :=
  ⟨"/", ∅, program, [], ∅, ∅, ∅, ∅, [], ["library", "program"]⟩

theorem mem_program {name : String} {item : BuildItem} (h : program[name]? = some item) :
    (name = "library" ∧ item.deps = [] ∧ item.targetType = .objectCode ∧
        item.getPlatformTypes = ["native"]) ∨
      name = "program" ∧ item.deps = ["library"] ∧ item.getPlatformTypes = [] := by
  have hall : program.toList.all (fun entry ↦
      (entry.1 = "library" ∧ entry.2.deps = [] ∧ entry.2.targetType = .objectCode ∧
          entry.2.getPlatformTypes = ["native"]) ∨
        entry.1 = "program" ∧ entry.2.deps = ["library"] ∧ entry.2.getPlatformTypes = []) =
        true := by
    decide +kernel
  exact of_decide_eq_true
    (List.all_eq_true.mp hall (name, item) (TreeMap.mem_toList_iff_getElem?_eq_some.mpr h))

theorem updatePlatformTypes_program :
    (∃ after, updatePlatformTypes programForest =
        some { programForest with buildItems := after } ∧ Updated program after) ∧
      (updatePlatformTypes programForest).any (fun forest ↦
        (forest.buildItems["program"]?).any fun item ↦
          item.targetType = .objectCode ∧ item.getPlatformTypes = ["native"]) = true := by
  have hnative : IsName "native" := ⟨by decide, by simp [KeyVal.isSpace]⟩
  have hfree : ErrorFree programForest.buildItems := by
    refine ⟨fun name item hitem platformType htype ↦ ?_, fun name item hitem _ hall ↦ ?_⟩
    · rcases mem_program hitem with ⟨-, -, -, htypes⟩ | ⟨-, -, htypes⟩
      · obtain rfl := List.mem_singleton.mp (htypes ▸ htype)
        exact hnative
      · rw [htypes] at htype
        cases htype
    · rcases mem_program hitem with ⟨-, -, hcode, -⟩ | ⟨-, -, htypes⟩
      · cases hcode.symm.trans hall
      · exact htypes
  have hmem : ∀ name : String, name ∈ programForest.sortedItemNames ↔
      (programForest.buildItems[name]?).isSome := by
    intro name
    constructor
    · intro hname
      have hboth : ["library", "program"].all (fun name ↦ (program[name]?).isSome) = true := by
        decide +kernel
      exact List.all_eq_true.mp hboth name hname
    · intro hname
      obtain ⟨item, hitem⟩ := Option.isSome_iff_exists.mp hname
      rcases mem_program hitem with ⟨rfl, -⟩ | ⟨rfl, -⟩
      · exact List.mem_cons_self
      · exact List.mem_cons_of_mem _ List.mem_cons_self
  have hordered : Ordered (DepOn BuildItem.entry programForest.buildItems)
      programForest.sortedItemNames := by
    have hlibrary : ∀ dep, DepOn BuildItem.entry program "library" dep →
        dep ∈ ([] : List String) := by
      rintro dep ⟨item, hitem, hdep⟩
      rcases mem_program hitem with ⟨-, hdeps, -⟩ | ⟨hname, -⟩
      · exact hdeps ▸ hdep
      · exact absurd hname (by decide)
    have hprogram : ∀ dep, DepOn BuildItem.entry program "program" dep → dep ∈ ["library"] := by
      rintro dep ⟨item, hitem, hdep⟩
      rcases mem_program hitem with ⟨hname, -⟩ | ⟨-, hdeps, -⟩
      · exact absurd hname (by decide)
      · exact hdeps ▸ hdep
    exact (ordered_nil.snoc hlibrary).snoc hprogram
  obtain ⟨after, hrun, hupdated, -⟩ :=
    updatePlatformTypes_spec hfree (by decide) hmem hordered
  exact ⟨⟨after, hrun, hupdated⟩, by decide +kernel⟩

end Abuild.PlatformTypes
