import Abuild.ItemConfig
import Abuild.PlatformTables.Recheck
import Abuild.PlatformTypes.Update

/-!
What `checkPlatformTypes` promises to the update. Platform tables have no platform type of target
type `all`, so that an item whose platform types have been checked without an error has target type
`all` only where it has no platform types at all.
-/

set_option autoImplicit false
set_option relaxedAutoImplicit false

namespace Abuild.PlatformTypes

open Fallible
open PlatformTables (IsName Call call check checkTypes run new)
open Std (TreeMap TreeSet)

/-! ### Declared platform types -/

/-- The words of a text have characters of it that are no spaces. -/
theorem of_mem_splitBySpace {input word : String} (h : word ∈ Util.splitBySpace input) :
    word ≠ "" ∧ ∀ c ∈ word.toList, c ∈ input.toList ∧ KeyVal.isSpace c = false := by
  let Inside : List Char → Prop := fun cs ↦ ∀ c ∈ cs, c ∈ input.toList ∧ KeyVal.isSpace c = false
  have hfold : ∀ (cs : List Char) (r : List (List Char) × List Char), (∀ c ∈ cs, c ∈ input.toList) →
      (∀ w ∈ r.1, w ≠ [] ∧ Inside w) → Inside r.2 →
      (∀ w ∈ (cs.foldl Util.addToWords r).1, w ≠ [] ∧ Inside w) ∧
        Inside (cs.foldl Util.addToWords r).2 := by
    intro cs
    induction cs with
    | nil => exact fun r _ hfront hback ↦ ⟨hfront, hback⟩
    | cons c cs ih =>
      intro r hcs hfront hback
      obtain ⟨hc, hcs⟩ := List.forall_mem_cons.mp hcs
      rw [List.foldl_cons]
      unfold Util.addToWords
      split_ifs with hspace hempty
      · exact ih r hcs hfront hback
      · refine ih _ hcs ?_ fun _ hc ↦ absurd hc List.not_mem_nil
        refine List.forall_mem_append.mpr ⟨hfront, List.forall_mem_singleton.mpr ⟨?_, hback⟩⟩
        exact fun hnil ↦ hempty (List.isEmpty_iff.mpr hnil)
      · refine ih _ hcs hfront (List.forall_mem_append.mpr ⟨hback, ?_⟩)
        exact List.forall_mem_singleton.mpr ⟨hc, Bool.eq_false_iff.mpr hspace⟩
  obtain ⟨hfront, hback⟩ := hfold input.toList ([], []) (fun _ hc ↦ hc)
    (fun _ hw ↦ absurd hw List.not_mem_nil) fun _ hc ↦ absurd hc List.not_mem_nil
  obtain ⟨cs, hcs, rfl⟩ := List.mem_map.mp h
  have hword : cs ≠ [] ∧ Inside cs := by
    split_ifs at hcs with hempty
    · exact hfront cs hcs
    · rcases List.mem_append.mp hcs with hcs | hcs
      · exact hfront cs hcs
      · obtain rfl := List.mem_singleton.mp hcs
        exact ⟨fun hnil ↦ hempty (List.isEmpty_iff.mpr hnil), hback⟩
  refine ⟨fun hnil ↦ hword.1 (String.ofList_eq_empty_iff.mp hnil), ?_⟩
  rw [String.toList_ofList]
  exact hword.2

theorem isName_of_mem_splitBySpace {input word : String} (h : word ∈ Util.splitBySpace input) :
    IsName word :=
  ⟨(of_mem_splitBySpace h).1, fun c hc ↦ ((of_mem_splitBySpace h).2 c hc).2⟩

/-- The platform types of the items are the words that their configuration files declare. -/
def DeclaredTypes (builditems : BuildItemMap) : Prop :=
  ∀ (name : String) (item : BuildItem), builditems[name]? = some item →
    ∃ (new : BuildItem) (value : String), new.getPlatformTypes = [] ∧
      item.platformTypes = (new.setPlatformTypes (Util.splitBySpace value)).platformTypes

theorem DeclaredTypes.named {builditems : BuildItemMap} (h : DeclaredTypes builditems) :
    NamedTypes builditems := by
  intro name item hitem platformType htype
  obtain ⟨new, value, hnew, htypes⟩ := h name item hitem
  rw [mem_getPlatformTypes, htypes] at htype
  rcases mem_setPlatformTypes.mp htype with htype | htype
  · exact isName_of_mem_splitBySpace htype
  · rw [← mem_getPlatformTypes, hnew] at htype
    cases htype

/-! ### Target types in the tables -/

/-- Something is built for each platform type of tables that are no longer being initialized. -/
structure Built (d : PlatformTables) : Prop where
  initialized : d.initializing = false
  ne_all : ∀ (platformType : String) (targetType : TargetType),
    d.targetTypes[platformType]? = some targetType → targetType ≠ .all

section Tables

variable {d d' : PlatformTables} {selectors : TreeMap String PlatformSelector}
  {unusedSelectors unusedSelectors' : TreeMap String String}

theorem Built.congr (h : Built d) (hinit : d'.initializing = d.initializing)
    (htypes : d'.targetTypes = d.targetTypes) : Built d' :=
  ⟨hinit.trans h.initialized, htypes ▸ h.ne_all⟩

theorem checkTypes_keeps {types : List (String × TargetType)} {message : Option String}
    (h : checkTypes selectors types d unusedSelectors = some (d', unusedSelectors', message)) :
    d'.initializing = d.initializing ∧ d'.targetTypes = d.targetTypes := by
  induction types generalizing d unusedSelectors with
  | nil =>
    obtain ⟨rfl, -⟩ := Prod.mk.inj (Option.some_inj.mp h)
    exact ⟨rfl, rfl⟩
  | cons type types ih =>
    unfold checkTypes at h
    obtain ⟨r, -, h⟩ := Option.bind_eq_some_iff.mp h
    cases r with
    | error text =>
      obtain ⟨rfl, -⟩ := Prod.mk.inj (Option.some_inj.mp h)
      exact ⟨rfl, rfl⟩
    | ok entry =>
      have hrest := ih (d := d.addEntry type.1 entry) h
      exact hrest

theorem Built.call (h : Built d) {c : Call} (hcall : d.call c = some d') : Built d' := by
  cases c with
  | addPlatformType platformType targetType parentPlatformType =>
    obtain ⟨message, hadd⟩ := PlatformTables.call_addPlatformType hcall
    have hadded : ∀ g, ¬ d.RefusesType platformType targetType →
        Built (d.withType platformType targetType parentPlatformType g) := by
      intro g haccepts
      have hcode : targetType = .objectCode := by
        by_contra hother
        refine haccepts (Or.inl (not_or.mpr ⟨?_, hother⟩))
        rw [h.initialized]
        exact Bool.false_ne_true
      refine ⟨h.initialized, fun platformType' targetType' htype ↦ ?_⟩
      have htype : (d.targetTypes.insert platformType targetType)[platformType']? =
        some targetType' := htype
      rw [TreeMap.getElem?_insert] at htype
      split_ifs at htype with hname
      · obtain rfl := Option.some_inj.mp htype
        rw [hcode]
        exact TargetType.noConfusion
      · exact h.ne_all platformType' targetType' htype
    rcases PlatformTables.addPlatformType_spec hadd with ⟨-, -, rfl⟩ | ⟨haccepts, g, -, hrest⟩
    · exact h.congr rfl rfl
    · rcases hrest with ⟨-, -, rfl⟩ | ⟨-, ⟨-, -, rfl⟩ | ⟨-, -, g', -, rfl⟩⟩
      · exact hadded g haccepts
      · exact hadded g haccepts
      · exact hadded g' haccepts
  | addPlatform platform platformType lowpri =>
    obtain ⟨message, hadd⟩ := PlatformTables.call_addPlatform hcall
    rcases PlatformTables.addPlatform_cases hadd with rfl | ⟨n, g, -, rfl | ⟨-, g', -, rfl⟩⟩
    · exact h.congr rfl rfl
    · exact h.congr rfl rfl
    · exact h.congr rfl rfl
  | check selectors unusedSelectors =>
    obtain ⟨unusedSelectors', hcheck⟩ := PlatformTables.call_check hcall
    obtain ⟨g, -, htypes⟩ := PlatformTables.check_inv hcheck
    obtain ⟨hinit, htypes⟩ := checkTypes_keeps htypes
    exact h.congr hinit htypes

theorem exists_built_new : ∃ d, new = some d ∧ Built d := by
  have hnew : new.any (fun d ↦ !d.initializing &&
      d.targetTypes.toList.all fun p ↦ decide (p.2 ≠ .all)) = true := by
    decide +kernel
  cases hd : new with
  | none =>
    rw [hd] at hnew
    cases hnew
  | some d =>
    rw [hd, Option.any_some, Bool.and_eq_true, Bool.not_eq_true', List.all_eq_true] at hnew
    refine ⟨d, rfl, hnew.1, fun platformType targetType htype ↦ ?_⟩
    have hmem := TreeMap.mem_toList_iff_getElem?_eq_some.mpr htype
    exact of_decide_eq_true (hnew.2 (platformType, targetType) hmem)

theorem built_of_run {calls : List Call} (hrun : run calls = some d) : Built d := by
  obtain ⟨d₁, hnew, hbuilt⟩ := exists_built_new
  exact foldlM_induction ((PlatformTables.run_eq_some_iff hnew).mp hrun) hbuilt
    fun c _ s s' hcall hs ↦ hs.call hcall

end Tables

/-! ### Checked items -/

section Items

variable {d : PlatformTables} {location : FileLocation} {found : Findings}

/-- Without errors each platform type gives a target type, which is not `all`. -/
theorem targetTypesOf_spec (h : Built d) {platformTypes : List String}
    {targetTypes : List TargetType}
    (htypes : targetTypesOf d location platformTypes = some (targetTypes, found))
    (hfound : found.errors = []) :
    targetTypes.length = platformTypes.length ∧ .all ∉ targetTypes := by
  induction platformTypes generalizing targetTypes found with
  | nil =>
    obtain ⟨rfl, -⟩ := Prod.mk.inj (Option.some_inj.mp htypes)
    exact ⟨rfl, List.not_mem_nil⟩
  | cons platformType platformTypes ih =>
    unfold targetTypesOf at htypes
    obtain ⟨valid, hvalid, htypes⟩ := Option.bind_eq_some_iff.mp htypes
    cases valid with
    | false =>
      obtain ⟨⟨rest, found'⟩, -, htypes⟩ := Option.bind_eq_some_iff.mp htypes
      obtain ⟨-, rfl⟩ := Prod.mk.inj (Option.some_inj.mp htypes)
      cases hfound
    | true =>
      obtain ⟨targetType, htype, htypes⟩ := Option.bind_eq_some_iff.mp htypes
      obtain ⟨⟨rest, found'⟩, hrest, htypes⟩ := Option.bind_eq_some_iff.mp htypes
      obtain ⟨rfl, rfl⟩ := Prod.mk.inj (Option.some_inj.mp htypes)
      obtain ⟨hlength, hall⟩ := ih hrest hfound
      have hne : targetType ≠ .all := by
        obtain ⟨valid', -, htype⟩ := Option.bind_eq_some_iff.mp htype
        split_ifs at htype
        exact h.ne_all platformType targetType htype
      exact ⟨congrArg Nat.succ hlength, List.not_mem_cons_of_ne_of_not_mem hne.symm hall⟩

theorem checkItem_spec (h : Built d) {item item' : BuildItem}
    (hcheck : checkItem d item = some (item', found)) (hfound : found.errors = []) :
    ∃ targetType, item' = item.setTargetType targetType ∧
      (targetType = .all → item.getPlatformTypes = []) := by
  unfold checkItem at hcheck
  obtain ⟨⟨targetTypes, found'⟩, htypes, hcheck⟩ := Option.bind_eq_some_iff.mp hcheck
  dsimp only at hcheck
  rcases hdedup : targetTypes.dedup with _ | ⟨targetType, _ | ⟨other, rest⟩⟩
  · rw [hdedup] at hcheck
    obtain ⟨rfl, rfl⟩ := Prod.mk.inj (Option.some_inj.mp hcheck)
    refine ⟨.all, rfl, fun _ ↦ ?_⟩
    have hlength := (targetTypesOf_spec h htypes hfound).1
    have hnil : targetTypes = [] := by
      refine List.eq_nil_iff_forall_not_mem.mpr fun targetType hin ↦ ?_
      rw [← List.mem_dedup, hdedup] at hin
      exact List.not_mem_nil hin
    rw [hnil] at hlength
    exact List.length_eq_zero_iff.mp hlength.symm
  · rw [hdedup] at hcheck
    obtain ⟨rfl, rfl⟩ := Prod.mk.inj (Option.some_inj.mp hcheck)
    refine ⟨targetType, rfl, fun hall ↦ ?_⟩
    have hmem : targetType ∈ targetTypes := by
      rw [← List.mem_dedup, hdedup]
      exact List.mem_cons_self
    exact absurd (hall ▸ hmem) (targetTypesOf_spec h htypes hfound).2
  · rw [hdedup] at hcheck
    obtain ⟨-, rfl⟩ := Prod.mk.inj (Option.some_inj.mp hcheck)
    rw [Findings.errors_append] at hfound
    cases (List.append_eq_nil_iff.mp hfound).2

variable {platformData : TreeMap String PlatformTables} {declared builditems : BuildItemMap}
  {entries : List (String × BuildItem)} {r r' : BuildItemMap × Findings}

/-- An item that has been checked has its target type from its platform types. -/
def CheckedFrom (item item' : BuildItem) : Prop :=
  ∃ targetType, item' = item.setTargetType targetType ∧
    (targetType = .all → item.getPlatformTypes = [])

theorem checkEntry_spec (h : ∀ (tree : String) (d : PlatformTables),
      platformData[tree]? = some d → Built d) {entry : String × BuildItem}
    (hcheck : checkEntry platformData r entry = some r') (hfound : r'.2.errors = []) :
    r.2.errors = [] ∧
      ((entry.2.isLocal = false ∧ r' = r) ∨
        ∃ item', CheckedFrom entry.2 item' ∧ r'.1 = r.1.insert entry.1 item') := by
  obtain ⟨itemName, item⟩ := entry
  unfold checkEntry at hcheck
  dsimp only at hcheck
  split_ifs at hcheck with hlocal
  · obtain ⟨d, hd, hcheck⟩ := Option.bind_eq_some_iff.mp hcheck
    obtain ⟨⟨item', found'⟩, hitem, hcheck⟩ := Option.bind_eq_some_iff.mp hcheck
    obtain rfl := Option.some_inj.mp hcheck
    rw [Findings.errors_append] at hfound
    obtain ⟨hbefore, hitemFound⟩ := List.append_eq_nil_iff.mp hfound
    exact ⟨hbefore, Or.inr ⟨item', checkItem_spec (h item.treeName d hd) hitem hitemFound, rfl⟩⟩
  · obtain rfl := Option.some_inj.mp hcheck
    exact ⟨hfound, Or.inl ⟨Bool.eq_false_of_not_eq_true hlocal, rfl⟩⟩

theorem checkEntries_spec (h : ∀ (tree : String) (d : PlatformTables),
      platformData[tree]? = some d → Built d)
    (hcheck : entries.foldlM (checkEntry platformData) r = some r') (hfound : r'.2.errors = []) :
    r.2.errors = [] ∧ ∀ (name : String) (item' : BuildItem), r'.1[name]? = some item' →
      (r.1[name]? = some item' ∧ ∀ entry ∈ entries, entry.1 = name → entry.2.isLocal = false) ∨
        ∃ item, (name, item) ∈ entries ∧ CheckedFrom item item' := by
  induction entries generalizing r with
  | nil =>
    obtain rfl := Option.some_inj.mp hcheck
    exact ⟨hfound, fun name item' hitem' ↦ Or.inl ⟨hitem', fun _ hin ↦ absurd hin List.not_mem_nil⟩⟩
  | cons entry entries ih =>
    rw [foldlM_cons] at hcheck
    obtain ⟨r₁, hstep, hrest⟩ := Option.bind_eq_some_iff.mp hcheck
    obtain ⟨hfound₁, hitems⟩ := ih hrest
    obtain ⟨hfound₀, hentry⟩ := checkEntry_spec h hstep hfound₁
    refine ⟨hfound₀, fun name item' hitem' ↦ ?_⟩
    rcases hitems name item' hitem' with ⟨hbefore, hnone⟩ | ⟨item, hin, hfrom⟩
    · rcases hentry with ⟨hlocal, rfl⟩ | ⟨item₁, hfrom, hinsert⟩
      · exact Or.inl ⟨hbefore, List.forall_mem_cons.mpr ⟨fun _ ↦ hlocal, hnone⟩⟩
      · rw [hinsert, TreeMap.getElem?_insert] at hbefore
        split_ifs at hbefore with hname
        · obtain rfl := compare_eq_iff_eq.mp hname
          obtain rfl := Option.some_inj.mp hbefore
          exact Or.inr ⟨entry.2, List.mem_cons_self, hfrom⟩
        · refine Or.inl ⟨hbefore, List.forall_mem_cons.mpr ⟨fun heq ↦ ?_, hnone⟩⟩
          exact absurd (compare_eq_iff_eq.mpr heq) hname
    · exact Or.inr ⟨item, List.mem_cons_of_mem _ hin, hfrom⟩

/-- Items that the later checks have left their types, once these have been read and checked without
an error. -/
theorem errorFree_of_checkPlatformTypes (h : ∀ (tree : String) (d : PlatformTables),
      platformData[tree]? = some d → ∃ calls, run calls = some d)
    (hdeclared : DeclaredTypes declared)
    (hcheck : checkPlatformTypes platformData declared = some (builditems, found))
    (hfound : found.errors = []) {later : BuildItemMap}
    (hlater : ∀ (name : String) (item : BuildItem), later[name]? = some item →
      ∃ item', builditems[name]? = some item' ∧ item.platformTypes = item'.platformTypes ∧
        item.targetType = item'.targetType ∧ item.isLocal = item'.isLocal) : ErrorFree later := by
  have hbuilt : ∀ (tree : String) (d : PlatformTables), platformData[tree]? = some d → Built d := by
    intro tree d hd
    obtain ⟨calls, hrun⟩ := h tree d hd
    exact built_of_run hrun
  have hitems := (checkEntries_spec hbuilt hcheck hfound).2
  have hentry : ∀ {name : String} {item : BuildItem}, (name, item) ∈ declared.toList →
      declared[name]? = some item := fun hin ↦ TreeMap.mem_toList_iff_getElem?_eq_some.mp hin
  constructor
  · intro name item hitem platformType htype
    obtain ⟨item', hitem', htypes, -, -⟩ := hlater name item hitem
    unfold BuildItem.getPlatformTypes at htype
    rw [htypes] at htype
    rcases hitems name item' hitem' with ⟨hsame, -⟩ | ⟨item₀, hin, targetType, rfl, -⟩
    · exact hdeclared.named name item' hsame platformType htype
    · exact hdeclared.named name item₀ (hentry hin) platformType htype
  · intro name item hitem hlocal hall
    obtain ⟨item', hitem', htypes, htarget, hlocal'⟩ := hlater name item hitem
    unfold BuildItem.getPlatformTypes
    rw [htypes]
    rcases hitems name item' hitem' with ⟨hsame, hnone⟩ | ⟨item₀, hin, targetType, rfl, hnothing⟩
    · have hentry' : (name, item') ∈ declared.toList :=
        TreeMap.mem_toList_iff_getElem?_eq_some.mpr hsame
      rw [hlocal', hnone (name, item') hentry' rfl] at hlocal
      cases hlocal
    · exact hnothing (htarget.symm.trans hall)

end Items

end Abuild.PlatformTypes
