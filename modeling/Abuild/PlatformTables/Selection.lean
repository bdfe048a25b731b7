import Abuild.BuildItem
import Abuild.PlatformTables.Recheck

/-!
The platforms that a check selects. `PlatformTables.check` marks the platforms of each type that a
selector matches, and `BuildItem.getBestPlatformForType` looks for the first one that it matches:
both interpret the selectors, and they agree (`getBestPlatformForType_eq`).
-/

set_option autoImplicit false
set_option relaxedAutoImplicit false

namespace Abuild.PlatformTables

open Std (TreeMap)

/-! ### Marks -/

/-- The first platform with a mark. -/
def firstSelected (platforms : List (String × Bool)) : Option String :=
  (platforms.find? (·.2)).map Prod.fst

theorem map_fst_selectFirst (platforms : List (String × Bool)) :
    (selectFirst platforms).map Prod.fst = platforms.map Prod.fst := by
  cases platforms <;> rfl

theorem firstSelected_selectFirst (platforms : List (String × Bool)) :
    firstSelected (selectFirst platforms) = (platforms.map Prod.fst).head? := by
  cases platforms <;> rfl

section Mark

variable {m : PlatformSelector.Matcher} {platforms marked : List (String × Bool)}

/-- The marks of a matcher leave the platforms as they are. -/
theorem map_fst_of_mark
    (h : platforms.mapM (fun p ↦ (m.isMatch p.1).map fun selected ↦ (p.1, selected)) =
      some marked) :
    marked.map Prod.fst = platforms.map Prod.fst := by
  induction platforms generalizing marked with
  | nil =>
    obtain rfl : [] = marked := Option.some_inj.mp h
    rfl
  | cons p platforms ih =>
    rw [List.mapM_cons] at h
    obtain ⟨first, hfirst, h⟩ := Option.bind_eq_some_iff.mp h
    obtain ⟨rest, hrest, h⟩ := Option.bind_eq_some_iff.mp h
    obtain ⟨selected, -, rfl⟩ := Option.map_eq_some_iff.mp hfirst
    obtain rfl := Option.some_inj.mp h
    rw [List.map_cons, List.map_cons, ih hrest]

/-- The first match is the first platform with a mark. -/
theorem findMatch_of_mark
    (h : platforms.mapM (fun p ↦ (m.isMatch p.1).map fun selected ↦ (p.1, selected)) =
      some marked) :
    BuildItem.findMatch m (platforms.map Prod.fst) = some ((firstSelected marked).getD "") := by
  induction platforms generalizing marked with
  | nil =>
    obtain rfl : [] = marked := Option.some_inj.mp h
    rfl
  | cons p platforms ih =>
    rw [List.mapM_cons] at h
    obtain ⟨first, hfirst, h⟩ := Option.bind_eq_some_iff.mp h
    obtain ⟨rest, hrest, h⟩ := Option.bind_eq_some_iff.mp h
    obtain ⟨selected, hselected, rfl⟩ := Option.map_eq_some_iff.mp hfirst
    obtain rfl := Option.some_inj.mp h
    rw [List.map_cons, BuildItem.findMatch, hselected, Option.bind_eq_bind, Option.bind_some]
    cases selected with
    | true => rfl
    | false =>
      have hfind := ih hrest
      exact hfind

/-- A platform with a mark has a name. -/
theorem nonempty_of_mark
    (h : platforms.mapM (fun p ↦ (m.isMatch p.1).map fun selected ↦ (p.1, selected)) = some marked)
    {platform : String} (hplatform : platform ∈ marked.map Prod.fst) : platform ≠ "" := by
  induction platforms generalizing marked with
  | nil =>
    obtain rfl : [] = marked := Option.some_inj.mp h
    cases hplatform
  | cons p platforms ih =>
    rw [List.mapM_cons] at h
    obtain ⟨first, hfirst, h⟩ := Option.bind_eq_some_iff.mp h
    obtain ⟨rest, hrest, h⟩ := Option.bind_eq_some_iff.mp h
    obtain ⟨selected, hselected, rfl⟩ := Option.map_eq_some_iff.mp hfirst
    obtain rfl := Option.some_inj.mp h
    rcases List.mem_cons.mp hplatform with rfl | hplatform
    · rintro heq
      have hnone : m.isMatch "" = none := rfl
      rw [heq, hnone] at hselected
      cases hselected
    · exact ih hrest hplatform

end Mark

/-! ### What a check finds for a type -/

section CheckType

variable {d d' : PlatformTables} {selectors : TreeMap String PlatformSelector}
  {unusedSelectors unusedSelectors' : TreeMap String String} {platformType : String}
  {targetType : TargetType} {types : List (String × TargetType)}

/-- The platforms of a type in the order of their declaration, before they are selected. -/
def orderedPlatforms (d : PlatformTables) (deps : List String) : List (String × Bool) :=
  ((deps.filterMap matchPlatform).map fun platform ↦ (platform, false)).insertionSort
    fun p1 p2 ↦ d.declarationOrder p1 p2

theorem checkType_ok {entry : TypeEntry}
    (h : d.checkType selectors platformType targetType = some (.ok entry)) :
    (∀ key ps, findSelector selectors platformType targetType = some (key, ps) →
        ps.skip = true ∨ targetType = .objectCode) ∧
      ∃ deps used,
        d.platformGraph.getDirectDependencies (platformTypeItem platformType) = some deps ∧
        selectPlatforms ((findSelector selectors platformType targetType).map Prod.snd)
          (d.orderedPlatforms deps) = some (entry.platforms, used) := by
  unfold checkType at h
  dsimp only at h
  split_ifs at h with herror
  · cases h
  · obtain ⟨deps, hdeps, h⟩ := Option.bind_eq_some_iff.mp h
    obtain ⟨sdeps, -, h⟩ := Option.bind_eq_some_iff.mp h
    obtain ⟨⟨platforms, used⟩, hselect, h⟩ := Option.bind_eq_some_iff.mp h
    cases h
    refine ⟨fun key ps hselector ↦ ?_, deps, used, hdeps, hselect⟩
    rw [hselector, Option.any_some] at herror
    by_contra hnot
    obtain ⟨hskip, htarget⟩ := not_or.mp hnot
    exact herror (by simp [hskip, htarget])

/-- The platforms of each type are those that the check of the type has found. -/
theorem checkTypes_platformsByType (hnodup : (types.map Prod.fst).Nodup)
    (h : checkTypes selectors types d unusedSelectors = some (d', unusedSelectors', none)) :
    (∀ T, T ∉ types.map Prod.fst → d'.platformsByType[T]? = d.platformsByType[T]?) ∧
      ((platformType, targetType) ∈ types → ∃ (dt : PlatformTables) (entry : TypeEntry),
        dt.platformGraph = d.platformGraph ∧ dt.platformDeclaration = d.platformDeclaration ∧
        dt.checkType selectors platformType targetType = some (.ok entry) ∧
        d'.platformsByType[platformType]? = some entry.platforms) := by
  induction types generalizing d unusedSelectors with
  | nil =>
    obtain ⟨rfl, -⟩ := Prod.mk.inj (Option.some_inj.mp h)
    exact ⟨fun _ _ ↦ rfl, fun hmem ↦ absurd hmem List.not_mem_nil⟩
  | cons p types ih =>
    obtain ⟨T, target⟩ := p
    obtain ⟨hnew, hnodup⟩ := List.nodup_cons.mp hnodup
    obtain ⟨result, hresult, h⟩ := Option.bind_eq_some_iff.mp h
    cases result with
    | error message => cases h
    | ok entry =>
      obtain ⟨hother, hmember⟩ := ih hnodup h
      have hinsert : ∀ T' : String, (d.addEntry T entry).platformsByType[T']? =
          if compare T T' = .eq then some entry.platforms else d.platformsByType[T']? :=
        fun T' ↦ TreeMap.getElem?_insert
      constructor
      · intro T' hT'
        rw [List.map_cons, List.mem_cons, not_or] at hT'
        rw [hother T' hT'.2, hinsert, if_neg fun hcompare ↦
          hT'.1 (compare_eq_iff_eq.mp hcompare).symm]
      · intro hmem
        rcases List.mem_cons.mp hmem with heq | hmem
        · obtain ⟨rfl, rfl⟩ := Prod.mk.inj heq
          refine ⟨d, entry, rfl, rfl, hresult, ?_⟩
          rw [hother _ hnew, hinsert, if_pos (compare_eq_iff_eq.mpr rfl)]
        · exact hmember hmem

/-- What a check finds for one of the types. -/
theorem check_type (hcheck : d.check selectors unusedSelectors = some (d', unusedSelectors', none))
    (htype : d.targetTypes[platformType]? = some targetType) :
    ∃ (g : DependencyGraph) (dt : PlatformTables) (entry : TypeEntry),
      d.platformGraph.check = some (true, g) ∧ dt.platformGraph = g ∧
      dt.platformDeclaration = d.platformDeclaration ∧
      dt.checkType selectors platformType targetType = some (.ok entry) ∧
      d'.platformsByType[platformType]? = some entry.platforms := by
  obtain ⟨g, hg, htypes⟩ := check_inv hcheck
  have hnodup : (d.targetTypes.toList.map Prod.fst).Nodup := by
    rw [TreeMap.map_fst_toList_eq_keys]
    exact TreeMap.nodup_keys
  obtain ⟨dt, entry, hgraph, hdeclared, hentry⟩ := (checkTypes_platformsByType hnodup htypes).2
    (TreeMap.mem_toList_iff_getElem?_eq_some.mpr htype)
  exact ⟨g, dt, entry, hg, hgraph, hdeclared, hentry⟩

end CheckType

/-! ### The platform that is best -/

/-- The platform that a dependency is built for: the first one that a check has selected for the
type, or the first one of all when the type is skipped. -/
def bestOf (selectors : TreeMap String PlatformSelector) (platformType : String)
    (targetType : TargetType) (platforms : List (String × Bool)) : Option String :=
  if (findSelector selectors platformType targetType).any (·.2.skip) then
    (platforms.map Prod.fst).head?
  else firstSelected platforms

section Best

variable {ps : Option PlatformSelector} {platforms marked : List (String × Bool)} {used : Bool}

/-- The choice of `getBestPlatformForType` among the platforms of a type. -/
def chooseBest (objectCode : Bool) (ps : Option PlatformSelector) :
    List String → Option String
  | [] => some ""
  | first :: rest => do
    let result ← match ps with
      | some ps =>
        if objectCode ∧ ps.dfault = false then do
          let m ← PlatformSelector.Matcher.new first ps
          BuildItem.findMatch m (first :: rest)
        else some ""
      | none => some ""
    some (if result.isEmpty then first else result)

theorem chooseBest_none (objectCode : Bool) (names : List String) :
    chooseBest objectCode none names = some (names.head?.getD "") := by
  cases names <;> rfl

theorem chooseBest_false (ps : Option PlatformSelector) (names : List String) :
    chooseBest false ps names = some (names.head?.getD "") := by
  cases names with
  | nil => rfl
  | cons first rest =>
    cases ps with
    | none => rfl
    | some ps => simp [chooseBest]

/-- A matcher chooses what it marks first, or the first platform when it marks none. -/
theorem chooseBest_of_mark {m : PlatformSelector.Matcher} {ps : PlatformSelector}
    (hdefault : ps.dfault = false) (first : String × Bool) (rest : List (String × Bool))
    (hm : PlatformSelector.Matcher.new first.1 ps = some m)
    (hmark : (first :: rest).mapM (fun p ↦ (m.isMatch p.1).map fun selected ↦ (p.1, selected)) =
      some marked) : chooseBest true (some ps) ((first :: rest).map Prod.fst) =
        some ((if marked.any (·.2) then firstSelected marked else some first.1).getD "") := by
  have hfind := findMatch_of_mark hmark
  rw [List.map_cons] at hfind ⊢
  unfold chooseBest
  dsimp only
  rw [if_pos ⟨rfl, hdefault⟩, hm, Option.bind_eq_bind, Option.bind_some, hfind]
  by_cases hany : marked.any (·.2) = true
  · obtain ⟨p, hp, hselected⟩ := List.any_eq_true.mp hany
    obtain ⟨q, hq⟩ := Option.isSome_iff_exists.mp (List.find?_isSome.mpr ⟨p, hp, hselected⟩)
    have hfirst : firstSelected marked = some q.1 := by
      unfold firstSelected
      rw [hq]
      rfl
    have hne := nonempty_of_mark hmark (List.mem_map_of_mem (List.mem_of_find?_eq_some hq))
    rw [if_pos hany, hfirst]
    exact congrArg some (if_neg fun hempty ↦ hne (String.isEmpty_iff.mp hempty))
  · have hnone : firstSelected marked = none := by
      unfold firstSelected
      rw [Option.map_eq_none_iff, List.find?_eq_none]
      exact fun p hp hselected ↦ hany (List.any_eq_true.mpr ⟨p, hp, hselected⟩)
    rw [if_neg hany, hnone]
    rfl

/-- Selecting leaves the platforms as they are, and the choice among them is the first one that is
selected, or the first one of all when they are skipped. -/
theorem chooseBest_of_select (h : selectPlatforms ps platforms = some (marked, used)) :
    marked.map Prod.fst = platforms.map Prod.fst ∧
      chooseBest true (ps.filter fun ps ↦ !ps.skip) (platforms.map Prod.fst) =
        some ((if ps.any (·.skip) then (marked.map Prod.fst).head? else firstSelected marked).getD
          "") := by
  cases platforms with
  | nil =>
    obtain ⟨rfl, -⟩ := Prod.mk.inj (Option.some_inj.mp h)
    exact ⟨rfl, by split_ifs <;> rfl⟩
  | cons first rest =>
    have hfirst : ∀ used', some (selectFirst (first :: rest), used') = some (marked, used) →
        marked.map Prod.fst = (first :: rest).map Prod.fst ∧
        firstSelected marked = some first.1 := by
      intro used' heq
      obtain ⟨rfl, -⟩ := Prod.mk.inj (Option.some_inj.mp heq)
      exact ⟨map_fst_selectFirst _, firstSelected_selectFirst _⟩
    cases ps with
    | none =>
      obtain ⟨hsame, hselected⟩ := hfirst _ h
      rw [Option.filter_none, chooseBest_none, Option.any_none, if_neg Bool.false_ne_true,
        hselected]
      exact ⟨hsame, rfl⟩
    | some ps =>
      unfold selectPlatforms at h
      dsimp only at h
      rw [Option.any_some]
      by_cases hskip : ps.skip = true
      · rw [if_pos hskip] at h
        obtain ⟨rfl, -⟩ := Prod.mk.inj (Option.some_inj.mp h)
        rw [Option.filter_some_neg (by simp [hskip]), chooseBest_none, if_pos hskip]
        exact ⟨rfl, rfl⟩
      rw [if_neg hskip] at h
      rw [Option.filter_some_pos (by simp [hskip]), if_neg hskip]
      by_cases hdefault : ps.dfault = true
      · rw [if_pos hdefault] at h
        obtain ⟨hsame, hselected⟩ := hfirst _ h
        rw [hselected]
        refine ⟨hsame, ?_⟩
        simp [chooseBest, hdefault]
      rw [if_neg hdefault] at h
      obtain ⟨m, hm, h⟩ := Option.bind_eq_some_iff.mp h
      obtain ⟨matched, hmark, h⟩ := Option.bind_eq_some_iff.mp h
      rw [chooseBest_of_mark (Bool.eq_false_of_not_eq_true hdefault) first rest hm hmark]
      by_cases hany : matched.any (·.2) = true
      · rw [if_pos hany] at h ⊢
        obtain ⟨rfl, -⟩ := Prod.mk.inj (Option.some_inj.mp h)
        exact ⟨map_fst_of_mark hmark, rfl⟩
      · rw [if_neg hany] at h ⊢
        have hsame := map_fst_of_mark hmark
        obtain ⟨rfl, -⟩ := Prod.mk.inj (Option.some_inj.mp h)
        rw [map_fst_selectFirst, firstSelected_selectFirst, hsame]
        exact ⟨rfl, rfl⟩

end Best

/-- The selector that `getBestPlatformForType` falls back to. -/
def generalSelector (selectors : TreeMap String PlatformSelector) (platformType : String) :
    Option PlatformSelector :=
  match selectors[platformType]? with
  | some ps => some ps
  | none => selectors[PlatformSelector.any]?

/-- The platform type that a selector asks for. -/
def selectedType (ps : Option PlatformSelector) (platformType : String) : String :=
  match ps with
  | some ps => if ps.platformType ≠ PlatformSelector.any then ps.platformType else platformType
  | none => platformType

/-- What `getBestPlatformForType` chooses among the platforms of a type. -/
def bestAmong (item : BuildItem) (ps : Option PlatformSelector) : Option (List String) →
    Option String
  | some (first :: rest) => do
    let result ← match ps with
      | some ps =>
        if item.targetType = .objectCode ∧ ps.dfault = false then do
          let m ← PlatformSelector.Matcher.new first ps
          BuildItem.findMatch m (first :: rest)
        else some ""
      | none => some ""
    some (if result.isEmpty then first else result)
  | _ => some ""

theorem getBestPlatformForType_none (item : BuildItem) (platformType : String)
    (selectors : TreeMap String PlatformSelector) :
    item.getBestPlatformForType platformType none selectors =
      bestAmong item ((generalSelector selectors platformType).filter fun ps ↦ !ps.skip)
        item.platformTypes[selectedType ((generalSelector selectors platformType).filter
          fun ps ↦ !ps.skip) platformType]? := rfl

theorem getBestPlatformForType_eq_chooseBest {selectors : TreeMap String PlatformSelector}
    (hkeys : ∀ (key : String) ps, selectors[key]? = some ps → ps.platformType = key)
    {platformType : String} {item : BuildItem} {names : List String}
    (hitem : item.platformTypes[platformType]? = some names) :
    item.getBestPlatformForType platformType none selectors =
      chooseBest (item.targetType = .objectCode)
        ((generalSelector selectors platformType).filter fun ps ↦ !ps.skip) names := by
  have hsame : ∀ ps, generalSelector selectors platformType = some ps →
      (if ps.platformType ≠ PlatformSelector.any then ps.platformType else platformType) =
        platformType := by
    intro ps hps
    unfold generalSelector at hps
    split at hps
    · rename_i ps' hspecific
      obtain rfl := Option.some_inj.mp hps
      rw [hkeys platformType ps' hspecific]
      exact ite_id _ |>.trans rfl
    · rw [hkeys _ ps hps, if_neg (not_not.mpr rfl)]
  have htype : selectedType ((generalSelector selectors platformType).filter fun ps ↦ !ps.skip)
      platformType = platformType := by
    cases hfilter : (generalSelector selectors platformType).filter fun ps ↦ !ps.skip with
    | none => rfl
    | some ps => exact hsame ps (Option.filter_eq_some_iff.mp hfilter).1
  rw [getBestPlatformForType_none, htype, hitem]
  cases names with
  | nil => rfl
  | cons first rest =>
    unfold chooseBest bestAmong
    simp only [decide_eq_true_eq]

/-- The best platform of an item for a type that has been checked is the first one that the check
has selected, or the first one of the type when the check skips it. -/
theorem getBestPlatformForType_eq {d d' : PlatformTables}
    {selectors : TreeMap String PlatformSelector}
    {unusedSelectors unusedSelectors' : TreeMap String String}
    (hcheck : d.check selectors unusedSelectors = some (d', unusedSelectors', none))
    (hkeys : ∀ (key : String) ps, selectors[key]? = some ps → ps.platformType = key)
    {platformType : String} {targetType : TargetType}
    (htype : d.targetTypes[platformType]? = some targetType) {item : BuildItem}
    (htarget : item.targetType = targetType) {platforms : List (String × Bool)}
    (hplatforms : d'.platformsByType[platformType]? = some platforms)
    (hitem : item.platformTypes[platformType]? = some (platforms.map Prod.fst)) :
    item.getBestPlatformForType platformType none selectors =
      some ((bestOf selectors platformType targetType platforms).getD "") := by
  obtain ⟨g, dt, entry, -, -, -, hentry, hfound⟩ := check_type hcheck htype
  obtain rfl := Option.some_inj.mp (hfound.symm.trans hplatforms)
  obtain ⟨hskips, deps, used, -, hselect⟩ := checkType_ok hentry
  obtain ⟨hsame, hbest⟩ := chooseBest_of_select hselect
  rw [getBestPlatformForType_eq_chooseBest hkeys hitem, htarget]
  unfold bestOf
  by_cases hobject : targetType = .objectCode
  · subst hobject
    have hgeneral : generalSelector selectors platformType =
        (findSelector selectors platformType .objectCode).map Prod.snd := by
      unfold generalSelector findSelector
      cases selectors[platformType]? with
      | some ps => rfl
      | none => cases selectors[PlatformSelector.any]? <;> rfl
    rw [hgeneral, hsame, decide_eq_true rfl, hbest, Option.any_map, hsame]
  · rw [decide_eq_false hobject, chooseBest_false]
    cases hselector : findSelector selectors platformType targetType with
    | none =>
      rw [hselector, Option.map_none, Option.filter_none, chooseBest_none, Option.any_none,
        if_neg Bool.false_ne_true] at hbest
      rw [hsame, hbest, Option.any_none, if_neg Bool.false_ne_true]
    | some selector =>
      have hskip := (hskips _ _ hselector).resolve_right hobject
      rw [Option.any_some, if_pos hskip]

/-! ### A selector for a compiler -/

/-- Two compilers for the native type. -/
def twoCompilers : List Call :=
  [.addPlatform "linux.ix86.gnu.gcc" ptNative false,
    .addPlatform "linux.ix86.gnu.icc" ptNative false]

/-- The selector `native:compiler=gcc`. -/
def selectGcc : TreeMap String PlatformSelector :=
  TreeMap.ofList [(ptNative, PlatformSelector.mk false false ptNative "" "" "" "gcc" "")]

/-- An item for the platforms of `twoCompilers`. -/
def twoCompilersItem : BuildItem :=
  { BuildItem.new "item" "tree" ⟨"item", .empty, "/item", [], ∅, ∅, ∅, [], .empty, .empty⟩ with
    targetType := .objectCode
    platformTypes := TreeMap.ofList [(ptNative, ["linux.ix86.gnu.icc", "linux.ix86.gnu.gcc"])] }

theorem getBestPlatformForType_selectGcc :
    ((run twoCompilers).bind fun d ↦ d.check selectGcc ∅).isSome ∧
      twoCompilersItem.getBestPlatformForType ptNative none selectGcc =
        some ((bestOf selectGcc ptNative .objectCode
          [("linux.ix86.gnu.icc", false), ("linux.ix86.gnu.gcc", true)]).getD "") := by
  have htype : (run twoCompilers).map (·.targetTypes[ptNative]?) = some (some .objectCode) := by
    decide +kernel
  have hchecked : ((run twoCompilers).bind fun d ↦ d.check selectGcc ∅).map (fun result ↦
      (result.1.platformsByType[ptNative]?, result.2.2)) =
        some (some [("linux.ix86.gnu.icc", false), ("linux.ix86.gnu.gcc", true)], none) := by
    decide +kernel
  obtain ⟨⟨d', unusedSelectors', message⟩, hcheck, heq⟩ := Option.map_eq_some_iff.mp hchecked
  obtain ⟨hplatforms, rfl⟩ := Prod.mk.inj heq
  refine ⟨by rw [hcheck]; rfl, ?_⟩
  obtain ⟨d, hrun, hcheck⟩ := Option.bind_eq_some_iff.mp hcheck
  rw [hrun, Option.map_some] at htype
  have hkeys : ∀ (key : String) ps, selectGcc[key]? = some ps → ps.platformType = key := by
    intro key ps hps
    rw [selectGcc, TreeMap.ofList_singleton, TreeMap.getElem?_insert] at hps
    split_ifs at hps with hcompare
    · rw [← Option.some_inj.mp hps]
      exact compare_eq_iff_eq.mp hcompare
    · cases TreeMap.getElem?_emptyc.symm.trans hps
  have hitem : twoCompilersItem.platformTypes[ptNative]? =
      some ["linux.ix86.gnu.icc", "linux.ix86.gnu.gcc"] := by
    decide +kernel
  exact getBestPlatformForType_eq hcheck hkeys (Option.some_inj.mp htype) rfl hplatforms hitem

end Abuild.PlatformTables
