import Abuild.PlatformTables.Selection

/-!
The order in which platforms are declared. The numbers that `addPlatform` gives to platforms count
upwards, and downwards for those of low priority, through all types; a check recovers from them the
order of the platforms of each type (`platformsByType_declared`).
-/

set_option autoImplicit false
set_option relaxedAutoImplicit false

namespace Abuild.PlatformTables

open Std (TreeMap)
open Fallible DependencyGraph

/-! ### Sorting by the later element -/

section Sorting

variable {α : Type} {r : α → α → Prop} [DecidableRel r] {low : α → Bool} {a : α} {l xs ys : List α}

/-- An element is inserted behind those that it does not come before. -/
theorem orderedInsert_append (hxs : ∀ x ∈ xs, ¬ r a x) (hys : ∀ y ∈ ys, r a y) :
    (xs ++ ys).orderedInsert r a = xs ++ a :: ys := by
  induction xs with
  | nil =>
    cases ys with
    | nil => rfl
    | cons y ys => exact List.orderedInsert_cons_of_le r ys (hys y List.mem_cons_self)
  | cons x xs ih =>
    obtain ⟨hx, hxs⟩ := List.forall_mem_cons.mp hxs
    rw [List.cons_append, List.orderedInsert_of_not_le r _ hx, ih hxs, List.cons_append]

/-- Where the later one of two elements says whether the earlier one comes first, sorting reverses
the elements that say no and puts those that say yes behind them. -/
theorem insertionSort_of_pairwise (h : l.Pairwise fun a b ↦ (r a b ↔ low b = true)) :
    l.insertionSort r = (l.filter fun a ↦ !low a).reverse ++ l.filter low := by
  induction l with
  | nil => rfl
  | cons a l ih =>
    obtain ⟨ha, hl⟩ := List.pairwise_cons.mp h
    have hbefore : ∀ x ∈ (l.filter fun a ↦ !low a).reverse, ¬ r a x := by
      intro x hx
      have hmem := List.mem_filter.mp (List.mem_reverse.mp hx)
      rw [ha x hmem.1]
      simpa using hmem.2
    have hafter : ∀ y ∈ l.filter low, r a y := by
      intro y hy
      have hmem := List.mem_filter.mp hy
      exact (ha y hmem.1).mpr hmem.2
    rw [List.insertionSort_cons, ih hl, orderedInsert_append hbefore hafter]
    cases hlow : low a with
    | true => simp [hlow]
    | false => simp [hlow]

end Sorting

/-! ### Declarations -/

/-- The call does not throw an exception if it is one that adds a platform. -/
def Call.isAdded (d : PlatformTables) : Call → Bool
  | .addPlatform platform platformType lowpri =>
    (d.addPlatform platform platformType lowpri).any (·.2.isNone)
  | _ => true

/-- Every call that adds a platform does so without an exception. -/
def addsAll : List Call → PlatformTables → Bool
  | [], _ => true
  | c :: calls, d => c.isAdded d && (d.call c).all fun d ↦ addsAll calls d

structure Declaration where
  platform : String
  platformType : String
  lowpri : Bool

def Call.declaration : Call → Option Declaration
  | .addPlatform platform platformType lowpri => some ⟨platform, platformType, lowpri⟩
  | _ => none

def declarations (calls : List Call) : List Declaration := calls.filterMap Call.declaration

/-- The platforms of a type that have been declared with or without low priority. -/
def declaredFor (platformType : String) (lowpri : Bool) (calls : List Call) : List String :=
  ((declarations calls).filter fun x ↦ x.platformType = platformType ∧ x.lowpri = lowpri).map
    Declaration.platform

/-- The platforms that have been declared, in their order, with the numbers that they have, and as
what the platform types depend on. -/
structure Declared (d : PlatformTables) (xs : List Declaration) : Prop where
  size : d.platformDeclaration.size = xs.length
  priority : ∀ (i : ℕ) (x : Declaration), xs[i]? = some x →
    d.platformDeclaration[x.platform]? = some (if x.lowpri then -(i : ℤ) else i)
  exists_priority : ∀ platform ∈ d.platformDeclaration, ∃ x ∈ xs, x.platform = platform
  platforms : ∀ platformType : String,
    (d.platformGraph.dependencies.getD (platformTypeItem platformType) []).filterMap matchPlatform =
      (xs.filter (·.platformType = platformType)).map Declaration.platform

theorem matchPlatform_platformItem {platform : String} (h : IsName platform) :
    matchPlatform (platformItem platform) = some platform :=
  matchItem_eq_some_iff.mpr ⟨rfl, h⟩

theorem matchPlatform_platformTypeItem (platformType : String) :
    matchPlatform (platformTypeItem platformType) = none := by
  rw [Option.eq_none_iff_forall_not_mem]
  intro platform hplatform
  obtain ⟨heq, hname⟩ := matchItem_eq_some_iff.mp hplatform
  exact platformItem_ne hname heq.symm

section Step

variable {d d' : PlatformTables} {xs : List Declaration}

/-- A platform type is declared without platforms. -/
theorem Declared.addItem {g : DependencyGraph} {item : String} (h : Declared d xs)
    (hg : d.platformGraph.addItem item = some g) (platformType : String) :
    (g.dependencies.getD (platformTypeItem platformType) []).filterMap matchPlatform =
      (xs.filter (·.platformType = platformType)).map Declaration.platform := by
  obtain ⟨hnew, -, rfl⟩ := addItem_spec hg
  rw [← h.platforms platformType, TreeMap.getD_insert]
  split_ifs with hitem
  · rw [compare_eq_iff_eq.mp hitem] at hnew
    rw [TreeMap.getD_eq_fallback hnew]
  · rfl

theorem getD_addDependency {g g' : DependencyGraph} {platformType dep : String}
    (hg : g.addDependency (platformTypeItem platformType) dep = some g') (platformType' : String) :
    (g'.dependencies.getD (platformTypeItem platformType') []).filterMap matchPlatform =
      (g.dependencies.getD (platformTypeItem platformType') []).filterMap matchPlatform ++
        if platformType = platformType' then (matchPlatform dep).toList else [] := by
  obtain ⟨-, -, rfl⟩ := addDependency_spec hg
  rw [TreeMap.getD_insert]
  by_cases htype : platformType = platformType'
  · subst htype
    rw [if_pos (compare_eq_iff_eq.mpr rfl), if_pos rfl, List.filterMap_append]
    cases hmatch : matchPlatform dep with
    | none => simp [hmatch]
    | some platform => simp [hmatch]
  · rw [if_neg htype, if_neg fun hcompare ↦ htype (platformTypeItem_inj.mp
      (compare_eq_iff_eq.mp hcompare)), List.append_nil]

theorem Declared.addPlatformType {platformType parentPlatformType : String}
    {targetType : TargetType} {message : Option String} (h : Declared d xs)
    (hadd : d.addPlatformType platformType targetType parentPlatformType = some (d', message)) :
    Declared d' xs := by
  rcases addPlatformType_cases hadd with rfl | ⟨-, g, hg, rfl | ⟨-, g', hg', rfl⟩⟩
  · exact ⟨h.size, h.priority, h.exists_priority, h.platforms⟩
  · exact ⟨h.size, h.priority, h.exists_priority, h.addItem hg⟩
  · refine ⟨h.size, h.priority, h.exists_priority, fun platformType' ↦ ?_⟩
    show (g'.dependencies.getD _ []).filterMap matchPlatform = _
    rw [getD_addDependency hg', h.addItem hg, matchPlatform_platformTypeItem, Option.toList_none,
      ite_self, List.append_nil]

/-- A platform that is added comes last. -/
theorem Declared.addPlatform {platform platformType : String} {lowpri : Bool} (h : Declared d xs)
    (hname : IsName platform)
    (hadd : d.addPlatform platform platformType lowpri = some (d', none)) :
    Declared d' (xs ++ [⟨platform, platformType, lowpri⟩]) := by
  rcases addPlatform_spec hadd with ⟨-, hthrown, -⟩ | ⟨hnew, g, hg, ⟨-, hthrown, -⟩ | hadded⟩
  · cases hthrown
  · cases hthrown
  · obtain ⟨-, -, g', hg', rfl⟩ := hadded
    have hinsert : ∀ platform' : String,
        (d.platformDeclaration.insert platform (d.nextPriority lowpri))[platform']? =
          if platform = platform' then some (d.nextPriority lowpri)
          else d.platformDeclaration[platform']? := by
      intro platform'
      rw [TreeMap.getElem?_insert]
      exact if_congr compare_eq_iff_eq rfl rfl
    refine ⟨?_, fun i x hx ↦ ?_, fun platform' hplatform' ↦ ?_, fun platformType' ↦ ?_⟩
    · show (d.platformDeclaration.insert platform _).size = _
      rw [TreeMap.size_insert, if_neg (mt TreeMap.contains_iff_mem.mp hnew), h.size,
        List.length_append, List.length_singleton]
    · show (d.platformDeclaration.insert platform _)[x.platform]? = _
      rw [hinsert]
      rcases Nat.lt_or_ge i xs.length with hlt | hge
      · rw [List.getElem?_append_left hlt] at hx
        have hold := h.priority i x hx
        rw [if_neg, hold]
        rintro rfl
        exact hnew (TreeMap.mem_iff_isSome_getElem?.mpr (hold ▸ rfl))
      · rw [List.getElem?_append_right hge] at hx
        obtain ⟨hi, rfl⟩ := List.getElem?_eq_some_iff.mp hx
        have hlength : i = xs.length := by
          rw [List.length_singleton] at hi
          omega
        rw [List.getElem_singleton, if_pos rfl, hlength, ← h.size]
        rfl
    · rcases TreeMap.mem_insert.mp hplatform' with hcompare | hold
      · exact ⟨_, List.mem_concat_self, compare_eq_iff_eq.mp hcompare⟩
      · obtain ⟨x, hx, heq⟩ := h.exists_priority platform' hold
        exact ⟨x, List.mem_append_left _ hx, heq⟩
    · show (g'.dependencies.getD _ []).filterMap matchPlatform = _
      rw [getD_addDependency hg', h.addItem hg, matchPlatform_platformItem hname,
        List.filter_append,
        List.map_append]
      congr 1
      split_ifs with htype <;> simp [htype]

theorem Declared.congr (h : Declared d xs)
    (hdeclared : d'.platformDeclaration = d.platformDeclaration)
    (hgraph : d'.platformGraph.dependencies.Equiv d.platformGraph.dependencies) :
    Declared d' xs := by
  refine ⟨?_, ?_, ?_, fun platformType ↦ ?_⟩
  · rw [hdeclared, h.size]
  · rw [hdeclared]
    exact h.priority
  · rw [hdeclared]
    exact h.exists_priority
  · rw [hgraph.getD_eq, h.platforms]

theorem Declared.call {c : Call} (h : Declared d xs) (hkept : Kept d) (hname : c.Named)
    (hadded : c.isAdded d = true) (hcall : d.call c = some d') :
    Declared d' (xs ++ declarations [c]) := by
  cases c with
  | addPlatformType platformType targetType parentPlatformType =>
    obtain ⟨message, hadd⟩ := call_addPlatformType hcall
    have hdeclared := h.addPlatformType hadd
    rwa [show declarations [_] = [] from rfl, List.append_nil]
  | addPlatform platform platformType lowpri =>
    obtain ⟨message, hadd⟩ := call_addPlatform hcall
    unfold Call.isAdded at hadded
    dsimp only at hadded
    rw [hadd, Option.any_some, Option.isNone_iff_eq_none] at hadded
    exact h.addPlatform hname (hadded ▸ hadd)
  | check selectors unusedSelectors =>
    obtain ⟨unusedSelectors', hcheck⟩ := call_check hcall
    obtain ⟨g, hchecked⟩ := hkept.check hcheck
    rw [show declarations [_] = [] from rfl, List.append_nil]
    refine h.congr (by rw [hchecked.tables]) ?_
    rw [hchecked.tables]
    exact hchecked.dependencies

theorem declarations_append (calls calls' : List Call) :
    declarations (calls ++ calls') = declarations calls ++ declarations calls' :=
  List.filterMap_append

theorem Declared.foldlM {calls : List Call} (h : Declared d xs) (hkept : Kept d)
    (hnames : ∀ c ∈ calls, c.Named) (hadded : addsAll calls d = true)
    (hrun : calls.foldlM PlatformTables.call d = some d') :
    Declared d' (xs ++ declarations calls) := by
  induction calls generalizing d xs with
  | nil =>
    obtain rfl : d = d' := Option.some_inj.mp hrun
    rwa [show declarations [] = [] from rfl, List.append_nil]
  | cons c calls ih =>
    obtain ⟨hname, hrest⟩ := List.forall_mem_cons.mp hnames
    obtain ⟨d₁, hcall, hnext⟩ :=
      Option.bind_eq_some_iff.mp ((foldlM_cons c calls d).symm.trans hrun)
    obtain ⟨hc, hcalls⟩ := Bool.and_eq_true_iff.mp hadded
    rw [hcall, Option.all_some] at hcalls
    have hdeclared := ih (h.call hkept hname hc hcall) (hkept.call hname hcall) hrest hcalls hnext
    rwa [List.append_assoc, ← declarations_append] at hdeclared

theorem declared_initial : Declared initial [] where
  size := rfl
  priority i x hx := by cases hx
  exists_priority platform h := absurd h TreeMap.not_mem_emptyc
  platforms platformType := rfl

theorem declared_new (hnew : new = some d) : Declared d (declarations builtIn) := by
  obtain ⟨d₁, hrun, rfl⟩ := Option.map_eq_some_iff.mp hnew
  have hadded : addsAll builtIn initial = true := by
    decide +kernel
  have hdeclared := declared_initial.foldlM kept_initial isName_of_mem_builtIn hadded hrun
  exact hdeclared.congr rfl TreeMap.Equiv.rfl

theorem declared_of_run {calls : List Call} (hnames : ∀ c ∈ calls, c.Named)
    (hadded : new.all (addsAll calls) = true) (hrun : run calls = some d) :
    Declared d (declarations (builtIn ++ calls)) := by
  obtain ⟨d₁, hnew, hkept, -⟩ := exists_new
  rw [hnew, Option.all_some] at hadded
  rw [declarations_append]
  exact (declared_new hnew).foldlM hkept hnames hadded ((run_eq_some_iff hnew).mp hrun)

end Step

/-! ### The order that a check recovers -/

section Order

variable {d : PlatformTables} {xs : List Declaration}

theorem Declared.priority_inj (h : Declared d xs) {platform platform' : String} {n : ℤ}
    (hn : d.platformDeclaration[platform]? = some n)
    (hn' : d.platformDeclaration[platform']? = some n) : platform = platform' := by
  have hindex : ∀ p : String, d.platformDeclaration[p]? = some n →
      ∃ i x, xs[i]? = some x ∧ x.platform = p ∧ i = n.natAbs := by
    intro p hp
    obtain ⟨x, hx, rfl⟩ := h.exists_priority p (TreeMap.mem_iff_isSome_getElem?.mpr (hp ▸ rfl))
    obtain ⟨i, hi⟩ := List.mem_iff_getElem?.mp hx
    have hpriority := Option.some_inj.mp ((h.priority i x hi).symm.trans hp)
    refine ⟨i, x, hi, rfl, ?_⟩
    split_ifs at hpriority <;> omega
  obtain ⟨i, x, hi, rfl, heq⟩ := hindex platform hn
  obtain ⟨i', x', hi', rfl, heq'⟩ := hindex platform' hn'
  rw [heq, ← heq', hi'] at hi
  rw [Option.some_inj.mp hi]

/-- Of two declarations the later one comes first unless it has low priority. -/
theorem Declared.pairwise (h : Declared d xs) :
    xs.Pairwise fun x y ↦ (d.declarationOrder (x.platform, false) (y.platform, false) = true ↔
      y.lowpri = true) := by
  rw [List.pairwise_iff_getElem]
  intro i j hi hj hij
  have hpriority : ∀ (k : ℕ) (hk : k < xs.length),
      d.platformDeclaration.getD xs[k].platform 0 = if xs[k].lowpri then -(k : ℤ) else k :=
    fun k hk ↦ TreeMap.getD_eq_getD_getElem?.trans
      (congrArg (·.getD 0) (h.priority k xs[k] (List.getElem?_eq_getElem hk)))
  unfold declarationOrder
  rw [hpriority i hi, hpriority j hj, decide_eq_true_iff]
  split_ifs with hlow hlow' hlow' <;> simp [hlow'] <;> omega

/-- The platforms of a type as a check sorts them. -/
theorem Declared.orderedPlatforms (h : Declared d xs) (platformType : String) {deps : List String}
    (hdeps : deps.filterMap matchPlatform =
      (xs.filter (·.platformType = platformType)).map Declaration.platform) :
    d.orderedPlatforms deps =
      (((xs.filter (·.platformType = platformType)).filter fun x ↦ !x.lowpri).reverse ++
        (xs.filter (·.platformType = platformType)).filter Declaration.lowpri).map
          fun x ↦ (x.platform, false) := by
  have hsort := insertionSort_of_pairwise (h.pairwise.sublist
    (List.filter_sublist (p := fun x ↦ decide (x.platformType = platformType))))
  rw [← hsort, List.map_insertionSort _ (fun p1 p2 ↦ d.declarationOrder p1 p2 = true) _ _
    fun _ _ _ _ ↦ Iff.rfl]
  unfold PlatformTables.orderedPlatforms
  rw [hdeps, List.map_map]
  rfl

/-- A check finds the platforms of a type in the order in which it sorts them. -/
theorem Declared.check_type (h : Declared d xs) (hkept : Kept d)
    {selectors : TreeMap String PlatformSelector}
    {unusedSelectors unusedSelectors' : TreeMap String String} {d' : PlatformTables}
    (hcheck : d.check selectors unusedSelectors = some (d', unusedSelectors', none))
    {platformType : String} {targetType : TargetType}
    (htype : d.targetTypes[platformType]? = some targetType) :
    ∃ platforms used, d'.platformsByType[platformType]? = some platforms ∧
      selectPlatforms ((findSelector selectors platformType targetType).map Prod.snd)
        ((((xs.filter (·.platformType = platformType)).filter fun x ↦ !x.lowpri).reverse ++
          (xs.filter (·.platformType = platformType)).filter Declaration.lowpri).map
            fun x ↦ (x.platform, false)) = some (platforms, used) := by
  obtain ⟨g, dt, entry, hg, hgraph, hdeclared, hentry, hfound⟩ :=
    PlatformTables.check_type hcheck htype
  obtain ⟨-, deps, used, hdeps, hselect⟩ := checkType_ok hentry
  obtain ⟨result, g', hg', -, hready⟩ := hkept.unspoiled.check
  obtain ⟨rfl, rfl⟩ := Prod.mk.inj (Option.some_inj.mp (hg'.symm.trans hg))
  obtain ⟨-, hstate, hequiv⟩ := hready rfl
  have hsame : Declared dt xs := h.congr hdeclared (hgraph ▸ hequiv)
  rw [hgraph, getDirectDependencies_of_ready hstate] at hdeps
  have hplatforms := hsame.platforms platformType
  rw [hgraph, TreeMap.getD_eq_getD_getElem?, hdeps, Option.getD_some] at hplatforms
  rw [hsame.orderedPlatforms platformType hplatforms] at hselect
  exact ⟨entry.platforms, used, hfound, hselect⟩

end Order

theorem declaredFor_eq (platformType : String) (lowpri : Bool) (calls : List Call) :
    declaredFor platformType lowpri calls =
      (((declarations calls).filter (·.platformType = platformType)).filter
        (·.lowpri = lowpri)).map Declaration.platform := by
  unfold declaredFor
  rw [List.filter_filter]
  congr 2
  funext x
  rw [← Bool.decide_and]
  exact decide_eq_decide.mpr and_comm

theorem selectPlatforms_none (platforms : List (String × Bool)) :
    selectPlatforms none platforms = some (selectFirst platforms, false) := by
  cases platforms <;> rfl

/-- Without a selector the first platform of a type is selected and no other one. -/
theorem selected_iff_of_selectFirst {platforms : List (String × Bool)}
    (h : ∀ p ∈ platforms, p.2 = false) {i : ℕ} {platform : String} {selected : Bool}
    (hi : (selectFirst platforms)[i]? = some (platform, selected)) : selected = true ↔ i = 0 := by
  cases platforms with
  | nil => cases hi
  | cons first rest =>
    cases i with
    | zero =>
      cases hi
      exact iff_of_true rfl rfl
    | succ i =>
      have hmem : (platform, selected) ∈ rest := List.mem_of_getElem? hi
      have hfalse := h _ (List.mem_cons_of_mem first hmem)
      exact iff_of_false (fun htrue ↦ by cases hfalse.symm.trans htrue) (Nat.succ_ne_zero i)

/-- When all platforms have been added, no two of them have the same priority, and a check lists the
platforms of each type from the last one that was declared to the first, with those of low priority
behind them from the first to the last. -/
theorem platformsByType_declared {calls : List Call} (hnames : ∀ c ∈ calls, c.Named)
    (hadded : new.all (addsAll calls) = true) {d d' : PlatformTables} (hrun : run calls = some d)
    {selectors : TreeMap String PlatformSelector}
    {unusedSelectors unusedSelectors' : TreeMap String String}
    (hcheck : d.check selectors unusedSelectors = some (d', unusedSelectors', none)) :
    (∀ (platform platform' : String) (n : ℤ), d'.platformDeclaration[platform]? = some n →
        d'.platformDeclaration[platform']? = some n → platform = platform') ∧
      ∀ (platformType : String) (targetType : TargetType),
        d'.targetTypes[platformType]? = some targetType →
          ∃ platforms, d'.platformsByType[platformType]? = some platforms ∧
            platforms.map Prod.fst =
              (declaredFor platformType false (builtIn ++ calls)).reverse ++
                declaredFor platformType true (builtIn ++ calls) ∧
            (findSelector selectors platformType targetType = none →
              ∀ (i : ℕ) platform selected, platforms[i]? = some (platform, selected) →
                (selected = true ↔ i = 0)) := by
  have hkept := kept_of_run hnames hrun
  have hdeclared := declared_of_run hnames hadded hrun
  obtain ⟨g, hchecked⟩ := hkept.check hcheck
  rw [hchecked.tables]
  refine ⟨fun platform platform' n ↦ hdeclared.priority_inj, fun platformType targetType htype ↦ ?_⟩
  obtain ⟨platforms, used, hfound, hselect⟩ := hdeclared.check_type hkept hcheck htype
  refine ⟨platforms, hfound, ?_, fun hselector i platform selected hi ↦ ?_⟩
  · rw [(chooseBest_of_select hselect).1, declaredFor_eq, declaredFor_eq, List.map_map,
      List.map_append, List.map_reverse]
    simp only [Bool.decide_eq_false, Bool.decide_eq_true]
    rfl
  · rw [hselector, Option.map_none, selectPlatforms_none] at hselect
    obtain ⟨rfl, -⟩ := Prod.mk.inj (Option.some_inj.mp hselect)
    refine selected_iff_of_selectFirst (fun p hp ↦ ?_) hi
    obtain ⟨x, -, rfl⟩ := List.mem_map.mp hp
    rfl

/-! ### Compilers of one type and of another -/

/-- Compilers of which one is to be chosen by name only. -/
def compilerCalls : List Call :=
  [.addPlatform "linux.ix86.gcc" ptNative false,
    .addPlatformType "embedded" .objectCode "",
    .addPlatform "linux.ix86.gcc.test" ptNative true,
    .addPlatform "arm.gcc" "embedded" false,
    .addPlatform "linux.ix86.icc" ptNative false]

theorem named_compilerCalls : ∀ c ∈ compilerCalls, c.Named := by
  simp only [compilerCalls, List.forall_mem_cons]
  exact ⟨⟨by decide, by simp [KeyVal.isSpace]⟩, ⟨by decide, by simp [KeyVal.isSpace]⟩,
    ⟨by decide, by simp [KeyVal.isSpace]⟩, ⟨by decide, by simp [KeyVal.isSpace]⟩,
    ⟨by decide, by simp [KeyVal.isSpace]⟩, fun _ hc ↦ by cases hc⟩

theorem platformsByType_compilerCalls :
    ∃ d d' unusedSelectors', run compilerCalls = some d ∧
      d.check ∅ ∅ = some (d', unusedSelectors', none) ∧
      ∃ platforms, d'.platformsByType[ptNative]? = some platforms ∧
        platforms.map Prod.fst = ["linux.ix86.icc", "linux.ix86.gcc", "linux.ix86.gcc.test"] := by
  have hadded : new.all (addsAll compilerCalls) = true := by
    decide +kernel
  have hchecked : ((run compilerCalls).bind fun d ↦ d.check ∅ ∅).map (fun result ↦
      (result.1.targetTypes[ptNative]?, result.2.2)) = some (some .objectCode, none) := by
    decide +kernel
  obtain ⟨⟨d', unusedSelectors', message⟩, hbind, heq⟩ := Option.map_eq_some_iff.mp hchecked
  obtain ⟨htype, rfl⟩ := Prod.mk.inj heq
  obtain ⟨d, hrun, hcheck⟩ := Option.bind_eq_some_iff.mp hbind
  obtain ⟨platforms, hfound, horder, -⟩ :=
    (platformsByType_declared named_compilerCalls hadded hrun hcheck).2 ptNative .objectCode htype
  refine ⟨d, d', unusedSelectors', hrun, hcheck, platforms, hfound, ?_⟩
  rw [horder]
  decide +kernel

end Abuild.PlatformTables
