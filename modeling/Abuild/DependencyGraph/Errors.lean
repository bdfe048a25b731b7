import Abuild.DependencyGraph.Build
import Abuild.Library.FirstBy
import Mathlib.Data.List.Cycle

/-!
The errors that `check` reports. The searches log every edge to an unknown item, and for every
item of a cycle some edge back into the path; of those with the same string the first is
reported. Names that hold the text between two items make different errors look alike
(`getErrors_reported`).
-/

set_option autoImplicit false
set_option relaxedAutoImplicit false

namespace Abuild.DependencyGraph

open Std (TreeMap TreeSet)
open DepthFirst Relation FirstBy

/-! ### Playing the log back -/

/-- The string for an item and an unknown dependency of it. -/
def unknownString (pair : ItemType × ItemType) : String :=
  "(" ++ pair.1 ++ ") -> (" ++ pair.2 ++ ")"

/-- The dependency that an event is about, if it is on an unknown item. -/
def unknownOf : DepthFirst.Event ItemType → Option (ItemType × ItemType)
  | .unknown path item => path.getLast?.map (·, item)
  | .back _ _ => none

/-- The cycle that an event closes, from its least item. -/
def cycleOf : DepthFirst.Event ItemType → Option ItemList
  | .unknown _ _ => none
  | .back path item =>
    let cycle := path.dropWhile (· ≠ item)
    cycle.head?.map fun front ↦ rotateTo (minItem front cycle) cycle

/-- The unknown dependencies and the cycles that some events report. -/
def reportedUnknowns (events : List (DepthFirst.Event ItemType)) : List (ItemType × ItemType) :=
  firstBy unknownString (events.filterMap unknownOf)

def reportedCycles (events : List (DepthFirst.Event ItemType)) : List ItemList :=
  firstBy cycleString (events.filterMap cycleOf)

/-- The unknown dependencies of one item, of a list of pairs. -/
def dependenciesOf (pairs : List (ItemType × ItemType)) (a : ItemType) : ItemList :=
  (pairs.filter (·.1 = a)).map (·.2)

/-- A report after some events, where there were errors before. -/
structure Recorded (unknowns : ItemMap) (cycles : List ItemList)
    (events : List (DepthFirst.Event ItemType))
    (r : Report) : Prop where
  unknowns : ∀ a, r.unknowns.getD a [] =
    unknowns.getD a [] ++ dependenciesOf (reportedUnknowns events) a
  cycles : r.cycles = cycles ++ reportedCycles events
  unknownsSeen : ∀ s, s ∈ r.unknownsSeen ↔ s ∈ (reportedUnknowns events).map unknownString
  cyclesSeen : ∀ s, s ∈ r.cyclesSeen ↔ s ∈ (reportedCycles events).map cycleString

theorem reportedUnknowns_append (events : List (DepthFirst.Event ItemType))
    {event : DepthFirst.Event ItemType}
    (hnone : unknownOf event = none) :
    reportedUnknowns (events ++ [event]) = reportedUnknowns events := by
  unfold reportedUnknowns
  rw [List.filterMap_append, List.filterMap_cons_none hnone, List.filterMap_nil, List.append_nil]

theorem reportedCycles_append (events : List (DepthFirst.Event ItemType))
    {event : DepthFirst.Event ItemType}
    (hnone : cycleOf event = none) :
    reportedCycles (events ++ [event]) = reportedCycles events := by
  unfold reportedCycles
  rw [List.filterMap_append, List.filterMap_cons_none hnone, List.filterMap_nil, List.append_nil]

theorem Recorded.addUnknown {unknowns : ItemMap} {cycles : List ItemList}
    {events : List (DepthFirst.Event ItemType)} {r r' : Report}
    (h : Recorded unknowns cycles events r)
    {path : ItemList} {item : ItemType} (hr : r.addUnknown path item = some r') :
    Recorded unknowns cycles (events ++ [.unknown path item]) r' := by
  obtain ⟨back, hback, hr⟩ := Option.bind_eq_some_iff.mp hr
  have hcycles := reportedCycles_append events (show cycleOf (.unknown path item) = none from rfl)
  have hunknowns : reportedUnknowns (events ++ [.unknown path item]) =
      if unknownString (back, item) ∈ (reportedUnknowns events).map unknownString then
        reportedUnknowns events
      else reportedUnknowns events ++ [(back, item)] := by
    unfold reportedUnknowns
    rw [List.filterMap_append, ← firstBy_append_singleton]
    simp [unknownOf, hback]
  have hseen : r.unknownsSeen.contains (unknownString (back, item)) = true ↔
      unknownString (back, item) ∈ (reportedUnknowns events).map unknownString :=
    TreeSet.mem_iff_contains.symm.trans (h.unknownsSeen _)
  change (if r.unknownsSeen.contains (unknownString (back, item)) = true then some r else _) =
    some r' at hr
  by_cases hcontains : r.unknownsSeen.contains (unknownString (back, item)) = true
  · rw [if_pos hcontains] at hr
    obtain rfl := Option.some_inj.mp hr
    rw [if_pos (hseen.mp hcontains)] at hunknowns
    constructor
    · rw [hunknowns]
      exact h.unknowns
    · rw [hcycles]
      exact h.cycles
    · rw [hunknowns]
      exact h.unknownsSeen
    · rw [hcycles]
      exact h.cyclesSeen
  · rw [if_neg hcontains] at hr
    obtain rfl := Option.some_inj.mp hr
    rw [if_neg fun hmem ↦ hcontains (hseen.mpr hmem)] at hunknowns
    constructor
    · intro a
      rw [hunknowns]
      show (r.unknowns.insert back (r.unknowns.getD back [] ++ [item])).getD a [] = _
      rw [TreeMap.getD_insert]
      unfold dependenciesOf
      rw [List.filter_append, List.map_append, ← List.append_assoc]
      by_cases ha : back = a
      · subst ha
        simp [h.unknowns, dependenciesOf]
      · simp [ha, h.unknowns, dependenciesOf]
    · rw [hcycles]
      exact h.cycles
    · intro s
      rw [hunknowns, List.map_append, List.mem_append, ← h.unknownsSeen]
      show s ∈ r.unknownsSeen.insert (unknownString (back, item)) ↔ _
      rw [TreeSet.mem_insert, compare_eq_iff_eq, List.map_singleton, List.mem_singleton, or_comm,
        eq_comm]
    · rw [hcycles]
      exact h.cyclesSeen

theorem Recorded.addCycle {unknowns : ItemMap} {cycles : List ItemList}
    {events : List (DepthFirst.Event ItemType)} {r r' : Report}
    (h : Recorded unknowns cycles events r)
    {path : ItemList} {item : ItemType} (hr : r.addCycle path item = some r') :
    Recorded unknowns cycles (events ++ [.back path item]) r' := by
  obtain ⟨front, hfront, hr⟩ := Option.bind_eq_some_iff.mp hr
  have hunknowns :=
    reportedUnknowns_append events (show unknownOf (.back path item) = none from rfl)
  generalize hcycle : rotateTo (minItem front (path.dropWhile (· ≠ item)))
    (path.dropWhile (· ≠ item)) = cycle at hr
  have hcycles : reportedCycles (events ++ [.back path item]) =
      if cycleString cycle ∈ (reportedCycles events).map cycleString then reportedCycles events
      else reportedCycles events ++ [cycle] := by
    unfold reportedCycles
    rw [List.filterMap_append, ← firstBy_append_singleton]
    have hof : cycleOf (.back path item) = some cycle := by
      unfold cycleOf
      dsimp only
      rw [hfront, Option.map_some, hcycle]
    rw [List.filterMap_cons_some hof, List.filterMap_nil]
  have hseen : r.cyclesSeen.contains (cycleString cycle) = true ↔
      cycleString cycle ∈ (reportedCycles events).map cycleString :=
    TreeSet.mem_iff_contains.symm.trans (h.cyclesSeen _)
  by_cases hcontains : r.cyclesSeen.contains (cycleString cycle) = true
  · rw [if_pos hcontains] at hr
    obtain rfl := Option.some_inj.mp hr
    rw [if_pos (hseen.mp hcontains)] at hcycles
    constructor
    · rw [hunknowns]
      exact h.unknowns
    · rw [hcycles]
      exact h.cycles
    · rw [hunknowns]
      exact h.unknownsSeen
    · rw [hcycles]
      exact h.cyclesSeen
  · rw [if_neg hcontains] at hr
    obtain rfl := Option.some_inj.mp hr
    rw [if_neg fun hmem ↦ hcontains (hseen.mpr hmem)] at hcycles
    constructor
    · rw [hunknowns]
      exact h.unknowns
    · rw [hcycles, ← List.append_assoc, ← h.cycles]
    · rw [hunknowns]
      exact h.unknownsSeen
    · intro s
      rw [hcycles, List.map_append, List.mem_append, ← h.cyclesSeen]
      show s ∈ r.cyclesSeen.insert (cycleString cycle) ↔ _
      rw [TreeSet.mem_insert, compare_eq_iff_eq, List.map_singleton, List.mem_singleton, or_comm,
        eq_comm]

theorem recorded_of_foldlM {unknowns : ItemMap} {cycles : List ItemList} {r : Report}
    (events : List (DepthFirst.Event ItemType))
    (h : events.foldlM Report.record ⟨∅, ∅, unknowns, cycles⟩ = some r) :
    Recorded unknowns cycles events r := by
  induction events using List.reverseRecOn generalizing r with
  | nil =>
    obtain rfl := Option.some_inj.mp h
    exact ⟨fun a ↦ (List.append_nil _).symm, (List.append_nil _).symm,
      fun s ↦ by simp [reportedUnknowns, firstBy], fun s ↦ by simp [reportedCycles, firstBy]⟩
  | append_singleton events event ih =>
    rw [List.foldlM_append] at h
    obtain ⟨u, hu, hlast⟩ := Option.bind_eq_some_iff.mp h
    have hrecord : u.record event = some r := by simpa using hlast
    cases event with
    | unknown path item => exact (ih hu).addUnknown hrecord
    | back path item => exact (ih hu).addCycle hrecord

/-! ### What is reported is in the graph -/

/-- An item and a dependency of it on an unknown item. -/
def IsUnknown (dependencies : ItemMap) (pair : ItemType × ItemType) : Prop :=
  DependsOn dependencies pair.1 pair.2 ∧ pair.2 ∉ dependencies

/-- A cycle of the graph without repetitions, listed from its least item. -/
structure IsCycle (dependencies : ItemMap) (cycle : ItemList) : Prop where
  nodup : cycle.Nodup
  chain : Cycle.Chain (DependsOn dependencies) (cycle : Cycle ItemType)
  least : ∃ a, cycle.head? = some a ∧ ∀ b ∈ cycle, a ≤ b

theorem minItem_le (front : ItemType) (cycle : ItemList) :
    ∀ b ∈ front :: cycle, minItem front cycle ≤ b := by
  induction cycle generalizing front with
  | nil =>
    intro b hb
    obtain rfl := List.mem_singleton.mp hb
    exact le_refl _
  | cons a cycle ih =>
    intro b hb
    have hstep := ih (if a < front then a else front)
    have hle : (if a < front then a else front) ≤ front ∧
        (if a < front then a else front) ≤ a := by
      split_ifs with hlt
      · exact ⟨le_of_lt hlt, le_refl a⟩
      · exact ⟨le_refl front, not_lt.mp hlt⟩
    have hfirst := hstep _ List.mem_cons_self
    rcases List.mem_cons.mp hb with rfl | hb
    · exact hfirst.trans hle.1
    · rcases List.mem_cons.mp hb with rfl | hb
      · exact hfirst.trans hle.2
      · exact hstep b (List.mem_cons_of_mem _ hb)

theorem minItem_mem (front : ItemType) (cycle : ItemList) :
    minItem front cycle ∈ front :: cycle := by
  induction cycle generalizing front with
  | nil => exact List.mem_cons_self
  | cons a cycle ih =>
    have hstep := ih (if a < front then a else front)
    show minItem (if a < front then a else front) cycle ∈ _
    rcases List.mem_cons.mp hstep with heq | hmem
    · rw [heq]
      split_ifs
      · exact List.mem_cons_of_mem _ List.mem_cons_self
      · exact List.mem_cons_self
    · exact List.mem_cons_of_mem _ (List.mem_cons_of_mem _ hmem)

theorem rotateTo_isRotated (front : ItemType) (cycle : ItemList) :
    rotateTo front cycle ~r cycle := by
  have hsplit : cycle = cycle.takeWhile (· ≠ front) ++ cycle.dropWhile (· ≠ front) :=
    List.takeWhile_append_dropWhile.symm
  exact (congrArg (rotateTo front cycle ~r ·) hsplit).mpr List.isRotated_append

/-- The cycle that a back edge closes is from the item that it leads to. -/
theorem cycleOf_back {path : ItemList} {item : ItemType} (h : item ∈ path) :
    ∃ before rest cycle, path = before ++ item :: rest ∧ cycleOf (.back path item) = some cycle ∧
      cycle ~r (item :: rest) ∧ ∃ a, cycle.head? = some a ∧ ∀ b ∈ cycle, a ≤ b := by
  obtain ⟨rest, hrest⟩ := dropWhile_ne_eq_cons h
  have hpath : path = path.takeWhile (· ≠ item) ++ item :: rest := by
    rw [← hrest]
    exact List.takeWhile_append_dropWhile.symm
  have hrotated := rotateTo_isRotated (minItem item (item :: rest)) (item :: rest)
  have hleast : minItem item (item :: rest) ∈ item :: rest := by
    have hmem := minItem_mem item (item :: rest)
    rcases List.mem_cons.mp hmem with heq | hmem
    · rw [heq]
      exact List.mem_cons_self
    · exact hmem
  refine ⟨_, rest, rotateTo (minItem item (item :: rest)) (item :: rest), hpath, ?_, hrotated,
    minItem item (item :: rest), ?_, fun b hb ↦ ?_⟩
  · unfold cycleOf
    dsimp only
    rw [hrest]
    rfl
  · obtain ⟨tail, htail⟩ := dropWhile_ne_eq_cons hleast
    unfold rotateTo
    rw [htail]
    rfl
  · exact minItem_le item (item :: rest) b (List.mem_cons_of_mem _ (hrotated.mem_iff.mp hb))

section Found

variable {dependencies : ItemMap}

theorem searched_of_mem {item : ItemType} (hitem : item ∈ addRoot dependencies) :
    Searched (next (addRoot dependencies)) item (searchFrom (addRoot dependencies) item) :=
  (search_eq_searchFrom hitem).2

theorem mem_foundEvents {event : DepthFirst.Event ItemType} : event ∈ foundEvents dependencies ↔
    ∃ item ∈ addRoot dependencies, event ∈ (searchFrom (addRoot dependencies) item).events := by
  unfold foundEvents eventsFrom
  rw [List.mem_flatMap]
  simp only [TreeMap.mem_keys]

theorem real_of_mem_foundEvents {event : DepthFirst.Event ItemType}
    (h : event ∈ foundEvents dependencies) :
    event.Real (next (addRoot dependencies)) := by
  obtain ⟨item, hitem, hevent⟩ := mem_foundEvents.mp h
  exact (searched_of_mem hitem).valid.events_real event hevent

/-- The searches log the edges to unknown items, and no others. -/
theorem mem_filterMap_unknownOf (hproper : Proper dependencies) {pair : ItemType × ItemType} :
    pair ∈ (foundEvents dependencies).filterMap unknownOf ↔ IsUnknown dependencies pair := by
  obtain ⟨a, b⟩ := pair
  rw [List.mem_filterMap]
  constructor
  · rintro ⟨event, hevent, hof⟩
    cases event with
    | back path item => cases hof
    | unknown path item =>
      obtain ⟨back, hback, heq⟩ := Option.map_eq_some_iff.mp hof
      obtain ⟨rfl, rfl⟩ := Prod.mk.inj heq
      obtain ⟨hunknown, -, hchain⟩ := real_of_mem_foundEvents hevent
      rw [edge_eq_dependsOn] at hchain
      have hedge : DependsOn (addRoot dependencies) back item :=
        (List.isChain_append.mp hchain).2.2 back hback item rfl
      rw [known_next, mem_addRoot, not_or] at hunknown
      by_cases hroot : back = ""
      · subst hroot
        exact absurd (dependsOn_addRoot_root.mp hedge).1 hunknown.2
      · exact ⟨(dependsOn_addRoot hroot).mp hedge, hunknown.2⟩
  · rintro ⟨hedge, hunknown⟩
    have hmem : a ∈ dependencies := hedge.mem
    have ha : a ≠ "" := fun heq ↦ hproper.item_ne (heq ▸ hmem)
    have hitem : a ∈ addRoot dependencies := mem_addRoot.mpr (Or.inr hmem)
    have hsearched := searched_of_mem hitem
    have hresult : a ∈ (searchFrom (addRoot dependencies) a).result :=
      List.mem_of_getLast? hsearched.last
    obtain ⟨before, after, hsplit⟩ := List.append_of_mem hresult
    obtain ⟨path, -, hlogged⟩ := hsearched.valid.explored before a after hsplit b
      (edge_iff_dependsOn.mpr ((dependsOn_addRoot ha).mpr hedge))
    refine ⟨.unknown (path ++ [a]) b, mem_foundEvents.mpr ⟨a, hitem, hlogged ?_⟩, ?_⟩
    · rw [known_next, mem_addRoot, not_or]
      exact ⟨hproper.dep_ne a b hedge, hunknown⟩
    · simp [unknownOf]

/-- What the searches come back to are cycles of the graph. -/
theorem isCycle_of_mem (hproper : Proper dependencies) {cycle : ItemList}
    (h : cycle ∈ (foundEvents dependencies).filterMap cycleOf) : IsCycle dependencies cycle := by
  obtain ⟨event, hevent, hof⟩ := List.mem_filterMap.mp h
  cases event with
  | unknown path item => cases hof
  | back path item =>
    obtain ⟨hitem, hnodup, hchain⟩ := real_of_mem_foundEvents hevent
    obtain ⟨before, rest, cycle', rfl, hcycle', hrotated, hleast⟩ := cycleOf_back hitem
    obtain rfl := Option.some_inj.mp (hof.symm.trans hcycle')
    rw [edge_eq_dependsOn, List.append_assoc] at hchain
    have hcycle := (List.isChain_append.mp hchain).2.1
    refine ⟨hrotated.nodup_iff.mpr (List.nodup_append.mp hnodup).2.1, ?_, hleast⟩
    rw [Cycle.coe_eq_coe.mpr hrotated, Cycle.chain_coe_cons]
    -- Every item of the cycle is a dependency of another one, and none is the root.
    have hne : item ≠ "" := by
      rcases List.eq_nil_or_concat rest with rfl | ⟨rest', last, rfl⟩
      · exact (List.isChain_pair.mp hcycle).ne_root hproper
      · have hlast : (item :: rest'.concat last).getLast? = some last := by
          rw [List.concat_eq_append, ← List.cons_append, List.getLast?_concat]
        exact ((List.isChain_append.mp hcycle).2.2 last hlast item rfl).ne_root hproper
    have hnot : ∀ (l : ItemList) (a : ItemType), a ≠ "" →
        (a :: l).IsChain (DependsOn (addRoot dependencies)) →
        (a :: l).IsChain (DependsOn dependencies) := by
      intro l
      induction l with
      | nil => exact fun a _ _ ↦ List.isChain_singleton a
      | cons b l ih =>
        intro a ha hl
        obtain ⟨hab, hl⟩ := List.isChain_cons_cons.mp hl
        exact List.isChain_cons_cons.mpr
          ⟨(dependsOn_addRoot ha).mp hab, ih b (hab.ne_root hproper) hl⟩
    exact hnot _ item hne hcycle

/-- The search from an item of a cycle comes back to the item. -/
theorem exists_cycle_of_transGen (hproper : Proper dependencies) {a : ItemType}
    (h : TransGen (DependsOn dependencies) a a) :
    ∃ cycle ∈ (foundEvents dependencies).filterMap cycleOf, a ∈ cycle := by
  obtain ⟨c, hac, hca⟩ := TransGen.tail'_iff.mp h
  have hmem : a ∈ dependencies := by
    rcases ReflTransGen.cases_head hac with rfl | ⟨b, hab, -⟩
    · exact hca.mem
    · exact hab.mem
  have ha : a ≠ "" := fun heq ↦ hproper.item_ne (heq ▸ hmem)
  have hc : c ≠ "" := fun heq ↦ hproper.item_ne (heq ▸ hca.mem)
  have hitem : a ∈ addRoot dependencies := mem_addRoot.mpr (Or.inr hmem)
  have hsearched := searched_of_mem hitem
  have hresult : c ∈ (searchFrom (addRoot dependencies) a).result := by
    rw [hsearched.mem_result, known_next, edge_eq_dependsOn, reflTransGen_addRoot hproper ha]
    exact ⟨mem_addRoot.mpr (Or.inr hca.mem), hac⟩
  obtain ⟨before, after, hsplit⟩ := List.append_of_mem hresult
  obtain ⟨path, hanswered, -⟩ := hsearched.valid.explored before c after hsplit a
    (edge_iff_dependsOn.mpr ((dependsOn_addRoot hc).mpr hca))
  have hlast := hsearched.last
  have hnodup := hsearched.valid.result_nodup
  rw [hsplit] at hlast hnodup
  have hnot : a ∉ before := by
    intro hbefore
    rw [List.getLast?_append_of_ne_nil _ (List.cons_ne_nil c after)] at hlast
    exact List.disjoint_of_nodup_append hnodup hbefore (List.mem_of_getLast? hlast)
  have hback := (hanswered ((known_next _ a).mpr hitem)).resolve_left hnot
  have hevent := mem_foundEvents.mpr ⟨a, hitem, hback⟩
  obtain ⟨before', rest, cycle, -, hcycle, hrotated, -⟩ :=
    cycleOf_back (real_of_mem_foundEvents hevent).1
  refine ⟨cycle, List.mem_filterMap.mpr ⟨_, hevent, hcycle⟩, hrotated.mem_iff.mpr ?_⟩
  exact List.mem_cons_self

end Found

/-! ### Names that do not hold the text between two items -/

/-- The text after an item in a string, and the text between two items. -/
def itemEnd : List Char := ") -> ".toList

def itemSeparator : List Char := ") -> (".toList

/-- A name that does not look like two. -/
def Plain (name : ItemType) : Prop := ¬ itemSeparator <:+: name.toList

/-- The string of a cycle, by its characters. -/
def cycleChars : List (List Char) → List Char
  | [] => []
  | name :: names => '(' :: name ++ itemEnd ++ cycleChars names

theorem toList_cycleString (cycle : ItemList) :
    (cycleString cycle).toList = cycleChars (cycle.map String.toList) := by
  have hfold : ∀ (l : ItemList) (s : String),
      (l.foldl (fun s item ↦ s ++ ("(" ++ item ++ ") -> ")) s).toList =
        s.toList ++ cycleChars (l.map String.toList) := by
    intro l
    induction l with
    | nil => exact fun s ↦ (List.append_nil _).symm
    | cons item l ih =>
      intro s
      rw [List.foldl_cons, ih]
      simp [cycleChars, itemEnd, String.toList_append]
  exact hfold cycle ""

theorem toList_unknownString (pair : ItemType × ItemType) :
    (unknownString pair).toList ++ " -> ".toList =
      cycleChars [pair.1.toList, pair.2.toList] := by
  simp [unknownString, cycleChars, itemEnd, String.toList_append]

/-- The first name of a string ends where the text after an item is first found. -/
theorem append_itemEnd_inj {x y : List Char} {xs ys : List (List Char)}
    (hx : ¬ itemSeparator <:+: x) (hy : ¬ itemSeparator <:+: y)
    (h : x ++ itemEnd ++ cycleChars xs = y ++ itemEnd ++ cycleChars ys) :
    x = y ∧ cycleChars xs = cycleChars ys := by
  have hlonger : ∀ {x y : List Char} {xs ys : List (List Char)} (t : List Char),
      ¬ itemSeparator <:+: y → y = x ++ t →
      itemEnd ++ cycleChars xs = t ++ (itemEnd ++ cycleChars ys) → t = [] := by
    intro x y xs ys t hy hyt ht
    -- A nonempty rest begins with the text after an item or within it.
    match t with
    | [] => rfl
    | [a] | [a, b] | [a, b, c] | [a, b, c, d] =>
      simp [itemEnd] at ht
    | [a, b, c, d, e] =>
      cases xs <;> simp [itemEnd, cycleChars] at ht
    | a :: b :: c :: d :: e :: f :: t =>
      cases xs with
      | nil => simp [itemEnd, cycleChars] at ht
      | cons x' xs =>
        simp [itemEnd, cycleChars] at ht
        obtain ⟨rfl, rfl, rfl, rfl, rfl, rfl, -⟩ := ht
        exact absurd ⟨x, t, by simp [hyt, itemSeparator]⟩ hy
  rw [List.append_assoc, List.append_assoc] at h
  rcases List.append_eq_append_iff.mp h with ⟨t, hyt, ht⟩ | ⟨t, hxt, ht⟩
  · obtain rfl := hlonger t hy hyt ht
    exact ⟨by rw [hyt, List.append_nil], List.append_cancel_left ht⟩
  · obtain rfl := hlonger t hx hxt ht
    exact ⟨by rw [hxt, List.append_nil], (List.append_cancel_left ht).symm⟩

theorem cycleChars_inj {xs ys : List (List Char)} (hxs : ∀ x ∈ xs, ¬ itemSeparator <:+: x)
    (hys : ∀ y ∈ ys, ¬ itemSeparator <:+: y) (h : cycleChars xs = cycleChars ys) : xs = ys := by
  induction xs generalizing ys with
  | nil =>
    cases ys with
    | nil => rfl
    | cons y ys => cases h
  | cons x xs ih =>
    cases ys with
    | nil => cases h
    | cons y ys =>
      have htail : x ++ itemEnd ++ cycleChars xs = y ++ itemEnd ++ cycleChars ys :=
        (List.cons_inj_right '(').mp h
      obtain ⟨rfl, hrest⟩ := append_itemEnd_inj (hxs x List.mem_cons_self)
        (hys y List.mem_cons_self) htail
      rw [ih (fun z hz ↦ hxs z (List.mem_cons_of_mem _ hz))
        (fun z hz ↦ hys z (List.mem_cons_of_mem _ hz)) hrest]

theorem cycleString_inj {c c' : ItemList} (hc : ∀ a ∈ c, Plain a) (hc' : ∀ a ∈ c', Plain a)
    (h : cycleString c = cycleString c') : c = c' := by
  have hchars : cycleChars (c.map String.toList) = cycleChars (c'.map String.toList) := by
    rw [← toList_cycleString, ← toList_cycleString, h]
  have hplain : ∀ {l : ItemList}, (∀ a ∈ l, Plain a) →
      ∀ x ∈ l.map String.toList, ¬ itemSeparator <:+: x := by
    intro l hl x hx
    obtain ⟨a, ha, rfl⟩ := List.mem_map.mp hx
    exact hl a ha
  have hinj : Function.Injective String.toList := fun a b ↦ String.toList_inj.mp
  exact List.map_injective_iff.mpr hinj (cycleChars_inj (hplain hc) (hplain hc') hchars)

theorem unknownString_inj {p q : ItemType × ItemType} (hp : Plain p.1 ∧ Plain p.2)
    (hq : Plain q.1 ∧ Plain q.2) (h : unknownString p = unknownString q) : p = q := by
  have hchars : cycleChars [p.1.toList, p.2.toList] = cycleChars [q.1.toList, q.2.toList] := by
    rw [← toList_unknownString, ← toList_unknownString, h]
  have heq := cycleChars_inj (by simpa [Plain] using hp) (by simpa [Plain] using hq) hchars
  obtain ⟨h₁, h₂⟩ : p.1.toList = q.1.toList ∧ p.2.toList = q.2.toList := by simpa using heq
  exact Prod.ext (String.toList_inj.mp h₁) (String.toList_inj.mp h₂)

/-! ### What `getErrors` returns -/

/-- Every unknown dependency of an item is reported once, and there is nothing else. -/
structure UnknownsReported (dependencies unknowns : ItemMap) : Prop where
  unknowns_once : ∀ a b, IsUnknown dependencies (a, b) → (unknowns.getD a []).count b = 1
  unknowns_real : ∀ a b, b ∈ unknowns.getD a [] → IsUnknown dependencies (a, b)

/-- Every item of a cycle is in a reported cycle, none is reported twice, and there is nothing
else. -/
structure CyclesReported (dependencies : ItemMap) (cycles : List ItemList) : Prop where
  cycles_real : ∀ c ∈ cycles, IsCycle dependencies c
  cycles_nodup : cycles.Nodup
  covered : ∀ a, TransGen (DependsOn dependencies) a a → ∃ c ∈ cycles, a ∈ c

/-- No two unknown dependencies have the same string. -/
def UnknownsDistinct (dependencies : ItemMap) : Prop :=
  ∀ p q, IsUnknown dependencies p → IsUnknown dependencies q →
    unknownString p = unknownString q → p = q

/-- Cycles with the same string have the same items. -/
def CyclesDistinct (dependencies : ItemMap) : Prop :=
  ∀ c c', IsCycle dependencies c → IsCycle dependencies c' → cycleString c = cycleString c' → c ⊆ c'

/-- Cycles with different strings that hold every item of a cycle. -/
structure Covers (dependencies : ItemMap) (chosen : List ItemList) : Prop where
  real : ∀ c ∈ chosen, IsCycle dependencies c
  strings : (chosen.map cycleString).Nodup
  covered : ∀ a, TransGen (DependsOn dependencies) a a → ∃ c ∈ chosen, a ∈ c

section Reports

variable {dependencies : ItemMap}

theorem mem_dependenciesOf {pairs : List (ItemType × ItemType)} {a b : ItemType} :
    b ∈ dependenciesOf pairs a ↔ (a, b) ∈ pairs := by
  unfold dependenciesOf
  rw [List.mem_map]
  constructor
  · rintro ⟨⟨a', b'⟩, hmem, rfl⟩
    obtain ⟨hpair, ha⟩ := List.mem_filter.mp hmem
    obtain rfl : a' = a := of_decide_eq_true ha
    exact hpair
  · intro h
    exact ⟨(a, b), List.mem_filter.mpr ⟨h, decide_eq_true rfl⟩, rfl⟩

theorem nodup_dependenciesOf {pairs : List (ItemType × ItemType)} (h : pairs.Nodup) (a : ItemType) :
    (dependenciesOf pairs a).Nodup := by
  refine (h.filter _).map_on fun p hp q hq heq ↦ ?_
  have hpa : p.1 = a := of_decide_eq_true (List.mem_filter.mp hp).2
  have hqa : q.1 = a := of_decide_eq_true (List.mem_filter.mp hq).2
  exact Prod.ext (hpa.trans hqa.symm) heq

/-- What the report of the unknown dependencies of a graph is. -/
theorem unknownsReported_iff (hproper : Proper dependencies) {unknowns : ItemMap}
    (hunknowns : ∀ a, unknowns.getD a [] =
      dependenciesOf (reportedUnknowns (foundEvents dependencies)) a) :
    UnknownsReported dependencies unknowns ↔ UnknownsDistinct dependencies := by
  constructor
  · intro h p q hp hq heq
    have hreported : ∀ r, IsUnknown dependencies r →
        r ∈ reportedUnknowns (foundEvents dependencies) := by
      intro r hr
      have hcount := h.unknowns_once r.1 r.2 hr
      rw [hunknowns] at hcount
      exact mem_dependenciesOf.mp (List.count_pos_iff.mp (by omega))
    exact List.inj_on_of_nodup_map (nodup_map_firstBy _ _) (hreported p hp) (hreported q hq) heq
  · intro h
    refine ⟨fun a b hab ↦ ?_, fun a b hb ↦ ?_⟩
    · rw [hunknowns]
      refine List.count_eq_one_of_mem (nodup_dependenciesOf (nodup_firstBy _ _) a)
        (mem_dependenciesOf.mpr ((mem_firstBy_of_injOn fun p hp q hq heq ↦ ?_).mpr
          ((mem_filterMap_unknownOf hproper).mpr hab)))
      exact h p q ((mem_filterMap_unknownOf hproper).mp hp)
        ((mem_filterMap_unknownOf hproper).mp hq) heq
    · rw [hunknowns] at hb
      exact (mem_filterMap_unknownOf hproper).mp (mem_of_mem_firstBy (mem_dependenciesOf.mp hb))

/-- Of the cycles that the searches come back to one with each string is reported. -/
theorem cyclesReported_of_distinct (hproper : Proper dependencies)
    (h : CyclesDistinct dependencies) :
    CyclesReported dependencies (reportedCycles (foundEvents dependencies)) := by
  have hreal : ∀ c ∈ reportedCycles (foundEvents dependencies), IsCycle dependencies c :=
    fun c hc ↦ isCycle_of_mem hproper (mem_of_mem_firstBy hc)
  refine ⟨hreal, nodup_firstBy _ _, fun a ha ↦ ?_⟩
  obtain ⟨c, hc, hac⟩ := exists_cycle_of_transGen hproper ha
  obtain ⟨first, hfirst, heq⟩ := List.mem_map.mp
    (mem_map_firstBy.mpr (List.mem_map_of_mem (f := cycleString) hc))
  exact ⟨first, hfirst,
    h c first (isCycle_of_mem hproper hc) (hreal first hfirst) heq.symm hac⟩

theorem covers_reportedCycles
    (h : CyclesReported dependencies (reportedCycles (foundEvents dependencies))) :
    Covers dependencies (reportedCycles (foundEvents dependencies)) where
  real := h.cycles_real
  strings := nodup_map_firstBy _ _
  covered := h.covered

theorem IsCycle.dependsOn {c : ItemList} (h : IsCycle dependencies c) {a : ItemType} (ha : a ∈ c) :
    ∃ b, DependsOn dependencies a b := by
  obtain ⟨before, after, rfl⟩ := List.append_of_mem ha
  have hchain := h.chain
  have hrotated : (before ++ a :: after) ~r (a :: after ++ before) := List.isRotated_append
  rw [Cycle.coe_eq_coe.mpr hrotated, List.cons_append, Cycle.chain_coe_cons, List.append_assoc]
    at hchain
  cases hrest : after ++ (before ++ [a]) with
  | nil => simp at hrest
  | cons b rest =>
    rw [hrest] at hchain
    exact ⟨b, (List.isChain_cons_cons.mp hchain).1⟩

/-- Plain names are told apart. -/
theorem distinct_of_plain (hplain : ∀ a b, DependsOn dependencies a b → Plain a ∧ Plain b) :
    UnknownsDistinct dependencies ∧ CyclesDistinct dependencies := by
  have hnames : ∀ c, IsCycle dependencies c → ∀ b ∈ c, Plain b := by
    intro c hc b hb
    obtain ⟨d, hd⟩ := hc.dependsOn hb
    exact (hplain b d hd).1
  refine ⟨fun p q hp hq ↦ unknownString_inj (hplain _ _ hp.1) (hplain _ _ hq.1),
    fun c c' hc hc' heq ↦ ?_⟩
  rw [cycleString_inj (hnames c hc) (hnames c' hc') heq]
  exact List.Subset.refl c'

end Reports

theorem getD_of_isEmpty {m : ItemMap} (h : m.isEmpty = true) (a : ItemType) :
    m.getD a [] = [] := by
  rw [TreeMap.getD_eq_getD_getElem?, TreeMap.getElem?_of_isEmpty h]
  rfl

/-- Two items that depend on each other, and one of them on an item that does not exist. -/
def mutualDependency : List Addition :=
  [.addItem "b", .addItem "a", .addDependency "b" "a", .addDependency "b" "c",
    .addDependency "a" "b"]

/-- Two unknown dependencies that have the same string. -/
def lookAlike : List Addition :=
  [.addItem "a", .addItem "a) -> (b", .addDependency "a" "b) -> (c",
    .addDependency "a) -> (b" "c"]

end Abuild.DependencyGraph
