import Abuild.Interface

/-!
What the calls on an interface do to one variable. A call that names another
variable leaves it as it is (`SameBut`), and every variable is stored under its
own name (`Named`), so an import reaches a variable once, through the variable of
that name (`importInterface_spec`). An assignment to a list variable that succeeds
either finds an entry with its location and platform and changes nothing, or adds
an entry at the end of the history (`assign_list_spec`).
-/

set_option autoImplicit false
set_option relaxedAutoImplicit false

namespace Abuild.Interface

open Std (TreeMap TreeSet)

/-- Every variable is stored under its name. -/
def Named (i : Interface) : Prop :=
  ∀ (k : String) (var : Variable), i.symbolTable[k]? = some var → var.name = k

/-- The interfaces belong to one item, and differ in one variable at most. -/
structure SameBut (name : String) (i j : Interface) : Prop where
  itemName : j.itemName = i.itemName
  itemPlatform : j.itemPlatform = i.itemPlatform
  localDirectory : j.localDirectory = i.localDirectory
  others : ∀ k : String, k ≠ name → j.symbolTable[k]? = i.symbolTable[k]?

theorem SameBut.refl (name : String) (i : Interface) : SameBut name i i :=
  ⟨rfl, rfl, rfl, fun _ _ ↦ rfl⟩

theorem SameBut.trans {name : String} {i j k : Interface} (h : SameBut name i j)
    (h' : SameBut name j k) : SameBut name i k :=
  ⟨h'.itemName.trans h.itemName, h'.itemPlatform.trans h.itemPlatform,
    h'.localDirectory.trans h.localDirectory, fun v hv ↦ (h'.others v hv).trans (h.others v hv)⟩

theorem named_insert {i : Interface} (h : Named i) {name : String} {var : Variable}
    (hvar : var.name = name) : Named { i with symbolTable := i.symbolTable.insert name var } := by
  intro k w hk
  rw [TreeMap.getElem?_insert] at hk
  split_ifs at hk with hname
  · rw [compare_eq_iff_eq] at hname
    rw [← Option.some_inj.mp hk, hvar, hname]
  · exact h k w hk

theorem sameBut_insert (i : Interface) (name : String) (var : Variable) :
    SameBut name i { i with symbolTable := i.symbolTable.insert name var } := by
  refine ⟨rfl, rfl, rfl, fun k hk ↦ ?_⟩
  rw [TreeMap.getElem?_insert, if_neg]
  rw [compare_eq_iff_eq]
  exact Ne.symm hk

/-! ### One call -/

theorem declareVariableAs_spec (i : Interface) (location : FileLocation)
    (targetType : TargetType) (name : String) (scope : Scope) (type : VariableType)
    (listType : ListType) :
    SameBut name i
      (i.declareVariableAs location targetType name scope type listType).interface ∧
    (Named i → Named
      (i.declareVariableAs location targetType name scope type listType).interface) := by
  unfold declareVariableAs
  split
  · split_ifs
    · exact ⟨SameBut.refl name i, id⟩
    · exact ⟨SameBut.refl name i, id⟩
  · exact ⟨sameBut_insert i name _, fun h ↦ named_insert h rfl⟩

/-- A declaration that succeeds finds a variable, or makes one without
assignments. -/
theorem declareVariableAs_status {i : Interface} {location : FileLocation}
    {targetType : TargetType} {name : String} {scope : Scope} {type : VariableType}
    {listType : ListType}
    (h : (i.declareVariableAs location targetType name scope type listType).status = true) :
    (∃ var, i.symbolTable[name]? = some var ∧
      (i.declareVariableAs location targetType name scope type listType).interface = i) ∨
    (i.symbolTable[name]? = none ∧
      (i.declareVariableAs location targetType name scope type
        listType).interface.symbolTable[name]? =
          some ⟨name, location, targetType, scope, type, listType, [], []⟩) := by
  unfold declareVariableAs at h ⊢
  split at h
  · next var hvar =>
    split_ifs at h with hlocation
    rw [if_pos hlocation]
    exact Or.inl ⟨var, hvar, rfl⟩
  · next hnone =>
    refine Or.inr ⟨hnone, ?_⟩
    dsimp only
    rw [TreeMap.getElem?_insert_self]

theorem resetVariableAs_spec (i : Interface) (location : FileLocation)
    (name itemName itemPlatform : String) (clear : Bool) :
    SameBut name i (i.resetVariableAs location name itemName itemPlatform clear).interface ∧
    (Named i →
      Named (i.resetVariableAs location name itemName itemPlatform clear).interface) := by
  unfold resetVariableAs
  split
  · exact ⟨SameBut.refl name i, id⟩
  · next var hvar => exact ⟨sameBut_insert i name _, fun h ↦ named_insert h (h name var hvar)⟩

section Assign

variable {canonicalizePath : String → String}

theorem assignVariableAs_spec {i : Interface} {location : FileLocation} {name : String}
    {values : List String} {assignmentType : AssignType} {flag itemName itemPlatform : String}
    {o : Outcome}
    (h : i.assignVariableAs canonicalizePath location name values assignmentType flag itemName
      itemPlatform = some o) :
    SameBut name i o.interface ∧ (Named i → Named o.interface) := by
  unfold assignVariableAs at h
  split at h
  · cases h
    exact ⟨SameBut.refl name i, id⟩
  · next var hvar =>
    obtain ⟨⟨stored, valueErrors⟩, -, h⟩ := Option.bind_eq_some_iff.mp h
    dsimp only at h
    split at h
    · next old _ =>
      by_cases hvalue : old.value = stored
      · rw [if_pos hvalue] at h
        cases h
        exact ⟨SameBut.refl name i, id⟩
      · rw [if_neg hvalue] at h
        cases h
    · cases h
      exact ⟨sameBut_insert i name _, fun hnamed ↦ named_insert hnamed (hnamed name var hvar)⟩

theorem assignVariableAs_known {i : Interface} {location : FileLocation} {name : String}
    {values : List String} {assignmentType : AssignType} {flag itemName itemPlatform : String}
    {o : Outcome}
    (h : i.assignVariableAs canonicalizePath location name values assignmentType flag itemName
      itemPlatform = some o) (hstatus : o.status = true) :
    ∃ var, i.symbolTable[name]? = some var := by
  unfold assignVariableAs at h
  split at h
  · cases h
    cases hstatus
  · next var hvar => exact ⟨var, hvar⟩

/-- The entry has the location and the platform of an assignment. -/
def Matches (location : FileLocation) (itemPlatform : String) (a : Assignment) : Prop :=
  a.location = location ∧ a.itemPlatform = itemPlatform

/-- An assignment to a list variable that succeeds. -/
theorem assign_list_spec {i : Interface} {location : FileLocation} {name : String}
    {values : List String} {assignmentType : AssignType} {flag itemName itemPlatform : String}
    {o : Outcome} {var : Variable} (hvar : i.symbolTable[name]? = some var)
    (hlist : var.listType ≠ .scalar)
    (h : i.assignVariableAs canonicalizePath location name values assignmentType flag itemName
      itemPlatform = some o) (hstatus : o.status = true) :
    ((∃ a ∈ var.assignmentHistory, Matches location itemPlatform a) ∧ o.interface = i) ∨
    ((∀ a ∈ var.assignmentHistory, ¬ Matches location itemPlatform a) ∧ ∃ stored,
      i.checkValues canonicalizePath location var values = some (stored, []) ∧
      o.interface.symbolTable[name]? = some { var with
        assignmentHistory := var.assignmentHistory ++
          [⟨location, assignmentType, flag, itemName, itemPlatform, stored⟩] }) := by
  unfold assignVariableAs at h
  rw [hvar] at h
  dsimp only at h
  simp only [hlist, false_and, if_false, List.nil_append] at h
  obtain ⟨⟨stored, valueErrors⟩, hstored, h⟩ := Option.bind_eq_some_iff.mp h
  dsimp only at h
  split at h
  · next old hold =>
    by_cases hvalue : old.value = stored
    swap
    · rw [if_neg hvalue] at h
      cases h
    rw [if_pos hvalue] at h
    cases h
    have hmatches := List.find?_some hold
    rw [decide_eq_true_iff] at hmatches
    exact Or.inl ⟨⟨old, List.mem_of_find?_eq_some hold, hmatches⟩, rfl⟩
  · next hnone =>
    cases h
    have herrors : valueErrors ++ checkAssignment var
        ⟨location, assignmentType, flag, itemName, itemPlatform, stored⟩ = [] :=
      List.isEmpty_iff.mp hstatus
    obtain ⟨rfl, -⟩ := List.append_eq_nil_iff.mp herrors
    refine Or.inr ⟨fun a ha hmatches ↦ ?_, stored, hstored, ?_⟩
    · have hnot := List.find?_eq_none.mp hnone a ha
      rw [decide_eq_true_iff] at hnot
      exact hnot hmatches
    · dsimp only
      rw [TreeMap.getElem?_insert_self]
      unfold record
      rw [if_neg fun hscalar ↦ hlist hscalar.1]

/-! ### Sequences of calls -/

/-- Calls that are made one after the other, all of which succeed. -/
theorem foldlM_andThen {β : Type} {f : β → Interface → Option Outcome}
    {motive : List β → Interface → Prop} (items : List β) {o₀ o : Outcome}
    (h : items.foldlM (fun o b ↦ o.andThen (f b)) o₀ = some o) (hstatus : o.status = true)
    (start : o₀.status = true → motive [] o₀.interface)
    (step : ∀ before b after, items = before ++ b :: after → ∀ i o', f b i = some o' →
      o'.status = true → motive before i → motive (before ++ [b]) o'.interface) :
    motive items o.interface := by
  induction items using List.reverseRecOn generalizing o with
  | nil =>
    obtain rfl : o₀ = o := by simpa using h
    exact start hstatus
  | append_singleton items b ih =>
    rw [List.foldlM_append] at h
    obtain ⟨o₁, ho₁, hlast⟩ := Option.bind_eq_some_iff.mp h
    have hthen : o₁.andThen (f b) = some o := by simpa using hlast
    obtain ⟨o', ho', hsome⟩ := Option.bind_eq_some_iff.mp hthen
    cases hsome
    rw [Bool.and_eq_true] at hstatus
    refine step items b [] rfl o₁.interface o' ho' hstatus.2 (ih ho₁ hstatus.1 ?_)
    intro before b' after hsplit
    exact step before b' (after ++ [b]) (by simp [hsplit])

theorem status_of_foldlM {β : Type} {f : β → Interface → Option Outcome} {items : List β}
    {o₀ o : Outcome} (h : items.foldlM (fun o b ↦ o.andThen (f b)) o₀ = some o)
    (hstatus : o.status = true) : o₀.status = true := by
  by_contra hfalse
  exact foldlM_andThen (motive := fun _ _ ↦ False) items h hstatus hfalse
    fun _ _ _ _ _ _ _ _ ↦ id

/-- The calls for one variable of an import name that variable. -/
theorem importVariable_spec {otherName : String} {var : Variable} {i : Interface} {o : Outcome}
    (h : importVariable canonicalizePath otherName var i = some o) :
    SameBut var.name i o.interface ∧ (Named i → Named o.interface) := by
  have hfold : ∀ {β : Type} (f : β → Interface → Option Outcome) (items : List β) (o₀ o : Outcome),
      (∀ b i o, f b i = some o →
        SameBut var.name i o.interface ∧ (Named i → Named o.interface)) →
      items.foldlM (fun o b ↦ o.andThen (f b)) o₀ = some o →
      SameBut var.name o₀.interface o.interface ∧ (Named o₀.interface → Named o.interface) := by
    intro β f items
    induction items with
    | nil =>
      intro o₀ o _ ho
      obtain rfl : o₀ = o := by simpa using ho
      exact ⟨SameBut.refl _ _, id⟩
    | cons b items ih =>
      intro o₀ o hf ho
      rw [List.foldlM_cons] at ho
      obtain ⟨o₁, ho₁, hrest⟩ := Option.bind_eq_some_iff.mp ho
      obtain ⟨o', ho', hsome⟩ := Option.bind_eq_some_iff.mp ho₁
      cases hsome
      obtain ⟨hsame, hnamed⟩ := hf b _ o' ho'
      obtain ⟨hsame', hnamed'⟩ := ih _ o hf hrest
      exact ⟨hsame.trans hsame', hnamed' ∘ hnamed⟩
  unfold importVariable at h
  dsimp only at h
  split_ifs at h
  · cases h
    exact ⟨SameBut.refl _ _, id⟩
  · obtain ⟨o₁, ho₁, hassign⟩ := Option.bind_eq_some_iff.mp h
    obtain ⟨hsame₀, hnamed₀⟩ := declareVariableAs_spec i var.declareLocation var.targetType
      var.name var.scope var.type var.listType
    obtain ⟨hsame₁, hnamed₁⟩ := hfold (fun reset i ↦ some (importReset var i reset)) _ _ _
      (fun reset i o ho ↦ by
        cases ho
        exact resetVariableAs_spec i reset.location var.name reset.itemName reset.itemPlatform
          false) ho₁
    obtain ⟨hsame₂, hnamed₂⟩ := hfold (fun a i ↦ importAssignment canonicalizePath var i a) _ _ _
      (fun a i o ho ↦ assignVariableAs_spec ho) hassign
    exact ⟨(hsame₀.trans hsame₁).trans hsame₂, hnamed₂ ∘ hnamed₁ ∘ hnamed₀⟩
  · cases h
    exact declareVariableAs_spec i var.declareLocation var.targetType var.name var.scope
      var.type var.listType

/-- An import that succeeds changes a variable as the import of the variable of
that name does, and does not change a variable that the other interface does not
have. -/
theorem importInterface_spec {i other : Interface} {o : Outcome} (hother : Named other)
    (h : importInterface canonicalizePath i other = some o) (hstatus : o.status = true)
    (name : String) :
    o.interface.itemName = i.itemName ∧ o.interface.itemPlatform = i.itemPlatform ∧
    (Named i → Named o.interface) ∧
    (other.symbolTable[name]? = none → o.interface.symbolTable[name]? = i.symbolTable[name]?) ∧
    ∀ var, other.symbolTable[name]? = some var → ∃ j o', (Named i → Named j) ∧
      j.symbolTable[name]? = i.symbolTable[name]? ∧
      importVariable canonicalizePath other.itemName var j = some o' ∧ o'.status = true ∧
      o'.interface.symbolTable[name]? = o.interface.symbolTable[name]? := by
  have hkeys := other.symbolTable.distinct_keys_toList
  have hmem : ∀ k var, (k, var) ∈ other.symbolTable.toList ↔ other.symbolTable[k]? = some var :=
    fun k var ↦ TreeMap.mem_toList_iff_getElem?_eq_some
  have hfold := foldlM_andThen
    (motive := fun (before : List (String × Variable)) (j : Interface) ↦
      j.itemName = i.itemName ∧ j.itemPlatform = i.itemPlatform ∧ (Named i → Named j) ∧
      (name ∉ before.map Prod.fst → j.symbolTable[name]? = i.symbolTable[name]?) ∧
      ∀ var, (name, var) ∈ before → ∃ j' o', (Named i → Named j') ∧
        j'.symbolTable[name]? = i.symbolTable[name]? ∧
        importVariable canonicalizePath other.itemName var j' = some o' ∧ o'.status = true ∧
        o'.interface.symbolTable[name]? = j.symbolTable[name]?)
    other.symbolTable.toList h hstatus ?_ ?_
  · obtain ⟨hitem, hplatform, hnamed, hnone, hsome⟩ := hfold
    refine ⟨hitem, hplatform, hnamed, fun habsent ↦ hnone ?_, fun var hvar ↦ ?_⟩
    · intro hin
      obtain ⟨⟨k, var⟩, hvar, rfl⟩ := List.mem_map.mp hin
      have hpresent := (hmem k var).mp hvar
      rw [habsent] at hpresent
      cases hpresent
    · exact hsome var ((hmem name var).mpr hvar)
  · intro _
    exact ⟨rfl, rfl, id, fun _ ↦ rfl, fun var hvar ↦ by simp at hvar⟩
  · rintro before ⟨k, var⟩ after hsplit j o' ho' hstatus' ⟨hitem, hplatform, hnamed, hnone, hsome⟩
    have hk : var.name = k := hother k var ((hmem k var).mp (by simp [hsplit]))
    obtain ⟨hsame, hnamed'⟩ := importVariable_spec ho'
    rw [hk] at hsame
    -- the key comes once, so what is imported before it leaves the variable as it was
    have hnew : k ∉ before.map Prod.fst := by
      have hpairs := hkeys
      rw [hsplit, List.pairwise_append] at hpairs
      intro hin
      obtain ⟨p, hp, rfl⟩ := List.mem_map.mp hin
      have hne := hpairs.2.2 p hp (p.1, var) List.mem_cons_self
      exact hne Std.ReflCmp.compare_self
    refine ⟨hsame.itemName.trans hitem, hsame.itemPlatform.trans hplatform,
      hnamed' ∘ hnamed, fun habsent ↦ ?_, fun w hw ↦ ?_⟩
    · rw [List.map_append, List.mem_append, not_or] at habsent
      have hne : name ≠ k := by simpa using habsent.2
      exact (hsame.others name hne).trans (hnone habsent.1)
    · rcases List.mem_append.mp hw with hbefore | hlast
      · have hne : name ≠ k := by
          rintro rfl
          exact hnew (List.mem_map_of_mem (f := Prod.fst) hbefore)
        obtain ⟨j', o'', hnamed', hj', hcall, hstatus'', hvalue⟩ := hsome w hbefore
        exact ⟨j', o'', hnamed', hj', hcall, hstatus'', hvalue.trans (hsame.others name hne).symm⟩
      · rw [List.mem_singleton, Prod.mk.injEq] at hlast
        obtain ⟨rfl, rfl⟩ := hlast
        exact ⟨j, o', hnamed, hnone hnew, ho', hstatus', rfl⟩

end Assign

end Abuild.Interface
