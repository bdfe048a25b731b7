import Abuild.Basic
import Abuild.Library.Guarded
import Mathlib.Logic.Function.Basic

/-!
The parameters of a Groovy backend (`BuildState.groovy`). Lists are shared by reference: a parameter
that is set to a list holds the list itself, and what is appended to it is appended to the list. So
the first append to a parameter that only has a value as an interface variable changes the list of
the interface variable, of which the manual says that it is copied. And values that count as false
are passed over by `resolve`, as are definitions and interface variables that are empty. Apart from
this the parameters are what the manual says (`keepsParameters_iff`).
-/

set_option autoImplicit false
set_option relaxedAutoImplicit false

namespace Abuild

open Std (TreeMap)

/-! ### The values -/

/-- A list is the place where its elements are kept. Of other objects only their identity
matters. -/
inductive GroovyValue
  | null
  | string (text : String)
  | list (ref : ℕ)
  | object (identity : ℕ)
deriving DecidableEq, Repr

def GroovyValue.isList : GroovyValue → Bool
  | .list _ => true
  | _ => false

inductive InterfaceValue
  | string (text : String)
  | list (ref : ℕ)
deriving DecidableEq, Repr

def InterfaceValue.value : InterfaceValue → GroovyValue
  | .string text => .string text
  | .list ref => .list ref

/-- What is kept under the name of a parameter, which says whether the value is a list. -/
structure Parameter where
  value : GroovyValue
  list : Bool
  listed : list = value.isList

/-- What a backend is given: the definitions, the interface variables, and all lists that there are,
of which those of the interface variables come before `size`. -/
structure SuppliedValues where
  defines : TreeMap String String
  interfaceVars : TreeMap String InterfaceValue
  lists : ℕ → List GroovyValue
  size : ℕ
  allocated : ∀ (name : String) (ref : ℕ), interfaceVars[name]? = some (.list ref) → ref < size

/-- What Groovy takes for true. -/
def SuppliedValues.isTrue (given : SuppliedValues) : InterfaceValue → Bool
  | .string text => !text.isEmpty
  | .list ref => !(given.lists ref).isEmpty

structure ParameterState extends SuppliedValues where
  params : TreeMap String Parameter

namespace ParameterState

def new (given : SuppliedValues) : ParameterState := { given with params := ∅ }

def resolve (s : ParameterState) (name : String) (defaultValue : GroovyValue) : GroovyValue :=
  match s.defines[name]?.filter fun text ↦ !text.isEmpty with
  | some text => .string text
  | none =>
    match s.params[name]? with
    | some p => p.value
    | none =>
      match s.interfaceVars[name]?.filter s.isTrue with
      | some v => v.value
      | none => defaultValue

def setParameter (s : ParameterState) (name : String) (value : GroovyValue) : ParameterState :=
  { s with params := s.params.insert name ⟨value, value.isList, rfl⟩ }

/-- The parameter that is appended to, which is initialized by `resolve` where it is not there. -/
def toAppend (s : ParameterState) (name : String) : Parameter :=
  match s.params[name]? with
  | some p => p
  | none => ⟨s.resolve name .null, (s.resolve name .null).isList, rfl⟩

/-- A new list that the parameter gets as its value. -/
def makeList (s : ParameterState) (name : String) (elements : List GroovyValue) : ParameterState :=
  { s with
    lists := Function.update s.lists s.size elements
    size := s.size + 1
    allocated := fun name ref h ↦ Nat.lt_succ_of_lt (s.allocated name ref h)
    params := s.params.insert name ⟨.list s.size, true, rfl⟩ }

/-- `<<`, of which the value on the left is a list. -/
def leftShift (lists : ℕ → List GroovyValue) (value : GroovyValue) :
    GroovyValue → ℕ → List GroovyValue
  | .list ref => Function.update lists ref (lists ref ++ [value])
  | _ => lists

def appendParameter (s : ParameterState) (name : String) (value : GroovyValue) : ParameterState :=
  let p := s.toAppend name
  if p.list then
    { s with lists := leftShift s.lists value p.value, params := s.params.insert name p }
  else if p.value = .null then s.makeList name [value]
  else s.makeList name [p.value, value]

def deleteParameter (s : ParameterState) (name : String) : ParameterState :=
  { s with params := s.params.erase name }

/-! ### Sequences of calls -/

inductive Call
  | setParameter (name : String) (value : GroovyValue)
  | appendParameter (name : String) (value : GroovyValue)
  | deleteParameter (name : String)
deriving DecidableEq, Repr

def call (s : ParameterState) : Call → ParameterState
  | .setParameter name value => s.setParameter name value
  | .appendParameter name value => s.appendParameter name value
  | .deleteParameter name => s.deleteParameter name

/-! ### What the manual says -/

/-- Definitions come before parameters, and parameters before interface variables. -/
def resolved (s : ParameterState) (name : String) (defaultValue : GroovyValue) : GroovyValue :=
  match s.defines[name]? with
  | some text => .string text
  | none =>
    match s.params[name]? with
    | some p => p.value
    | none =>
      match s.interfaceVars[name]? with
      | some v => v.value
      | none => defaultValue

/-- The elements of a value that is made a list. -/
def elements (s : ParameterState) : GroovyValue → List GroovyValue
  | .null => []
  | .list ref => s.lists ref
  | other => [other]

/-- The definitions and the interface variables are the ones that were given, with the elements of
their lists. -/
structure Framed (given : SuppliedValues) (s : ParameterState) : Prop where
  defines : s.defines = given.defines
  interfaceVars : s.interfaceVars = given.interfaceVars
  contents : ∀ (name : String) (ref : ℕ), given.interfaceVars[name]? = some (.list ref) →
    s.lists ref = given.lists ref

structure KeepsParameters (given : SuppliedValues) (s : ParameterState) : Prop where
  framed : Framed given s
  resolve : ∀ name defaultValue, s.resolve name defaultValue = s.resolved name defaultValue
  append : ∀ name value, name ∉ s.defines →
    ∃ ref, (s.appendParameter name value).resolve name .null = .list ref ∧
      (s.appendParameter name value).lists ref = s.elements (s.resolved name .null) ++ [value]

/-- No definition is empty, and no interface variable that is not defined. -/
structure Visible (given : SuppliedValues) : Prop where
  defines : ∀ name : String, given.defines[name]? ≠ some ""
  interfaceVars : ∀ (name : String) (v : InterfaceValue), given.defines[name]? = none →
    given.interfaceVars[name]? = some v → given.isTrue v = true

/-- A call that appends to no list of an interface variable: not to a parameter that shares one, nor
to an interface variable of which there is no parameter yet. -/
def Spares (s : ParameterState) : Call → Prop
  | .appendParameter name _ =>
    match s.params[name]? with
    | some p => ∀ (v : String) (ref : ℕ), p.value = .list ref →
        s.interfaceVars[v]? ≠ some (.list ref)
    | none => name ∈ s.defines ∨ ∀ ref : ℕ, s.interfaceVars[name]? ≠ some (.list ref)
  | _ => True

section Resolve

variable {given : SuppliedValues} {s : ParameterState}

theorem resolve_eq_resolved (h : Visible s.toSuppliedValues) (name : String)
    (defaultValue : GroovyValue) : s.resolve name defaultValue = s.resolved name defaultValue := by
  unfold resolve resolved
  cases hdefine : s.defines[name]? with
  | some text =>
    have hne : text ≠ "" := by
      rintro rfl
      exact h.defines name hdefine
    rw [Option.filter_some_pos (by simpa using hne)]
  | none =>
    cases hparam : s.params[name]? with
    | some p => rfl
    | none =>
      cases hinterface : s.interfaceVars[name]? with
      | some v =>
        rw [Option.filter_some_pos (h.interfaceVars name v hdefine hinterface)]
        rfl
      | none => rfl

/-- Without parameters, every empty value shows. -/
theorem visible_of_resolve (hparams : s.params = ∅)
    (h : ∀ name defaultValue, s.resolve name defaultValue = s.resolved name defaultValue) :
    Visible s.toSuppliedValues := by
  have hparam : ∀ name : String, s.params[name]? = none := by
    intro name
    rw [hparams]
    exact TreeMap.getElem?_emptyc
  constructor
  · intro name hdefine
    have hnull := h name .null
    unfold resolve resolved at hnull
    rw [hdefine, hparam name] at hnull
    dsimp only at hnull
    cases hinterface : s.interfaceVars[name]?.filter s.isTrue with
    | none =>
      rw [hinterface] at hnull
      cases hnull
    | some v =>
      rw [hinterface] at hnull
      obtain ⟨-, htrue⟩ := Option.filter_eq_some_iff.mp hinterface
      cases v with
      | string text =>
        obtain rfl : text = "" := GroovyValue.string.inj hnull
        cases htrue
      | list ref => cases hnull
  · intro name v hdefine hinterface
    have hnull := h name .null
    unfold resolve resolved at hnull
    rw [hdefine, hparam name, hinterface] at hnull
    dsimp only at hnull
    by_contra hfalse
    rw [Option.filter_some_neg (Bool.eq_false_iff.mpr hfalse)] at hnull
    cases v <;> cases hnull

theorem Framed.visible (h : Framed given s) (hvisible : Visible given) :
    Visible s.toSuppliedValues := by
  constructor
  · rw [h.defines]
    exact hvisible.defines
  · intro name v hdefine hinterface
    rw [h.defines] at hdefine
    rw [h.interfaceVars] at hinterface
    have htrue := hvisible.interfaceVars name v hdefine hinterface
    cases v with
    | string text => exact htrue
    | list ref =>
      unfold SuppliedValues.isTrue at htrue ⊢
      dsimp only at htrue ⊢
      rw [h.contents name ref hinterface]
      exact htrue

end Resolve

/-! ### Appending -/

section Append

variable {given : SuppliedValues} {s : ParameterState} {name : String} {value : GroovyValue}

/-- The list that is appended to, or that is made. -/
structure AppendsTo (s : ParameterState) (name : String) (value : GroovyValue)
    (s' : ParameterState) (ref : ℕ) : Prop where
  place : (s.toAppend name).value = .list ref ∨
    ref = s.size ∧ ∀ ref', (s.toAppend name).value ≠ .list ref'
  lists : s'.lists =
    Function.update s.lists ref (s.elements (s.toAppend name).value ++ [value])
  param : ∃ p, s'.params[name]? = some p ∧ p.value = .list ref
  defines : s'.defines = s.defines
  interfaceVars : s'.interfaceVars = s.interfaceVars

theorem getElem?_insert_param (params : TreeMap String Parameter) (name : String) (p : Parameter) :
    (params.insert name p)[name]? = some p :=
  TreeMap.getElem?_insert_self

theorem appendsTo_makeList (hlist : ∀ ref, (s.toAppend name).value ≠ .list ref) :
    AppendsTo s name value
      (s.makeList name (s.elements (s.toAppend name).value ++ [value])) s.size where
  place := Or.inr ⟨rfl, hlist⟩
  lists := rfl
  param := ⟨_, getElem?_insert_param _ name _, rfl⟩
  defines := rfl
  interfaceVars := rfl

theorem exists_appendsTo (s : ParameterState) (name : String) (value : GroovyValue) :
    ∃ ref, AppendsTo s name value (s.appendParameter name value) ref := by
  unfold appendParameter
  dsimp only
  by_cases hlist : (s.toAppend name).list = true
  · rw [if_pos hlist]
    rw [(s.toAppend name).listed] at hlist
    cases hvalue : (s.toAppend name).value with
    | list ref =>
      refine ⟨ref, Or.inl hvalue, ?_, ⟨_, getElem?_insert_param _ name _, hvalue⟩, rfl, rfl⟩
      rw [hvalue]
      rfl
    | _ =>
      rw [hvalue] at hlist
      cases hlist
  · rw [if_neg hlist]
    rw [(s.toAppend name).listed] at hlist
    have hnot : ∀ ref, (s.toAppend name).value ≠ .list ref := by
      intro ref hvalue
      rw [hvalue] at hlist
      exact hlist rfl
    have hmake := @appendsTo_makeList s name value hnot
    refine ⟨s.size, ?_⟩
    split_ifs with hnull
    · rw [hnull] at hmake
      exact hmake
    · cases hvalue : (s.toAppend name).value with
      | null => exact absurd hvalue hnull
      | list ref => exact absurd hvalue (hnot ref)
      | string text =>
        rw [hvalue] at hmake
        exact hmake
      | object identity =>
        rw [hvalue] at hmake
        exact hmake

/-- What is appended to is what the parameter stands for. -/
theorem value_toAppend (hvisible : Visible s.toSuppliedValues) (hdefine : name ∉ s.defines) :
    (s.toAppend name).value = s.resolved name .null := by
  have hnone : s.defines[name]? = none := TreeMap.getElem?_eq_none hdefine
  unfold toAppend
  cases hparam : s.params[name]? with
  | some p =>
    unfold resolved
    rw [hnone, hparam]
  | none => exact resolve_eq_resolved hvisible name .null

theorem resolve_appendParameter (hvisible : Visible s.toSuppliedValues)
    (hdefine : name ∉ s.defines) :
    ∃ ref, (s.appendParameter name value).resolve name .null = .list ref ∧
      (s.appendParameter name value).lists ref =
        s.elements (s.resolved name .null) ++ [value] := by
  obtain ⟨ref, hto⟩ := exists_appendsTo s name value
  obtain ⟨p, hp, hvalue⟩ := hto.param
  refine ⟨ref, ?_, ?_⟩
  · unfold resolve
    rw [hto.defines, TreeMap.getElem?_eq_none hdefine, hp]
    exact hvalue
  · rw [hto.lists, Function.update_self, value_toAppend hvisible hdefine]

/-- A call spares the lists of the interface variables if it appends to none of them. -/
theorem spares_iff (hvisible : Visible s.toSuppliedValues) :
    s.Spares (.appendParameter name value) ↔
      ∀ (v : String) (ref : ℕ), (s.toAppend name).value = .list ref →
        s.interfaceVars[v]? ≠ some (.list ref) := by
  unfold Spares
  dsimp only
  cases hparam : s.params[name]? with
  | some p =>
    unfold toAppend
    rw [hparam]
  | none =>
    have hvalue : (s.toAppend name).value = s.resolved name .null := by
      unfold toAppend
      rw [hparam]
      exact resolve_eq_resolved hvisible name .null
    rw [hvalue]
    unfold resolved
    rw [hparam]
    cases hdefine : s.defines[name]? with
    | some text =>
      have hmem : name ∈ s.defines := TreeMap.mem_iff_isSome_getElem?.mpr (hdefine ▸ rfl)
      exact iff_of_true (Or.inl hmem) fun v ref h ↦ by cases h
    | none =>
      have hmem : name ∉ s.defines := fun hmem ↦ by
        rw [TreeMap.mem_iff_isSome_getElem?, hdefine] at hmem
        cases hmem
      dsimp only
      constructor
      · intro h v ref hlist
        have hinterface := h.resolve_left hmem ref
        cases hv : s.interfaceVars[name]? with
        | none =>
          rw [hv] at hlist
          cases hlist
        | some v' =>
          rw [hv] at hlist hinterface
          cases v' with
          | string text => cases hlist
          | list ref' =>
            cases hlist
            exact absurd rfl hinterface
      · intro h
        refine Or.inr fun ref hinterface ↦ ?_
        rw [hinterface] at h
        exact h name ref rfl hinterface

/-- Nothing is appended to the lists of the interface variables by calls that spare them. -/
theorem Framed.appendParameter (h : Framed given s) (hvisible : Visible given)
    (hspares : s.Spares (.appendParameter name value)) :
    Framed given (s.appendParameter name value) := by
  obtain ⟨ref, hto⟩ := exists_appendsTo s name value
  refine ⟨hto.defines.trans h.defines, hto.interfaceVars.trans h.interfaceVars, ?_⟩
  intro v ref' hinterface
  rw [hto.lists, ← h.contents v ref' hinterface]
  rw [← h.interfaceVars] at hinterface
  refine Function.update_of_ne ?_ _ _
  rintro rfl
  rcases hto.place with hlist | ⟨rfl, -⟩
  · exact (spares_iff (h.visible hvisible)).mp hspares v ref' hlist hinterface
  · exact lt_irrefl _ (s.allocated v _ hinterface)

theorem not_framed_appendParameter (h : Framed given s) (hvisible : Visible given)
    (hspares : ¬ s.Spares (.appendParameter name value)) :
    ¬ Framed given (s.appendParameter name value) := by
  intro hframed
  rw [spares_iff (h.visible hvisible)] at hspares
  simp only [not_forall, not_not] at hspares
  obtain ⟨v, ref, hlist, hinterface⟩ := hspares
  obtain ⟨ref', hto⟩ := exists_appendsTo s name value
  have hsame : ref = ref' := by
    rcases hto.place with hlist' | ⟨-, hnot⟩
    · exact GroovyValue.list.inj (hlist.symm.trans hlist')
    · exact absurd hlist (hnot ref)
  subst hsame
  rw [h.interfaceVars] at hinterface
  have hkept := hframed.contents v ref hinterface
  rw [hto.lists, Function.update_self, hlist, ← h.contents v ref hinterface] at hkept
  exact List.cons_ne_nil _ _ (List.append_right_eq_self.mp hkept)

end Append

/-! ### Sequences of calls -/

section Run

variable {given : SuppliedValues} {s : ParameterState}

theorem Framed.call (h : Framed given s) (hvisible : Visible given) {c : Call}
    (hspares : s.Spares c) : Framed given (s.call c) := by
  cases c with
  | setParameter name value => exact ⟨h.defines, h.interfaceVars, h.contents⟩
  | appendParameter name value => exact h.appendParameter hvisible hspares
  | deleteParameter name => exact ⟨h.defines, h.interfaceVars, h.contents⟩

theorem Framed.keepsParameters (h : Framed given s) (hvisible : Visible given) :
    KeepsParameters given s where
  framed := h
  resolve := resolve_eq_resolved (h.visible hvisible)
  append _ _ hdefine := resolve_appendParameter (h.visible hvisible) hdefine

theorem framed_new (given : SuppliedValues) : Framed given (new given) :=
  ⟨rfl, rfl, fun _ _ _ ↦ rfl⟩

/-- The parameters are what the manual says along exactly the sequences of calls that spare the
lists of the interface variables, where nothing that is given is empty. -/
theorem keepsParameters_iff (given : SuppliedValues) (calls : List Call) :
    Guarded.Holds (fun s c ↦ some (call s c)) (KeepsParameters given) (new given) calls ↔
      Visible given ∧ Guarded.Meets (fun s c ↦ some (call s c)) Spares (new given) calls := by
  by_cases hvisible : Visible given
  · rw [and_iff_right hvisible]
    obtain ⟨s', hrun⟩ : ∃ s', calls.foldlM (fun s c ↦ some (call s c)) (new given) = some s' :=
      ⟨calls.foldl call (new given), List.foldlM_pure⟩
    refine Guarded.holds_iff_meets (fun s (h : Framed given s) ↦ h.keepsParameters hvisible) ?_ ?_
      (framed_new given) hrun
    · intro s c s' h hspares hcall
      exact Option.some_inj.mp hcall ▸ h.call hvisible hspares
    · intro s c s' h hspares hcall hkeeps
      obtain rfl := Option.some_inj.mp hcall
      cases c with
      | appendParameter name value =>
        exact not_framed_appendParameter h hvisible hspares hkeeps.framed
      | _ => exact hspares trivial
  · refine iff_of_false (fun h ↦ hvisible ?_) fun h ↦ hvisible h.1
    have hfirst : KeepsParameters given (new given) := by
      cases calls with
      | nil => exact h
      | cons c calls => exact h.1
    exact visible_of_resolve rfl hfirst.resolve

end Run

/-- A list of one string as an interface variable. -/
def listVariable : SuppliedValues where
  defines := ∅
  interfaceVars := (∅ : TreeMap String InterfaceValue).insert "app.flags" (.list 0)
  lists ref := if ref = 0 then [.string "-g"] else []
  size := 1
  allocated := by
    intro name ref h
    rw [TreeMap.getElem?_insert, TreeMap.getElem?_emptyc] at h
    split_ifs at h
    cases h
    exact Nat.one_pos

theorem not_keepsParameters_append :
    (call (new listVariable) (.appendParameter "app.flags" (.string "-O"))).lists 0 =
        [.string "-g", .string "-O"] ∧
      ¬ Guarded.Holds (fun s c ↦ some (call s c)) (KeepsParameters listVariable) (new listVariable)
        [.appendParameter "app.flags" (.string "-O")] := by
  have hlists : (call (new listVariable) (.appendParameter "app.flags" (.string "-O"))).lists 0 =
      [.string "-g", .string "-O"] := by
    decide +kernel
  refine ⟨hlists, fun h ↦ ?_⟩
  have hkept := (h.2 _ rfl).framed.contents "app.flags" 0 (by decide +kernel)
  rw [hlists] at hkept
  cases hkept

end ParameterState

end Abuild
