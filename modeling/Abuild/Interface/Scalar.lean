import Abuild.Interface.Entries

/-!
The history of a scalar variable. It is meant to hold fallback assignments, then
normal ones that all say the same, then override assignments, so that its last entry
is the value. An assignment looks at the first entry of the history only, and a normal
one that comes after an override, or after a fallback and a different normal one, is
recorded where it does not belong (`layered_record_normal_iff`).
-/

set_option autoImplicit false
set_option relaxedAutoImplicit false

namespace Abuild.Interface

open Std (TreeMap TreeSet)

/-! ### Layers -/

/-- The history of a scalar: fallback assignments, then normal ones from one place
and with one value, then override assignments. -/
def Layered (history : List Assignment) : Prop :=
  ∃ fallbacks normals overrides, history = fallbacks ++ normals ++ overrides ∧
    (∀ a ∈ fallbacks, a.assignmentType = .fallback) ∧
    (∀ a ∈ normals, a.assignmentType = .normal) ∧
    (∀ a ∈ overrides, a.assignmentType = .override) ∧
    ∀ a ∈ normals, ∀ b ∈ normals, a.location = b.location ∧ a.value = b.value

/-- The layers from the front of a history to its end. -/
def AssignType.rank : AssignType → ℕ
  | .fallback => 0
  | .normal => 1
  | .override => 2

/-- Two entries of a layered history, the first of which stands before the second. -/
structure Before (a b : Assignment) : Prop where
  rank_le : a.assignmentType.rank ≤ b.assignmentType.rank
  agree : a.assignmentType = .normal → b.assignmentType = .normal →
    a.location = b.location ∧ a.value = b.value

theorem layered_iff_pairwise {history : List Assignment} :
    Layered history ↔ history.Pairwise Before := by
  constructor
  · rintro ⟨fallbacks, normals, overrides, rfl, hfallbacks, hnormals, hoverrides, hagree⟩
    have hrank : ∀ a b : Assignment, a.assignmentType.rank < b.assignmentType.rank →
        Before a b := by
      intro a b hlt
      refine ⟨hlt.le, fun ha hb ↦ ?_⟩
      rw [ha, hb] at hlt
      exact absurd hlt (lt_irrefl _)
    rw [List.pairwise_append, List.pairwise_append]
    refine ⟨⟨?_, ?_, fun a ha b hb ↦ hrank a b ?_⟩, ?_, fun a ha b hb ↦ hrank a b ?_⟩
    · refine List.pairwise_of_forall_mem_list fun a ha b hb ↦ ⟨?_, fun h ↦ ?_⟩
      · rw [hfallbacks a ha, hfallbacks b hb]
      · rw [hfallbacks a ha] at h
        cases h
    · refine List.pairwise_of_forall_mem_list fun a ha b hb ↦ ⟨?_, fun _ _ ↦ hagree a ha b hb⟩
      rw [hnormals a ha, hnormals b hb]
    · rw [hfallbacks a ha, hnormals b hb]
      decide
    · refine List.pairwise_of_forall_mem_list fun a ha b hb ↦ ⟨?_, fun h ↦ ?_⟩
      · rw [hoverrides a ha, hoverrides b hb]
      · rw [hoverrides a ha] at h
        cases h
    · rw [hoverrides b hb]
      rcases List.mem_append.mp ha with ha | ha
      · rw [hfallbacks a ha]
        decide
      · rw [hnormals a ha]
        decide
  · intro h
    induction h with
    | nil => exact ⟨[], [], [], rfl, by simp, by simp, by simp, by simp⟩
    | @cons a history hbefore _ ih =>
      obtain ⟨fallbacks, normals, overrides, rfl, hfallbacks, hnormals, hoverrides, hagree⟩ := ih
      have hnone : ∀ b ∈ fallbacks ++ normals ++ overrides,
          ¬ b.assignmentType.rank < a.assignmentType.rank :=
        fun b hb ↦ not_lt.mpr (hbefore b hb).rank_le
      cases ha : a.assignmentType with
      | fallback =>
        refine ⟨a :: fallbacks, normals, overrides, by simp, ?_, hnormals, hoverrides, hagree⟩
        exact List.forall_mem_cons.mpr ⟨ha, hfallbacks⟩
      | normal =>
        obtain rfl : fallbacks = [] := by
          refine List.eq_nil_iff_forall_not_mem.mpr fun b hb ↦ hnone b (by simp [hb]) ?_
          rw [hfallbacks b hb, ha]
          decide
        have hsame : ∀ b ∈ normals, a.location = b.location ∧ a.value = b.value := fun b hb ↦
          (hbefore b (by simp [hb])).agree ha (hnormals b hb)
        refine ⟨[], a :: normals, overrides, by simp, by simp,
          List.forall_mem_cons.mpr ⟨ha, hnormals⟩, hoverrides, ?_⟩
        refine List.forall_mem_cons.mpr ⟨List.forall_mem_cons.mpr ⟨⟨rfl, rfl⟩, hsame⟩,
          fun b hb ↦ ?_⟩
        refine List.forall_mem_cons.mpr ⟨?_, hagree b hb⟩
        exact ⟨(hsame b hb).1.symm, (hsame b hb).2.symm⟩
      | override =>
        obtain rfl : fallbacks = [] := by
          refine List.eq_nil_iff_forall_not_mem.mpr fun b hb ↦ hnone b (by simp [hb]) ?_
          rw [hfallbacks b hb, ha]
          decide
        obtain rfl : normals = [] := by
          refine List.eq_nil_iff_forall_not_mem.mpr fun b hb ↦ hnone b (by simp [hb]) ?_
          rw [hnormals b hb, ha]
          decide
        exact ⟨[], [], a :: overrides, by simp, by simp, by simp,
          List.forall_mem_cons.mpr ⟨ha, hoverrides⟩, by simp⟩

theorem Layered.sublist {history history' : List Assignment} (h : Layered history)
    (hsub : List.Sublist history' history) : Layered history' := by
  rw [layered_iff_pairwise] at h ⊢
  exact h.sublist hsub

theorem Layered.nil : Layered [] := layered_iff_pairwise.mpr List.Pairwise.nil

/-- A normal assignment at the end of a history is in its place where no override is
before it and the normal ones agree with it. -/
theorem layered_concat_normal_iff {history : List Assignment} {a : Assignment}
    (ha : a.assignmentType = .normal) : Layered (history ++ [a]) ↔ Layered history ∧
      (∀ b ∈ history, b.assignmentType ≠ .override) ∧
      ∀ b ∈ history, b.assignmentType = .normal → b.location = a.location ∧ b.value = a.value := by
  rw [layered_iff_pairwise, layered_iff_pairwise, List.pairwise_append]
  simp only [List.mem_singleton, forall_eq, List.pairwise_singleton, true_and]
  refine and_congr_right fun _ ↦ ⟨fun h ↦ ⟨fun b hb hoverride ↦ ?_, fun b hb hnormal ↦ ?_⟩,
    fun h b hb ↦ ⟨?_, fun hnormal _ ↦ h.2 b hb hnormal⟩⟩
  · have hle := (h b hb).rank_le
    rw [hoverride, ha] at hle
    exact absurd hle (by decide)
  · exact (h b hb).agree hnormal ha
  · rw [ha]
    cases hb' : b.assignmentType with
    | fallback => decide
    | normal => decide
    | override => exact absurd hb' (h.1 b hb)

/-! ### Assignments to a scalar -/

/-- The first entry of the history is a fallback assignment. -/
def FallbackFirst (var : Variable) : Prop :=
  ∃ a ∈ var.assignmentHistory.head?, a.assignmentType = .fallback

/-- What a normal assignment of a value at a place has to meet for its entry to be
in its place. -/
structure InPlace (var : Variable) (location : FileLocation) (value : List String) : Prop where
  noOverride : ∀ b ∈ var.assignmentHistory, b.assignmentType ≠ .override
  agree : FallbackFirst var → ∀ b ∈ var.assignmentHistory, b.assignmentType = .normal →
    b.location = location ∧ b.value = value

/-- The check of a normal assignment to a scalar looks at the first entry. -/
theorem checkAssignment_normal_iff {var : Variable} {a : Assignment}
    (hscalar : var.listType = .scalar) (ha : a.assignmentType = .normal) :
    checkAssignment var a = [] ↔ ∀ b ∈ var.assignmentHistory.head?, b.assignmentType = .normal →
      b.location = a.location ∧ b.value = a.value := by
  unfold checkAssignment
  rw [if_pos hscalar, ha]
  cases hhead : var.assignmentHistory.head? with
  | none => simp
  | some b =>
    simp only [Option.mem_some_iff, forall_eq']
    by_cases hnormal : b.assignmentType = .normal
    · rw [if_neg (by simpa using hnormal)]
      by_cases hlocation : b.location = a.location
      · by_cases hvalue : a.value = b.value
        · simp [hlocation, hvalue]
        · simp [hlocation, hvalue, hnormal, Ne.symm hvalue]
      · simp [hlocation, hnormal]
    · simp [hnormal]

/-- A normal assignment that succeeds leaves a layered history layered exactly where it
is in its place. -/
theorem layered_record_normal_iff {var : Variable} {a : Assignment}
    (hscalar : var.listType = .scalar) (ha : a.assignmentType = .normal)
    (hcheck : checkAssignment var a = []) (hlayered : Layered var.assignmentHistory) :
    Layered (record var a).assignmentHistory ↔ InPlace var a.location a.value := by
  have hhistory : (record var a).assignmentHistory = var.assignmentHistory ++ [a] := by
    unfold record
    rw [if_neg]
    rintro ⟨-, hfallback⟩
    rw [ha] at hfallback
    cases hfallback
  rw [hhistory, layered_concat_normal_iff ha]
  constructor
  · rintro ⟨-, hoverride, hagree⟩
    exact ⟨hoverride, fun _ ↦ hagree⟩
  · rintro ⟨hoverride, hagree⟩
    refine ⟨hlayered, hoverride, fun b hb hnormal ↦ ?_⟩
    by_cases hfallback : FallbackFirst var
    · exact hagree hfallback b hb hnormal
    · -- the first entry is a normal one, which the check has compared, and all others agree
      obtain ⟨first, rest, hsplit⟩ := List.exists_cons_of_ne_nil (List.ne_nil_of_mem hb)
      have hhead : first ∈ var.assignmentHistory.head? := by simp [hsplit]
      have hfirst : first.assignmentType = .normal := by
        cases htype : first.assignmentType with
        | fallback => exact absurd ⟨first, hhead, htype⟩ hfallback
        | normal => rfl
        | override => exact absurd htype (hoverride first (by simp [hsplit]))
      have hsame := (checkAssignment_normal_iff hscalar ha).mp hcheck first hhead hfirst
      rw [layered_iff_pairwise, hsplit, List.pairwise_cons] at hlayered
      rw [hsplit] at hb
      rcases List.mem_cons.mp hb with rfl | hb
      · exact hsame
      · obtain ⟨hlocation, hvalue⟩ := (hlayered.1 b hb).agree hfirst hnormal
        exact ⟨hlocation.symm.trans hsame.1, hvalue.symm.trans hsame.2⟩

/-- Fallback and override assignments go where they belong. -/
theorem layered_record_of_ne_normal {var : Variable} {a : Assignment}
    (hscalar : var.listType = .scalar) (ha : a.assignmentType ≠ .normal)
    (hlayered : Layered var.assignmentHistory) : Layered (record var a).assignmentHistory := by
  obtain ⟨fallbacks, normals, overrides, hsplit, hfallbacks, hnormals, hoverrides, hagree⟩ :=
    hlayered
  unfold record
  dsimp only
  cases htype : a.assignmentType with
  | fallback =>
    rw [if_pos ⟨hscalar, rfl⟩, hsplit]
    exact ⟨a :: fallbacks, normals, overrides, rfl, List.forall_mem_cons.mpr ⟨htype, hfallbacks⟩,
      hnormals, hoverrides, hagree⟩
  | normal => exact absurd htype ha
  | override =>
    rw [if_neg (by simp), hsplit]
    refine ⟨fallbacks, normals, overrides ++ [a], by simp, hfallbacks, hnormals, ?_, hagree⟩
    intro b hb
    rcases List.mem_append.mp hb with hb | hb
    · exact hoverrides b hb
    · rw [List.mem_singleton.mp hb, htype]

/-! ### Runs -/

/-- The histories of the scalars of an interface are layered. -/
def ScalarsLayered (i : Interface) : Prop :=
  ∀ (name : String) (var : Variable), i.symbolTable[name]? = some var →
    var.listType = .scalar → Layered var.assignmentHistory

/-- A move meets the condition that a normal assignment to a scalar, where it is not
known yet, has to meet. -/
def Heeds (canonicalizePath : String → String) (i : Interface) : Move → Prop
  | .assign location name values .normal _ _ itemPlatform =>
    ∀ var stored, i.symbolTable[name]? = some var → var.listType = .scalar →
      findAssignment var location itemPlatform = none →
      i.checkValues canonicalizePath location var (assignedWords var values) = some (stored, []) →
        InPlace var location stored
  | _ => True

section Runs

variable {canonicalizePath : String → String} {i j : Interface} {move : Move}

/-- A move keeps the histories layered exactly where it meets the condition. -/
theorem Changes.scalarsLayered_iff (h : Changes canonicalizePath i move j) (hi : ScalarsLayered i) :
    ScalarsLayered j ↔ Heeds canonicalizePath i move := by
  constructor
  · intro hj
    cases h with
    | recorded location name values assignmentType flag itemName itemPlatform var stored hvar hnew
        hvalue hword hcheck =>
      cases assignmentType with
      | normal =>
        intro var' stored' hvar' hscalar _ hvalue'
        rw [hvar, Option.some_inj] at hvar'
        subst hvar'
        rw [hvalue, Option.some_inj, Prod.mk.injEq] at hvalue'
        obtain ⟨rfl, -⟩ := hvalue'
        refine (layered_record_normal_iff (a := ⟨location, .normal, flag, itemName, itemPlatform,
          stored⟩) hscalar rfl hcheck (hi name var hvar hscalar)).mp (hj name _ ?_ hscalar)
        rw [setVariable_getElem?, if_pos rfl]
      | override => trivial
      | fallback => trivial
    | repeated location name values assignmentType flag itemName itemPlatform var old errors hvar
        hold hvalue =>
      cases assignmentType with
      | normal =>
        intro var' stored' hvar' _ hnone _
        rw [hvar, Option.some_inj] at hvar'
        subst hvar'
        rw [hold] at hnone
        cases hnone
      | override => trivial
      | fallback => trivial
    | _ => trivial
  · intro hheeds
    refine h.each (P := fun _ var ↦ var.listType = .scalar → Layered var.assignmentHistory) ?_ ?_ ?_
      hi
    · exact fun _ _ _ _ _ _ _ _ _ ↦ Layered.nil
    · intro _ _ _ _ clear var _ _ hvar hscalar
      cases clear
      · exact hvar hscalar
      · exact Layered.nil
    · intro location name values assignmentType flag itemName itemPlatform var stored hmove hvar
        hnew
        hvalue hcheck hlayered hscalar
      have hkind : var.listType = .scalar := hscalar
      by_cases hnormal : assignmentType = .normal
      · subst hnormal hmove
        exact (layered_record_normal_iff hkind rfl hcheck (hlayered hkind)).mpr
          (hheeds var stored hvar hkind hnew hvalue)
      · exact layered_record_of_ne_normal hkind hnormal (hlayered hkind)

/-- The moves of a list meet the condition, each where it is made. -/
def HeedsAll (canonicalizePath : String → String) (moves : List Move) (i : Interface) : Prop :=
  ∀ before move after, moves = before ++ move :: after →
    ∀ j, runMoves canonicalizePath before i = some j → Heeds canonicalizePath j move

theorem heedsAll_cons_iff {moves : List Move} {i' : Interface}
    (h : move.succeed canonicalizePath i = some i') :
    HeedsAll canonicalizePath (move :: moves) i ↔
      Heeds canonicalizePath i move ∧ HeedsAll canonicalizePath moves i' := by
  constructor
  · intro hall
    refine ⟨hall [] move moves rfl i rfl, fun before move' after hsplit j hj ↦ ?_⟩
    refine hall (move :: before) move' after (by rw [hsplit, List.cons_append]) j ?_
    rw [runMoves_cons, h, Option.bind_some, hj]
  · rintro ⟨hmove, hall⟩ before move' after hsplit j hj
    cases before with
    | nil =>
      obtain ⟨rfl, -⟩ := List.cons.inj hsplit
      obtain rfl : i = j := by simpa [runMoves] using hj
      exact hmove
    | cons move'' before =>
      obtain ⟨rfl, htail⟩ := List.cons.inj hsplit
      rw [runMoves_cons, h, Option.bind_some] at hj
      exact hall before move' after htail j hj

/-- Moves that meet the condition keep the histories layered. -/
theorem scalarsLayered_of_heedsAll {moves : List Move}
    (h : runMoves canonicalizePath moves i = some j) (hall : HeedsAll canonicalizePath moves i)
    (hi : ScalarsLayered i) : ScalarsLayered j := by
  induction moves generalizing i with
  | nil =>
    obtain rfl : i = j := by simpa [runMoves] using h
    exact hi
  | cons move moves ih =>
    obtain ⟨i', hi', hrest⟩ := Option.bind_eq_some_iff.mp h
    obtain ⟨hmove, hmoves⟩ := (heedsAll_cons_iff hi').mp hall
    exact ih hrest hmoves
      ((((succeed_iff canonicalizePath).mp hi').scalarsLayered_iff hi).mpr hmove)

/-- The moves of an import do not forget an entry, so what they leave tells whether
they have met the condition. -/
theorem heedsAll_of_scalarsLayered {moves : List Move}
    (h : runMoves canonicalizePath moves i = some j) (himport : ∀ move ∈ moves, move.IsImport)
    (hi : ScalarsLayered i) (hj : ScalarsLayered j) : HeedsAll canonicalizePath moves i := by
  induction moves generalizing i with
  | nil =>
    intro before move after hsplit
    exact absurd hsplit (by simp)
  | cons move moves ih =>
    obtain ⟨i', hi', hrest⟩ := Option.bind_eq_some_iff.mp h
    have hchanges := (succeed_iff canonicalizePath).mp hi'
    have himports : ∀ move ∈ moves, move.IsImport := fun move hmove ↦
      himport move (List.mem_cons_of_mem _ hmove)
    have hgrows := runMoves_induction
      (motive := fun k ↦ ∀ (name : String) (var : Variable), i'.symbolTable[name]? = some var →
        ∃ var', k.symbolTable[name]? = some var' ∧ var'.listType = var.listType ∧
          List.Sublist var.assignmentHistory var'.assignmentHistory) hrest
      (fun name var hvar ↦ ⟨var, hvar, rfl, List.Sublist.refl _⟩)
      (fun move hmove i₁ i₂ hchanges hi₁ name var hvar ↦ by
        obtain ⟨var', hvar', hlist, hsub⟩ := hi₁ name var hvar
        obtain ⟨var'', hvar'', hgrow⟩ := (hchanges.grows (himports move hmove)).2 name var' hvar'
        exact ⟨var'', hvar'', hgrow.listType_eq.trans hlist, hsub.trans hgrow.sublist⟩)
    have hlayered : ScalarsLayered i' := by
      intro name var hvar hscalar
      obtain ⟨var', hvar', hlist, hsub⟩ := hgrows name var hvar
      exact (hj name var' hvar' (hlist.trans hscalar)).sublist hsub
    exact (heedsAll_cons_iff hi').mpr
      ⟨(hchanges.scalarsLayered_iff hi).mp hlayered, ih hrest himports hlayered⟩

end Runs

section Network

variable {ι : Type} [DecidableEq ι] {canonicalizePath : String → String}
  {actions : List (Action ι)} {net net' : ι → Interface}

/-- One action keeps the histories of a network layered exactly where its moves meet
the condition. -/
theorem Action.scalarsLayered_iff {action : Action ι}
    (h : action.run canonicalizePath net = some net') (hnet : ∀ k, ScalarsLayered (net k)) :
    (∀ k, ScalarsLayered (net' k)) ↔
      HeedsAll canonicalizePath (action.moves net) (net action.target) := by
  have hrun := h
  rw [Action.run_eq] at hrun
  obtain ⟨j, hj, rfl⟩ := Option.map_eq_some_iff.mp hrun
  constructor
  · intro hall
    have hlayered := hall action.target
    rw [Function.update_self] at hlayered
    cases action with
    | call k statement =>
      -- one move, which may be a reset that forgets entries
      have hmove : (statement.move (net k)).succeed canonicalizePath (net k) = some j := by
        simpa [runMoves, Action.moves, Action.target] using hj
      refine (heedsAll_cons_iff hmove).mpr
        ⟨(((succeed_iff canonicalizePath).mp hmove).scalarsLayered_iff (hnet k)).mp hlayered,
          fun before move after hsplit ↦ absurd hsplit (by simp)⟩
    | importInterface k other =>
      exact heedsAll_of_scalarsLayered hj (fun _ ↦ isImport_of_mem) (hnet k) hlayered
  · intro hall k
    by_cases hk : k = action.target
    · subst hk
      rw [Function.update_self]
      exact scalarsLayered_of_heedsAll hj hall (hnet _)
    · rw [Function.update_of_ne hk]
      exact hnet k

/-- Every normal assignment of a run that is made to a scalar, by a call or by an
import, meets the condition where it is made. -/
def Heedful (canonicalizePath : String → String) (actions : List (Action ι)) (net : ι → Interface) :
    Prop :=
  ∀ before action after, actions = before ++ action :: after →
    ∀ net₁, runActions canonicalizePath before net = some net₁ →
      HeedsAll canonicalizePath (action.moves net₁) (net₁ action.target)

theorem runActions_scalarsLayered_iff (h : runActions canonicalizePath actions net = some net')
    (hnet : ∀ k, ScalarsLayered (net k)) :
    (∀ before after, actions = before ++ after →
      ∀ net₁, runActions canonicalizePath before net = some net₁ → ∀ k, ScalarsLayered (net₁ k)) ↔
    Heedful canonicalizePath actions net := by
  induction actions generalizing net with
  | nil =>
    refine ⟨fun _ before action after hsplit ↦ absurd hsplit (by simp),
      fun _ before after hsplit net₁ hnet₁ ↦ ?_⟩
    obtain ⟨rfl, rfl⟩ := List.append_eq_nil_iff.mp hsplit.symm
    obtain rfl : net = net₁ := by simpa [runActions] using hnet₁
    exact hnet
  | cons action actions ih =>
    rw [runActions_cons] at h
    obtain ⟨net₁, hnet₁, hrest⟩ := Option.bind_eq_some_iff.mp h
    have hcons : ∀ before, runActions canonicalizePath (action :: before) net =
        runActions canonicalizePath before net₁ := fun before ↦ by
      rw [runActions_cons, hnet₁, Option.bind_some]
    have hfirst := Action.scalarsLayered_iff hnet₁ hnet
    constructor
    · intro hall
      have hlayered := hall [action] actions rfl net₁ (hcons [])
      have hheedful := (ih hrest hlayered).mp fun before after hsplit net₂ hnet₂ ↦
        hall (action :: before) after (by rw [hsplit, List.cons_append]) net₂
          ((hcons before).trans hnet₂)
      intro before action' after hsplit net₂ hnet₂
      cases before with
      | nil =>
        obtain ⟨rfl, -⟩ := List.cons.inj hsplit
        obtain rfl : net = net₂ := by simpa [runActions] using hnet₂
        exact hfirst.mp hlayered
      | cons action'' before =>
        obtain ⟨rfl, htail⟩ := List.cons.inj hsplit
        exact hheedful before action' after htail net₂ ((hcons before).symm.trans hnet₂)
    · intro hheedful
      have hlayered := hfirst.mpr (hheedful [] action actions rfl net rfl)
      have hall := (ih hrest hlayered).mpr fun before action' after hsplit net₂ hnet₂ ↦
        hheedful (action :: before) action' after (by rw [hsplit, List.cons_append]) net₂
          ((hcons before).trans hnet₂)
      intro before after hsplit net₂ hnet₂
      cases before with
      | nil =>
        obtain rfl : net = net₂ := by simpa [runActions] using hnet₂
        exact hnet
      | cons action'' before =>
        obtain ⟨rfl, htail⟩ := List.cons.inj hsplit
        exact hall before after htail net₂ ((hcons before).symm.trans hnet₂)

/-! ### Reading and rejecting -/

theorem checkValue_isSome (i : Interface) (location : FileLocation) (var : Variable)
    (value : String) : (i.checkValue canonicalizePath location var value).isSome := by
  unfold checkValue
  split
  · split_ifs <;> rfl
  · by_cases hempty : value.isEmpty
    · rw [if_pos hempty]
      rfl
    · have hnormal : (Util.normalizePathSeparators value).isEmpty = false := by
        rw [Bool.eq_false_iff]
        intro h
        unfold Util.normalizePathSeparators at h
        rw [String.isEmpty_iff, String.map_eq_empty] at h
        exact hempty (String.isEmpty_iff.mpr h)
      rw [if_neg hempty]
      unfold normalizeFilename
      simp [hnormal]
  · rfl

theorem checkValues_isSome (i : Interface) (location : FileLocation) (var : Variable)
    (values : List String) : (i.checkValues canonicalizePath location var values).isSome := by
  induction values with
  | nil => rfl
  | cons value values ih =>
    obtain ⟨r, hr⟩ := Option.isSome_iff_exists.mp
      (@checkValue_isSome canonicalizePath i location var value)
    obtain ⟨rs, hrs⟩ := Option.isSome_iff_exists.mp ih
    unfold checkValues
    rw [hr, hrs]
    rfl

/-- The value that is read is that of an entry of the last layer among those seen. -/
theorem Layered.getVariable {i : Interface} {name : String} {var : Variable}
    (h : Layered var.assignmentHistory) (hvar : i.symbolTable[name]? = some var)
    (hscalar : var.listType = .scalar) {flagData : FlagData} {info : VariableInfo}
    (hinfo : i.getVariable name flagData = some info) {a : Assignment}
    (ha : a ∈ visibleAssignments flagData var) :
    ∃ b ∈ visibleAssignments flagData var, info.value = b.value ∧
      ∀ a ∈ visibleAssignments flagData var, a.assignmentType.rank ≤ b.assignmentType.rank := by
  have hvisible : Layered (visibleAssignments flagData var) := h.sublist List.filter_sublist
  unfold Interface.getVariable at hinfo
  rw [hvar, Option.some_inj] at hinfo
  generalize hseen : visibleAssignments flagData var = seen at ha hvisible hinfo ⊢
  obtain ⟨init, b, rfl⟩ := (List.eq_nil_or_concat' seen).resolve_left (List.ne_nil_of_mem ha)
  refine ⟨b, by simp, ?_, fun a' ha' ↦ ?_⟩
  · rw [← hinfo]
    show valueOf var.listType (init ++ [b]) = b.value
    rw [hscalar]
    simp [valueOf]
  · rw [layered_iff_pairwise, List.pairwise_append] at hvisible
    rcases List.mem_append.mp ha' with ha' | ha'
    · exact (hvisible.2.2 a' ha' b (List.mem_singleton_self b)).rank_le
    · rw [List.mem_singleton.mp ha']

/-- A normal assignment from another place than a normal one in a layered history is
rejected, unless a fallback assignment comes first. -/
theorem Layered.rejected {i : Interface} {name : String} {var : Variable}
    (h : Layered var.assignmentHistory) (hvar : i.symbolTable[name]? = some var)
    (hscalar : var.listType = .scalar) {location : FileLocation}
    (hnew : findAssignment var location i.itemPlatform = none) {b : Assignment}
    (hb : b ∈ var.assignmentHistory) (hnormal : b.assignmentType = .normal)
    (hlocation : b.location ≠ location) (hfirst : ¬ FallbackFirst var) (values : List String)
    (flag : String) : ∃ o,
      i.assignVariable canonicalizePath location name values .normal flag = some o ∧
        o.status = false := by
  obtain ⟨⟨stored, errors⟩, hvalue⟩ := Option.isSome_iff_exists.mp
    (@checkValues_isSome canonicalizePath i location var
      (assignedWords var values))
  unfold assignVariable
  rw [assignVariableAs_eq canonicalizePath hvar, hvalue]
  simp only [Option.bind_some, hnew]
  refine ⟨_, rfl, ?_⟩
  rw [Bool.eq_false_iff]
  intro hempty
  have hcheck := (List.append_eq_nil_iff.mp (List.isEmpty_iff.mp hempty)).2
  rw [checkAssignment_normal_iff hscalar rfl] at hcheck
  obtain ⟨first, rest, hsplit⟩ := List.exists_cons_of_ne_nil (List.ne_nil_of_mem hb)
  have hhead : first ∈ var.assignmentHistory.head? := by simp [hsplit]
  rw [layered_iff_pairwise, hsplit, List.pairwise_cons] at h
  rw [hsplit] at hb
  rcases List.mem_cons.mp hb with rfl | hb
  · exact hlocation (hcheck b hhead hnormal).1
  · -- the first entry is not after a normal one, so it is a normal one itself
    have hrank := (h.1 b hb).rank_le
    cases htype : first.assignmentType with
    | fallback => exact hfirst ⟨first, hhead, htype⟩
    | normal =>
      exact hlocation (((h.1 b hb).agree htype hnormal).1.symm.trans (hcheck first hhead htype).1)
    | override =>
      rw [htype, hnormal] at hrank
      exact absurd hrank (by decide)

/-- Where a fallback assignment comes first, a normal assignment of a value that is accepted is let
through from every place that is new. -/
theorem FallbackFirst.accepted {i : Interface} {name : String} {var : Variable}
    (hfirst : FallbackFirst var) (hvar : i.symbolTable[name]? = some var)
    (hscalar : var.listType = .scalar) {location : FileLocation}
    (hnew : findAssignment var location i.itemPlatform = none) {value : String}
    {stored : List String}
    (hvalue : i.checkValues canonicalizePath location var [value] = some (stored, []))
    (flag : String) : ∃ o,
      i.assignVariable canonicalizePath location name [value] .normal flag = some o ∧
        o.status = true := by
  have hwords : assignedWords var [value] = [value] := if_neg (by simp)
  have hone : multiwordErrors var location name [value] = [] := by
    unfold multiwordErrors
    rw [hwords]
    exact if_neg (by simp)
  unfold assignVariable
  rw [assignVariableAs_eq canonicalizePath hvar, hwords, hvalue]
  simp only [Option.bind_some, hnew, hone]
  refine ⟨_, rfl, List.isEmpty_iff.mpr ?_⟩
  rw [List.nil_append, List.nil_append, checkAssignment_normal_iff hscalar rfl]
  intro b hb hnormal
  obtain ⟨a, ha, hfallback⟩ := hfirst
  obtain rfl := Option.mem_unique ha hb
  cases hfallback.symm.trans hnormal

/-- The histories of the scalars of a network are layered in all its states exactly
where every normal assignment of the run, when it is made, finds no override, and, after
a fallback that comes first, only normal assignments that agree with it. Then the value
read is from the last layer, and a normal assignment from another place than the one in
the history is rejected unless a fallback comes first: then it is let through. -/
theorem runActions_scalars (h : runActions canonicalizePath actions net = some net')
    (hfresh : ∀ k, Fresh (net k)) :
    ((∀ before after, actions = before ++ after →
        ∀ net₁, runActions canonicalizePath before net = some net₁ →
          ∀ k (name : String) (var : Variable), (net₁ k).symbolTable[name]? = some var →
            var.listType = .scalar → Layered var.assignmentHistory) ↔
      Heedful canonicalizePath actions net) ∧
    ∀ k (name : String) (var : Variable), (net' k).symbolTable[name]? = some var →
      var.listType = .scalar → Layered var.assignmentHistory →
      (∀ flagData info, (net' k).getVariable name flagData = some info →
        ∀ a ∈ visibleAssignments flagData var, ∃ b ∈ visibleAssignments flagData var,
          info.value = b.value ∧ ∀ a ∈ visibleAssignments flagData var,
            a.assignmentType.rank ≤ b.assignmentType.rank) ∧
      ∀ location values flag, findAssignment var location (net' k).itemPlatform = none →
        (∃ b ∈ var.assignmentHistory, b.assignmentType = .normal ∧ b.location ≠ location) →
        (¬ FallbackFirst var → ∃ o,
          (net' k).assignVariable canonicalizePath location name values .normal flag = some o ∧
            o.status = false) ∧
        ∀ value stored, FallbackFirst var →
          (net' k).checkValues canonicalizePath location var [value] = some (stored, []) → ∃ o,
            (net' k).assignVariable canonicalizePath location name [value] .normal flag = some o ∧
              o.status = true := by
  refine ⟨runActions_scalarsLayered_iff h fun k name var hvar ↦ ?_,
    fun k name var hvar hscalar hlayered ↦ ⟨fun flagData info hinfo a ha ↦ ?_,
      fun location values flag hnew ⟨b, hb, hnormal, hlocation⟩ ↦ ⟨fun hfirst ↦ ?_,
        fun value stored hfirst hvalue ↦ ?_⟩⟩⟩
  · rw [hfresh k name] at hvar
    cases hvar
  · exact hlayered.getVariable hvar hscalar hinfo ha
  · exact hlayered.rejected hvar hscalar hnew hb hnormal hlocation hfirst values flag
  · exact hfirst.accepted hvar hscalar hnew hvalue flag

end Network

def emptyInterfaces (k : Bool) : Interface :=
  ⟨if k then "lib" else "prog", "indep", ∅, "/", .all⟩

/-- A scalar with a fallback value, and two places that set it. -/
def setTwice : List (Action Bool) :=
  [.call true (.declare ⟨"lib/Abuild.interface", 1, 1⟩ "LEVEL" .recursive .string .scalar),
    .call true (.assign ⟨"lib/Abuild.interface", 2, 1⟩ "LEVEL" ["0"] .fallback ""),
    .importInterface false true,
    .call false (.assign ⟨"prog/Abuild.interface", 1, 1⟩ "LEVEL" ["1"] .normal ""),
    .call false (.assign ⟨"prog/Abuild.interface", 2, 1⟩ "LEVEL" ["2"] .normal "")]

theorem runActions_scalars_setTwice :
    ∃ net, runActions id (setTwice.take 4) emptyInterfaces = some net ∧
      ((∀ before after, setTwice.take 4 = before ++ after →
        ∀ net₁, runActions id before emptyInterfaces = some net₁ →
          ∀ k (name : String) (var : Variable), (net₁ k).symbolTable[name]? = some var →
            var.listType = .scalar → Layered var.assignmentHistory) ↔
        Heedful id (setTwice.take 4) emptyInterfaces) := by
  have hrun : (runActions id (setTwice.take 4) emptyInterfaces).isSome := by decide
  obtain ⟨net, hnet⟩ := Option.isSome_iff_exists.mp hrun
  exact ⟨net, hnet, (runActions_scalars hnet fun _ _ ↦ TreeMap.getElem?_emptyc).1⟩

def levelEntry (file : String) (lineno : ℤ) (assignmentType : AssignType)
    (itemName value : String) : Assignment :=
  ⟨⟨file, lineno, 1⟩, assignmentType, "", itemName, "indep", [value]⟩

/-- All calls succeed, and the history holds two different normal assignments. -/
theorem not_layered_setTwice :
    ∃ net, runActions id setTwice emptyInterfaces = some net ∧
      ∃ var, (net false).symbolTable["LEVEL"]? = some var ∧ var.listType = .scalar ∧
        var.assignmentHistory.map Assignment.value = [["0"], ["1"], ["2"]] ∧
        ¬ Layered var.assignmentHistory := by
  have hrun : ((runActions id setTwice emptyInterfaces).bind fun net ↦
      ((net false).symbolTable["LEVEL"]?).map fun var ↦ (var.listType, var.assignmentHistory)) =
        some (.scalar, [levelEntry "lib/Abuild.interface" 2 .fallback "lib" "0",
          levelEntry "prog/Abuild.interface" 1 .normal "prog" "1",
          levelEntry "prog/Abuild.interface" 2 .normal "prog" "2"]) := by decide
  obtain ⟨net, hnet, hvar⟩ := Option.bind_eq_some_iff.mp hrun
  obtain ⟨var, hvar, heq⟩ := Option.map_eq_some_iff.mp hvar
  obtain ⟨hscalar, hhistory⟩ := Prod.mk.inj heq
  refine ⟨net, hnet, var, hvar, hscalar, by rw [hhistory]; rfl, fun hlayered ↦ ?_⟩
  rw [hhistory, layered_iff_pairwise, List.pairwise_cons, List.pairwise_cons] at hlayered
  have hagree := (hlayered.2.1 _ (List.mem_singleton_self _)).agree rfl rfl
  exact absurd hagree.2 (by decide)

end Abuild.Interface
