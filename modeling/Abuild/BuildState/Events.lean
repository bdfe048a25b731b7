import Abuild.BuildState
import Mathlib.Data.List.Infix

/-!
What happens to the targets of a `BuildState` from one state to another. Every state is consistent
with its events (`Consistent`), and what has begun before is not touched by what comes after
(`Grows`). A target is left in progress exactly where an exception leaves the run of a target
uncaught (`Balanced`), as long as no run ends with such an exception.
-/

set_option autoImplicit false
set_option relaxedAutoImplicit false

namespace Abuild

namespace Event

/-- The event is nothing but output. -/
def isOutput : Event → Bool
  | .println _ | .error _ | .printStackTrace _ => true
  | _ => false

/-- The closure that is run. -/
def closure? : Event → Option (String × ℕ)
  | .runs target index => some (target, index)
  | _ => none

/-- The target whose closures have an event. -/
def concerns : Event → Option String
  | .runs target _ => some target
  | .throws target _ => some target
  | _ => none

/-- The target whose dependencies must have succeeded before. -/
def needs : Event → Option String
  | .runs target _ => some target
  | .caches target true => some target
  | _ => none

/-- The event throws an exception that no run of a target catches. -/
def uncaught : Event → Bool
  | .asks _ inProgress => inProgress
  | .throws _ e => !e.isException
  | _ => false

end Event

namespace BuildState

variable {υ : Type}

/-- The run of a target has begun and has not ended. -/
def InProgress (s : BuildState υ) (target : String) : Prop :=
  s.targetsRun.get? target = some none

/-- The targets that have begun, and what they have come to, are those that the events tell of, and
a target has only gone on where its dependencies have succeeded. -/
structure Consistent (s : BuildState υ) : Prop where
  ready : s.ready = true
  known : ∀ target closures, s.closures.get? target = some closures →
    ∃ deps, s.g.getDirectDependencies target = some deps
  begun : ∀ target index, .runs target index ∈ s.events → s.targetsRun.get? target ≠ none
  once : (s.events.filterMap Event.closure?).Nodup
  cached : ∀ target status, s.targetsRun.get? target = some (some status) →
    .caches target status ∈ s.events
  ordered : ∀ before e target deps, before ++ [e] <+: s.events → e.needs = some target →
    s.g.getDirectDependencies target = some deps → ∀ dep ∈ deps, .caches dep true ∈ before
  threw : ∀ target e, .throws target e ∈ s.events →
    s.targetsRun.get? target ≠ none ∧ s.targetsRun.get? target ≠ some (some true)
  clean : ∀ before target, before ++ [.caches target true] <+: s.events →
    ∀ e, .throws target e ∉ before

/-- The events between two states. -/
def newEvents (s s' : BuildState υ) : List Event := s'.events.drop s.events.length

/-- Nothing has happened to the targets that had begun before, but for the closures of some. -/
structure Grows (own : String → Prop) (s s' : BuildState υ) : Prop where
  ready : s'.ready = s.ready
  keepGoing : s'.keepGoing = s.keepGoing
  g : s'.g = s.g
  closures : s'.closures = s.closures
  old : ∀ target, s.targetsRun.get? target ≠ none →
    s'.targetsRun.get? target = s.targetsRun.get? target
  events : s.events <+: s'.events
  concerns : ∀ e ∈ newEvents s s', ∀ target, e.concerns = some target →
    own target ∨ s.targetsRun.get? target = none

/-- A target has begun since and is still in progress. -/
def LeavesInProgress (s s' : BuildState υ) : Prop :=
  ∃ target, s.targetsRun.get? target = none ∧ s'.InProgress target

/-- An exception has been thrown since that no run of a target catches. -/
def Leaks (s s' : BuildState υ) : Prop := ∃ e ∈ newEvents s s', e.uncaught = true

def Balanced (s s' : BuildState υ) : Prop := LeavesInProgress s s' ↔ Leaks s s'

variable {s s' s'' : BuildState υ} {own own' : String → Prop}

/-! ### Several steps -/

theorem newEvents_self : newEvents s s = [] := List.drop_length

theorem events_eq (h : s.events <+: s'.events) : s'.events = s.events ++ newEvents s s' :=
  (List.prefix_append_drop h)

theorem newEvents_of_eq {events : List Event} (h : s'.events = s.events ++ events) :
    newEvents s s' = events := by
  unfold newEvents
  rw [h, List.drop_left]

theorem newEvents_trans (h : s.events <+: s'.events) (h' : s'.events <+: s''.events) :
    newEvents s s'' = newEvents s s' ++ newEvents s' s'' := by
  refine newEvents_of_eq ?_
  rw [← List.append_assoc, ← events_eq h, ← events_eq h']

theorem Grows.refl : Grows own s s where
  ready := rfl
  keepGoing := rfl
  g := rfl
  closures := rfl
  old _ _ := rfl
  events := List.prefix_rfl
  concerns e he := by
    rw [newEvents_self] at he
    cases he

/-- What has not begun later has not begun before. -/
theorem Grows.get?_eq_none (h : Grows own s s') {target : String}
    (hnone : s'.targetsRun.get? target = none) : s.targetsRun.get? target = none := by
  by_contra hne
  exact hne ((h.old target hne).symm.trans hnone)

theorem Grows.trans (h : Grows own s s') (h' : Grows own s' s'') : Grows own s s'' where
  ready := h'.ready.trans h.ready
  keepGoing := h'.keepGoing.trans h.keepGoing
  g := h'.g.trans h.g
  closures := h'.closures.trans h.closures
  old target hne := by
    have hold := h.old target hne
    rw [h'.old target (by rw [hold]; exact hne), hold]
  events := h.events.trans h'.events
  concerns e he target htarget := by
    rw [newEvents_trans h.events h'.events] at he
    rcases List.mem_append.mp he with he | he
    · exact h.concerns e he target htarget
    · exact (h'.concerns e he target htarget).imp_right h.get?_eq_none

theorem Grows.mono (h : Grows own s s') (hle : ∀ target, own target → own' target) :
    Grows own' s s' :=
  { h with concerns := fun e he target htarget ↦
      (h.concerns e he target htarget).imp_left (hle target) }

theorem leaks_trans (h : s.events <+: s'.events) (h' : s'.events <+: s''.events) :
    Leaks s s'' ↔ Leaks s s' ∨ Leaks s' s'' := by
  unfold Leaks
  rw [newEvents_trans h h']
  simp only [List.mem_append, or_and_right, exists_or]

theorem leavesInProgress_trans (h : Grows own s s') (h' : Grows own' s' s'') :
    LeavesInProgress s s'' ↔ LeavesInProgress s s' ∨ LeavesInProgress s' s'' := by
  constructor
  · rintro ⟨target, hnone, hprogress⟩
    by_cases hbegun : s'.targetsRun.get? target = none
    · exact Or.inr ⟨target, hbegun, hprogress⟩
    · exact Or.inl ⟨target, hnone, (h'.old target hbegun).symm.trans hprogress⟩
  · rintro (⟨target, hnone, hprogress⟩ | ⟨target, hnone, hprogress⟩)
    · have hbegun : s'.targetsRun.get? target ≠ none := by
        rw [hprogress]
        exact Option.some_ne_none _
      exact ⟨target, hnone, (h'.old target hbegun).trans hprogress⟩
    · exact ⟨target, h.get?_eq_none hnone, hprogress⟩

theorem Balanced.trans (hgrows : Grows own s s') (hgrows' : Grows own' s' s'')
    (h : Balanced s s') (h' : Balanced s' s'') : Balanced s s'' := by
  unfold Balanced
  rw [leavesInProgress_trans hgrows hgrows', leaks_trans hgrows.events hgrows'.events]
  exact or_congr h h'

/-! ### Single steps -/

theorem Consistent.congr (h : Consistent s) (hready : s'.ready = s.ready) (hg : s'.g = s.g)
    (hclosures : s'.closures = s.closures) (htargets : s'.targetsRun = s.targetsRun)
    (hevents : s'.events = s.events) : Consistent s' := by
  obtain ⟨hr, hk, hb, ho, hc, hord, hthrew, hclean⟩ := h
  rw [← hready] at hr
  rw [← hclosures, ← hg] at hk
  rw [← hevents, ← htargets] at hb hc hthrew
  rw [← hevents] at ho hclean
  rw [← hevents, ← hg] at hord
  exact ⟨hr, hk, hb, ho, hc, hord, hthrew, hclean⟩

theorem Consistent.record (h : Consistent s) {event : Event}
    (hruns : ∀ target index, event = .runs target index →
      s.targetsRun.get? target ≠ none ∧ event ∉ s.events)
    (hneeds : ∀ target deps, event.needs = some target →
      s.g.getDirectDependencies target = some deps → ∀ dep ∈ deps, .caches dep true ∈ s.events)
    (hthrows : ∀ target e, event = .throws target e →
      s.targetsRun.get? target ≠ none ∧ s.targetsRun.get? target ≠ some (some true))
    (hclean : ∀ target, event = .caches target true → ∀ e, .throws target e ∉ s.events) :
    Consistent (s.record event) where
  ready := h.ready
  known := h.known
  begun target index hmem := by
    rcases List.mem_append.mp hmem with hmem | hmem
    · exact h.begun target index hmem
    · exact (hruns target index (List.mem_singleton.mp hmem).symm).1
  once := by
    show ((s.events ++ [event]).filterMap Event.closure?).Nodup
    rw [List.filterMap_append]
    refine List.nodup_append'.mpr ⟨h.once, ?_, fun closure hold hnew ↦ ?_⟩
    · cases hclosure : event.closure? with
      | none =>
        rw [List.filterMap_cons_none hclosure]
        exact List.nodup_nil
      | some closure =>
        rw [List.filterMap_cons_some hclosure]
        exact List.nodup_singleton closure
    · obtain ⟨e, he, heclosure⟩ := List.mem_filterMap.mp hold
      obtain ⟨e', he', heclosure'⟩ := List.mem_filterMap.mp hnew
      obtain rfl := List.mem_singleton.mp he'
      cases e' with
      | runs target index =>
        obtain rfl := Option.some_inj.mp heclosure'
        cases e with
        | runs target' index' =>
          obtain ⟨rfl, rfl⟩ := Prod.mk.inj (Option.some_inj.mp heclosure)
          exact (hruns target' index' rfl).2 he
        | _ => cases heclosure
      | _ => cases heclosure'
  cached target status hget := List.mem_append_left _ (h.cached target status hget)
  ordered before e target deps hbefore hneed hdeps dep hdep := by
    rcases List.prefix_concat_iff.mp hbefore with heq | hbefore
    · obtain ⟨rfl, hlast⟩ := List.append_inj' heq rfl
      obtain rfl := (List.cons.inj hlast).1
      exact hneeds target deps hneed hdeps dep hdep
    · exact h.ordered before e target deps hbefore hneed hdeps dep hdep
  threw target e hmem := by
    rcases List.mem_append.mp hmem with hmem | hmem
    · exact h.threw target e hmem
    · exact hthrows target e (List.mem_singleton.mp hmem).symm
  clean before target hbefore := by
    rcases List.prefix_concat_iff.mp hbefore with heq | hbefore
    · obtain ⟨rfl, hlast⟩ := List.append_inj' heq rfl
      exact hclean target (List.cons.inj hlast).1.symm
    · exact h.clean before target hbefore

theorem newEvents_record {event : Event} : newEvents s (s.record event) = [event] :=
  newEvents_of_eq rfl

theorem grows_record {event : Event} (h : ∀ target, event.concerns = some target → own target) :
    Grows own s (s.record event) where
  ready := rfl
  keepGoing := rfl
  g := rfl
  closures := rfl
  old _ _ := rfl
  events := List.prefix_append _ _
  concerns e he target htarget := by
    rw [newEvents_record, List.mem_singleton] at he
    exact Or.inl (h target (he ▸ htarget))

theorem not_leavesInProgress (h : s'.targetsRun = s.targetsRun) : ¬ LeavesInProgress s s' := by
  rintro ⟨target, hnone, hprogress⟩
  unfold InProgress at hprogress
  rw [h, hnone] at hprogress
  cases hprogress

theorem leaks_record {event : Event} : Leaks s (s.record event) ↔ event.uncaught = true := by
  unfold Leaks
  rw [newEvents_record]
  simp only [List.mem_singleton, exists_eq_left]

theorem balanced_record {event : Event} (h : event.uncaught = false) :
    Balanced s (s.record event) := by
  refine iff_of_false (not_leavesInProgress rfl) ?_
  rw [leaks_record, h]
  exact Bool.false_ne_true

/-- What a piece of a run does, when no exception leaves it that no run of a target catches. -/
structure Extends (own : String → Prop) (s s' : BuildState υ) : Prop where
  consistent : Consistent s'
  grows : Grows own s s'
  balanced : Balanced s s'

theorem Extends.refl (h : Consistent s) : Extends own s s := by
  refine ⟨h, .refl, iff_of_false (not_leavesInProgress rfl) ?_⟩
  unfold Leaks
  rw [newEvents_self]
  simp only [List.not_mem_nil, false_and, exists_false, not_false_eq_true]

theorem Extends.trans (h : Extends own s s') (h' : Extends own s' s'') : Extends own s s'' :=
  ⟨h'.consistent, h.grows.trans h'.grows, h.balanced.trans h.grows h'.grows h'.balanced⟩

theorem Extends.mono (h : Extends own s s') (hle : ∀ target, own target → own' target) :
    Extends own' s s' :=
  ⟨h.consistent, h.grows.mono hle, h.balanced⟩

/-- The world and the flag for failures bear on nothing of this. -/
theorem Extends.congr (h : Extends own s s') {world : υ} {anyFailures : Bool} :
    Extends own s { s' with world, anyFailures } :=
  ⟨h.consistent.congr rfl rfl rfl rfl rfl,
    { h.grows with ready := h.grows.ready }, h.balanced⟩

theorem extends_output (h : Consistent s) {event : Event} (houtput : event.isOutput = true) :
    Extends own s (s.record event) := by
  refine ⟨h.record (fun target index heq ↦ ?_) (fun target deps heq ↦ ?_) (fun target e heq ↦ ?_)
    (fun target heq ↦ ?_), grows_record fun target heq ↦ ?_, balanced_record ?_⟩
  all_goals cases event with
  | println | error | printStackTrace => first | rfl | cases heq
  | _ => cases houtput

theorem extends_error (h : Consistent s) (message : String) : Extends own s (s.error message) :=
  (extends_output h rfl).congr

end BuildState

end Abuild
