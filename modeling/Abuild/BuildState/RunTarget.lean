import Abuild.BuildState.Events

/-!
`runTarget`. Every call returns or throws, within a depth of one frame more than there are targets
that have not begun, and whatever the closures do, each of them is run once and after the
dependencies of its target have succeeded (`runTarget_spec`).
-/

set_option autoImplicit false
set_option relaxedAutoImplicit false

namespace Abuild.BuildState

variable {υ : Type} {s s' s'' : BuildState υ}

/-! ### The targets that have not begun -/

/-- The number of known targets that have not begun. -/
def unbegun (s : BuildState υ) : ℕ :=
  (s.closures.keySet.filter fun target ↦ (s.targetsRun.get? target).isNone).length

theorem Grows.unbegun_le {own : String → Prop} (h : Grows own s s') : s'.unbegun ≤ s.unbegun := by
  unfold unbegun
  rw [h.closures]
  refine (List.monotone_filter_right _ fun target hnone ↦ ?_).length_le
  rw [Option.isNone_iff_eq_none] at hnone ⊢
  exact h.get?_eq_none hnone

/-- The target is put in progress. -/
def begin (s : BuildState υ) (target : String) : BuildState υ :=
  { s with targetsRun := s.targetsRun.put target none }

theorem get?_begin {target target' : String} : (s.begin target).targetsRun.get? target' =
    if target = target' then some none else s.targetsRun.get? target' :=
  LinkedHashMap.get?_put _ _ _ _

theorem inProgress_begin {target : String} : (s.begin target).InProgress target := by
  unfold InProgress
  rw [get?_begin, if_pos rfl]

section Begin

variable {target : String} (hnone : s.targetsRun.get? target = none)

include hnone

theorem get?_begin_of_ne_none {target' : String} (hne : s.targetsRun.get? target' ≠ none) :
    (s.begin target).targetsRun.get? target' = s.targetsRun.get? target' := by
  rw [get?_begin, if_neg]
  rintro rfl
  exact hne hnone

theorem unbegun_begin_lt {closures : List (String × TargetClosure υ)}
    (hclosures : s.closures.get? target = some closures) :
    (s.begin target).unbegun < s.unbegun := by
  have hmem : target ∈ s.closures.keySet := LinkedHashMap.mem_keySet_iff.mpr ⟨_, hclosures⟩
  have hfilter : (s.begin target).closures.keySet.filter
      (fun target' ↦ ((s.begin target).targetsRun.get? target').isNone) =
      (s.closures.keySet.filter fun target' ↦ (s.targetsRun.get? target').isNone).filter
        fun target' ↦ decide (target ≠ target') := by
    rw [List.filter_filter]
    refine List.filter_congr fun target' _ ↦ ?_
    rw [get?_begin]
    by_cases heq : target = target'
    · simp [heq]
    · simp [heq]
  unfold unbegun
  rw [hfilter]
  refine List.length_filter_lt_length_iff_exists.mpr ⟨target, List.mem_filter.mpr ⟨hmem, ?_⟩, ?_⟩
  · rw [hnone]
    rfl
  · simp

theorem Consistent.begin (h : Consistent s) : Consistent (s.begin target) where
  ready := h.ready
  known := h.known
  begun target' index hmem := by
    have hne := h.begun target' index hmem
    rw [get?_begin_of_ne_none hnone hne]
    exact hne
  once := h.once
  cached target' status hget := by
    rw [get?_begin] at hget
    split_ifs at hget
    · cases hget
    · exact h.cached target' status hget
  ordered := h.ordered
  threw target' e hmem := by
    have hboth := h.threw target' e hmem
    rw [get?_begin_of_ne_none hnone hboth.1]
    exact hboth
  clean := h.clean

end Begin

/-! ### Calls -/

/-- A call of `runTarget` for a target. -/
structure Called (s : BuildState υ) (target : String) (result : Except Throwable Bool)
    (s' : BuildState υ) : Prop where
  steps : Extends (fun _ ↦ False) s s'
  succeeded : result = .ok true → s'.targetsRun.get? target = some (some true)
  failed : ∀ e, result = .error e → s.callsItself target = true ∨ Leaks s s'
  callsItself : s.callsItself target = true → ∃ e, result = .error e

/-- A function that runs targets as `runTarget` does, as long as less than `n` targets have not
begun. -/
def RunsTargets (run : String → BuildState υ → Option (Except Throwable Bool × BuildState υ))
    (n : ℕ) : Prop :=
  ∀ s target, Consistent s → s.unbegun < n →
    ∃ result s', run target s = some (result, s') ∧ Called s target result s'

section Calls

variable {run : String → BuildState υ → Option (Except Throwable Bool × BuildState υ)} {n : ℕ}
  (hrun : RunsTargets run n)

include hrun

theorem runCode_spec (code : TargetClosure υ) (h : Consistent s) (hn : s.unbegun < n) :
    ∃ thrown s', runCode run code s = some (thrown, s') ∧ Extends (fun _ ↦ False) s s' := by
  induction code generalizing s with
  | done => exact ⟨none, s, rfl, .refl h⟩
  | throw e => exact ⟨some e, s, rfl, .refl h⟩
  | act f next ih =>
    have hact : Extends (fun _ ↦ False) s { s with world := f s.world } := (Extends.refl h).congr
    obtain ⟨thrown, s', hs', hext⟩ := ih s.world hact.consistent hn
    exact ⟨thrown, s', hs', hact.trans hext⟩
  | error message next ih =>
    have herror : Extends (fun _ ↦ False) s (s.error message) := extends_error h message
    obtain ⟨thrown, s', hs', hext⟩ := ih herror.consistent
      (herror.grows.unbegun_le.trans_lt hn)
    exact ⟨thrown, s', hs', herror.trans hext⟩
  | runTarget target next ih =>
    obtain ⟨result, s₁, hs₁, hcalled⟩ := hrun s target h hn
    obtain ⟨thrown, s', hs', hext⟩ := ih result hcalled.steps.consistent
      (hcalled.steps.grows.unbegun_le.trans_lt hn)
    refine ⟨thrown, s', ?_, hcalled.steps.trans hext⟩
    unfold runCode
    rw [hs₁]
    exact hs'

theorem runTargets_spec (targets : List String) (status : Bool) (h : Consistent s)
    (hn : s.unbegun < n) :
    ∃ result s', runTargets run targets status s = some (result, s') ∧
      Consistent s' ∧ Grows (fun _ ↦ False) s s' ∧
      (∀ status', result = .ok status' → Balanced s s') ∧
      (result = .ok true → status = true ∧
        ∀ target ∈ targets, s'.targetsRun.get? target = some (some true)) ∧
      ∀ e, result = .error e → Leaks s s' := by
  induction targets generalizing s status with
  | nil =>
    have hself : Extends (fun _ ↦ False) s s := .refl h
    refine ⟨.ok status, s, rfl, h, .refl, fun _ _ ↦ hself.balanced, fun hresult ↦ ?_,
      fun e he ↦ by cases he⟩
    exact ⟨Except.ok.inj hresult, fun target hmem ↦ by cases hmem⟩
  | cons target targets ih =>
    let s₁ := s.record (.asks target (s.callsItself target))
    have hs₁ : Consistent s₁ := h.record (fun _ _ heq ↦ by cases heq)
      (fun _ _ heq ↦ by cases heq) (fun _ _ heq ↦ by cases heq) fun _ heq ↦ by cases heq
    have hgrows₁ : Grows (fun _ ↦ False) s s₁ := grows_record fun _ heq ↦ by cases heq
    obtain ⟨result, s₂, hs₂, hcalled⟩ := hrun s₁ target hs₁ hn
    have hgrows₂ := hgrows₁.trans hcalled.steps.grows
    have hleaks : s.callsItself target = true → Leaks s s₂ := fun htrue ↦
      (leaks_trans hgrows₁.events hcalled.steps.grows.events).mpr (Or.inl (leaks_record.mpr htrue))
    unfold runTargets
    rw [show run target (s.record (.asks target (s.callsItself target))) = some (result, s₂)
      from hs₂]
    cases result with
    | error e =>
      refine ⟨.error e, s₂, rfl, hcalled.steps.consistent, hgrows₂, (fun _ heq ↦ by cases heq),
        (fun heq ↦ by cases heq), fun _ _ ↦ ?_⟩
      rcases hcalled.failed e rfl with hitself | hleak
      · exact hleaks hitself
      · exact (leaks_trans hgrows₁.events hcalled.steps.grows.events).mpr (Or.inr hleak)
    | ok b =>
      have hitself : s.callsItself target = false := by
        by_contra htrue
        obtain ⟨e, he⟩ := hcalled.callsItself (Bool.not_eq_false _ ▸ htrue)
        cases he
      have hext₂ : Extends (fun _ ↦ False) s s₂ :=
        Extends.trans ⟨hs₁, hgrows₁, balanced_record hitself⟩ hcalled.steps
      obtain ⟨result, s', hs', hconsistent, hgrows, hbalanced, hok, herror⟩ :=
        ih (status && b) hext₂.consistent (hgrows₂.unbegun_le.trans_lt hn)
      refine ⟨result, s', hs', hconsistent, hgrows₂.trans hgrows, fun status' heq ↦ ?_,
        fun heq ↦ ?_, fun e he ↦ ?_⟩
      · exact hext₂.balanced.trans hgrows₂ hgrows (hbalanced status' heq)
      · obtain ⟨hboth, hall⟩ := hok heq
        obtain ⟨hstatus, rfl⟩ := (Bool.and_eq_true_iff).mp hboth
        have hfirst := hcalled.succeeded rfl
        refine ⟨hstatus, List.forall_mem_cons.mpr ⟨?_, hall⟩⟩
        rw [hgrows.old target (by rw [hfirst]; exact Option.some_ne_none _), hfirst]
      · exact (leaks_trans hgrows₂.events hgrows.events).mpr (Or.inr (herror e he))

/-! ### Closures -/

omit hrun

/-- The closures of a target are run, up to the one with the index. -/
structure Running (s : BuildState υ) (target : String) (index : ℕ) : Prop where
  progress : s.InProgress target
  deps : ∀ deps, s.g.getDirectDependencies target = some deps →
    ∀ dep ∈ deps, s.targetsRun.get? dep = some (some true)
  before : ∀ index', .runs target index' ∈ s.events → index' < index

variable {target : String} {index : ℕ}

/-- The closures of a target in progress have no events while another piece of a run is going on. -/
theorem Grows.mem_of_concerns (h : Grows (fun _ ↦ False) s s') (hprogress : s.InProgress target)
    {e : Event} (he : e ∈ s'.events) (htarget : e.concerns = some target) : e ∈ s.events := by
  rw [events_eq h.events] at he
  refine (List.mem_append.mp he).resolve_right fun hnew ↦ ?_
  have hnone := (h.concerns e hnew target htarget).resolve_left id
  rw [hprogress] at hnone
  cases hnone

theorem Running.grows {own : String → Prop} (h : Running s target index) (hgrows : Grows own s s')
    {index' : ℕ} (hbefore : ∀ i, .runs target i ∈ s'.events → i < index') :
    Running s' target index' where
  progress := by
    have hne : s.targetsRun.get? target ≠ none := by
      rw [h.progress]
      exact Option.some_ne_none _
    exact (hgrows.old target hne).trans h.progress
  deps deps hdeps dep hdep := by
    rw [hgrows.g] at hdeps
    have hdone := h.deps deps hdeps dep hdep
    rw [hgrows.old dep (by rw [hdone]; exact Option.some_ne_none _), hdone]
  before := hbefore

theorem extends_print {own : String → Prop} (h : Consistent s) (print : Bool) {event : Event}
    (houtput : event.isOutput = true) :
    Extends own s (if print = true then s.record event else s) := by
  cases print with
  | true => exact extends_output h houtput
  | false => exact .refl h

theorem Consistent.caches (h : Consistent s) (hrunning : Running s target index)
    {deps : List String}
    (hdeps : s.g.getDirectDependencies target = some deps) :
    ∀ dep ∈ deps, .caches dep true ∈ s.events := fun dep hdep ↦
  h.cached dep true (hrunning.deps deps hdeps dep hdep)

/-- The closure begins. -/
theorem Running.record (h : Running s target index) (hconsistent : Consistent s) :
    Extends (· = target) s (s.record (.runs target index)) := by
  refine ⟨hconsistent.record ?_ ?_ ?_ ?_, grows_record ?_, balanced_record rfl⟩
  · rintro target' index' heq
    cases heq
    refine ⟨?_, fun hmem ↦ (h.before index hmem).false⟩
    rw [h.progress]
    exact Option.some_ne_none _
  · rintro target' deps heq hdeps
    cases heq
    exact hconsistent.caches h hdeps
  · rintro target' e heq
    cases heq
  · rintro target' heq
    cases heq
  · rintro target' heq
    exact (Option.some_inj.mp heq).symm

/-- The closure has thrown an exception. -/
theorem Running.recordThrows (h : Running s target index) (hconsistent : Consistent s)
    (e : Throwable) :
    Consistent (s.record (.throws target e)) ∧
      Grows (· = target) s (s.record (.throws target e)) := by
  refine ⟨hconsistent.record ?_ ?_ ?_ ?_, grows_record ?_⟩
  · rintro target' index' heq
    cases heq
  · rintro target' deps heq hdeps
    cases heq
  · rintro target' e' heq
    cases heq
    rw [h.progress]
    exact ⟨Option.some_ne_none _, fun hsome ↦ by cases hsome⟩
  · rintro target' heq
    cases heq
  · rintro target' heq
    exact (Option.some_inj.mp heq).symm

theorem isSome_caught (s : BuildState υ) (target origin : String) (e : Throwable) :
    (s.caught target origin e).isSome = e.isException := by
  cases e <;> rfl

/-- An exception that is caught is reported, and the next closure may run. -/
theorem Running.caught (h : Running s target index) (hconsistent : Consistent s) {e : Throwable}
    (hexception : e.isException = true) (message : String) (print : Bool) :
    ∃ s', (if print = true then
        ((s.record (.throws target e)).error message).record (.printStackTrace e)
        else (s.record (.throws target e)).error message) = s' ∧
      Extends (· = target) s s' ∧ Running s' target index := by
  obtain ⟨hconsistent', hgrows⟩ := h.recordThrows hconsistent e
  have hsteps : Extends (· = target) s (s.record (.throws target e)) := by
    refine ⟨hconsistent', hgrows, balanced_record ?_⟩
    show (!e.isException) = false
    rw [hexception]
    rfl
  have herror : Extends (fun _ ↦ False) _ ((s.record (.throws target e)).error message) :=
    extends_error hconsistent' message
  have hprint : Extends (fun _ ↦ False) _ (if print = true then
      ((s.record (.throws target e)).error message).record (.printStackTrace e)
      else (s.record (.throws target e)).error message) :=
    extends_print herror.consistent print rfl
  have htrace := herror.trans hprint
  have hall : Extends (· = target) s _ := hsteps.trans (htrace.mono fun _ hfalse ↦ hfalse.elim)
  refine ⟨_, rfl, hall, h.grows hall.grows fun i hi ↦ ?_⟩
  have hprogress : (s.record (.throws target e)).InProgress target := h.progress
  rcases List.mem_append.mp (htrace.grows.mem_of_concerns hprogress hi rfl) with hmem | hmem
  · exact h.before i hmem
  · cases List.mem_singleton.mp hmem

include hrun

theorem runCode_running (code : TargetClosure υ) (hconsistent : Consistent s)
    (h : Running s target index) (hn : s.unbegun < n) :
    ∃ thrown s', runCode run code (s.record (.runs target index)) = some (thrown, s') ∧
      Extends (· = target) s s' ∧ Running s' target (index + 1) ∧
      ∀ e, .throws target e ∈ s'.events → .throws target e ∈ s.events := by
  have hrecord := h.record hconsistent
  have hprogress : (s.record (.runs target index)).InProgress target := h.progress
  obtain ⟨thrown, s', hs', hext⟩ := runCode_spec hrun code hrecord.consistent
    (hrecord.grows.unbegun_le.trans_lt hn)
  have hsteps := hrecord.trans (hext.mono fun _ hfalse ↦ hfalse.elim)
  refine ⟨thrown, s', hs', hsteps, h.grows hsteps.grows fun i hi ↦ ?_, fun e he ↦ ?_⟩
  · have hmem := hext.grows.mem_of_concerns hprogress hi rfl
    rcases List.mem_append.mp hmem with hmem | hmem
    · exact (h.before i hmem).trans (Nat.lt_succ_self index)
    · cases List.mem_singleton.mp hmem
      exact Nat.lt_succ_self index
  · have hmem := hext.grows.mem_of_concerns hprogress he rfl
    refine (List.mem_append.mp hmem).resolve_right fun hlast ↦ ?_
    cases List.mem_singleton.mp hlast

theorem runClosures_spec (closures : List (String × TargetClosure υ)) (status : Bool)
    (hconsistent : Consistent s) (h : Running s target index) (hn : s.unbegun < n)
    (hstatus : status = true → ∀ e, .throws target e ∉ s.events) :
    ∃ result s', runClosures run target index closures status s = some (result, s') ∧
      Consistent s' ∧ Grows (· = target) s s' ∧
      (∀ status', result = .ok status' → Balanced s s' ∧
        (status' = true → ∀ e, .throws target e ∉ s'.events)) ∧
      ∀ e, result = .error e → Leaks s s' := by
  induction closures generalizing s index status with
  | nil =>
    have hself : Extends (fun _ ↦ False) s s := .refl hconsistent
    refine ⟨.ok status, s, rfl, hconsistent, .refl, fun status' heq ↦ ?_, fun e he ↦ by cases he⟩
    obtain rfl := Except.ok.inj heq
    exact ⟨hself.balanced, hstatus⟩
  | cons closure closures ih =>
    obtain ⟨origin, code⟩ := closure
    unfold runClosures
    dsimp only
    have hprint : Extends (fun _ ↦ False) s (if s.verbose = true then
        s.record (.println ("--> running target " ++ target ++ " from " ++ origin)) else s) :=
      extends_print hconsistent s.verbose rfl
    generalize (if s.verbose = true then
      s.record (.println ("--> running target " ++ target ++ " from " ++ origin)) else s) = s₁
      at hprint
    have hrunning₁ : Running s₁ target index := h.grows hprint.grows fun i hi ↦
      h.before i (hprint.grows.mem_of_concerns h.progress hi rfl)
    obtain ⟨thrown, s₂, hs₂, hsteps, hrunning₂, hthrows⟩ := runCode_running hrun code
      hprint.consistent hrunning₁ (hprint.grows.unbegun_le.trans_lt hn)
    have hsteps₂ : Extends (· = target) s s₂ :=
      (hprint.mono fun _ hfalse ↦ hfalse.elim).trans hsteps
    have hthrows₂ : ∀ e, .throws target e ∈ s₂.events → .throws target e ∈ s.events := fun e he ↦
      hprint.grows.mem_of_concerns h.progress (hthrows e he) rfl
    have hn₂ := hsteps₂.grows.unbegun_le.trans_lt hn
    rw [hs₂, Option.bind_eq_bind, Option.bind_some]
    cases thrown with
    | none =>
      dsimp only
      by_cases hstops : s₂.stops = true
      · rw [if_pos hstops]
        refine ⟨.ok status, s₂, rfl, hsteps₂.consistent, hsteps₂.grows, fun status' heq ↦ ?_,
          fun e he ↦ by cases he⟩
        obtain rfl := Except.ok.inj heq
        exact ⟨hsteps₂.balanced, fun htrue e he ↦ hstatus htrue e (hthrows₂ e he)⟩
      · rw [if_neg hstops]
        obtain ⟨result, s', hs', hconsistent', hgrows, hok, herror⟩ := ih status hsteps₂.consistent
          hrunning₂ hn₂ fun htrue e he ↦ hstatus htrue e (hthrows₂ e he)
        refine ⟨result, s', hs', hconsistent', hsteps₂.grows.trans hgrows, fun status' heq ↦ ?_,
          fun e he ↦ ?_⟩
        · exact ⟨hsteps₂.balanced.trans hsteps₂.grows hgrows (hok status' heq).1,
            (hok status' heq).2⟩
        · exact (leaks_trans hsteps₂.grows.events hgrows.events).mpr (Or.inr (herror e he))
    | some e =>
      dsimp only
      have hcaught := isSome_caught (s₂.record (.throws target e)) target origin e
      cases hmessage : (s₂.record (.throws target e)).caught target origin e with
      | none =>
        rw [hmessage] at hcaught
        obtain ⟨hconsistent₃, hgrows₃⟩ := hrunning₂.recordThrows hsteps₂.consistent e
        refine ⟨.error e, _, rfl, hconsistent₃, hsteps₂.grows.trans hgrows₃,
          (fun _ heq ↦ by cases heq), fun _ _ ↦ ?_⟩
        refine (leaks_trans hsteps₂.grows.events hgrows₃.events).mpr (Or.inr (leaks_record.mpr ?_))
        show (!e.isException) = true
        rw [← hcaught]
        rfl
      | some messagePrint =>
        obtain ⟨message, print⟩ := messagePrint
        rw [hmessage] at hcaught
        obtain ⟨s₃, hs₃, hsteps₃, hrunning₃⟩ :=
          hrunning₂.caught hsteps₂.consistent hcaught.symm message print
        dsimp only
        rw [hs₃]
        have hall := hsteps₂.trans hsteps₃
        obtain ⟨result, s', hs', hconsistent', hgrows, hok, herror⟩ := ih false hall.consistent
          hrunning₃ (hall.grows.unbegun_le.trans_lt hn) fun htrue ↦ by cases htrue
        refine ⟨result, s', hs', hconsistent', hall.grows.trans hgrows, fun status' heq ↦ ?_,
          fun e he ↦ ?_⟩
        · exact ⟨hall.balanced.trans hall.grows hgrows (hok status' heq).1, (hok status' heq).2⟩
        · exact (leaks_trans hall.grows.events hgrows.events).mpr (Or.inr (herror e he))

end Calls

/-! ### The whole call -/

section Cache

variable {target : String} {status : Bool}

theorem get?_cache {target' : String} : (s.cache target status).targetsRun.get? target' =
    if target = target' then some (some status) else s.targetsRun.get? target' :=
  LinkedHashMap.get?_put _ _ _ _

/-- The run of a target ends. -/
theorem Consistent.cache (h : Consistent s)
    (hdeps : status = true → ∀ deps, s.g.getDirectDependencies target = some deps →
      ∀ dep ∈ deps, .caches dep true ∈ s.events)
    (hthrows : status = true → ∀ e, .throws target e ∉ s.events) :
    Consistent (s.cache target status) := by
  have hrecord : Consistent (s.record (.caches target status)) := by
    refine h.record ?_ ?_ ?_ ?_
    · rintro target' index heq
      cases heq
    · rintro target' deps heq
      cases status with
      | false => cases heq
      | true =>
        cases heq
        exact hdeps rfl deps
    · rintro target' e heq
      cases heq
    · rintro target' heq
      cases heq
      exact hthrows rfl
  have hkeep : ∀ {target'}, (s.cache target status).targetsRun.get? target' = none →
      s.targetsRun.get? target' = none := by
    intro target' hnone
    rw [get?_cache] at hnone
    split_ifs at hnone
    exact hnone
  refine ⟨h.ready, h.known, fun target' index hmem ↦ ?_, hrecord.once,
    fun target' status' hget ↦ ?_, hrecord.ordered, fun target' e hmem ↦ ?_, hrecord.clean⟩
  · exact fun hnone ↦ hrecord.begun target' index hmem (hkeep hnone)
  · rw [get?_cache] at hget
    split_ifs at hget with heq
    · obtain rfl := Option.some_inj.mp (Option.some_inj.mp hget)
      exact List.mem_append_right _ (List.mem_singleton.mpr (by rw [heq]))
    · exact hrecord.cached target' status' hget
  · refine ⟨fun hnone ↦ (hrecord.threw target' e hmem).1 (hkeep hnone), fun hsome ↦ ?_⟩
    rw [get?_cache] at hsome
    split_ifs at hsome with heq
    · obtain rfl := Option.some_inj.mp (Option.some_inj.mp hsome)
      subst heq
      rcases List.mem_append.mp hmem with hmem | hmem
      · exact hthrows rfl e hmem
      · cases List.mem_singleton.mp hmem
    · exact (hrecord.threw target' e hmem).2 hsome

end Cache

section Whole

variable {target : String} (hnone : s.targetsRun.get? target = none)

include hnone

/-- What a run of a target does, from its beginning on. -/
theorem grows_of_begin (h : Grows (· = target) (s.begin target) s') :
    Grows (fun _ ↦ False) s s' where
  ready := h.ready
  keepGoing := h.keepGoing
  g := h.g
  closures := h.closures
  old target' hne := by
    have hbegin := get?_begin_of_ne_none hnone hne
    rw [h.old target' (by rw [hbegin]; exact hne), hbegin]
  events := h.events
  concerns e he target' htarget := by
    refine Or.inr ?_
    rcases h.concerns e he target' htarget with rfl | hnone'
    · exact hnone
    · rw [get?_begin] at hnone'
      split_ifs at hnone'
      exact hnone'

/-- A run that an exception leaves leaves its target in progress. -/
theorem called_of_error (hconsistent : Consistent s')
    (h : Grows (· = target) (s.begin target) s') (hleaks : Leaks (s.begin target) s')
    (e : Throwable) : Called s target (.error e) s' where
  steps := by
    refine ⟨hconsistent, grows_of_begin hnone h, iff_of_true ⟨target, hnone, ?_⟩ hleaks⟩
    refine (h.old target ?_).trans inProgress_begin
    rw [inProgress_begin]
    exact Option.some_ne_none _
  succeeded heq := by cases heq
  failed _ _ := Or.inr hleaks
  callsItself _ := ⟨e, rfl⟩

/-- A run that comes to its end. -/
theorem called_of_cache {status : Bool} (h : Grows (· = target) (s.begin target) s')
    (hconsistent : Consistent (s'.cache target status)) (hbalanced : Balanced (s.begin target) s') :
    Called s target (.ok status) (s'.cache target status) where
  steps := by
    have hgrows := grows_of_begin hnone h
    have hevents : newEvents s (s'.cache target status) =
        newEvents s s' ++ [.caches target status] := by
      refine newEvents_of_eq ?_
      show s'.events ++ [Event.caches target status] = _
      rw [events_eq hgrows.events, List.append_assoc]
    refine ⟨hconsistent, ⟨hgrows.ready, hgrows.keepGoing, hgrows.g, hgrows.closures,
      fun target' hne ↦ ?_, hgrows.events.trans (List.prefix_append _ _),
      fun e he target' heq ↦ ?_⟩,
      ?_⟩
    · have hne' : ¬ target = target' := fun heq ↦ hne (heq ▸ hnone)
      rw [get?_cache, if_neg hne', hgrows.old target' hne]
    · rw [hevents] at he
      rcases List.mem_append.mp he with he | he
      · exact hgrows.concerns e he target' heq
      · obtain rfl := List.mem_singleton.mp he
        cases heq
    · have hleaves : LeavesInProgress s (s'.cache target status) ↔
          LeavesInProgress (s.begin target) s' := by
        unfold LeavesInProgress InProgress
        refine exists_congr fun target' ↦ ?_
        rw [get?_cache, get?_begin]
        by_cases heq : target = target'
        · rw [if_pos heq, if_pos heq]
          exact iff_of_false (fun hboth ↦ by cases hboth.2) fun hboth ↦ by cases hboth.1
        · rw [if_neg heq, if_neg heq]
      have hleaks : Leaks s (s'.cache target status) ↔ Leaks (s.begin target) s' := by
        show (∃ e ∈ newEvents s _, _) ↔ ∃ e ∈ newEvents s s', _
        rw [hevents]
        simp [or_and_right, exists_or, Event.uncaught]
      unfold Balanced
      rw [hleaves, hleaks]
      exact hbalanced
  succeeded heq := by
    obtain rfl := Except.ok.inj heq
    rw [get?_cache, if_pos rfl]
  failed e he := by cases he
  callsItself htrue := by
    unfold callsItself at htrue
    rw [hnone] at htrue
    simp at htrue

end Whole

/-- When its dependencies have succeeded, the closures of a target may run, and none of them has. -/
theorem running_of_deps {target : String} (hconsistent : Consistent s)
    (hget : s.targetsRun.get? target = none) (hgrows : Grows (fun _ ↦ False) (s.begin target) s')
    {deps : List String} (hdeps : s'.g.getDirectDependencies target = some deps)
    (hdone : ∀ dep ∈ deps, s'.targetsRun.get? dep = some (some true)) :
    Running s' target 0 ∧ ∀ e, .throws target e ∉ s'.events := by
  have hprogress : (s.begin target).InProgress target := inProgress_begin
  have hprogress' : s'.InProgress target := by
    refine (hgrows.old target ?_).trans hprogress
    rw [hprogress]
    exact Option.some_ne_none _
  have hnot : ∀ e : Event, e.concerns = some target → e ∉ s'.events := by
    intro e heq hmem
    have hold : e ∈ s.events := hgrows.mem_of_concerns hprogress hmem heq
    cases e with
    | runs target' index =>
      obtain rfl := Option.some_inj.mp heq
      exact hconsistent.begun _ index hold hget
    | throws target' e =>
      obtain rfl := Option.some_inj.mp heq
      exact (hconsistent.threw _ e hold).1 hget
    | _ => cases heq
  refine ⟨⟨hprogress', fun deps' heq ↦ ?_, fun i hi ↦ absurd hi (hnot _ rfl)⟩, fun e ↦ hnot _ rfl⟩
  obtain rfl := Option.some_inj.mp (heq.symm.trans hdeps)
  exact hdone

/-- The call returns or throws, and does no more than it may. -/
theorem runTarget_spec (depth : ℕ) : RunsTargets (runTarget (υ := υ) depth) depth := by
  induction depth with
  | zero => exact fun s target _ hn ↦ absurd hn (Nat.not_lt_zero _)
  | succ depth ih =>
    intro s target hconsistent hn
    have hself : Extends (fun _ ↦ False) s s := .refl hconsistent
    unfold runTarget
    rw [if_neg (not_not.mpr hconsistent.ready)]
    by_cases hstops : s.stops = true
    · rw [if_pos hstops]
      refine ⟨_, _, rfl, hself, (fun heq ↦ by cases heq), (fun _ heq ↦ by cases heq),
        fun htrue ↦ ?_⟩
      unfold callsItself at htrue
      rw [hstops] at htrue
      simp at htrue
    rw [if_neg hstops]
    cases hget : s.targetsRun.get? target with
    | some result =>
      cases result with
      | none =>
        refine ⟨_, _, rfl, hself, (fun heq ↦ by cases heq), fun _ _ ↦ Or.inl ?_, fun _ ↦ ⟨_, rfl⟩⟩
        unfold callsItself
        rw [hget]
        simpa using hstops
      | some status =>
        refine ⟨_, _, rfl, hself, fun heq ↦ ?_, (fun _ heq ↦ by cases heq), fun htrue ↦ ?_⟩
        · rw [hget, Except.ok.inj heq]
        · unfold callsItself at htrue
          rw [hget] at htrue
          simp at htrue
    | none =>
      dsimp only
      have hbegin : Consistent (s.begin target) := hconsistent.begin hget
      have hfails : ∀ s', Extends (· = target) (s.begin target) s' →
          Called s target (.ok false) (s'.cache target false) := by
        intro s' hsteps
        exact called_of_cache hget hsteps.grows (hsteps.consistent.cache
          (fun htrue ↦ by cases htrue) fun htrue ↦ by cases htrue) hsteps.balanced
      cases hclosures : s.closures.get? target with
      | none =>
        exact ⟨_, _, rfl, hfails _ (extends_error hbegin _)⟩
      | some closures =>
        obtain ⟨deps, hdeps⟩ := hconsistent.known target closures hclosures
        have hlt : (s.begin target).unbegun < depth :=
          Nat.lt_of_lt_of_le (unbegun_begin_lt hget hclosures) (Nat.lt_succ_iff.mp hn)
        obtain ⟨result, s₁, hs₁, hconsistent₁, hgrows₁, hbalanced₁, hok₁, herror₁⟩ :=
          runTargets_spec ih deps true hbegin hlt
        have hown₁ : Grows (· = target) (s.begin target) s₁ :=
          hgrows₁.mono fun _ hfalse ↦ hfalse.elim
        dsimp only
        rw [hdeps, Option.bind_eq_bind, Option.bind_some,
          show runTargets (runTarget depth) deps true { s with
            targetsRun := s.targetsRun.put target none } = some (result, s₁) from hs₁,
          Option.bind_eq_bind, Option.bind_some]
        cases result with
        | error e => exact ⟨_, _, rfl, called_of_error hget hconsistent₁ hown₁ (herror₁ e rfl) e⟩
        | ok status =>
          have hsteps₁ : Extends (· = target) (s.begin target) s₁ :=
            ⟨hconsistent₁, hown₁, hbalanced₁ status rfl⟩
          cases status with
          | false =>
            exact ⟨_, _, rfl, hfails _ (hsteps₁.trans (extends_error hconsistent₁ _))⟩
          | true =>
            have hdeps₁ : s₁.g.getDirectDependencies target = some deps := by
              rw [hgrows₁.g]
              exact hdeps
            obtain ⟨hrunning, hthrows⟩ :=
              running_of_deps hconsistent hget hgrows₁ hdeps₁ (hok₁ rfl).2
            obtain ⟨result, s₂, hs₂, hconsistent₂, hgrows₂, hok₂, herror₂⟩ :=
              runClosures_spec ih closures true hconsistent₁ hrunning
                (hgrows₁.unbegun_le.trans_lt hlt) fun _ ↦ hthrows
            have hgrows := hown₁.trans hgrows₂
            dsimp only
            rw [hs₂, Option.bind_some]
            cases result with
            | error e =>
              refine ⟨_, _, rfl, called_of_error hget hconsistent₂ hgrows ?_ e⟩
              exact (leaks_trans hown₁.events hgrows₂.events).mpr (Or.inr (herror₂ e rfl))
            | ok status =>
              obtain ⟨hbalanced₂, hthrows₂⟩ := hok₂ status rfl
              refine ⟨_, _, rfl, called_of_cache hget hgrows
                (hconsistent₂.cache (fun _ deps' heq dep hdep ↦ ?_) hthrows₂)
                (hsteps₁.balanced.trans hown₁ hgrows₂ hbalanced₂)⟩
              rw [hgrows₂.g] at heq
              obtain rfl := Option.some_inj.mp (heq.symm.trans hdeps₁)
              have hdone := (hok₁ rfl).2 dep hdep
              refine hconsistent₂.cached dep true ?_
              rw [hgrows₂.old dep (by rw [hdone]; exact Option.some_ne_none _), hdone]

end Abuild.BuildState
