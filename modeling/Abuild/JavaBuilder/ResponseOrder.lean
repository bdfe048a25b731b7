import Abuild.JavaBuilder.Responder
import Mathlib.Data.List.Pairwise

/-!
The order of the messages of the Java side. Nothing makes a thread that has looked a job up
put its output before the response, and the job stays in its thread group for a while after it.
-/

set_option autoImplicit false
set_option relaxedAutoImplicit false

namespace Abuild

open JavaBuilder Guarded
open Connection (Allowed Expected allowed_append jobsAfter_subset)

namespace Message

/-- Output that is tagged with a number. -/
def IsOutputFor (n : Fin intLimit) : Message → Prop
  | .output number _ _ _ => number = n
  | .response _ _ => False

end Message

namespace Connection

theorem Allowed.expected {jobs remaining : Set ℕ} {ds : List Dispatch}
    (h : Allowed jobs ds remaining) {d : Dispatch} (hd : d ∈ ds) : Expected jobs d := by
  induction ds generalizing jobs with
  | nil => cases hd
  | cons e ds ih =>
    cases hd with
    | head => exact h.1
    | tail _ hd =>
      have hlater := ih h.2 hd
      cases d with
      | respond n status => exact jobsAfter_subset jobs e hlater
      | handleOutput n isError message => exact jobsAfter_subset jobs e hlater
      | handleRogueOutput isError message => exact trivial

end Connection

namespace JavaThreads

variable {γ ι : Type}

/-- No output for a request comes after its response. -/
def InOrder (sent : List Message) : Prop :=
  sent.Pairwise fun m m' ↦ ∀ n status, m = .response n status → ¬ m'.IsOutputFor n

/-- The number of the output that is to be put from a stream. -/
def putting (s : JavaThreads γ ι) (isError : Bool) : Option (Fin intLimit) :=
  match s.streams isError with
  | some (_, .putting n _) => some n
  | _ => none

/-- The thread group that output is looked up for. -/
def lookingUp (s : JavaThreads γ ι) (isError : Bool) : Option γ :=
  match s.streams isError with
  | some (t, .flushing data) => if data.val.length > 0 then s.groupOf t else none
  | _ => none

/-- No thread has looked a job up and not put its output when the response is put, and none
looks it up from then until the job is cleared. -/
def Prompt (s : JavaThreads γ ι) : JavaAction γ ι → Prop
  | .sendResponse g => ∀ isError, ∀ n ∈ s.putting isError, (s.handlers g).pending ≠ some n
  | .getJob isError => ∀ g ∈ s.lookingUp isError, ∀ n ∈ (s.handlers g).job,
      (s.handlers g).pending = some n
  | _ => True

-- The numbers are those of an option, and not to be tried one by one.
instance (s : JavaThreads γ ι) (action : JavaAction γ ι) : Decidable (Prompt s action) := by
  have hmem (p : Fin intLimit → Prop) [DecidablePred p] (o : Option (Fin intLimit)) :
      Decidable (∀ n ∈ o, p n) := Option.decidableForallMem o
  cases action with
  | sendResponse g =>
    have := fun isError ↦ hmem (fun n ↦ (s.handlers g).pending ≠ some n) (s.putting isError)
    exact inferInstanceAs (Decidable (∀ isError, ∀ n ∈ s.putting isError, _))
  | getJob isError =>
    have := fun g ↦ hmem (fun n ↦ (s.handlers g).pending = some n) (s.handlers g).job
    exact inferInstanceAs (Decidable (∀ g ∈ s.lookingUp isError, ∀ n ∈ (s.handlers g).job, _))
  | _ => exact isTrue trivial

/-! ### Requests and responses -/

def requests (lastRequest : ℕ) : Set ℕ := {n | 0 < n ∧ n ≤ lastRequest}

/-- The requests that have been responded to. -/
def responses (sent : List Message) : Set ℕ :=
  {n | ∃ k status, Message.response k status ∈ sent ∧ k.val = n}

/-- The messages are such that the builder takes them. -/
def Accepted (s : JavaThreads γ ι) : Prop :=
  Allowed (requests s.lastRequest) (s.sent.map Message.dispatch)
    (requests s.lastRequest \ responses s.sent)

theorem requests_succ (n : ℕ) : requests (n + 1) = insert (n + 1) (requests n) := by
  ext m
  simp only [requests, Set.mem_ofPred_eq, Set.mem_insert_iff]
  omega

theorem not_mem_requests_succ (n : ℕ) : n + 1 ∉ requests n := fun h ↦ by
  have hle : n + 1 ≤ n := h.2
  omega

theorem responses_append_response (sent : List Message) (n : Fin intLimit) (status : Bool) :
    responses (sent ++ [.response n status]) = insert n.val (responses sent) := by
  ext m
  simp only [responses, List.mem_append, List.mem_singleton, Set.mem_ofPred_eq, Set.mem_insert_iff]
  constructor
  · rintro ⟨k, status', hmem | heq, rfl⟩
    · exact Or.inr ⟨k, status', hmem, rfl⟩
    · obtain ⟨rfl, rfl⟩ := Message.response.inj heq
      exact Or.inl rfl
  · rintro (rfl | ⟨k, status', hmem, rfl⟩)
    · exact ⟨n, status, Or.inr rfl, rfl⟩
    · exact ⟨k, status', Or.inl hmem, rfl⟩

theorem responses_append_output (sent : List Message) (n : Fin intLimit) (isError : Bool)
    (data : Bytes) (h : data.length < intLimit) :
    responses (sent ++ [.output n isError data h]) = responses sent := by
  ext m
  simp [responses]

theorem dispatch_output (n : Fin intLimit) (isError : Bool) (data : Bytes)
    (h : data.length < intLimit) :
    (Message.output n isError data h).dispatch = outputDispatch n isError data := rfl

/-! ### The builder's order -/

/-- Messages that the builder takes are in order. -/
theorem inOrder_of_allowed {jobs remaining : Set ℕ} {sent : List Message} (hzero : 0 ∉ jobs)
    (h : Allowed jobs (sent.map Message.dispatch) remaining) : InOrder sent := by
  induction sent generalizing jobs with
  | nil => exact List.Pairwise.nil
  | cons m sent ih =>
    refine List.Pairwise.cons ?_ (ih (fun h0 ↦ hzero (jobsAfter_subset jobs _ h0)) h.2)
    rintro m' hm' n status rfl houtput
    cases m' with
    | response k status' => exact houtput
    | output k isError data hdata =>
      obtain rfl : k = n := houtput
      have hn : k.val ∈ jobs := h.1
      have hexpected := h.2.expected (List.mem_map_of_mem hm')
      have hk : k.val ≠ 0 := fun heq ↦ hzero (heq ▸ hn)
      rw [dispatch_output, outputDispatch, if_neg hk] at hexpected
      exact hexpected.2 rfl

theorem Accepted.inOrder {s : JavaThreads γ ι} (h : Accepted s) : InOrder s.sent :=
  inOrder_of_allowed (fun h0 ↦ Nat.lt_irrefl 0 h0.1) h

/-- A thread that is to put output has it from a job that is yet to be responded to. -/
def Puttable (s : JavaThreads γ ι) : Prop :=
  ∀ isError t n data, s.streams isError = some (t, .putting n data) → n.val ≠ 0 →
    ∃ g, (s.handlers g).job = some n ∧ (s.handlers g).pending = some n

/-! ### What every step keeps -/

structure Invariant (s : JavaThreads γ ι) : Prop where
  numbers : ∀ g n, (s.handlers g).number = some n → n.val ∈ requests s.lastRequest
  distinct : ∀ g g' n, (s.handlers g).number = some n → (s.handlers g').number = some n → g = g'
  job : ∀ g, s.job g = (s.handlers g).job
  pending : ∀ g n, (s.handlers g).pending = some n → n.val ∉ responses s.sent
  responded : ∀ g n, s.handlers g = .responded n → n.val ∈ responses s.sent
  responses : ∀ n ∈ responses s.sent, n ∈ requests s.lastRequest

section Step

variable [DecidableEq γ] [DecidableEq ι] {s s' : JavaThreads γ ι}

omit [DecidableEq γ] [DecidableEq ι] in
theorem Invariant.of_same (h : Invariant s) (hlast : s'.lastRequest = s.lastRequest)
    (hhandlers : s'.handlers = s.handlers) (hjob : s'.job = s.job)
    (hresponses : JavaThreads.responses s'.sent = JavaThreads.responses s.sent) :
    Invariant s' where
  numbers := by
    rw [hhandlers, hlast]
    exact h.numbers
  distinct := by
    rw [hhandlers]
    exact h.distinct
  job := by
    rw [hhandlers, hjob]
    exact h.job
  pending := by
    rw [hhandlers, hresponses]
    exact h.pending
  responded := by
    rw [hhandlers, hresponses]
    exact h.responded
  responses := by
    rw [hresponses, hlast]
    exact h.responses

omit [DecidableEq ι] in
/-- A thread of the pool goes on with the request that it has. -/
theorem Invariant.setHandler (h : Invariant s) {g : γ} {phase : HandlerPhase}
    (hhandlers : s'.handlers = Function.update s.handlers g phase)
    (hjob : s'.job = Function.update s.job g phase.job) (hlast : s'.lastRequest = s.lastRequest)
    (hnumber : ∀ n, phase.number = some n → (s.handlers g).number = some n)
    (hpending : ∀ n, phase.pending = some n → n.val ∉ JavaThreads.responses s'.sent)
    (hresponded : ∀ n, phase = .responded n → n.val ∈ JavaThreads.responses s'.sent)
    (hresponses : ∀ n, n ∈ JavaThreads.responses s'.sent →
      n ∈ JavaThreads.responses s.sent ∨ ∃ k, (s.handlers g).number = some k ∧ k.val = n)
    (hsubset : JavaThreads.responses s.sent ⊆ JavaThreads.responses s'.sent) : Invariant s' := by
  have hother : ∀ g' ≠ g, s'.handlers g' = s.handlers g' := fun g' hne ↦ by
    rw [hhandlers, Function.update_of_ne hne]
  have hself : s'.handlers g = phase := by rw [hhandlers, Function.update_self]
  have hkeep : ∀ g' n, (s'.handlers g').number = some n → (s.handlers g').number = some n := by
    intro g' n hn
    by_cases hne : g' = g
    · subst hne
      rw [hself] at hn
      exact hnumber n hn
    · rwa [hother g' hne] at hn
  refine ⟨fun g' n hn ↦ ?_, fun g' g'' n hn hn' ↦ ?_, fun g' ↦ ?_, fun g' n hn ↦ ?_,
    fun g' n hn ↦ ?_, fun n hn ↦ ?_⟩
  · rw [hlast]
    exact h.numbers g' n (hkeep g' n hn)
  · exact h.distinct g' g'' n (hkeep g' n hn) (hkeep g'' n hn')
  · by_cases hne : g' = g
    · subst hne
      rw [hself, hjob, Function.update_self]
    · rw [hother g' hne, hjob, Function.update_of_ne hne]
      exact h.job g'
  · by_cases hne : g' = g
    · subst hne
      rw [hself] at hn
      exact hpending n hn
    · rw [hother g' hne] at hn
      intro hmem
      rcases hresponses n.val hmem with hmem | ⟨k, hk, hval⟩
      · exact h.pending g' n hn hmem
      · obtain rfl : k = n := Fin.ext hval
        exact hne (h.distinct g' g k (HandlerPhase.number_of_pending hn) hk)
  · by_cases hne : g' = g
    · subst hne
      rw [hself] at hn
      exact hresponded n hn
    · rw [hother g' hne] at hn
      exact hsubset (h.responded g' n hn)
  · rw [hlast]
    rcases hresponses n hn with hmem | ⟨k, hk, rfl⟩
    · exact h.responses n hmem
    · exact h.numbers g k hk

omit [DecidableEq ι] in
theorem Invariant.handleInput (h : Invariant s) {g : γ} (hidle : s.handlers g = .idle)
    (hbound : s.lastRequest + 1 < intLimit) :
    Invariant ({ s with lastRequest := s.lastRequest + 1 }.setHandler g
      (.handed ⟨s.lastRequest + 1, hbound⟩)) := by
  have hother : ∀ g' ≠ g, Function.update s.handlers g (.handed ⟨s.lastRequest + 1, hbound⟩) g' =
      s.handlers g' := fun g' hne ↦ Function.update_of_ne hne _ _
  have hself : Function.update s.handlers g (.handed ⟨s.lastRequest + 1, hbound⟩) g =
      .handed ⟨s.lastRequest + 1, hbound⟩ := Function.update_self g _ _
  have hnew : ∀ g' n, (s.handlers g').number = some n → n.val ≠ s.lastRequest + 1 :=
    fun g' n hn heq ↦ not_mem_requests_succ s.lastRequest (heq ▸ h.numbers g' n hn)
  constructor
  · intro g' n hn
    show n.val ∈ requests (s.lastRequest + 1)
    rw [requests_succ]
    change (Function.update s.handlers g _ g').number = some n at hn
    by_cases hne : g' = g
    · subst hne
      rw [hself] at hn
      exact Or.inl (congrArg Fin.val (Option.some_inj.mp hn).symm)
    · rw [hother g' hne] at hn
      exact Or.inr (h.numbers g' n hn)
  · intro g' g'' n hn hn'
    change (Function.update s.handlers g _ g').number = some n at hn
    change (Function.update s.handlers g _ g'').number = some n at hn'
    by_cases hne : g' = g <;> by_cases hne' : g'' = g
    · exact hne.trans hne'.symm
    · subst hne
      rw [hself] at hn
      rw [hother g'' hne'] at hn'
      exact absurd (congrArg Fin.val (Option.some_inj.mp hn).symm) (hnew g'' n hn')
    · subst hne'
      rw [hself] at hn'
      rw [hother g' hne] at hn
      exact absurd (congrArg Fin.val (Option.some_inj.mp hn').symm) (hnew g' n hn)
    · rw [hother g' hne] at hn
      rw [hother g'' hne'] at hn'
      exact h.distinct g' g'' n hn hn'
  · intro g'
    show s.job g' = (Function.update s.handlers g _ g').job
    by_cases hne : g' = g
    · subst hne
      rw [hself, h.job, hidle]
      rfl
    · rw [hother g' hne]
      exact h.job g'
  · intro g' n hn
    change (Function.update s.handlers g _ g').pending = some n at hn
    by_cases hne : g' = g
    · subst hne
      rw [hself] at hn
      obtain rfl := Option.some_inj.mp hn
      exact fun hmem ↦ not_mem_requests_succ s.lastRequest (h.responses _ hmem)
    · rw [hother g' hne] at hn
      exact h.pending g' n hn
  · intro g' n hn
    change Function.update s.handlers g _ g' = .responded n at hn
    by_cases hne : g' = g
    · subst hne
      rw [hself] at hn
      cases hn
    · rw [hother g' hne] at hn
      exact h.responded g' n hn
  · intro n hn
    show n ∈ requests (s.lastRequest + 1)
    rw [requests_succ]
    exact Or.inr (h.responses n hn)

omit [DecidableEq γ] [DecidableEq ι] in
theorem put_eq_some_iff {m : Message} : s.put m = some s' ↔ s.responseQueue = none ∧
    s' = { s with responseQueue := some m, sent := s.sent ++ [m] } := by
  unfold put
  cases s.responseQueue with
  | none => exact ⟨fun h ↦ ⟨rfl, (Option.some_inj.mp h).symm⟩, fun h ↦ congrArg some h.2.symm⟩
  | some m' => exact iff_of_false (fun h ↦ by cases h) fun h ↦ by cases h.1

/-- What a step is, apart from what it requires of the queue and of the threads. -/
theorem step_cases {action : JavaAction γ ι} (hstep : step s action = some s') :
    match action with
    | .handleInput g => ∃ hbound : s.lastRequest + 1 < intLimit, s.handlers g = .idle ∧
        s' = { s with lastRequest := s.lastRequest + 1 }.setHandler g
          (.handed ⟨s.lastRequest + 1, hbound⟩)
    | .setJob g => ∃ n, s.handlers g = .handed n ∧
        s' = { s with job := Function.update s.job g (some n) }.setHandler g (.running n)
    | .startThread parent i => s.groups i = none ∧
        s' = { s with groups := Function.update s.groups i (some (s.groupFrom parent)) }
    | .flush t isError data => s.streams isError = none ∧
        s' = s.setStream isError (some (t, .flushing data))
    | .getJob isError => ∃ t data, s.streams isError = some (t, .flushing data) ∧
        s' = s.setStream isError (s.outputOf t data)
    | .putOutput isError => ∃ t n data, s.streams isError = some (t, .putting n data) ∧
        s' = { s.setStream isError none with
          responseQueue := some (.output n isError data.val data.property)
          sent := s.sent ++ [.output n isError data.val data.property] }
    | .interrupt isError => (∃ t n data, s.streams isError = some (t, .putting n data)) ∧
        s' = s.setStream isError none
    | .finish g status => ∃ n, s.handlers g = .running n ∧
        s' = s.setHandler g (.finished n status)
    | .sendResponse g => ∃ n status, s.handlers g = .finished n status ∧
        s' = { s.setHandler g (.responded n) with
          responseQueue := some (.response n status)
          sent := s.sent ++ [.response n status] }
    | .clearJob g => ∃ n, s.handlers g = .responded n ∧
        s' = { s with job := Function.update s.job g none }.setHandler g .idle
    | .take => s' = { s with responseQueue := none } := by
  unfold step at hstep
  cases action with
  | handleInput g =>
    obtain ⟨⟨hidle, hbound⟩, heq⟩ := Option.dite_none_right_eq_some.mp hstep
    exact ⟨hbound, hidle, (Option.some_inj.mp heq).symm⟩
  | setJob g =>
    dsimp only at hstep ⊢
    cases hphase : s.handlers g with
    | handed n =>
      rw [hphase] at hstep
      exact ⟨n, rfl, (Option.some_inj.mp hstep).symm⟩
    | _ =>
      rw [hphase] at hstep
      cases hstep
  | startThread parent i =>
    obtain ⟨⟨-, hnone⟩, heq⟩ := Option.ite_none_right_eq_some.mp hstep
    exact ⟨hnone, (Option.some_inj.mp heq).symm⟩
  | flush t isError data =>
    obtain ⟨⟨-, -, hnone⟩, heq⟩ := Option.ite_none_right_eq_some.mp hstep
    exact ⟨hnone, (Option.some_inj.mp heq).symm⟩
  | getJob isError =>
    dsimp only at hstep ⊢
    cases hstream : s.streams isError with
    | none =>
      rw [hstream] at hstep
      cases hstep
    | some stream =>
      obtain ⟨t, phase⟩ := stream
      rw [hstream] at hstep
      cases phase with
      | flushing data => exact ⟨t, data, rfl, (Option.some_inj.mp hstep).symm⟩
      | putting n data => cases hstep
  | putOutput isError =>
    dsimp only at hstep ⊢
    cases hstream : s.streams isError with
    | none =>
      rw [hstream] at hstep
      cases hstep
    | some stream =>
      obtain ⟨t, phase⟩ := stream
      rw [hstream] at hstep
      cases phase with
      | flushing data => cases hstep
      | putting n data => exact ⟨t, n, data, rfl, (put_eq_some_iff.mp hstep).2⟩
  | interrupt isError =>
    dsimp only at hstep ⊢
    cases hstream : s.streams isError with
    | none =>
      rw [hstream] at hstep
      cases hstep
    | some stream =>
      obtain ⟨t, phase⟩ := stream
      rw [hstream] at hstep
      cases phase with
      | flushing data => cases hstep
      | putting n data => exact ⟨⟨t, n, data, rfl⟩, (Option.some_inj.mp hstep).symm⟩
  | finish g status =>
    dsimp only at hstep ⊢
    cases hphase : s.handlers g with
    | running n =>
      rw [hphase] at hstep
      obtain ⟨-, heq⟩ := Option.ite_none_left_eq_some.mp hstep
      exact ⟨n, rfl, (Option.some_inj.mp heq).symm⟩
    | _ =>
      rw [hphase] at hstep
      cases hstep
  | sendResponse g =>
    dsimp only at hstep ⊢
    cases hphase : s.handlers g with
    | finished n status =>
      rw [hphase] at hstep
      exact ⟨n, status, rfl, (put_eq_some_iff.mp hstep).2⟩
    | _ =>
      rw [hphase] at hstep
      cases hstep
  | clearJob g =>
    dsimp only at hstep ⊢
    cases hphase : s.handlers g with
    | responded n =>
      rw [hphase] at hstep
      exact ⟨n, rfl, (Option.some_inj.mp hstep).symm⟩
    | _ =>
      rw [hphase] at hstep
      cases hstep
  | take =>
    dsimp only at hstep ⊢
    cases hqueue : s.responseQueue with
    | none =>
      rw [hqueue] at hstep
      cases hstep
    | some m =>
      rw [hqueue] at hstep
      exact (Option.some_inj.mp hstep).symm

theorem Invariant.step (h : Invariant s) {action : JavaAction γ ι}
    (hstep : step s action = some s') : Invariant s' := by
  have hcases := step_cases hstep
  cases action with
  | handleInput g =>
    obtain ⟨hbound, hidle, rfl⟩ := hcases
    exact h.handleInput hidle hbound
  | setJob g =>
    obtain ⟨n, hn, rfl⟩ := hcases
    refine h.setHandler rfl rfl rfl ?_ ?_ ?_ (fun _ ↦ Or.inl) subset_rfl
    · rw [hn]
      exact fun _ ↦ id
    · intro k hk
      refine h.pending g k ?_
      rw [hn]
      exact hk
    · exact fun k hk ↦ by cases hk
  | finish g status =>
    obtain ⟨n, hn, rfl⟩ := hcases
    have hjob : s.job g = some n := by
      rw [h.job, hn]
      rfl
    refine h.setHandler rfl ?_ rfl ?_ ?_ ?_ (fun _ ↦ Or.inl) subset_rfl
    · exact (Function.update_eq_self_iff.mpr hjob.symm).symm
    · rw [hn]
      exact fun _ ↦ id
    · intro k hk
      refine h.pending g k ?_
      rw [hn]
      exact hk
    · exact fun k hk ↦ by cases hk
  | sendResponse g =>
    obtain ⟨n, status, hn, rfl⟩ := hcases
    have hjob : s.job g = some n := by
      rw [h.job, hn]
      rfl
    refine h.setHandler rfl ?_ rfl ?_ ?_ ?_ ?_ ?_
    · exact (Function.update_eq_self_iff.mpr hjob.symm).symm
    · rw [hn]
      exact fun _ ↦ id
    · exact fun k hk ↦ by cases hk
    · rintro k hk
      obtain rfl := HandlerPhase.responded.inj hk
      rw [responses_append_response]
      exact Set.mem_insert _ _
    · intro k hk
      rw [responses_append_response] at hk
      rcases hk with rfl | hk
      · exact Or.inr ⟨n, by rw [hn]; rfl, rfl⟩
      · exact Or.inl hk
    · rw [responses_append_response]
      exact Set.subset_insert _ _
  | clearJob g =>
    obtain ⟨n, hn, rfl⟩ := hcases
    exact h.setHandler rfl rfl rfl (fun k hk ↦ by cases hk) (fun k hk ↦ by cases hk)
      (fun k hk ↦ by cases hk) (fun _ ↦ Or.inl) subset_rfl
  | putOutput isError =>
    obtain ⟨t, n, data, -, rfl⟩ := hcases
    exact h.of_same rfl rfl rfl (responses_append_output s.sent n isError data.val data.property)
  | startThread parent i =>
    obtain ⟨-, rfl⟩ := hcases
    exact h.of_same rfl rfl rfl rfl
  | flush t isError data =>
    obtain ⟨-, rfl⟩ := hcases
    exact h.of_same rfl rfl rfl rfl
  | getJob isError =>
    obtain ⟨t, data, -, rfl⟩ := hcases
    exact h.of_same rfl rfl rfl rfl
  | interrupt isError =>
    obtain ⟨-, rfl⟩ := hcases
    exact h.of_same rfl rfl rfl rfl
  | take =>
    obtain rfl : s' = { s with responseQueue := none } := hcases
    exact h.of_same rfl rfl rfl rfl

/-! ### What prompt steps keep -/

omit [DecidableEq γ] [DecidableEq ι] in
theorem Invariant.numberOf (h : Invariant s) {t : JavaThread γ ι} (hne : (s.numberOf t).val ≠ 0) :
    ∃ g, s.groupOf t = some g ∧ (s.handlers g).job = some (s.numberOf t) := by
  have hjob : (s.groupOf t).bind s.job = some (s.numberOf t) := by
    unfold JavaThreads.numberOf at hne ⊢
    cases hbind : (s.groupOf t).bind s.job with
    | none =>
      rw [hbind] at hne
      exact absurd rfl hne
    | some n => rfl
  obtain ⟨g, hgroup, hg⟩ := Option.bind_eq_some_iff.mp hjob
  exact ⟨g, hgroup, h.job g ▸ hg⟩

omit [DecidableEq γ] [DecidableEq ι] in
theorem Puttable.of_same (hputtable : Puttable s) (hhandlers : s'.handlers = s.handlers)
    (hstreams : ∀ isError, s'.streams isError = s.streams isError ∨
      ∀ t n data, s'.streams isError ≠ some (t, .putting n data)) : Puttable s' := by
  intro isError t n data hstream hne
  rw [hhandlers]
  rcases hstreams isError with heq | hnot
  · exact hputtable isError t n data (heq ▸ hstream) hne
  · exact absurd hstream (hnot t n data)

omit [DecidableEq ι] in
theorem Puttable.setHandler (hputtable : Puttable s) {g : γ} {phase : HandlerPhase}
    (hhandlers : s'.handlers = Function.update s.handlers g phase)
    (hstreams : s'.streams = s.streams)
    (hphase : ∀ isError t n data, s.streams isError = some (t, .putting n data) →
      (s.handlers g).job = some n → (s.handlers g).pending = some n →
      phase.job = some n ∧ phase.pending = some n) : Puttable s' := by
  intro isError t n data hstream hne
  rw [hstreams] at hstream
  obtain ⟨g', hjob, hpending⟩ := hputtable isError t n data hstream hne
  refine ⟨g', ?_⟩
  rw [hhandlers]
  by_cases hg : g' = g
  · subst hg
    rw [Function.update_self]
    exact hphase isError t n data hstream hjob hpending
  · rw [Function.update_of_ne hg]
    exact ⟨hjob, hpending⟩

omit [DecidableEq γ] [DecidableEq ι] in
theorem setStream_streams (isError isError' : Bool)
    (stream : Option (JavaThread γ ι × FlushPhase)) :
    (s.setStream isError stream).streams isError' =
      if isError' = isError then stream else s.streams isError' := by
  simp only [setStream, Function.update_apply]

omit [DecidableEq γ] [DecidableEq ι] in
theorem Puttable.setStream (hputtable : Puttable s) {isError : Bool}
    {stream : Option (JavaThread γ ι × FlushPhase)}
    (hstream : ∀ t n data, stream ≠ some (t, .putting n data)) :
    Puttable (s.setStream isError stream) := by
  refine hputtable.of_same rfl fun isError' ↦ ?_
  rw [setStream_streams]
  by_cases heq : isError' = isError
  · rw [if_pos heq]
    exact Or.inr hstream
  · rw [if_neg heq]
    exact Or.inl rfl

theorem Puttable.step (hputtable : Puttable s) (h : Invariant s) {action : JavaAction γ ι}
    (hprompt : Prompt s action) (hstep : step s action = some s') : Puttable s' := by
  have hcases := step_cases hstep
  cases action with
  | handleInput g =>
    obtain ⟨hbound, hidle, rfl⟩ := hcases
    refine hputtable.setHandler rfl rfl fun _ _ n _ _ hjob ↦ ?_
    rw [hidle] at hjob
    cases hjob
  | setJob g =>
    obtain ⟨n, hn, rfl⟩ := hcases
    refine hputtable.setHandler rfl rfl fun _ _ n _ _ hjob ↦ ?_
    rw [hn] at hjob
    cases hjob
  | finish g status =>
    obtain ⟨n, hn, rfl⟩ := hcases
    refine hputtable.setHandler rfl rfl fun _ _ k _ _ hjob hpending ↦ ?_
    rw [hn] at hjob hpending
    exact ⟨hjob, hpending⟩
  | sendResponse g =>
    obtain ⟨n, status, hn, rfl⟩ := hcases
    refine hputtable.setHandler rfl rfl fun isError t k data hstream _ hpending ↦ ?_
    refine absurd hpending (hprompt isError k ?_)
    unfold putting
    rw [hstream]
    rfl
  | clearJob g =>
    obtain ⟨n, hn, rfl⟩ := hcases
    refine hputtable.setHandler rfl rfl fun _ _ _ _ _ _ hpending ↦ ?_
    rw [hn] at hpending
    cases hpending
  | putOutput isError =>
    obtain ⟨t, n, data, -, rfl⟩ := hcases
    have hnone : Puttable (s.setStream isError none) :=
      hputtable.setStream fun _ _ _ heq ↦ by cases heq
    exact hnone.of_same rfl fun _ ↦ Or.inl rfl
  | startThread parent i =>
    obtain ⟨-, rfl⟩ := hcases
    exact hputtable.of_same rfl fun _ ↦ Or.inl rfl
  | flush t isError data =>
    obtain ⟨-, rfl⟩ := hcases
    exact hputtable.setStream fun _ _ _ heq ↦ by cases heq
  | getJob isError =>
    obtain ⟨t, data, hstream, rfl⟩ := hcases
    intro isError' t' n data' hstream' hne
    rw [setStream_streams] at hstream'
    by_cases heq : isError' = isError
    · rw [if_pos heq] at hstream'
      obtain ⟨hlength, hsome⟩ := Option.ite_none_right_eq_some.mp hstream'
      obtain ⟨rfl, hphase⟩ := Prod.mk.inj (Option.some_inj.mp hsome)
      obtain ⟨rfl, rfl⟩ := FlushPhase.putting.inj hphase
      obtain ⟨g, hgroup, hjob⟩ := h.numberOf hne
      refine ⟨g, hjob, ?_⟩
      show (s.handlers g).pending = _
      refine hprompt g ?_ _ hjob
      unfold lookingUp
      rw [hstream]
      dsimp only
      rw [if_pos hlength]
      exact hgroup
    · rw [if_neg heq] at hstream'
      exact hputtable isError' t' n data' hstream' hne
  | interrupt isError =>
    obtain ⟨-, rfl⟩ := hcases
    exact hputtable.setStream fun _ _ _ heq ↦ by cases heq
  | take =>
    obtain rfl : s' = { s with responseQueue := none } := hcases
    exact hputtable.of_same rfl fun _ ↦ Or.inl rfl

theorem Accepted.step (haccepted : Accepted s) (hputtable : Puttable s) (h : Invariant s)
    {action : JavaAction γ ι} (hstep : step s action = some s') : Accepted s' := by
  have hcases := step_cases hstep
  cases action with
  | handleInput g =>
    obtain ⟨hbound, hidle, rfl⟩ := hcases
    show Allowed (requests (s.lastRequest + 1)) (s.sent.map Message.dispatch)
      (requests (s.lastRequest + 1) \ responses s.sent)
    have hnew := not_mem_requests_succ s.lastRequest
    rw [requests_succ, Set.insert_sdiff_of_notMem _ fun hmem ↦ hnew (h.responses _ hmem)]
    exact haccepted.insert hnew
  | sendResponse g =>
    obtain ⟨n, status, hn, rfl⟩ := hcases
    show Allowed (requests s.lastRequest) ((s.sent ++ [_]).map Message.dispatch)
      (_ \ responses (_ ++ _))
    rw [List.map_append, responses_append_response]
    refine allowed_append haccepted ⟨⟨?_, ?_⟩, ?_⟩
    · exact h.numbers g n (by rw [hn]; rfl)
    · exact h.pending g n (by rw [hn]; rfl)
    · show (requests s.lastRequest \ responses s.sent) \ {n.val} = _
      rw [Set.sdiff_sdiff, Set.union_comm]
      rfl
  | putOutput isError =>
    obtain ⟨t, n, data, hstream, rfl⟩ := hcases
    show Allowed (requests s.lastRequest) ((s.sent ++ [_]).map Message.dispatch)
      (_ \ responses (_ ++ _))
    rw [List.map_append, responses_append_output]
    refine allowed_append haccepted ⟨?_, ?_⟩
    · show Expected _ (outputDispatch n isError data.val)
      unfold outputDispatch
      by_cases hzero : n.val = 0
      · rw [if_pos hzero]
        trivial
      · rw [if_neg hzero]
        obtain ⟨g, hjob, hpending⟩ := hputtable isError t n data hstream hzero
        exact ⟨h.numbers g n (HandlerPhase.number_of_job hjob), h.pending g n hpending⟩
    · show Connection.jobsAfter _ (outputDispatch n isError data.val) = _
      unfold outputDispatch
      split_ifs <;> rfl
  | setJob g =>
    obtain ⟨n, -, rfl⟩ := hcases
    exact haccepted
  | startThread parent i =>
    obtain ⟨-, rfl⟩ := hcases
    exact haccepted
  | flush t isError data =>
    obtain ⟨-, rfl⟩ := hcases
    exact haccepted
  | getJob isError =>
    obtain ⟨t, data, -, rfl⟩ := hcases
    exact haccepted
  | interrupt isError =>
    obtain ⟨-, rfl⟩ := hcases
    exact haccepted
  | finish g status =>
    obtain ⟨n, -, rfl⟩ := hcases
    exact haccepted
  | clearJob g =>
    obtain ⟨n, -, rfl⟩ := hcases
    exact haccepted
  | take =>
    obtain rfl : s' = { s with responseQueue := none } := hcases
    exact haccepted

/-! ### A step that is not prompt -/

/-- The output that a thread is to put may be the next message. -/
theorem exists_put {isError : Bool} {t : JavaThread γ ι} {n : Fin intLimit} {data : Record}
    (hstream : s.streams isError = some (t, .putting n data)) :
    ∃ more s', run s more = some s' ∧
      s'.sent = s.sent ++ [.output n isError data.val data.property] := by
  have hput : ∀ s₁ : JavaThreads γ ι, s₁.streams = s.streams → s₁.sent = s.sent →
      s₁.responseQueue = none → ∃ s', step s₁ (.putOutput isError) = some s' ∧
        s'.sent = s.sent ++ [.output n isError data.val data.property] := by
    intro s₁ hstreams hsent hqueue
    refine ⟨{ s₁.setStream isError none with
      responseQueue := some (.output n isError data.val data.property)
      sent := s₁.sent ++ [.output n isError data.val data.property] }, ?_, ?_⟩
    · unfold step
      dsimp only
      rw [hstreams, hstream]
      exact put_eq_some_iff.mpr ⟨hqueue, rfl⟩
    · rw [hsent]
  cases hqueue : s.responseQueue with
  | none =>
    obtain ⟨s', hs', hsent⟩ := hput s rfl rfl hqueue
    refine ⟨[.putOutput isError], s', ?_, hsent⟩
    rw [run, Fallible.foldlM_cons, hs']
    rfl
  | some m =>
    obtain ⟨s', hs', hsent⟩ := hput { s with responseQueue := none } rfl rfl rfl
    refine ⟨[.take, .putOutput isError], s', ?_, hsent⟩
    have htake : step s .take = some { s with responseQueue := none } := by
      unfold step
      dsimp only
      rw [hqueue]
    rw [run, Fallible.foldlM_cons, htake, Option.bind_some, Fallible.foldlM_cons, hs']
    rfl

omit [DecidableEq γ] [DecidableEq ι] in
theorem not_inOrder_append {sent : List Message} {n : Fin intLimit} (hn : n.val ∈ responses sent)
    (isError : Bool) (data : Record) :
    ¬ InOrder (sent ++ [.output n isError data.val data.property]) := by
  obtain ⟨k, status, hmem, hval⟩ := hn
  obtain rfl : k = n := Fin.ext hval
  intro h
  exact (List.pairwise_append.mp h).2.2 _ hmem _ (List.mem_singleton_self _) k status rfl rfl

omit [DecidableEq γ] [DecidableEq ι] in
theorem putting_eq_some_iff {isError : Bool} {n : Fin intLimit} :
    s.putting isError = some n ↔ ∃ t data, s.streams isError = some (t, .putting n data) := by
  unfold putting
  rcases s.streams isError with _ | ⟨t, data | ⟨k, data⟩⟩ <;> simp

/-- After a step that is not prompt some output may come after the response. -/
theorem late_of_not_prompt (h : Invariant s) {action : JavaAction γ ι}
    (hprompt : ¬ Prompt s action) (hstep : step s action = some s') :
    ∃ more s'', run s' more = some s'' ∧ ¬ InOrder s''.sent := by
  have hcases := step_cases hstep
  have hlate : ∀ isError t n data, s'.streams isError = some (t, .putting n data) →
      n.val ∈ responses s'.sent → ∃ more s'', run s' more = some s'' ∧ ¬ InOrder s''.sent := by
    intro isError t n data hstream hn
    obtain ⟨more, s'', hmore, hsent⟩ := exists_put hstream
    refine ⟨more, s'', hmore, ?_⟩
    rw [hsent]
    exact not_inOrder_append hn isError data
  cases action with
  | sendResponse g =>
    obtain ⟨n, status, hn, rfl⟩ := hcases
    simp only [Prompt, not_forall, not_not] at hprompt
    obtain ⟨isError, k, hputting, hpending⟩ := hprompt
    obtain ⟨t, data, hstream⟩ := putting_eq_some_iff.mp hputting
    rw [hn] at hpending
    obtain rfl : n = k := Option.some_inj.mp hpending
    refine hlate isError t n data hstream ?_
    rw [responses_append_response]
    exact Set.mem_insert _ _
  | getJob isError =>
    obtain ⟨t, data, hstream, rfl⟩ := hcases
    simp only [Prompt, not_forall] at hprompt
    obtain ⟨g, hlooking, n, hjob, hpending⟩ := hprompt
    unfold lookingUp at hlooking
    rw [hstream] at hlooking
    obtain ⟨hlength, hgroup⟩ := Option.ite_none_right_eq_some.mp hlooking
    have hn := HandlerPhase.responded_of_job hjob hpending
    refine hlate isError t n data ?_ (h.responded g n hn)
    have hnumber : s.numberOf t = n := by
      unfold numberOf
      rw [hgroup, Option.bind_some, h.job, hn]
      rfl
    rw [setStream_streams, if_pos rfl, outputOf, if_pos hlength, hnumber]
  | _ => exact absurd trivial hprompt

end Step

theorem invariant_new (γ ι : Type) : Invariant (new γ ι) where
  numbers := fun _ _ hn ↦ by cases hn
  distinct := fun _ _ _ hn ↦ by cases hn
  job := fun _ ↦ rfl
  pending := fun _ _ hn ↦ by cases hn
  responded := fun _ _ hn ↦ by cases hn
  responses := fun _ hn ↦ by
    obtain ⟨_, _, hmem, _⟩ := hn
    cases hmem

theorem puttable_new (γ ι : Type) : Puttable (new γ ι) := by
  intro isError t n data hstream
  cases hstream

theorem accepted_new (γ ι : Type) : Accepted (new γ ι) := by
  show requests 0 = requests 0 \ responses []
  ext n
  simp [requests, responses]

/-- In a run of prompt steps no output for a request comes after its response, and the builder
takes every message. A run with another step has a beginning that may go on to output after the
response. -/
theorem accepted_of_prompt [DecidableEq γ] [DecidableEq ι] {actions : List (JavaAction γ ι)}
    {s : JavaThreads γ ι} (hrun : run (new γ ι) actions = some s) :
    (Meets step Prompt (new γ ι) actions →
      Holds step (fun s ↦ InOrder s.sent ∧ Accepted s) (new γ ι) actions) ∧
    (¬ Meets step Prompt (new γ ι) actions → ∃ done more s', done <+: actions ∧
      run (new γ ι) (done ++ more) = some s' ∧ ¬ InOrder s'.sent) := by
  constructor
  · intro hmeets
    have hP : ∀ s : JavaThreads γ ι, Invariant s ∧ Puttable s ∧ Accepted s →
        InOrder s.sent ∧ Accepted s := fun s h ↦ ⟨h.2.2.inOrder, h.2.2⟩
    refine holds_of_meets hP ?_ hmeets ⟨invariant_new γ ι, puttable_new γ ι, accepted_new γ ι⟩
    rintro s action s' ⟨h, hputtable, haccepted⟩ hprompt hstep
    exact ⟨h.step hstep, hputtable.step h hprompt hstep, haccepted.step hputtable h hstep⟩
  · intro hmeets
    obtain ⟨l₁, action, l₂, s₁, s₂, rfl, hl₁, hprompt, hstep⟩ := exists_of_not_meets hmeets hrun
    have hinvariant : Invariant s₁ := Fallible.foldlM_induction hl₁ (invariant_new γ ι)
      fun _ _ _ _ hstep h ↦ h.step hstep
    obtain ⟨more, s'', hmore, hlate⟩ := late_of_not_prompt hinvariant hprompt hstep
    refine ⟨l₁ ++ [action], more, s'', ⟨l₂, by simp⟩, ?_, hlate⟩
    rw [run, List.append_assoc, List.foldlM_append, hl₁]
    show (([action] ++ more).foldlM step s₁ : Option _) = some s''
    rw [List.singleton_append, Fallible.foldlM_cons, hstep]
    exact hmore

/-- A job writes from a thread of its own, and responds. -/
def childOutput : List (JavaAction Unit Unit) :=
  [.handleInput (), .setJob (), .startThread (some (.handler ())) (),
    .flush (.other ()) false ⟨[104, 105], by decide⟩, .getJob false]

/-- The theorem, for a job that responds when its thread has put what it wrote. -/
theorem accepted_of_prompt_childOutput :
    Holds step (fun s ↦ InOrder s.sent ∧ Accepted s) (new Unit Unit)
      (childOutput ++ [.putOutput false, .take, .finish () true, .sendResponse ()]) := by
  have hsome : (run (new Unit Unit)
      (childOutput ++ [.putOutput false, .take, .finish () true, .sendResponse ()])).isSome := by
    decide
  obtain ⟨s, hrun⟩ := Option.isSome_iff_exists.mp hsome
  exact (accepted_of_prompt hrun).1 (by decide)

/-- The thread has looked the job up, but the response overtakes what it wrote. -/
theorem not_inOrder_childOutput : ∃ s, run (new Unit Unit)
    (childOutput ++ [.finish () true, .sendResponse (), .take, .putOutput false]) = some s ∧
      ¬ InOrder s.sent := by
  have hresponses : 1 ∈ responses [Message.response ⟨1, by decide⟩ true] :=
    ⟨⟨1, by decide⟩, true, List.mem_singleton_self _, rfl⟩
  exact ⟨_, rfl, not_inOrder_append hresponses false ⟨[104, 105], by decide⟩⟩

end JavaThreads

end Abuild
