import Abuild.Library.Guarded
import Abuild.Logger.Locks
import Mathlib.Tactic.FinCases

/-!
Whether threads of the logger wait for each other. A thread that writes locks its job, then the
queue, then the table of the jobs; one that closes a job has the table locked while it flushes the
job. `not_deadlocked_of_quiet` says that no threads wait for each other in a run in which a job
has nothing left to flush whenever it is closed, and `deadlocked_closeJob` is a run of two threads
that do.
-/

set_option autoImplicit false
set_option relaxedAutoImplicit false

namespace Abuild.Logger

open Locks
open Std (TreeMap)

/-! ### Which locks are taken -/

/-- What a thread that uses the job may lock while it holds some mutexes. -/
def Allowed (job : ℕ) (held : List Mutex) : Mutex → Prop
  | .jobdata => True
  | .job n => n = job ∧ n ≠ noJob ∧ .queueWrite ∉ held
  | .queueWrite => .jobdata ∉ held ∧ .queueWrite ∉ held

/-- Neither the table of the jobs nor the queue is held. -/
def Free (held : List Mutex) : Prop := .jobdata ∉ held ∧ .queueWrite ∉ held

theorem free_nil : Free [] := ⟨List.not_mem_nil, List.not_mem_nil⟩

theorem Free.cons_job {held : List Mutex} (h : Free held) (n : ℕ) : Free (.job n :: held) :=
  ⟨List.not_mem_cons_of_ne_of_not_mem (fun heq ↦ by cases heq) h.1,
    List.not_mem_cons_of_ne_of_not_mem (fun heq ↦ by cases heq) h.2⟩

variable {job : ℕ} {j : JobData}

theorem prefixMessageLocks_framed : Framed (Allowed job) (fun _ ↦ True) prefixMessageLocks :=
  (framed_nil (P := fun _ ↦ True)).locked (fun _ _ ↦ trivial) fun _ h ↦ h

theorem findJobLocks_framed : Framed (Allowed job) (fun _ ↦ True) findJobLocks :=
  (framed_nil (P := fun _ ↦ True)).locked (fun _ _ ↦ trivial) fun _ h ↦ h

theorem writeToLoggerLocks_framed (messages : List Message) :
    Framed (Allowed job) Free (writeToLoggerLocks messages) :=
  (framed_flatMap fun _ _ ↦ prefixMessageLocks_framed).locked (fun _ h ↦ h) fun _ _ ↦ trivial

section Job

variable (hjob : job ≠ noJob)

include hjob

theorem locked_job_framed {code : Code} (h : Framed (Allowed job) Free code) :
    Framed (Allowed job) Free (locked (.job job) code) :=
  h.locked (fun _ hheld ↦ ⟨rfl, hjob, hheld.2⟩) fun _ hheld ↦ hheld.cons_job job

theorem deliverLocks_framed (isError : Bool) (line : Bytes) :
    Framed (Allowed job) Free (j.deliverLocks job isError line) :=
  locked_job_framed hjob (framed_flatMap fun message _ ↦ writeToLoggerLocks_framed [message])

theorem handleMessageLocks_framed (isError : Bool) (line : Bytes) :
    Framed (Allowed job) Free (j.handleMessageLocks job isError line) := by
  unfold JobData.handleMessageLocks
  split_ifs
  · exact deliverLocks_framed hjob isError line
  · exact (deliverLocks_framed hjob _ _).append (deliverLocks_framed hjob isError line)

theorem addBytesLocks_framed (isError : Bool) (data : Bytes) :
    Framed (Allowed job) Free (JobData.addBytesLocks job isError j data) := by
  induction data generalizing j with
  | nil => exact framed_nil
  | cons c data ih =>
    refine Framed.append ?_ ih
    unfold JobData.addByteLocks
    dsimp only
    split_ifs
    · exact handleMessageLocks_framed hjob isError _
    · exact framed_nil

theorem handleOutputLocks_framed (isError : Bool) (data : Bytes) :
    Framed (Allowed job) Free (j.handleOutputLocks job isError data) := by
  refine locked_job_framed hjob ?_
  by_cases hdata : data = []
  · rw [if_pos hdata]
    dsimp only
    split_ifs
    · exact handleMessageLocks_framed hjob isError _
    · exact framed_nil
    · exact handleMessageLocks_framed hjob isError _
    · exact framed_nil
  · rw [if_neg hdata]
    exact addBytesLocks_framed hjob isError data

end Job

/-- There is nothing that a flush of the job would write. -/
def Flushed (j : JobData) : Prop := j.outputLine = [] ∧ j.errorLine = [] ∧ j.buffer = []

instance (j : JobData) : Decidable (Flushed j) := inferInstanceAs (Decidable (_ ∧ _ ∧ _))

/-- A call without data does nothing to a stream that has no line begun. -/
theorem handleOutput_nil {isError : Bool} (hline : j.line isError = []) :
    j.handleOutput isError [] = (j, []) := by
  unfold JobData.handleOutput
  rw [if_pos rfl, hline]
  rfl

theorem handleOutputLocks_nil {isError : Bool} (hline : j.line isError = []) (n : ℕ) :
    j.handleOutputLocks n isError [] = locked (.job n) [] := by
  unfold JobData.handleOutputLocks
  rw [if_pos rfl, hline]
  rfl

/-- A flush of a job that has nothing to write only locks the job. -/
theorem flushLocks_framed (h : Flushed j) (hjob : job ≠ noJob) :
    Framed (Allowed job) (.queueWrite ∉ ·) (j.flushLocks job) := by
  have houtput : j.line false = [] := h.1
  have herror : j.line true = [] := h.2.1
  have hlock : ∀ code, Framed (Allowed job) (.queueWrite ∉ ·) code →
      Framed (Allowed job) (.queueWrite ∉ ·) (locked (.job job) code) := fun code hcode ↦
    hcode.locked (fun held hheld ↦ ⟨rfl, hjob, hheld⟩) fun held hheld ↦
      List.not_mem_cons_of_ne_of_not_mem (fun heq ↦ by cases heq) hheld
  unfold JobData.flushLocks
  rw [handleOutput_nil houtput]
  dsimp only
  rw [handleOutput_nil herror, handleOutputLocks_nil houtput, handleOutputLocks_nil herror, h.2.2]
  exact hlock _ (((hlock [] framed_nil).append (hlock [] framed_nil)).append framed_nil)

/-! ### Threads -/

variable {n : ℕ} {s s' : LoggerThreads n}

/-- The jobs that are closed have nothing left to write. -/
def QuietClose (s : LoggerThreads n) : Action n → Prop
  | .call _ (.closeJob job) => ∀ j ∈ s.jobs.jobs[job]?, Flushed j
  | _ => True

instance (s : LoggerThreads n) (a : Action n) : Decidable (QuietClose s a) :=
  match a with
  | .call _ (.closeJob job) => inferInstanceAs (Decidable (∀ j ∈ s.jobs.jobs[job]?, Flushed j))
  | .call _ (.requestJobHandle _ _) => isTrue trivial
  | .call _ (.setJobHeader _ _) => isTrue trivial
  | .call _ (.getOutputHandler _) => isTrue trivial
  | .call _ (.handleOutput _ _ _) => isTrue trivial
  | .call _ (.log _ _ _) => isTrue trivial
  | .advance _ => isTrue trivial

theorem call_follows {jobs jobs' : Jobs} {c : Call} {code : Code}
    (h : jobs.call c = some (jobs', code))
    (hquiet : ∀ job, c = .closeJob job → ∀ j ∈ jobs.jobs[job]?, Flushed j) :
    Follows (Allowed c.job) [] code := by
  cases c with
  | requestJobHandle bufferOutput jobPrefix =>
    obtain ⟨-, rfl⟩ := Prod.mk.inj (Option.some_inj.mp h)
    exact findJobLocks_framed.follows trivial
  | setJobHeader job jobHeader =>
    unfold Jobs.call at h
    dsimp only at h
    by_cases hjob : job = noJob
    · rw [if_pos hjob] at h
      obtain ⟨-, rfl⟩ := Prod.mk.inj (Option.some_inj.mp h)
      rfl
    · rw [if_neg hjob] at h
      obtain ⟨-, rfl⟩ := Prod.mk.inj (Option.some_inj.mp h)
      exact findJobLocks_framed.follows trivial
  | getOutputHandler job =>
    obtain ⟨-, rfl⟩ := Prod.mk.inj (Option.some_inj.mp h)
    split_ifs
    · rfl
    · exact findJobLocks_framed.follows trivial
  | handleOutput job isError data =>
    obtain ⟨hjob, h⟩ := Option.ite_none_left_eq_some.mp h
    obtain ⟨j, -, heq⟩ := Option.map_eq_some_iff.mp h
    obtain ⟨-, rfl⟩ := Prod.mk.inj heq
    exact (handleOutputLocks_framed hjob isError data).follows free_nil
  | log isError message job =>
    unfold Jobs.call at h
    dsimp only at h
    by_cases hjob : job = noJob
    · rw [if_pos hjob] at h
      obtain ⟨-, rfl⟩ := Prod.mk.inj (Option.some_inj.mp h)
      exact (writeToLoggerLocks_framed _).follows free_nil
    · rw [if_neg hjob] at h
      cases hopen : jobs.jobs[job]? with
      | none =>
        rw [hopen] at h
        obtain ⟨-, rfl⟩ := Prod.mk.inj (Option.some_inj.mp h)
        exact findJobLocks_framed.follows trivial
      | some j =>
        rw [hopen] at h
        obtain ⟨-, rfl⟩ := Prod.mk.inj (Option.some_inj.mp h)
        exact ((findJobLocks_framed.mono fun _ _ ↦ trivial).append
          (handleMessageLocks_framed hjob isError _)).follows free_nil
  | closeJob job =>
    unfold Jobs.call at h
    dsimp only at h
    by_cases hjob : job = noJob
    · rw [if_pos hjob] at h
      obtain ⟨-, rfl⟩ := Prod.mk.inj (Option.some_inj.mp h)
      rfl
    · rw [if_neg hjob] at h
      obtain ⟨-, rfl⟩ := Prod.mk.inj (Option.some_inj.mp h)
      cases hopen : jobs.jobs[job]? with
      | none => exact findJobLocks_framed.follows trivial
      | some j =>
        have hcode := (flushLocks_framed (hquiet job rfl j hopen) hjob).locked (P := Free)
          (m := .jobdata) (fun _ _ ↦ trivial) fun held hheld ↦
            List.not_mem_cons_of_ne_of_not_mem (fun heq ↦ by cases heq) hheld.2
        exact hcode.follows free_nil

/-- The threads keep to the order of the locks, and no two use one job. -/
structure Ordered (s : LoggerThreads n) : Prop where
  follows : ∀ t, Follows (Allowed (s.job t)) (s.threads t).held (s.threads t).rest
  exclusive : Exclusive s.threads
  held : ∀ t job, .job job ∈ (s.threads t).held → job = s.job t ∧ job ≠ noJob
  alone : ∀ t u, (s.threads t).rest ≠ [] → (s.threads u).rest ≠ [] → s.job t = s.job u →
    s.job t ≠ noJob → t = u

theorem ordered_new (n : ℕ) : Ordered (.new n) :=
  ⟨fun _ ↦ rfl, fun _ _ _ h ↦ absurd h List.not_mem_nil,
    fun _ _ h ↦ absurd h List.not_mem_nil, fun _ _ h ↦ absurd rfl h⟩

/-- A thread that is in no call holds nothing. -/
theorem Ordered.held_eq_nil (h : Ordered s) {t : Fin n} (hrest : (s.threads t).rest = []) :
    (s.threads t).held = [] := by
  have hfollows := h.follows t
  rw [hrest] at hfollows
  exact hfollows

theorem Ordered.call (h : Ordered s) {t : Fin n} {c : Call} (hquiet : QuietClose s (.call t c))
    (hact : s.act (.call t c) = some s') : Ordered s' := by
  obtain ⟨hfree, hmap⟩ := Option.ite_none_left_eq_some.mp hact
  obtain ⟨⟨jobs, code⟩, hcall, heq⟩ := Option.map_eq_some_iff.mp hmap
  dsimp only at heq
  subst heq
  obtain ⟨hidle, huse⟩ := not_or.mp hfree
  have hnil : (s.threads t).held = [] := h.held_eq_nil (not_not.mp hidle)
  have hcode : Follows (Allowed c.job) [] code := call_follows hcall fun job hc ↦ by
    subst hc
    exact hquiet
  have hheld : ∀ u, (Function.update s.threads t ⟨(s.threads t).held, code⟩ u).held =
      (s.threads u).held := by
    intro u
    rw [Function.update_apply]
    split_ifs with hu
    · rw [hu]
    · rfl
  refine ⟨fun u ↦ ?_, fun u v m hu hv ↦ ?_, fun u job hu ↦ ?_, fun u v hu hv huv hjob ↦ ?_⟩
  · by_cases hu : u = t
    · subst hu
      dsimp only
      rw [Function.update_self, Function.update_self, hnil]
      exact hcode
    · dsimp only
      rw [Function.update_of_ne hu, Function.update_of_ne hu]
      exact h.follows u
  · rw [hheld] at hu hv
    exact h.exclusive u v m hu hv
  · dsimp only at hu ⊢
    rw [hheld] at hu
    by_cases hut : u = t
    · rw [hut, hnil] at hu
      exact absurd hu List.not_mem_nil
    · rw [Function.update_of_ne hut]
      exact h.held u job hu
  · dsimp only at hu hv huv hjob
    by_cases hut : u = t <;> by_cases hvt : v = t
    · rw [hut, hvt]
    · subst hut
      rw [Function.update_self, Function.update_of_ne hvt] at huv
      rw [Function.update_self] at hjob
      rw [Function.update_of_ne hvt] at hv
      exact absurd ⟨hjob, v, hvt, hv, huv.symm⟩ huse
    · subst hvt
      rw [Function.update_self, Function.update_of_ne hut] at huv
      rw [Function.update_of_ne hut] at hjob hu
      exact absurd ⟨huv ▸ hjob, u, hut, hu, huv⟩ huse
    · rw [Function.update_of_ne hut] at hu huv hjob
      rw [Function.update_of_ne hvt] at hv huv
      exact h.alone u v hu hv huv hjob

theorem Ordered.advance (h : Ordered s) {t : Fin n} (hact : s.act (.advance t) = some s') :
    Ordered s' := by
  obtain ⟨threads, hadvance, rfl⟩ := Option.map_eq_some_iff.mp hact
  obtain ⟨hfollows, hbusy⟩ := (h.follows t).advance hadvance
  refine ⟨fun u ↦ ?_, h.exclusive.advance hadvance, fun u job hu ↦ ?_,
    fun u v hu hv huv hjob ↦ ?_⟩
  · by_cases hu : u = t
    · rw [hu]
      exact hfollows
    · dsimp only
      rw [advance_of_ne hadvance hu]
      exact h.follows u
  · by_cases hut : u = t
    · subst hut
      rcases held_of_advance hadvance hu with hbefore | ⟨hat, -⟩
      · exact h.held u job hbefore
      · exact ⟨((h.follows u).mayLock hat).1, ((h.follows u).mayLock hat).2.1⟩
    · dsimp only at hu
      rw [advance_of_ne hadvance hut] at hu
      exact h.held u job hu
  · have hbefore : ∀ u, (threads u).rest ≠ [] → (s.threads u).rest ≠ [] := by
      intro u hu
      by_cases hut : u = t
      · rwa [hut]
      · rwa [advance_of_ne hadvance hut] at hu
    exact h.alone u v (hbefore u hu) (hbefore v hv) huv hjob

theorem Ordered.act (h : Ordered s) {a : Action n} (hquiet : QuietClose s a)
    (hact : s.act a = some s') : Ordered s' := by
  cases a with
  | call t c => exact h.call hquiet hact
  | advance t => exact h.advance hact

/-- A job is used by the thread that holds its mutex. -/
theorem Ordered.eq_of_job (h : Ordered s) {t u : Fin n} {job : ℕ}
    (hat : IsAt s.threads t (.job job)) (hheld : .job job ∈ (s.threads u).held) : t = u := by
  obtain ⟨htjob, hjob, -⟩ := (h.follows t).mayLock hat
  obtain ⟨hujob, -⟩ := h.held u job hheld
  have hubusy : (s.threads u).rest ≠ [] := fun hrest ↦ by
    rw [h.held_eq_nil hrest] at hheld
    exact List.not_mem_nil hheld
  obtain ⟨rest, hrest⟩ := hat
  refine h.alone t u (by rw [hrest]; exact List.cons_ne_nil _ _) hubusy (htjob.symm.trans hujob) ?_
  rwa [← htjob]

/-- The order in which the mutexes are waited for. -/
def Mutex.rank : Mutex → ℕ
  | .job _ => 0
  | .queueWrite => 1
  | .jobdata => 2

theorem Ordered.not_deadlocked (h : Ordered s) : ¬ Deadlocked s.threads := by
  refine Locks.not_deadlocked Mutex.rank 2 (fun m ↦ by cases m <;> simp [Mutex.rank]) ?_
  intro t u v m m' hut hvu hat hheld hat' hheld'
  have hallowed := (h.follows u).mayLock hat'
  cases m with
  | job job => exact absurd (h.eq_of_job hat hheld).symm hut
  | queueWrite =>
    cases m' with
    | job job => exact absurd hheld hallowed.2.2
    | queueWrite => exact absurd hheld hallowed.2
    | jobdata => exact Nat.lt_succ_self 1
  | jobdata =>
    cases m' with
    | job job => exact absurd (h.eq_of_job hat' hheld').symm hvu
    | queueWrite => exact absurd hheld hallowed.1
    | jobdata => exact absurd (h.exclusive u v .jobdata hheld hheld').symm hvu

/-- In a run in which no job that is closed has anything left to write, no threads wait for each
other in any state. -/
theorem not_deadlocked_of_quiet {actions : List (Action n)}
    (hquiet : Guarded.Meets LoggerThreads.act QuietClose (.new n) actions) :
    Guarded.Holds LoggerThreads.act (fun s ↦ ¬ Deadlocked s.threads) (.new n) actions :=
  Guarded.holds_of_meets (fun _ h ↦ h.not_deadlocked) (fun _ _ _ h hguard hact ↦ h.act hguard hact)
    hquiet (ordered_new n)

/-- Two threads open a job each. One writes a line while the other one closes its job. -/
def closingRun (first : Bytes) (steps : ℕ) : List (Action 2) :=
  [.call 0 (.requestJobHandle false []), .advance 0, .advance 0,
    .call 1 (.requestJobHandle false []), .advance 1, .advance 1,
    .call 0 (.handleOutput 1 false first)] ++ List.replicate steps (.advance 0) ++
    [.call 1 (.handleOutput 2 false (ascii "b\n")), .advance 1, .advance 1, .advance 1,
    .call 0 (.closeJob 1), .advance 0, .advance 0, .advance 0, .advance 0]

/-- The line `a` is complete when its job is closed. -/
theorem not_deadlocked_of_quiet_line :
    Guarded.Meets LoggerThreads.act QuietClose (.new 2) (closingRun (ascii "a\n") 8) ∧
      Guarded.Holds LoggerThreads.act (fun s ↦ ¬ Deadlocked s.threads) (.new 2)
        (closingRun (ascii "a\n") 8) := by
  have hquiet : Guarded.Meets LoggerThreads.act QuietClose (.new 2)
      (closingRun (ascii "a\n") 8) := by
    decide +kernel
  exact ⟨hquiet, not_deadlocked_of_quiet hquiet⟩

/-- One thread waits for the queue to flush `a`, with the table of the jobs locked, and the other
one has locked the queue and waits for the table. -/
theorem deadlocked_closeJob : ∃ s ∈ (closingRun (ascii "a") 2).foldlM LoggerThreads.act (.new 2),
    Deadlocked s.threads := by
  have hwaits : ∃ s ∈ (closingRun (ascii "a") 2).foldlM LoggerThreads.act (.new 2),
      (s.threads 0).rest.head? = some (.lock .queueWrite) ∧ .queueWrite ∈ (s.threads 1).held ∧
        (s.threads 1).rest.head? = some (.lock .jobdata) ∧ .jobdata ∈ (s.threads 0).held := by
    decide +kernel
  obtain ⟨s, hs, hat, hqueue, hat', htable⟩ := hwaits
  refine ⟨s, hs, Set.univ, Set.univ_nonempty, fun t _ ↦ ?_⟩
  fin_cases t
  · exact ⟨.queueWrite, List.head?_eq_some_iff.mp hat, 1, trivial, by decide, hqueue⟩
  · exact ⟨.jobdata, List.head?_eq_some_iff.mp hat', 0, trivial, by decide, htable⟩

end Abuild.Logger
