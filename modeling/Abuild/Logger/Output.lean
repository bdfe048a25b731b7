import Abuild.Library.Contiguous
import Abuild.Library.Guarded
import Abuild.Logger.Queue
import Abuild.Logger.Talk

/-!
What the logger shows of many jobs at once, whatever the order of their calls, of the locks in these
and of the messages that are taken out of the queue. Nothing that a job says is lost, repeated or
moved, nor is what is logged without a job, and what a buffered job says stands together. A message
has the prefix of its job if the job is still open when it goes into the queue: what is left of a
job when it is closed has none (`output_of_run`).
-/

set_option autoImplicit false
set_option relaxedAutoImplicit false

namespace Abuild.Logger

open Contiguous Guarded
open Std (TreeMap)

/-! ### What the calls say -/

/-- The calls that use a job. -/
def callsOf (job : ℕ) (actions : List QueueAction) : List Call :=
  actions.filterMap fun
    | .call c => if c.job = job then some c else none
    | _ => none

/-- What a job has to say. -/
def talk (job : ℕ) (actions : List QueueAction) : Talk := (callsOf job actions).foldl Talk.call .new

/-- The messages that are logged without a job. -/
def noJobMessages (actions : List QueueAction) : List Message :=
  actions.filterMap fun
    | .call (.log isError message job) =>
      if job = noJob then some (messageType isError, message ++ [newline]) else none
    | _ => none

/-- The kind and the prefix of the jobs that have been requested, in their order. -/
def requests (actions : List QueueAction) : List (Bool × Bytes) :=
  actions.filterMap fun
    | .call (.requestJobHandle bufferOutput jobPrefix) => some (bufferOutput, jobPrefix)
    | _ => none

/-- The kind and the prefix of a job. The first one has the number 1. -/
def opening (job : ℕ) (actions : List QueueAction) : Option (Bool × Bytes) :=
  if job = noJob then none else (requests actions)[job - 1]?

/-- What a job keeps. -/
def kept (j : Option JobData) : List Message := j.elim [] (·.buffer)

/-- The messages of a job that are in the queue or have been shown. -/
def LoggerQueue.heard (s : LoggerQueue) (job : ℕ) : List Message :=
  (s.output.filter (·.job = job)).map (·.message) ++ (s.queue.filter (·.job = job)).map (·.message)

/-- The jobs of the messages that have been shown or are in the queue. -/
def LoggerQueue.speakers (s : LoggerQueue) : List ℕ := s.output.map (·.job) ++ s.queue.map (·.job)

/-! ### One call -/

theorem Tells.sent {j : JobData} {lines : List (Bool × Bytes)} {r : JobData × List Message}
    (h : Tells j lines r) (hdirect : j.bufferOutput = false → j.buffer = []) :
    r.2 ++ r.1.buffer = j.buffer ++ (headerMessages j.jobHeader lines ++ lineMessages lines) ∧
      (r.1.bufferOutput = false → r.1.buffer = []) ∧ (r.1.bufferOutput = true → r.2 = []) := by
  rw [h.bufferOutput]
  cases hbuffer : j.bufferOutput with
  | false =>
    obtain ⟨hsame, hwritten⟩ := h.written hbuffer
    rw [hsame, hwritten, hdirect hbuffer, List.append_nil, List.nil_append]
    exact ⟨rfl, fun _ ↦ rfl, fun hfalse ↦ absurd hfalse Bool.false_ne_true⟩
  | true =>
    obtain ⟨hkept, hnone⟩ := h.kept hbuffer
    rw [hkept, hnone]
    exact ⟨rfl, fun hfalse ↦ absurd hfalse.symm Bool.false_ne_true, fun _ ↦ rfl⟩

/-- The job that is open under a number, and how it agrees with what it has to say. -/
structure Follows (t : Talk) (j j' : JobData) : Prop where
  refines : Refines t j'
  bufferOutput : j'.bufferOutput = j.bufferOutput
  jobPrefix : j'.jobPrefix = j.jobPrefix
  direct : j'.bufferOutput = false → j'.buffer = []

/-- A call on a job that is open: what it writes and what the job keeps is what it says, behind
what the job has kept. -/
structure Speaks (s : Jobs) (c : Call) (n : ℕ) (t : Talk) (j : JobData) (after : Option JobData)
    (jobs : TreeMap ℕ JobData) : Prop where
  call : ∃ code, s.call c = some (⟨s.nextJob, jobs⟩, code)
  other : ∀ m, m ≠ n → jobs[m]? = s.jobs[m]?
  self : jobs[n]? = after
  follows : ∀ j', after = some j' → Follows (t.call c) j j'
  said : ∃ messages, (t.call c).said = t.said ++ messages ∧
    (s.writes c).flatten ++ kept after = j.buffer ++ messages
  buffered : j.bufferOutput = true → s.writes c = [] ∨ after = none ∧ ∃ block, s.writes c = [block]

section Calls

variable {s : Jobs} {t : Talk} {j : JobData} {n : ℕ}

theorem flatten_map_singleton {α : Type*} (l : List α) : (l.map ([·])).flatten = l := by
  induction l with
  | nil => rfl
  | cons a l ih => rw [List.map_cons, List.flatten_cons, ih, List.singleton_append]

theorem getElem?_insert_of_ne {jobs : TreeMap ℕ JobData} {m : ℕ} (h : m ≠ n) :
    (jobs.insert n j)[m]? = jobs[m]? := by
  rw [TreeMap.getElem?_insert, if_neg (fun heq ↦ h (compare_eq_iff_eq.mp heq).symm)]

theorem speaks_setJobHeader (hn : n ≠ noJob) (hj : s.jobs[n]? = some j) (ht : Refines t j)
    (hdirect : j.bufferOutput = false → j.buffer = []) (header : Bytes) :
    Speaks s (.setJobHeader n header) n t j (some (j.setJobHeader header))
      (s.jobs.modify n (·.setJobHeader header)) where
  call := ⟨_, if_neg hn⟩
  other m hm := by
    rw [TreeMap.getElem?_modify, if_neg (fun heq ↦ hm (compare_eq_iff_eq.mp heq).symm)]
  self := by
    rw [TreeMap.getElem?_modify_self, hj, Option.map_some]
  follows j' hj' := by
    obtain rfl := Option.some_inj.mp hj'
    exact ⟨⟨rfl, ht.line, ht.notMem⟩, rfl, rfl, hdirect⟩
  said := ⟨[], (List.append_nil _).symm, (List.append_nil _).symm⟩
  buffered _ := Or.inl rfl

theorem speaks_getOutputHandler (hj : s.jobs[n]? = some j) (ht : Refines t j)
    (hdirect : j.bufferOutput = false → j.buffer = []) :
    Speaks s (.getOutputHandler n) n t j (some j) s.jobs where
  call := ⟨_, rfl⟩
  other _ _ := rfl
  self := hj
  follows j' hj' := by
    obtain rfl := Option.some_inj.mp hj'
    exact ⟨ht, rfl, rfl, hdirect⟩
  said := ⟨[], (List.append_nil _).symm, (List.append_nil _).symm⟩
  buffered _ := Or.inl rfl

theorem Refines.speaks (h : Refines t j) (hdirect : j.bufferOutput = false → j.buffer = [])
    (isError : Bool) (data : Bytes) :
    Follows (t.handleOutput isError data) j (j.handleOutput isError data).1 ∧
      (∃ messages, (t.handleOutput isError data).said = t.said ++ messages ∧
        (j.handleOutput isError data).2 ++ (j.handleOutput isError data).1.buffer =
          j.buffer ++ messages) ∧
      (j.bufferOutput = true → (j.handleOutput isError data).2 = []) := by
  obtain ⟨hrefines, htells⟩ := h.handleOutput isError data
  obtain ⟨hsent, hdirect', hnone⟩ := htells.sent hdirect
  refine ⟨⟨hrefines, htells.bufferOutput, htells.jobPrefix, hdirect'⟩, ⟨_, rfl, ?_⟩,
    fun hbuffer ↦ hnone (htells.bufferOutput.trans hbuffer)⟩
  rw [hsent, h.jobHeader]

theorem speaks_handleOutput (hn : n ≠ noJob) (hj : s.jobs[n]? = some j) (ht : Refines t j)
    (hdirect : j.bufferOutput = false → j.buffer = []) (isError : Bool) (data : Bytes) :
    Speaks s (.handleOutput n isError data) n t j (some (j.handleOutput isError data).1)
      (s.jobs.insert n (j.handleOutput isError data).1) := by
  obtain ⟨hfollows, ⟨messages, hsaid, hsent⟩, hnone⟩ := ht.speaks hdirect isError data
  have hwrites : s.writes (.handleOutput n isError data) =
      (j.handleOutput isError data).2.map ([·]) := by
    show (s.jobs[n]?).elim [] _ = _
    rw [hj, Option.elim_some]
  refine ⟨⟨j.handleOutputLocks n isError data, ?_⟩, fun m hm ↦ getElem?_insert_of_ne hm,
    TreeMap.getElem?_insert_self, fun j' hj' ↦ ?_, ⟨messages, hsaid, ?_⟩,
    fun hbuffer ↦ Or.inl ?_⟩
  · refine (if_neg hn).trans ?_
    rw [hj, Option.map_some]
  · exact Option.some_inj.mp hj' ▸ hfollows
  · rw [hwrites, flatten_map_singleton]
    exact hsent
  · rw [hwrites, hnone hbuffer]
    rfl

theorem speaks_log (hn : n ≠ noJob) (hj : s.jobs[n]? = some j) (ht : Refines t j)
    (hdirect : j.bufferOutput = false → j.buffer = []) (isError : Bool) (message : Bytes) :
    Speaks s (.log isError message n) n t j
      (some (j.handleMessage isError (message ++ [newline])).1)
      (s.jobs.insert n (j.handleMessage isError (message ++ [newline])).1) := by
  obtain ⟨htells, hlines⟩ := handleMessage_tells j isError (message ++ [newline])
  obtain ⟨hsent, hdirect', hnone⟩ := htells.sent hdirect
  have hwrites : s.writes (.log isError message n) =
      (j.handleMessage isError (message ++ [newline])).2.map ([·]) := by
    refine (if_neg hn).trans ?_
    rw [hj, Option.elim_some]
  refine ⟨⟨findJobLocks ++ j.handleMessageLocks n isError (message ++ [newline]), ?_⟩,
    fun m hm ↦ getElem?_insert_of_ne hm,
    TreeMap.getElem?_insert_self, fun j' hj' ↦ ?_, ⟨_, rfl, ?_⟩, fun hbuffer ↦ Or.inl ?_⟩
  · refine (if_neg hn).trans ?_
    rw [hj]
  · obtain rfl := Option.some_inj.mp hj'
    refine ⟨⟨?_, fun other ↦ (hlines other).trans (ht.line other), ht.notMem⟩,
      htells.bufferOutput, htells.jobPrefix, hdirect'⟩
    rw [htells.jobHeader, ht.jobHeader]
    rfl
  · rw [hwrites, flatten_map_singleton, ← ht.jobHeader]
    exact hsent
  · rw [hwrites, hnone (htells.bufferOutput.trans hbuffer)]
    rfl

theorem flatten_ite_isEmpty {α : Type*} (l : List α) :
    (if l.isEmpty then [] else [l]).flatten = l := by
  cases l with
  | nil => rfl
  | cons a l => rw [if_neg (by simp), List.flatten_singleton]

/-- Both lines that are begun are completed, and what has been kept comes out in one piece. -/
theorem speaks_closeJob (hn : n ≠ noJob) (hj : s.jobs[n]? = some j) (ht : Refines t j)
    (hdirect : j.bufferOutput = false → j.buffer = []) :
    Speaks s (.closeJob n) n t j none (s.jobs.erase n) := by
  obtain ⟨houtput, ⟨messages, hsaid, hsent⟩, hnone⟩ := ht.speaks hdirect false []
  obtain ⟨herror, ⟨messages', hsaid', hsent'⟩, hnone'⟩ :=
    houtput.refines.speaks houtput.direct true []
  have hwrites : s.writes (.closeJob n) = ((j.handleOutput false []).2 ++
      ((j.handleOutput false []).1.handleOutput true []).2).map ([·]) ++
        if ((j.handleOutput false []).1.handleOutput true []).1.buffer.isEmpty then []
        else [((j.handleOutput false []).1.handleOutput true []).1.buffer] := by
    refine (if_neg hn).trans ?_
    rw [hj, Option.elim_some]
    rfl
  refine ⟨⟨Locks.locked .jobdata ((s.jobs[n]?).elim [] (·.flushLocks n)), if_neg hn⟩,
    fun m hm ↦ ?_, TreeMap.getElem?_erase_self, fun j' hj' ↦ ?_, ⟨messages ++ messages', ?_, ?_⟩,
    fun hbuffer ↦ ?_⟩
  · rw [TreeMap.getElem?_erase, if_neg (fun heq ↦ hm (compare_eq_iff_eq.mp heq).symm)]
  · cases hj'
  · exact hsaid'.trans (by rw [hsaid, List.append_assoc])
  · have hnil : kept none = [] := rfl
    rw [hwrites, List.flatten_append, flatten_map_singleton, flatten_ite_isEmpty, hnil,
      List.append_nil, List.append_assoc, hsent', ← List.append_assoc, hsent, List.append_assoc]
  · rw [hwrites, hnone hbuffer, hnone' (houtput.bufferOutput.trans hbuffer)]
    by_cases hempty : ((j.handleOutput false []).1.handleOutput true []).1.buffer.isEmpty
    · rw [if_pos hempty]
      exact Or.inl rfl
    · rw [if_neg hempty]
      exact Or.inr ⟨rfl, _, rfl⟩

/-- Every call on a job that is open. -/
theorem exists_speaks {c : Call} (hc : c.job = n) (hn : n ≠ noJob) (hj : s.jobs[n]? = some j)
    (ht : Refines t j) (hdirect : j.bufferOutput = false → j.buffer = []) :
    ∃ after jobs, Speaks s c n t j after jobs := by
  subst hc
  cases c with
  | requestJobHandle bufferOutput jobPrefix => exact absurd rfl hn
  | setJobHeader job header => exact ⟨_, _, speaks_setJobHeader hn hj ht hdirect header⟩
  | getOutputHandler job => exact ⟨_, _, speaks_getOutputHandler hj ht hdirect⟩
  | handleOutput job isError data => exact ⟨_, _, speaks_handleOutput hn hj ht hdirect isError data⟩
  | log isError message job => exact ⟨_, _, speaks_log hn hj ht hdirect isError message⟩
  | closeJob job => exact ⟨_, _, speaks_closeJob hn hj ht hdirect⟩

end Calls

/-! ### One action -/

/-- What a buffered job has said is in the queue in one piece, or not at all. -/
structure Whole (s : LoggerQueue) (n : ℕ) : Prop where
  together : Together n s.speakers
  silent : n ∈ s.jobs.jobs → n ∉ s.speakers
  pending : s.pending n = [] ∨ n ∉ s.jobs.jobs ∧ n ∉ s.speakers ∧ ∃ block, s.pending n = [block]

/-- What the logger has after some actions. -/
structure Told (actions : List QueueAction) (s : LoggerQueue) : Prop where
  nextJob : s.jobs.nextJob = (requests actions).length + 1
  opened : ∀ (n : ℕ) (j : JobData), s.jobs.jobs[n]? = some j → n ≠ noJob ∧ n < s.jobs.nextJob ∧
    opening n actions = some (j.bufferOutput, j.jobPrefix) ∧ Refines (talk n actions) j ∧
      (j.bufferOutput = false → j.buffer = [])
  unopened : ∀ n, s.jobs.nextJob ≤ n → callsOf n actions = [] ∧ s.pending n = []
  said : ∀ n, n ≠ noJob →
    s.heard n ++ (s.pending n).flatten ++ kept s.jobs.jobs[n]? = (talk n actions).said
  logged : s.heard noJob ++ (s.pending noJob).flatten = noJobMessages actions
  whole : ∀ (n : ℕ) (p : Bytes), opening n actions = some (true, p) → Whole s n

theorem callsOf_append (n : ℕ) (actions : List QueueAction) (a : QueueAction) :
    callsOf n (actions ++ [a]) = callsOf n actions ++ callsOf n [a] := List.filterMap_append

theorem noJobMessages_append (actions : List QueueAction) (a : QueueAction) :
    noJobMessages (actions ++ [a]) = noJobMessages actions ++ noJobMessages [a] :=
  List.filterMap_append

/-- A call without a job writes what is logged, and a call on a job logs nothing without one. -/
theorem noJobMessages_call {s : Jobs} (hnone : s.jobs[noJob]? = none) (c : Call) :
    noJobMessages [.call c] = if c.job = noJob then (s.writes c).flatten else [] := by
  cases c with
  | requestJobHandle bufferOutput jobPrefix => rfl
  | setJobHeader job header => exact (ite_self _).symm
  | getOutputHandler job => exact (ite_self _).symm
  | handleOutput job isError data =>
    by_cases hjob : job = noJob
    · subst hjob
      show [] = (((s.jobs[noJob]?).elim [] _ : List (List Message))).flatten
      rw [hnone]
      rfl
    · exact (if_neg hjob).symm
  | log isError message job =>
    by_cases hjob : job = noJob
    · simp [noJobMessages, Jobs.writes, Call.job, hjob]
    · simp [noJobMessages, Call.job, hjob]
  | closeJob job =>
    by_cases hjob : job = noJob
    · simp [noJobMessages, Jobs.writes, Call.job, hjob]
    · simp [noJobMessages, Call.job, hjob]

theorem requests_append (actions : List QueueAction) (a : QueueAction) :
    requests (actions ++ [a]) = requests actions ++ requests [a] := List.filterMap_append

theorem talk_append (n : ℕ) (actions : List QueueAction) (a : QueueAction) :
    talk n (actions ++ [a]) = (callsOf n [a]).foldl Talk.call (talk n actions) := by
  unfold talk
  rw [callsOf_append, List.foldl_append]

theorem opening_of_requests {actions actions' : List QueueAction}
    (h : requests actions' = requests actions) (n : ℕ) :
    opening n actions' = opening n actions := by
  unfold opening
  rw [h]

section Steps

variable {actions : List QueueAction} {s s' : LoggerQueue}

theorem ne_noJob_of_opening {n : ℕ} {x : Bool × Bytes} (h : opening n actions = some x) :
    n ≠ noJob := by
  rintro rfl
  cases h

theorem Told.getElem?_noJob (h : Told actions s) : s.jobs.jobs[noJob]? = none := by
  by_contra hopen
  obtain ⟨j, hj⟩ := Option.ne_none_iff_exists'.mp hopen
  exact (h.opened noJob j hj).1 rfl

/-- An action that uses no job changes neither the jobs nor what they say. -/
theorem Told.of_eq (h : Told actions s) {a : QueueAction}
    (hcalls : ∀ n, n ≠ noJob → callsOf n [a] = []) (hrequests : requests [a] = [])
    (hjobs : s'.jobs = s.jobs) (hpending : ∀ n, n ≠ noJob → s.pending n = [] → s'.pending n = [])
    (hsaid : ∀ n, n ≠ noJob →
      s'.heard n ++ (s'.pending n).flatten = s.heard n ++ (s.pending n).flatten)
    (hnoJob : s'.heard noJob ++ (s'.pending noJob).flatten =
      s.heard noJob ++ (s.pending noJob).flatten ++ noJobMessages [a])
    (hwhole : ∀ n, n ≠ noJob → Whole s n → Whole s' n) : Told (actions ++ [a]) s' := by
  have hsame : requests (actions ++ [a]) = requests actions := by
    rw [requests_append, hrequests, List.append_nil]
  have htalk : ∀ n, n ≠ noJob → talk n (actions ++ [a]) = talk n actions := fun n hn ↦ by
    rw [talk_append, hcalls n hn, List.foldl_nil]
  refine ⟨?_, fun n j hj ↦ ?_, fun n hn ↦ ?_, fun n hn ↦ ?_, ?_, fun n p hp ↦ ?_⟩
  · rw [hsame, hjobs, h.nextJob]
  · have hopened := h.opened n j (hjobs ▸ hj)
    rw [opening_of_requests hsame, htalk n hopened.1, hjobs]
    exact hopened
  · rw [hjobs] at hn
    have hne : n ≠ noJob := by
      rw [h.nextJob] at hn
      exact Nat.ne_of_gt (Nat.lt_of_lt_of_le (Nat.succ_pos _) hn)
    obtain ⟨hnone, hempty⟩ := h.unopened n hn
    rw [callsOf_append, hcalls n hne, hnone]
    exact ⟨rfl, hpending n hne hempty⟩
  · rw [hsaid n hn, hjobs, htalk n hn]
    exact h.said n hn
  · rw [hnoJob, h.logged, noJobMessages_append]
  · rw [opening_of_requests hsame] at hp
    exact hwhole n (ne_noJob_of_opening hp) (h.whole n p hp)

theorem Told.display {msg : Queued} {queue : List Queued} (h : Told actions s)
    (hqueue : s.queue = msg :: queue) :
    Told (actions ++ [.display]) { s with queue, output := s.output ++ [s.display msg] } := by
  have hspeakers : LoggerQueue.speakers { s with queue, output := s.output ++ [s.display msg] } =
      s.speakers := by
    unfold LoggerQueue.speakers
    rw [hqueue, List.map_append, List.append_assoc]
    rfl
  have hheard : ∀ n, LoggerQueue.heard { s with queue, output := s.output ++ [s.display msg] } n =
      s.heard n := fun n ↦ by
    unfold LoggerQueue.heard
    have hjob : (s.display msg).job = msg.job := rfl
    have hmessage : (s.display msg).message = msg.message := rfl
    rw [hqueue, List.filter_append, List.filter_cons, List.filter_cons, hjob]
    by_cases hn : msg.job = n
    · simp [hn, hmessage]
    · simp [hn]
  refine h.of_eq (fun _ _ ↦ rfl) rfl rfl (fun _ _ ↦ id) (fun n _ ↦ congrArg (· ++ _) (hheard n))
    ((congrArg (· ++ _) (hheard noJob)).trans (List.append_nil _).symm) fun n _ hn ↦ ?_
  · exact ⟨hspeakers ▸ hn.together, hspeakers ▸ hn.silent, hspeakers ▸ hn.pending⟩

/-- What goes into the queue with one lock. -/
theorem heard_writeToLogger (s : LoggerQueue) (messages : List Message) (n other : ℕ) :
    (s.writeToLogger messages n).heard other =
      s.heard other ++ if other = n then messages else [] := by
  unfold LoggerQueue.heard LoggerQueue.writeToLogger
  rw [List.filter_append, List.map_append, List.append_assoc]
  congr 2
  split_ifs with hother
  · subst hother
    induction messages with
    | nil => rfl
    | cons msg messages ih => simpa using ih
  · induction messages with
    | nil => rfl
    | cons msg messages ih => simpa [Ne.symm hother] using ih

theorem speakers_writeToLogger (s : LoggerQueue) (messages : List Message) (n : ℕ) :
    (s.writeToLogger messages n).speakers =
      s.speakers ++ List.replicate messages.length n := by
  unfold LoggerQueue.speakers LoggerQueue.writeToLogger
  rw [List.map_append, List.append_assoc, List.map_map]
  congr 2
  induction messages with
  | nil => rfl
  | cons msg messages ih => exact congrArg (n :: ·) ih

theorem Told.write {n : ℕ} {messages : List Message} {rest : List (List Message)}
    (h : Told actions s) (hpending : s.pending n = messages :: rest) :
    Told (actions ++ [.write n])
      ({ s with pending := Function.update s.pending n rest }.writeToLogger messages n) := by
  have hsame : ∀ m, LoggerQueue.heard
      ({ s with pending := Function.update s.pending n rest }.writeToLogger messages n) m ++
        (Function.update s.pending n rest m).flatten = s.heard m ++ (s.pending m).flatten :=
    fun m ↦ by
    rw [heard_writeToLogger]
    show s.heard m ++ _ ++ _ = _
    rw [Function.update_apply, List.append_assoc]
    split_ifs with hmn
    · rw [hmn, hpending, List.flatten_cons]
    · rw [List.nil_append]
  refine h.of_eq (fun _ _ ↦ rfl) rfl rfl (fun m _ hm ↦ ?_) (fun m _ ↦ hsame m)
    ((hsame noJob).trans (List.append_nil _).symm) fun m _ hm ↦ ?_
  · show Function.update s.pending n rest m = []
    rw [Function.update_apply, if_neg, hm]
    rintro rfl
    rw [hpending] at hm
    cases hm
  · have hspeakers := speakers_writeToLogger
      { s with pending := Function.update s.pending n rest } messages n
    have hbefore : LoggerQueue.speakers { s with pending := Function.update s.pending n rest } =
        s.speakers := rfl
    rw [hbefore] at hspeakers
    by_cases hmn : m = n
    · subst hmn
      rcases hm.pending with hnone | ⟨hclosed, hsilent, block, hblock⟩
      · rw [hpending] at hnone
        cases hnone
      · obtain ⟨-, rfl⟩ := List.cons.inj (hpending.symm.trans hblock)
        refine ⟨?_, fun hopen ↦ absurd hopen hclosed, Or.inl (Function.update_self ..)⟩
        rw [hspeakers]
        exact together_append_replicate hsilent _
    · have hother : m ∉ List.replicate messages.length n := fun hmem ↦
        hmn (List.eq_of_mem_replicate hmem)
      refine ⟨?_, fun hopen ↦ ?_, ?_⟩
      · rw [hspeakers]
        exact hm.together.append hother
      · rw [hspeakers, List.mem_append]
        exact not_or.mpr ⟨hm.silent hopen, hother⟩
      · show Function.update s.pending n rest m = [] ∨ _ ∧ _ ∧
          ∃ block, Function.update s.pending n rest m = [block]
        rw [Function.update_of_ne hmn, hspeakers, List.mem_append]
        rcases hm.pending with hnone | ⟨hclosed, hsilent, hblock⟩
        · exact Or.inl hnone
        · exact Or.inr ⟨hclosed, not_or.mpr ⟨hsilent, hother⟩, hblock⟩

theorem notMem_speakers_iff (s : LoggerQueue) (n : ℕ) : n ∉ s.speakers ↔ s.heard n = [] := by
  unfold LoggerQueue.speakers LoggerQueue.heard
  rw [List.append_eq_nil_iff, List.map_eq_nil_iff, List.map_eq_nil_iff, List.filter_eq_nil_iff,
    List.filter_eq_nil_iff, List.mem_append, not_or, List.mem_map, List.mem_map]
  simp

theorem opening_append {n : ℕ} {x : Bool × Bytes} (h : opening n actions = some x)
    (a : QueueAction) : opening n (actions ++ [a]) = some x := by
  have hne := ne_noJob_of_opening h
  unfold opening at h ⊢
  rw [if_neg hne] at h ⊢
  obtain ⟨hlt, -⟩ := List.getElem?_eq_some_iff.mp h
  rw [requests_append, List.getElem?_append_left hlt, h]

/-- A request opens the next job, and no other one. -/
theorem opening_request {n : ℕ} {x : Bool × Bytes} (bufferOutput : Bool) (jobPrefix : Bytes)
    (h : opening n (actions ++ [.call (.requestJobHandle bufferOutput jobPrefix)]) = some x) :
    opening n actions = some x ∨
      n = (requests actions).length + 1 ∧ x = (bufferOutput, jobPrefix) := by
  have hne := ne_noJob_of_opening h
  unfold opening at h ⊢
  rw [if_neg hne] at h ⊢
  have hrequest : requests [.call (.requestJobHandle bufferOutput jobPrefix)] =
      [(bufferOutput, jobPrefix)] := rfl
  rw [requests_append, hrequest] at h
  by_cases hlt : n - 1 < (requests actions).length
  · rw [List.getElem?_append_left hlt] at h
    exact Or.inl h
  · rw [List.getElem?_append_right (Nat.le_of_not_lt hlt), List.getElem?_singleton] at h
    split_ifs at h with hlast
    have hpos := Nat.pos_of_ne_zero hne
    exact Or.inr ⟨by omega, (Option.some_inj.mp h).symm⟩

theorem Told.request (h : Told actions s) (bufferOutput : Bool) (jobPrefix : Bytes) :
    Told (actions ++ [.call (.requestJobHandle bufferOutput jobPrefix)])
      { s with jobs := ⟨s.jobs.nextJob + 1,
          s.jobs.jobs.insert s.jobs.nextJob (.new s.jobs.nextJob bufferOutput jobPrefix)⟩ } := by
  set a : QueueAction := .call (.requestJobHandle bufferOutput jobPrefix) with ha
  have hcalls : ∀ n, n ≠ noJob → callsOf n (actions ++ [a]) = callsOf n actions := fun n hn ↦ by
    have hnone : callsOf n [a] = [] := by simp [callsOf, ha, Call.job, Ne.symm hn]
    rw [callsOf_append, hnone, List.append_nil]
  have htalk : ∀ n, n ≠ noJob → talk n (actions ++ [a]) = talk n actions := fun n hn ↦ by
    unfold talk
    rw [hcalls n hn]
  have hnext : s.jobs.nextJob ≠ noJob := by
    rw [h.nextJob]
    exact Nat.succ_ne_zero _
  obtain ⟨hnone, hidle⟩ := h.unopened s.jobs.nextJob le_rfl
  have hsilent : talk s.jobs.nextJob actions = .new := by
    unfold talk
    rw [hnone, List.foldl_nil]
  have hnotLogged : noJobMessages [a] = [] := rfl
  have habsent : s.jobs.jobs[s.jobs.nextJob]? = none := by
    by_contra hopen
    obtain ⟨j, hj⟩ := Option.ne_none_iff_exists'.mp hopen
    exact absurd (h.opened _ j hj).2.1 (lt_irrefl _)
  have hunheard : s.heard s.jobs.nextJob = [] := by
    have hsaid := h.said _ hnext
    rw [hsilent, List.append_assoc] at hsaid
    exact (List.append_eq_nil_iff.mp hsaid).1
  refine ⟨?_, fun n j hj ↦ ?_, fun n hn ↦ ?_, fun n hn ↦ ?_, ?_, fun n p hp ↦ ?_⟩
  · have hrequest : requests [a] = [(bufferOutput, jobPrefix)] := rfl
    rw [requests_append, hrequest, List.length_append, ← Nat.succ_eq_add_one, h.nextJob]
    rfl
  · by_cases hn : n = s.jobs.nextJob
    · subst hn
      obtain rfl := Option.some_inj.mp (TreeMap.getElem?_insert_self.symm.trans hj)
      refine ⟨hnext, Nat.lt_succ_self _, ?_, ?_, fun _ ↦ rfl⟩
      · unfold opening
        have hrequest : requests [a] = [(bufferOutput, jobPrefix)] := rfl
        rw [if_neg hnext, requests_append, hrequest, h.nextJob, Nat.add_sub_cancel,
          List.getElem?_append_right le_rfl, Nat.sub_self]
        rfl
      · rw [htalk _ hnext, hsilent]
        exact ⟨rfl, fun isError ↦ by cases isError <;> rfl, fun _ ↦ List.not_mem_nil⟩
    · have hopen : s.jobs.jobs[n]? = some j := (getElem?_insert_of_ne hn).symm.trans hj
      obtain ⟨hne, hlt, hopening, hrefines, hdirect⟩ := h.opened n j hopen
      rw [htalk n hne]
      exact ⟨hne, Nat.lt_succ_of_lt hlt, opening_append hopening a, hrefines, hdirect⟩
  · have hle : s.jobs.nextJob ≤ n := Nat.le_of_succ_le hn
    have hne : n ≠ noJob := Nat.ne_of_gt (Nat.lt_of_lt_of_le (Nat.pos_of_ne_zero hnext) hle)
    rw [hcalls n hne]
    exact h.unopened n hle
  · have hkept : kept (s.jobs.jobs.insert s.jobs.nextJob
        (.new s.jobs.nextJob bufferOutput jobPrefix))[n]? = kept s.jobs.jobs[n]? := by
      by_cases hsame : n = s.jobs.nextJob
      · rw [hsame, TreeMap.getElem?_insert_self, habsent]
        rfl
      · rw [getElem?_insert_of_ne hsame]
    rw [htalk n hn, ← h.said n hn, ← hkept]
    rfl
  · rw [noJobMessages_append, hnotLogged, List.append_nil]
    exact h.logged
  · rcases opening_request bufferOutput jobPrefix hp with hopening | ⟨hn, -⟩
    · have hwhole := h.whole n p hopening
      have hsame : n ≠ s.jobs.nextJob := by
        unfold opening at hopening
        rw [if_neg (ne_noJob_of_opening hp)] at hopening
        obtain ⟨hlt, -⟩ := List.getElem?_eq_some_iff.mp hopening
        have hnextJob := h.nextJob
        omega
      have hmem : n ∈ s.jobs.jobs.insert s.jobs.nextJob
          (.new s.jobs.nextJob bufferOutput jobPrefix) ↔ n ∈ s.jobs.jobs := by
        rw [TreeMap.mem_insert, compare_eq_iff_eq]
        exact or_iff_right (Ne.symm hsame)
      refine ⟨hwhole.together, fun hopen ↦ hwhole.silent (hmem.mp hopen), ?_⟩
      exact hwhole.pending.imp_right fun hblock ↦ ⟨mt hmem.mp hblock.1, hblock.2⟩
    · rw [← h.nextJob] at hn
      subst hn
      have hnotMem := (notMem_speakers_iff s s.jobs.nextJob).mpr hunheard
      exact ⟨together_of_notMem hnotMem, fun _ ↦ hnotMem, Or.inl hidle⟩

/-- Another call without a job, such as a message of the logger itself. -/
theorem Told.call_noJob (h : Told actions s) {c : Call} (hc : c.job = noJob)
    (hrequests : requests [.call c] = []) :
    Told (actions ++ [.call c])
      { s with
        pending := Function.update s.pending c.job (s.pending c.job ++ s.jobs.writes c) } := by
  set pending := Function.update s.pending c.job (s.pending c.job ++ s.jobs.writes c) with hnew
  have hpending : ∀ n, n ≠ noJob → pending n = s.pending n :=
    fun n hn ↦ Function.update_of_ne (hc ▸ hn) ..
  have hlogged : pending noJob = s.pending noJob ++ s.jobs.writes c := by
    rw [hnew, hc, Function.update_self]
  refine h.of_eq (fun n hn ↦ ?_) hrequests rfl (fun n hn hnone ↦ (hpending n hn).trans hnone)
    (fun n hn ↦ ?_) ?_ fun n hn hw ↦ ⟨hw.together, hw.silent, ?_⟩
  · simp [callsOf, hc, Ne.symm hn]
  · exact congrArg (s.heard n ++ ·.flatten) (hpending n hn)
  · rw [noJobMessages_call h.getElem?_noJob, if_pos hc, List.append_assoc, ← List.flatten_append,
      ← hlogged]
    rfl
  · show pending n = [] ∨ _ ∧ _ ∧ ∃ block, pending n = [block]
    rw [hpending n hn]
    exact hw.pending

/-- A call on a job that is open, which has written all of the call before. -/
theorem Told.call (h : Told actions s) {c : Call} (hn : c.job ≠ noJob) {j : JobData}
    {after : Option JobData} {jobs : TreeMap ℕ JobData} (hj : s.jobs.jobs[c.job]? = some j)
    (hpending : s.pending c.job = [])
    (hspeaks : Speaks s.jobs c c.job (talk c.job actions) j after jobs) :
    Told (actions ++ [.call c])
      { s with
        jobs := ⟨s.jobs.nextJob, jobs⟩
        pending := Function.update s.pending c.job (s.jobs.writes c) } := by
  have hrequest : requests [.call c] = [] := by
    cases c with
    | requestJobHandle bufferOutput jobPrefix => exact absurd rfl hn
    | _ => rfl
  have hsame : requests (actions ++ [.call c]) = requests actions := by
    rw [requests_append, hrequest, List.append_nil]
  have htalk : talk c.job (actions ++ [.call c]) = (talk c.job actions).call c := by
    rw [talk_append]
    simp [callsOf]
  have hothers : ∀ n, n ≠ c.job → callsOf n (actions ++ [.call c]) = callsOf n actions :=
    fun n hne ↦ by
      rw [callsOf_append]
      simp [callsOf, Ne.symm hne]
  obtain ⟨-, hlt, hopening, -, -⟩ := h.opened _ j hj
  refine ⟨?_, fun n j' hj' ↦ ?_, fun n hle ↦ ?_, fun n hne ↦ ?_, ?_, fun n p hp ↦ ?_⟩
  · rw [hsame]
    exact h.nextJob
  · by_cases hnc : n = c.job
    · subst hnc
      have hfollows := hspeaks.follows j' (hspeaks.self.symm.trans hj')
      refine ⟨hn, hlt, ?_, htalk ▸ hfollows.refines, hfollows.direct⟩
      rw [opening_of_requests hsame, hopening, hfollows.bufferOutput, hfollows.jobPrefix]
    · have hopened := h.opened n j' ((hspeaks.other n hnc).symm.trans hj')
      unfold talk
      rw [opening_of_requests hsame, hothers n hnc]
      exact hopened
  · have hnc : n ≠ c.job := Nat.ne_of_gt (Nat.lt_of_lt_of_le hlt hle)
    rw [hothers n hnc]
    exact ⟨(h.unopened n hle).1, (Function.update_of_ne hnc ..).trans (h.unopened n hle).2⟩
  · have hsaid := h.said n hne
    show s.heard n ++ (Function.update s.pending c.job (s.jobs.writes c) n).flatten ++
      kept jobs[n]? = _
    by_cases hnc : n = c.job
    · subst hnc
      obtain ⟨messages, hadded, hsent⟩ := hspeaks.said
      rw [hj, hpending, List.flatten_nil, List.append_nil] at hsaid
      rw [Function.update_self, hspeaks.self, List.append_assoc, hsent, htalk, hadded, ← hsaid,
        List.append_assoc]
      rfl
    · unfold talk
      rw [Function.update_of_ne hnc, hspeaks.other n hnc, hothers n hnc]
      exact hsaid
  · have hsilent := noJobMessages_call h.getElem?_noJob c
    rw [if_neg hn] at hsilent
    rw [noJobMessages_append, hsilent, List.append_nil, ← h.logged]
    show s.heard noJob ++ (Function.update s.pending c.job (s.jobs.writes c) noJob).flatten = _
    rw [Function.update_of_ne (Ne.symm hn)]
  · rw [opening_of_requests hsame] at hp
    have hwhole := h.whole n p hp
    by_cases hnc : n = c.job
    · subst hnc
      have hopen : c.job ∈ s.jobs.jobs := TreeMap.isSome_getElem?_iff_mem.mp (by rw [hj]; rfl)
      have hbuffered : j.bufferOutput = true :=
        congrArg Prod.fst (Option.some_inj.mp (hopening.symm.trans hp))
      refine ⟨hwhole.together, fun _ ↦ hwhole.silent hopen, ?_⟩
      show Function.update s.pending c.job (s.jobs.writes c) c.job = [] ∨ c.job ∉ jobs ∧ _ ∧
        ∃ block, Function.update s.pending c.job (s.jobs.writes c) c.job = [block]
      rw [Function.update_self]
      refine (hspeaks.buffered hbuffered).imp_right fun hclosed ↦
        ⟨fun hmem ↦ ?_, hwhole.silent hopen, hclosed.2⟩
      have hsome := TreeMap.isSome_getElem?_iff_mem.mpr hmem
      rw [hspeaks.self, hclosed.1] at hsome
      cases hsome
    · have hmem : n ∈ jobs ↔ n ∈ s.jobs.jobs := by
        rw [← TreeMap.isSome_getElem?_iff_mem, ← TreeMap.isSome_getElem?_iff_mem,
          hspeaks.other n hnc]
      refine ⟨hwhole.together, fun hopen ↦ hwhole.silent (hmem.mp hopen), ?_⟩
      show Function.update s.pending c.job (s.jobs.writes c) n = [] ∨ n ∉ jobs ∧ _ ∧
        ∃ block, Function.update s.pending c.job (s.jobs.writes c) n = [block]
      rw [Function.update_of_ne hnc, hmem]
      exact hwhole.pending

/-! ### Runs -/

/-- What an action does. -/
inductive Acted (s : LoggerQueue) : QueueAction → LoggerQueue → Prop
  | request (bufferOutput : Bool) (jobPrefix : Bytes) :
    Acted s (.call (.requestJobHandle bufferOutput jobPrefix))
      { s with jobs := ⟨s.jobs.nextJob + 1,
          s.jobs.jobs.insert s.jobs.nextJob (.new s.jobs.nextJob bufferOutput jobPrefix)⟩ }
  | noJob (c : Call) (hc : c.job = noJob) (hrequest : requests [.call c] = []) :
    Acted s (.call c)
      { s with
        pending := Function.update s.pending c.job (s.pending c.job ++ s.jobs.writes c) }
  | call (c : Call) (jobs : Jobs) (code : Code) (j : JobData) (hc : c.job ≠ noJob)
      (hj : s.jobs.jobs[c.job]? = some j) (hpending : s.pending c.job = [])
      (hcall : s.jobs.call c = some (jobs, code)) :
    Acted s (.call c)
      { s with jobs, pending := Function.update s.pending c.job (s.jobs.writes c) }
  | write (n : ℕ) (messages : List Message) (rest : List (List Message))
      (hpending : s.pending n = messages :: rest) :
    Acted s (.write n)
      ({ s with pending := Function.update s.pending n rest }.writeToLogger messages n)
  | display (msg : Queued) (queue : List Queued) (hqueue : s.queue = msg :: queue) :
    Acted s .display { s with queue, output := s.output ++ [s.display msg] }

theorem acted_of_act {a : QueueAction} (h : s.act a = some s') : Acted s a s' := by
  cases a with
  | call c =>
    unfold LoggerQueue.act at h
    dsimp only at h
    split_ifs at h with hblocked
    obtain ⟨⟨jobs, code⟩, hcall, rfl⟩ := Option.map_eq_some_iff.mp h
    by_cases hc : c.job = noJob
    · cases c with
      | requestJobHandle bufferOutput jobPrefix =>
        obtain ⟨rfl, -⟩ := Prod.ext_iff.mp (Option.some_inj.mp hcall)
        have hsame : Function.update s.pending (Call.requestJobHandle bufferOutput jobPrefix).job
            (s.pending (Call.requestJobHandle bufferOutput jobPrefix).job ++
              s.jobs.writes (.requestJobHandle bufferOutput jobPrefix)) = s.pending := by
          rw [show s.jobs.writes (.requestJobHandle bufferOutput jobPrefix) = [] from rfl,
            List.append_nil, Function.update_eq_self]
        rw [hsame]
        exact .request bufferOutput jobPrefix
      | setJobHeader job header =>
        obtain ⟨rfl, -⟩ := Prod.ext_iff.mp (Option.some_inj.mp ((if_pos hc).symm.trans hcall))
        exact .noJob _ hc rfl
      | getOutputHandler job =>
        obtain ⟨rfl, -⟩ := Prod.ext_iff.mp (Option.some_inj.mp hcall)
        exact .noJob _ hc rfl
      | handleOutput job isError data =>
        cases (if_pos hc).symm.trans hcall
      | log isError message job =>
        obtain ⟨rfl, -⟩ := Prod.ext_iff.mp (Option.some_inj.mp ((if_pos hc).symm.trans hcall))
        exact .noJob _ hc rfl
      | closeJob job =>
        obtain ⟨rfl, -⟩ := Prod.ext_iff.mp (Option.some_inj.mp ((if_pos hc).symm.trans hcall))
        exact .noJob _ hc rfl
    · obtain ⟨hopen, hpending⟩ := not_or.mp (not_and.mp hblocked hc)
      have hpending := not_not.mp hpending
      obtain ⟨j, hj⟩ := Option.isSome_iff_exists.mp
        (TreeMap.isSome_getElem?_iff_mem.mpr (not_not.mp hopen))
      rw [hpending, List.nil_append]
      exact .call c jobs code j hc hj hpending hcall
  | write n =>
    unfold LoggerQueue.act at h
    dsimp only at h
    cases hpending : s.pending n with
    | nil =>
      rw [hpending] at h
      cases h
    | cons messages rest =>
      rw [hpending] at h
      obtain rfl := Option.some_inj.mp h
      exact .write n messages rest hpending
  | display =>
    unfold LoggerQueue.act at h
    dsimp only at h
    cases hqueue : s.queue with
    | nil =>
      rw [hqueue] at h
      cases h
    | cons msg queue =>
      rw [hqueue] at h
      obtain rfl := Option.some_inj.mp h
      exact .display msg queue hqueue

theorem told_new (outputPrefix errorPrefix : Bytes) :
    Told [] (.new outputPrefix errorPrefix) := by
  refine ⟨rfl, fun n j hj ↦ ?_, fun _ _ ↦ ⟨rfl, rfl⟩, fun n _ ↦ ?_, rfl, fun n p hp ↦ ?_⟩
  · have hnone : (∅ : TreeMap ℕ JobData)[n]? = none := TreeMap.getElem?_emptyc
    cases hnone.symm.trans hj
  · have hnone : (∅ : TreeMap ℕ JobData)[n]? = none := TreeMap.getElem?_emptyc
    show kept (∅ : TreeMap ℕ JobData)[n]? = []
    rw [hnone]
    rfl
  · unfold opening at hp
    split_ifs at hp
    cases hp

theorem Told.act (h : Told actions s) {a : QueueAction} (hact : s.act a = some s') :
    Told (actions ++ [a]) s' := by
  cases acted_of_act hact with
  | request bufferOutput jobPrefix => exact h.request bufferOutput jobPrefix
  | noJob c hc hrequest => exact h.call_noJob hc hrequest
  | call c jobs code j hc hj hpending hcall =>
    obtain ⟨-, -, -, hrefines, hdirect⟩ := h.opened _ j hj
    obtain ⟨after, jobs', hspeaks⟩ := exists_speaks rfl hc hj hrefines hdirect
    obtain ⟨code', hcode⟩ := hspeaks.call
    obtain ⟨rfl, -⟩ := Prod.ext_iff.mp (Option.some_inj.mp (hcall.symm.trans hcode))
    exact h.call hc hj hpending hspeaks
  | write n messages rest hpending => exact h.write hpending
  | display msg queue hqueue => exact h.display hqueue

theorem told_of_run {outputPrefix errorPrefix : Bytes} {actions : List QueueAction}
    (hrun : (LoggerQueue.new outputPrefix errorPrefix).run actions = some s) : Told actions s := by
  induction actions using List.reverseRecOn generalizing s with
  | nil =>
    obtain rfl := Option.some_inj.mp hrun
    exact told_new outputPrefix errorPrefix
  | append_singleton actions a ih =>
    unfold LoggerQueue.run at hrun
    rw [List.foldlM_append] at hrun
    obtain ⟨s₁, hs₁, hact⟩ := Option.bind_eq_some_iff.mp hrun
    rw [List.foldlM_cons] at hact
    obtain ⟨s₂, hs₂, hlast⟩ := Option.bind_eq_some_iff.mp hact
    obtain rfl := Option.some_inj.mp hlast
    exact (ih hs₁).act hs₂

end Steps

end Abuild.Logger
