import Abuild.JavaBuilder.Decode
import Abuild.Library.Guarded

/-!
The connection to the Java side. The Java side sends messages for the requests that it has
got, and its bytes arrive in order in reads of any length; requests may be made at any
time. When the Java side exits it is started again for a later request, with a new
connection. A connection that is opened with nothing in the accumulated response dispatches
what was sent, in order, whatever the reads (`dispatches_of_run`).
-/

set_option autoImplicit false
set_option relaxedAutoImplicit false

namespace Abuild

open Std (TreeSet)

/-- A message as the Java side has sent it. -/
structure SentMessage where
  message : Message
  headerEnd : LineEnd
  lineEnd : LineEnd

namespace SentMessage

def bytes (s : SentMessage) : Bytes := s.message.send s.headerEnd s.lineEnd

def dispatch (s : SentMessage) : Dispatch := s.message.dispatch

end SentMessage

/-- A builder with a connection. The bytes that were sent are those that were received and
those that are on the wire. -/
structure Connection where
  builder : JavaBuilder
  /-- The requests that the Java side has got and not responded to. -/
  outstanding : TreeSet ℕ
  sent : List SentMessage
  received : Bytes
  wire : Bytes
  /-- What had been dispatched when the connection was opened. -/
  opened : List Dispatch

inductive ConnectionEvent
  | makeRequest
  | send (s : SentMessage)
  | read (length : ℕ)
  /-- The Java side exits, and is started again for a later request. -/
  | restart

namespace Connection

open JavaBuilder Framing Guarded

/-- Whether the Java side may send a message. -/
def maySend (outstanding : TreeSet ℕ) : Message → Bool
  | .response number _ => outstanding.contains number
  | .output number _ _ _ => number.val = 0 || outstanding.contains number

/-- The requests that have no response yet. -/
def outstandingAfter (outstanding : TreeSet ℕ) : Message → TreeSet ℕ
  | .response number _ => outstanding.erase number
  | .output _ _ _ _ => outstanding

def openWith (builder : JavaBuilder) : Connection where
  builder
  outstanding := builder.jobData
  sent := []
  received := []
  wire := []
  opened := builder.dispatched

/-- The connection that the first request leads to, before that request is registered. -/
def first : Connection := openWith ((JavaBuilder.new true).startUp.handleAccept)

/-- The builder after the end of a connection, the failure of its requests, the start for a
later request, its connection and the registration of the request. -/
def restartBuilder (b : JavaBuilder) : Option JavaBuilder :=
  (b.handleReadError true).endOfRun.startUp.handleAccept.registerRequest

def step (c : Connection) : ConnectionEvent → Option Connection
  | .makeRequest => do
    let builder ← c.builder.registerRequest
    some { c with builder, outstanding := c.outstanding.insert builder.lastRequest }
  | .send s =>
    if maySend c.outstanding s.message then
      some { c with
        outstanding := outstandingAfter c.outstanding s.message
        sent := c.sent ++ [s]
        wire := c.wire ++ s.bytes }
    else none
  | .read length =>
    if 0 < length ∧ length ≤ c.wire.length then do
      let builder ← c.builder.handleRead (c.wire.take length)
      some { c with
        builder
        received := c.received ++ c.wire.take length
        wire := c.wire.drop length }
    else none
  | .restart => (restartBuilder c.builder).map openWith

def run (c : Connection) (events : List ConnectionEvent) : Option Connection :=
  events.foldlM step c

theorem run_singleton (c : Connection) (event : ConnectionEvent) :
    run c [event] = step c event := by
  rw [run, Fallible.foldlM_cons]
  cases step c event <;> rfl

theorem run_append (c : Connection) (events events' : List ConnectionEvent) :
    run c (events ++ events') = (run c events).bind fun c' ↦ run c' events' :=
  List.foldlM_append

/-- No read is a protocol error, and what has been dispatched is what was sent, up to the
messages that have not arrived in full. -/
def Dispatches (c : Connection) : Prop :=
  (∀ data more, data ≠ [] → c.wire = data ++ more → (c.builder.handleRead data).isSome) ∧
    ∃ done rest, c.sent = done ++ rest ∧
      c.builder.dispatched = c.opened ++ done.map SentMessage.dispatch ∧ (c.wire = [] → rest = [])

/-! ### The requests that messages are for -/

/-- Whether a dispatch is for a request in a set, or for none. -/
def Expected (jobs : Set ℕ) : Dispatch → Prop
  | .respond requestNumber _ => requestNumber ∈ jobs
  | .handleOutput requestNumber _ _ => requestNumber ∈ jobs
  | .handleRogueOutput _ _ => True

def jobsAfter (jobs : Set ℕ) : Dispatch → Set ℕ
  | .respond requestNumber _ => jobs \ {requestNumber}
  | _ => jobs

/-- The dispatches are for requests in a set, each before its response, and leave another
set of requests without a response. -/
def Allowed : Set ℕ → List Dispatch → Set ℕ → Prop
  | jobs, [], remaining => jobs = remaining
  | jobs, d :: ds, remaining => Expected jobs d ∧ Allowed (jobsAfter jobs d) ds remaining

theorem allowed_append {jobs middle remaining : Set ℕ} {ds ds' : List Dispatch}
    (h : Allowed jobs ds middle) (h' : Allowed middle ds' remaining) :
    Allowed jobs (ds ++ ds') remaining := by
  induction ds generalizing jobs with
  | nil =>
    obtain rfl : jobs = middle := h
    exact h'
  | cons d ds ih => exact ⟨h.1, ih h.2⟩

theorem allowed_append_iff {jobs remaining : Set ℕ} {ds ds' : List Dispatch} :
    Allowed jobs (ds ++ ds') remaining ↔ ∃ middle, Allowed jobs ds middle ∧
      Allowed middle ds' remaining := by
  constructor
  · intro h
    induction ds generalizing jobs with
    | nil => exact ⟨jobs, rfl, h⟩
    | cons d ds ih =>
      obtain ⟨middle, hds, hds'⟩ := ih h.2
      exact ⟨middle, ⟨h.1, hds⟩, hds'⟩
  · rintro ⟨middle, hds, hds'⟩
    exact allowed_append hds hds'

/-- A new request is not one that the dispatches are for. -/
theorem Allowed.insert {jobs remaining : Set ℕ} {ds : List Dispatch}
    (h : Allowed jobs ds remaining) {n : ℕ} (hn : n ∉ jobs) :
    Allowed (insert n jobs) ds (insert n remaining) := by
  induction ds generalizing jobs with
  | nil =>
    obtain rfl : jobs = remaining := h
    rfl
  | cons d ds ih =>
    obtain ⟨hd, hds⟩ := h
    cases d with
    | respond m result =>
      have hne : n ≠ m := fun heq ↦ hn (heq ▸ hd)
      refine ⟨Set.mem_insert_of_mem n hd, ?_⟩
      have hafter : jobsAfter (Insert.insert n jobs) (.respond m result) =
          Insert.insert n (jobsAfter jobs (.respond m result)) := by
        show Insert.insert n jobs \ {m} = Insert.insert n (jobs \ {m})
        ext k
        simp only [Set.mem_sdiff, Set.mem_insert_iff, Set.mem_singleton_iff]
        constructor
        · rintro ⟨rfl | hk, hkm⟩
          · exact Or.inl rfl
          · exact Or.inr ⟨hk, hkm⟩
        · rintro (rfl | ⟨hk, hkm⟩)
          · exact ⟨Or.inl rfl, hne⟩
          · exact ⟨Or.inr hk, hkm⟩
      rw [hafter]
      exact ih hds fun hmem ↦ hn hmem.1
    | handleOutput m isError message => exact ⟨Set.mem_insert_of_mem n hd, ih hds hn⟩
    | handleRogueOutput isError message => exact ⟨trivial, ih hds hn⟩

def jobs (jobData : TreeSet ℕ) : Set ℕ := {n | n ∈ jobData}

theorem isExpected_iff {jobData : TreeSet ℕ} {d : Dispatch} :
    isExpected jobData d = true ↔ Expected (jobs jobData) d := by
  cases d with
  | respond n result => exact TreeSet.mem_iff_contains.symm
  | handleOutput n isError message => exact TreeSet.mem_iff_contains.symm
  | handleRogueOutput isError message => exact iff_of_true rfl trivial

theorem jobs_jobDataAfter (jobData : TreeSet ℕ) (d : Dispatch) :
    jobs (jobDataAfter jobData d) = jobsAfter (jobs jobData) d := by
  cases d with
  | respond n result =>
    ext m
    show m ∈ jobData.erase n ↔ m ∈ jobs jobData \ {n}
    rw [TreeSet.mem_erase, compare_eq_iff_eq.ne, and_comm, ne_comm]
    rfl
  | handleOutput n isError message => rfl
  | handleRogueOutput isError message => rfl

theorem jobs_insert (jobData : TreeSet ℕ) (n : ℕ) :
    jobs (jobData.insert n) = insert n (jobs jobData) := by
  ext m
  show m ∈ jobData.insert n ↔ m = n ∨ m ∈ jobData
  rw [TreeSet.mem_insert, compare_eq_iff_eq, eq_comm]

theorem jobsAfter_subset (jobs : Set ℕ) (d : Dispatch) : jobsAfter jobs d ⊆ jobs := by
  cases d with
  | respond n result => exact Set.sdiff_subset
  | handleOutput n isError message => exact subset_rfl
  | handleRogueOutput isError message => exact subset_rfl

/-- A builder acts on dispatches that are allowed, and changes nothing but the job data and
what has been dispatched. -/
theorem foldlM_act {b : JavaBuilder} {ds : List Dispatch} {remaining : Set ℕ}
    (h : Allowed (jobs b.jobData) ds remaining) :
    ∃ jobData, jobs jobData = remaining ∧ remaining ⊆ jobs b.jobData ∧
      ds.foldlM act b = some { b with jobData, dispatched := b.dispatched ++ ds } := by
  induction ds generalizing b with
  | nil =>
    refine ⟨b.jobData, h, h ▸ subset_rfl, ?_⟩
    rw [List.append_nil]
    rfl
  | cons d ds ih =>
    obtain ⟨hd, hds⟩ := h
    have hact : act b d = some { b with
        jobData := jobDataAfter b.jobData d
        dispatched := b.dispatched ++ [d] } := if_pos (isExpected_iff.mpr hd)
    rw [← jobs_jobDataAfter] at hds
    obtain ⟨jobData, hjobs, hsubset, hfold⟩ := @ih { b with
      jobData := jobDataAfter b.jobData d
      dispatched := b.dispatched ++ [d] } hds
    refine ⟨jobData, hjobs, ?_, ?_⟩
    · rw [show jobs (JavaBuilder.jobData _) = _ from jobs_jobDataAfter b.jobData d] at hsubset
      exact hsubset.trans (jobsAfter_subset _ d)
    · rw [Fallible.foldlM_cons, hact, Option.bind_some, hfold]
      simp only [List.append_assoc, List.singleton_append]

theorem maySend_iff {outstanding : TreeSet ℕ} {m : Message} :
    maySend outstanding m = true ↔ Expected (jobs outstanding) m.dispatch := by
  cases m with
  | response n result => exact TreeSet.mem_iff_contains.symm
  | output n isError data h =>
    show (decide (n.val = 0) || outstanding.contains n) = true ↔
      Expected (jobs outstanding) (outputDispatch n isError data)
    unfold outputDispatch
    by_cases hzero : n.val = 0
    · rw [if_pos hzero, hzero]
      exact iff_of_true rfl trivial
    · rw [if_neg hzero, decide_eq_false hzero, Bool.false_or]
      exact TreeSet.mem_iff_contains.symm

theorem jobs_outstandingAfter (outstanding : TreeSet ℕ) (m : Message) :
    jobs (outstandingAfter outstanding m) = jobsAfter (jobs outstanding) m.dispatch := by
  cases m with
  | response n result => exact jobs_jobDataAfter outstanding (.respond n result)
  | output n isError data h =>
    show jobs outstanding = jobsAfter (jobs outstanding) (outputDispatch n isError data)
    unfold outputDispatch
    split_ifs <;> rfl

/-! ### What is kept on a connection -/

def sentBytes (sent : List SentMessage) : Bytes := sent.flatMap SentMessage.bytes

theorem sentBytes_append (sent sent' : List SentMessage) :
    sentBytes (sent ++ sent') = sentBytes sent ++ sentBytes sent' := List.flatMap_append

/-- Some messages have been dispatched, the others not; of these, a part has been received,
after which the rest is on the wire. The accumulated response is that part, after what it had
when the connection was opened if nothing has been dispatched. -/
structure Decoded (c : Connection) (lead : Bytes) (done rest : List SentMessage) (part : Bytes) :
    Prop where
  sent : c.sent = done ++ rest
  received : c.received = sentBytes done ++ part
  accumulated : c.builder.accumulatedResponse = (if done = [] then lead else []) ++ part
  incomplete : front c.builder.accumulatedResponse = .incomplete
  dispatched : c.builder.dispatched = c.opened ++ done.map SentMessage.dispatch
  allowed : Allowed (jobs c.builder.jobData) (rest.map SentMessage.dispatch) (jobs c.outstanding)

structure Invariant (c : Connection) : Prop where
  captureOutput : c.builder.captureOutput = true
  running : c.builder.runMode = .running
  jobData_le : ∀ n ∈ jobs c.builder.jobData, n ≤ c.builder.lastRequest
  stream : c.received ++ c.wire = sentBytes c.sent
  decoded : ∃ lead done rest part, (∀ z ∈ lead, z = 48) ∧ Decoded c lead done rest part

theorem front_zeros {zeros : Bytes} (h : ∀ z ∈ zeros, z = 48) : front zeros = .incomplete := by
  apply front_of_not_mem
  intro hmem
  exact absurd (h newline hmem) (by decide)

/-- What is on the wire belongs to the messages that have not been dispatched. -/
theorem Decoded.wire {c : Connection} {lead part : Bytes} {done rest : List SentMessage}
    (h : Decoded c lead done rest part) (hbytes : c.received ++ c.wire = sentBytes c.sent) :
    part ++ c.wire = sentBytes rest := by
  rw [h.sent, h.received] at hbytes
  unfold sentBytes at hbytes ⊢
  rw [List.flatMap_append, List.append_assoc] at hbytes
  exact List.append_cancel_left hbytes

/-! ### Reads -/

/-- The encodings of messages, where the first has something in front. -/
def encode (lead : Bytes) : List SentMessage → List (Dispatch × Bytes)
  | [] => []
  | s :: rest => (s.dispatch, lead ++ s.bytes) :: rest.map fun s ↦ (s.dispatch, s.bytes)

theorem encodes_encode {lead : Bytes} (hlead : ∀ z ∈ lead, z = 48) (sent : List SentMessage) :
    ∀ e ∈ encode lead sent, Encodes e.1 e.2 := by
  cases sent with
  | nil => exact fun e he ↦ absurd he List.not_mem_nil
  | cons s rest =>
    unfold encode
    rw [List.forall_mem_cons, List.forall_mem_map]
    exact ⟨(encodes_send s.message s.headerEnd s.lineEnd).append_zeros hlead,
      fun s _ ↦ encodes_send s.message s.headerEnd s.lineEnd⟩

theorem bytes_map (sent : List SentMessage) :
    bytes (sent.map fun s ↦ (s.dispatch, s.bytes)) = sentBytes sent := by
  unfold bytes sentBytes
  rw [List.flatMap_map]

/-- The beginning of a list of encodings. -/
theorem encode_eq_append {lead : Bytes} {sent : List SentMessage}
    {code code' : List (Dispatch × Bytes)}
    (h : encode lead sent = code ++ code') :
    ∃ done rest, sent = done ++ rest ∧ code = encode lead done ∧
      code'.map Prod.fst = rest.map SentMessage.dispatch := by
  cases sent with
  | nil =>
    obtain ⟨rfl, rfl⟩ := List.append_eq_nil_iff.mp h.symm
    exact ⟨[], [], rfl, rfl, rfl⟩
  | cons s sent =>
    cases code with
    | nil =>
      rw [List.nil_append] at h
      refine ⟨[], s :: sent, rfl, rfl, ?_⟩
      rw [← h, encode, List.map_cons, List.map_map, List.map_cons]
      rfl
    | cons e code =>
      obtain ⟨rfl, htail⟩ := List.cons.inj h
      obtain ⟨done, rest, rfl, rfl, rfl⟩ := List.map_eq_append_iff.mp htail
      refine ⟨s :: done, rest, rfl, rfl, ?_⟩
      rw [List.map_map]
      rfl

theorem bytes_encode_cons (lead : Bytes) (s : SentMessage) (rest : List SentMessage) :
    bytes (encode lead (s :: rest)) = lead ++ sentBytes (s :: rest) := by
  rw [encode, bytes_cons, bytes_map, List.append_assoc]
  rfl

theorem map_fst_encode (lead : Bytes) (sent : List SentMessage) :
    (encode lead sent).map Prod.fst = sent.map SentMessage.dispatch := by
  cases sent with
  | nil => rfl
  | cons s rest =>
    rw [encode, List.map_cons, List.map_map, List.map_cons]
    rfl

theorem handleRead_eq {b : JavaBuilder} (hcapture : b.captureOutput = true)
    (hrunning : b.runMode = .running) (data : Bytes) :
    b.handleRead data =
      (drain front act (b.accumulatedResponse ++ data).length (b.accumulatedResponse ++ data)
        (b.setBuffer (b.accumulatedResponse ++ data))).map fun (left, b') ↦ b'.setBuffer left := by
  unfold handleRead
  rw [if_pos hrunning]
  exact @handleLines_eq _ (b.setBuffer (b.accumulatedResponse ++ data)) hcapture

/-- A read of what comes next on the wire dispatches the messages that arrive in full. -/
theorem Invariant.read {c : Connection} (h : Invariant c) {data more : Bytes} (hdata : data ≠ [])
    (hwire : c.wire = data ++ more) :
    ∃ builder, c.builder.handleRead data = some builder ∧
      Invariant { c with builder, received := c.received ++ data, wire := more } := by
  obtain ⟨lead, done, rest, part, hlead, hdecoded⟩ := h.decoded
  have hrest := hdecoded.wire h.stream
  have hbytes : c.received ++ data ++ more = sentBytes c.sent := by
    rw [List.append_assoc, ← hwire, h.stream]
  rw [handleRead_eq h.captureOutput h.running]
  generalize hbuffer : c.builder.accumulatedResponse ++ data = buffer
  rw [hwire] at hrest
  cases rest with
  | nil =>
    -- nothing is on the wire
    obtain ⟨-, hnil⟩ := List.append_eq_nil_iff.mp hrest
    exact absurd (List.append_eq_nil_iff.mp hnil).1 hdata
  | cons s rest =>
    have hstream : buffer ++ more =
        bytes (encode (if done = [] then lead else []) (s :: rest)) := by
      rw [bytes_encode_cons, ← hrest, ← hbuffer, hdecoded.accumulated]
      simp only [List.append_assoc]
    have hzeros : ∀ z ∈ (if done = [] then lead else []), z = 48 := by
      split_ifs
      · exact hlead
      · exact fun z hz ↦ absurd hz List.not_mem_nil
    obtain ⟨code, code', left, hcode, hleft, hmore, hincomplete, hdrain⟩ :=
      drain_stream sound_front act (le_refl buffer.length) (encodes_encode hzeros _) hstream
    obtain ⟨now, later, hsplit, rfl, hlater⟩ := encode_eq_append hcode
    have hallowed := hdecoded.allowed
    rw [hsplit, List.map_append, allowed_append_iff] at hallowed
    obtain ⟨middle, hnow, hlater'⟩ := hallowed
    obtain ⟨jobData, rfl, hsubset, hfold⟩ := @foldlM_act (c.builder.setBuffer buffer) _ _ hnow
    rw [hdrain, map_fst_encode, hfold]
    refine ⟨_, rfl, h.captureOutput, h.running, fun n hn ↦ h.jobData_le n (hsubset hn), hbytes, ?_⟩
    have hdispatched : c.builder.dispatched ++ now.map SentMessage.dispatch =
        c.opened ++ (done ++ now).map SentMessage.dispatch := by
      rw [hdecoded.dispatched, List.map_append, List.append_assoc]
    have hsent : c.sent = done ++ now ++ later := by
      rw [hdecoded.sent, hsplit, List.append_assoc]
    cases now with
    | nil =>
      -- no message has arrived in full, and all of the data stays in the buffer
      obtain rfl : buffer = left := hleft
      refine ⟨lead, done, later, part ++ data, hlead, ⟨?_, ?_, ?_, hincomplete, ?_, hlater'⟩⟩
      · rwa [List.append_nil] at hsent
      · rw [hdecoded.received, List.append_assoc]
      · rw [← List.append_assoc, ← hdecoded.accumulated, hbuffer]
        rfl
      · rwa [List.append_nil] at hdispatched
    | cons s' now =>
      refine ⟨lead, done ++ s' :: now, later, left, hlead,
        ⟨hsent, ?_, ?_, hincomplete, hdispatched, hlater'⟩⟩
      · rw [bytes_encode_cons, ← hbuffer, hdecoded.accumulated, List.append_assoc,
          List.append_assoc] at hleft
        rw [hdecoded.received, List.append_assoc, List.append_cancel_left hleft, sentBytes_append,
          List.append_assoc]
      · rw [if_neg (by simp)]
        rfl

/-! ### Runs -/

theorem registerRequest_eq_some_iff {b b' : JavaBuilder} : b.registerRequest = some b' ↔
    b.lastRequest + 1 < intLimit ∧ b' = { b with
      lastRequest := b.lastRequest + 1
      jobData := b.jobData.insert (b.lastRequest + 1) } := by
  unfold registerRequest
  rw [Option.ite_none_right_eq_some, Option.some_inj, eq_comm (a := b')]

theorem Invariant.makeRequest {c : Connection} (h : Invariant c) {builder : JavaBuilder}
    (hrequest : c.builder.registerRequest = some builder) :
    Invariant { c with builder, outstanding := c.outstanding.insert builder.lastRequest } := by
  obtain ⟨-, rfl⟩ := registerRequest_eq_some_iff.mp hrequest
  obtain ⟨lead, done, rest, part, hlead, hdecoded⟩ := h.decoded
  have hnew : c.builder.lastRequest + 1 ∉ jobs c.builder.jobData := by
    intro hmem
    exact absurd (h.jobData_le _ hmem) (by omega)
  refine ⟨h.captureOutput, h.running, ?_, h.stream, lead, done, rest, part, hlead,
    hdecoded.sent, hdecoded.received, hdecoded.accumulated, hdecoded.incomplete,
    hdecoded.dispatched, ?_⟩
  · intro n hn
    rw [jobs_insert] at hn
    rcases hn with rfl | hn
    · exact le_refl _
    · exact (h.jobData_le n hn).trans (Nat.le_succ _)
  · rw [jobs_insert, jobs_insert]
    exact hdecoded.allowed.insert hnew

theorem Invariant.send {c : Connection} (h : Invariant c) {s : SentMessage}
    (hmay : maySend c.outstanding s.message = true) :
    Invariant { c with
      outstanding := outstandingAfter c.outstanding s.message
      sent := c.sent ++ [s]
      wire := c.wire ++ s.bytes } := by
  obtain ⟨lead, done, rest, part, hlead, hdecoded⟩ := h.decoded
  refine ⟨h.captureOutput, h.running, h.jobData_le, ?_,
    lead, done, rest ++ [s], part, hlead, ?_, hdecoded.received, hdecoded.accumulated,
    hdecoded.incomplete, hdecoded.dispatched, ?_⟩
  · rw [← List.append_assoc, h.stream, sentBytes_append]
    simp [sentBytes]
  · rw [hdecoded.sent, List.append_assoc]
  · rw [List.map_append]
    refine allowed_append hdecoded.allowed ⟨maySend_iff.mp hmay, ?_⟩
    exact (jobs_outstandingAfter c.outstanding s.message).symm

/-- When all has been received, all has been dispatched. -/
theorem Invariant.dispatches {c : Connection} (h : Invariant c) : Dispatches c := by
  refine ⟨fun data more hdata hwire ↦ ?_, ?_⟩
  · obtain ⟨builder, hread, -⟩ := h.read hdata hwire
    rw [hread]
    rfl
  · obtain ⟨lead, done, rest, part, hlead, hdecoded⟩ := h.decoded
    refine ⟨done, rest, hdecoded.sent, hdecoded.dispatched, fun hwire ↦ ?_⟩
    have hrest := hdecoded.wire h.stream
    rw [hwire, List.append_nil] at hrest
    cases rest with
    | nil => rfl
    | cons s rest =>
      have hzeros : ∀ z ∈ (if done = [] then lead else []), z = 48 := by
        split_ifs
        · exact hlead
        · exact fun z hz ↦ absurd hz List.not_mem_nil
      have hincomplete := hdecoded.incomplete
      rw [hdecoded.accumulated, hrest, ← bytes_encode_cons] at hincomplete
      exact absurd (sound_front.eq_nil (encodes_encode hzeros _) hincomplete) (List.cons_ne_nil _ _)

/-! ### The end of a connection -/

/-- What has been received is some messages, with nothing after them but zeros, which are
the beginning of a number. -/
def AtBoundary (c : Connection) : Prop :=
  ∃ done zeros, done <+: c.sent ∧ c.received = sentBytes done ++ zeros ∧ ∀ z ∈ zeros, z = 48

/-- A new connection is made only where the old one has been received up to the end of a
message. -/
def RestartsAtBoundary (c : Connection) (event : ConnectionEvent) : Prop :=
  event = .restart → AtBoundary c

theorem sentBytes_cons (s : SentMessage) (rest : List SentMessage) :
    sentBytes (s :: rest) = s.bytes ++ sentBytes rest := List.flatMap_cons

theorem newline_mem_bytes (s : SentMessage) : newline ∈ s.bytes := by
  by_contra hmem
  have hfront : front (s.bytes ++ []) ≠ .incomplete :=
    sound_front.not_incomplete (encodes_send s.message s.headerEnd s.lineEnd)
  rw [List.append_nil] at hfront
  exact hfront (front_of_not_mem hmem)

theorem Invariant.atBoundary_iff {c : Connection} (h : Invariant c) :
    AtBoundary c ↔ ∀ z ∈ c.builder.accumulatedResponse, z = 48 := by
  obtain ⟨lead, done, rest, part, hlead, hdecoded⟩ := h.decoded
  have hzeros : ∀ z ∈ (if done = [] then lead else []), z = 48 := by
    split_ifs
    · exact hlead
    · exact fun z hz ↦ absurd hz List.not_mem_nil
  have hblank : (∀ z ∈ c.builder.accumulatedResponse, z = 48) ↔ ∀ z ∈ part, z = 48 := by
    rw [hdecoded.accumulated, List.forall_mem_append]
    exact and_iff_right hzeros
  rw [hblank]
  constructor
  · rintro ⟨done', zeros, hdone', hreceived, hz⟩
    rw [hdecoded.received] at hreceived
    have hdone : done <+: c.sent := hdecoded.sent ▸ List.prefix_append done rest
    rcases List.prefix_or_prefix_of_prefix hdone hdone' with ⟨more, rfl⟩ | ⟨more, rfl⟩
    · rw [sentBytes_append, List.append_assoc] at hreceived
      have hpart := List.append_cancel_left hreceived
      cases more with
      | nil => exact fun z hzpart ↦ hz z (by rwa [hpart] at hzpart)
      | cons s more =>
        -- the part would have a whole message
        have hincomplete := hdecoded.incomplete
        have hencodes := (encodes_send s.message s.headerEnd s.lineEnd).append_zeros hzeros
        rw [hdecoded.accumulated, hpart, sentBytes_cons, List.append_assoc, ← List.append_assoc]
          at hincomplete
        exact absurd hincomplete (sound_front.not_incomplete hencodes)
    · rw [sentBytes_append, List.append_assoc] at hreceived
      have hpart := List.append_cancel_left hreceived
      cases more with
      | nil => exact fun z hzpart ↦ hz z (hpart ▸ hzpart)
      | cons s more =>
        -- the zeros would have the end of a line
        have hmem : newline ∈ zeros := by
          rw [← hpart, sentBytes_cons]
          exact List.mem_append_left _ (List.mem_append_left _ (newline_mem_bytes s))
        exact absurd (hz newline hmem) (by decide)
  · intro hpart
    exact ⟨done, part, hdecoded.sent ▸ List.prefix_append done rest, hdecoded.received, hpart⟩

theorem restartBuilder_eq_some_iff {b b' : JavaBuilder} (hrunning : b.runMode = .running) :
    restartBuilder b = some b' ↔ b.lastRequest + 1 < intLimit ∧ b' = { b with
      lastRequest := b.lastRequest + 1
      jobData := (∅ : TreeSet ℕ).insert (b.lastRequest + 1)
      dispatched := b.dispatched ++ b.jobData.toList.map (Dispatch.respond · false) } := by
  have herror : b.handleReadError true = { b with runMode := .stopped } := by
    unfold handleReadError
    rw [hrunning]
    rfl
  unfold restartBuilder
  rw [registerRequest_eq_some_iff, herror]
  have hrest : ({ b with runMode := .stopped } : JavaBuilder).endOfRun.startUp.handleAccept =
      { b with
        jobData := ∅
        dispatched := b.dispatched ++ b.jobData.toList.map (Dispatch.respond · false) } := by
    obtain ⟨captureOutput, accumulatedResponse, lastRequest, runMode, jobData, dispatched⟩ := b
    obtain rfl : runMode = .running := hrunning
    rfl
  rw [hrest]

/-- A connection that is opened with zeros in the accumulated response. -/
theorem invariant_openWith {b : JavaBuilder} (hcapture : b.captureOutput = true)
    (hrunning : b.runMode = .running) (hjobs : ∀ n ∈ jobs b.jobData, n ≤ b.lastRequest)
    (hzeros : ∀ z ∈ b.accumulatedResponse, z = 48) : Invariant (openWith b) where
  captureOutput := hcapture
  running := hrunning
  jobData_le := hjobs
  stream := rfl
  decoded := by
    refine ⟨b.accumulatedResponse, [], [], [], hzeros, rfl, rfl, ?_, front_zeros hzeros, ?_, rfl⟩
    · exact (List.append_nil _).symm
    · exact (List.append_nil _).symm

theorem Invariant.restart {c c' : Connection} (h : Invariant c) (hboundary : AtBoundary c)
    (hrestart : step c .restart = some c') : Invariant c' := by
  obtain ⟨b', hb', rfl⟩ := Option.map_eq_some_iff.mp hrestart
  obtain ⟨-, rfl⟩ := (restartBuilder_eq_some_iff h.running).mp hb'
  refine invariant_openWith h.captureOutput h.running (fun n hn ↦ ?_)
    (h.atBoundary_iff.mp hboundary)
  rw [jobs_insert] at hn
  rcases hn with rfl | hn
  · exact le_refl _
  · exact absurd hn TreeSet.not_mem_emptyc

theorem Invariant.step {c c' : Connection} {event : ConnectionEvent} (h : Invariant c)
    (hguard : RestartsAtBoundary c event) (hstep : Connection.step c event = some c') :
    Invariant c' := by
  cases event with
  | makeRequest =>
    obtain ⟨builder, hrequest, heq⟩ := Option.bind_eq_some_iff.mp hstep
    obtain rfl := Option.some_inj.mp heq
    exact h.makeRequest hrequest
  | send s =>
    obtain ⟨hmay, heq⟩ := Option.ite_none_right_eq_some.mp hstep
    obtain rfl := Option.some_inj.mp heq
    exact h.send hmay
  | read length =>
    obtain ⟨⟨hpos, hle⟩, hread⟩ := Option.ite_none_right_eq_some.mp hstep
    obtain ⟨builder, hbuilder, heq⟩ := Option.bind_eq_some_iff.mp hread
    obtain rfl := Option.some_inj.mp heq
    have hdata : c.wire.take length ≠ [] := by
      intro hnil
      rw [List.take_eq_nil_iff] at hnil
      rcases hnil with rfl | hnil
      · exact absurd hpos (lt_irrefl 0)
      · rw [hnil, List.length_nil] at hle
        omega
    obtain ⟨builder', hread', hinvariant⟩ := h.read hdata (List.take_append_drop length c.wire).symm
    obtain rfl := Option.some_inj.mp (hbuilder.symm.trans hread')
    exact hinvariant
  | restart => exact h.restart (hguard rfl) hstep

theorem invariant_first : Invariant first :=
  invariant_openWith rfl rfl (fun _ hn ↦ absurd hn TreeSet.not_mem_emptyc)
    fun _ hz ↦ absurd hz List.not_mem_nil

theorem invariant_of_run {events : List ConnectionEvent} {c : Connection}
    (hrestarts : Meets step RestartsAtBoundary first events) (hrun : run first events = some c) :
    Invariant c :=
  invariant_of_meets (fun _ _ _ h hguard hstep ↦ h.step hguard hstep) hrestarts hrun invariant_first

/-- A connection dispatches what is sent on it, in order, whatever the reads, where every
earlier connection has been received up to the end of a message. -/
theorem dispatches_of_run {events : List ConnectionEvent} {c : Connection}
    (hrestarts : Meets step RestartsAtBoundary first events) (hrun : run first events = some c) :
    Dispatches c :=
  (invariant_of_run hrestarts hrun).dispatches

/-- Data that looks like a response, and the response to its request, where a read ends within
the data. -/
def cutData : List ConnectionEvent :=
  [.makeRequest,
    .send ⟨.output ⟨1, one_lt_intLimit⟩ false (ascii "1 true\n") (by decide), .crlf, .lf⟩,
    .send ⟨.response ⟨1, one_lt_intLimit⟩ true, .lf, .crlf⟩, .read 17, .read 13]

/-- The theorem, for data that looks like a response. -/
theorem dispatches_of_run_cutData : ∃ c, run first cutData = some c ∧ Dispatches c := by
  have hsome : (run first cutData).isSome := by decide
  obtain ⟨c, hrun⟩ := Option.isSome_iff_exists.mp hsome
  have hrestarts : Meets step RestartsAtBoundary first cutData := by
    simp [Meets, RestartsAtBoundary, cutData]
  exact ⟨c, hrun, dispatches_of_run hrestarts hrun⟩

end Connection

end Abuild
