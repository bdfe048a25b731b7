import Abuild.JavaBuilder.Connection

/-!
The connection that is made after the Java side has exited. The accumulated response
outlives the old connection, so what was received of a message that never arrived in full is
taken for the beginning of the new stream. The new connection dispatches what is sent on it
exactly where the old one was received up to the end of a message (`restart_dispatches_iff`).
-/

set_option autoImplicit false
set_option relaxedAutoImplicit false

namespace Abuild.Connection

open JavaBuilder Framing Guarded
open Std (TreeSet)

/-! ### Numbers -/

/-- The value of digits after a value. -/
def value (start : ℕ) (digits : Bytes) : ℕ :=
  digits.foldl (fun n d ↦ 10 * n + (d.toNat - 48)) start

theorem value_lt {a b : ℕ} (h : a < b) (digits : Bytes) : value a digits < value b digits := by
  induction digits generalizing a b with
  | nil => exact h
  | cons d digits ih =>
    apply ih
    show 10 * a + (d.toNat - 48) < 10 * b + (d.toNat - 48)
    omega

theorem eq_zero_of_value {digits : Bytes} (hdigits : ∀ d ∈ digits, isDigit d = true)
    (h : value 0 digits = 0) : ∀ d ∈ digits, d = 48 := by
  induction digits with
  | nil => exact fun d hd ↦ absurd hd List.not_mem_nil
  | cons d digits ih =>
    obtain ⟨hd, hrest⟩ := List.forall_mem_cons.mp hdigits
    have hstart : value (d.toNat - 48) digits = 0 := by
      rw [← h]
      show _ = value (10 * 0 + (d.toNat - 48)) digits
      rw [Nat.mul_zero, Nat.zero_add]
    have hlow : d.toNat - 48 = 0 := by
      by_contra hne
      have hlt := value_lt (Nat.pos_of_ne_zero hne) digits
      omega
    have hrange : 48 ≤ d.toNat := by
      unfold isDigit at hd
      simp only [Bool.and_eq_true, decide_eq_true_eq] at hd
      exact hd.1
    rw [hlow] at hstart
    have heq : d = 48 := UInt8.toNat_inj.mp (show d.toNat = 48 by omega)
    exact List.forall_mem_cons.mpr ⟨heq, ih hrest hstart⟩

theorem atoi_eq_some_iff {digits : Bytes} {n : ℕ} :
    atoi digits = some n ↔ value 0 digits = n ∧ n < intLimit := by
  unfold atoi value
  dsimp only
  rw [Option.ite_none_right_eq_some, Option.some_inj]
  constructor
  · rintro ⟨hlt, rfl⟩
    exact ⟨rfl, hlt⟩
  · rintro ⟨rfl, hlt⟩
    exact ⟨hlt, rfl⟩

/-- Digits in front of a number that do not change it are zeros. -/
theorem zeros_of_atoi {digits number : Bytes} {n : ℕ} (hdigits : ∀ d ∈ digits, isDigit d = true)
    (hnumber : atoi number = some n) (h : atoi (digits ++ number) = some n) :
    ∀ d ∈ digits, d = 48 := by
  refine eq_zero_of_value hdigits ?_
  obtain ⟨hvalue, -⟩ := atoi_eq_some_iff.mp hnumber
  obtain ⟨happend, -⟩ := atoi_eq_some_iff.mp h
  have hsplit : value 0 (digits ++ number) = value (value 0 digits) number := List.foldl_append
  by_contra hne
  have hlt := value_lt (Nat.pos_of_ne_zero hne) number
  omega

/-! ### A response after something else -/

theorem matchDigits_eq_some {line number rest : Bytes}
    (h : matchDigits line = some (number, rest)) :
    line = number ++ rest ∧ ∀ d ∈ number, isDigit d = true := by
  unfold matchDigits at h
  obtain ⟨-, heq⟩ := Option.ite_none_left_eq_some.mp h
  obtain ⟨rfl, rfl⟩ := Prod.mk.inj (Option.some_inj.mp heq)
  exact ⟨List.takeWhile_append_dropWhile.symm, fun d hd ↦ List.mem_takeWhile_imp hd⟩

theorem matchEnd_iff {text rest : Bytes} :
    matchEnd text rest = true ↔ ∃ e, rest = text ++ optionalReturn e := by
  unfold matchEnd
  rw [Bool.or_eq_true, decide_eq_true_eq, decide_eq_true_eq]
  constructor
  · rintro (heq | heq)
    · exact ⟨.lf, by rw [heq]; exact (List.append_nil text).symm⟩
    · exact ⟨.crlf, heq⟩
  · rintro ⟨e, heq⟩
    cases e with
    | lf => exact Or.inl (by rw [heq]; exact List.append_nil text)
    | crlf => exact Or.inr heq

theorem matchResponse_eq_some {line number : Bytes} {result : Bool}
    (h : matchResponse line = some (number, result)) :
    (∀ d ∈ number, isDigit d = true) ∧ ∃ e, line = responseLine number result e := by
  unfold matchResponse at h
  obtain ⟨⟨number', rest⟩, hdigits, hrest⟩ := Option.bind_eq_some_iff.mp h
  obtain ⟨rfl, hnumber⟩ := matchDigits_eq_some hdigits
  dsimp only at hrest
  split_ifs at hrest with htrue hfalse
  · obtain ⟨rfl, rfl⟩ := Prod.mk.inj (Option.some_inj.mp hrest)
    obtain ⟨e, rfl⟩ := matchEnd_iff.mp htrue
    exact ⟨hnumber, e, rfl⟩
  · obtain ⟨rfl, rfl⟩ := Prod.mk.inj (Option.some_inj.mp hrest)
    obtain ⟨e, rfl⟩ := matchEnd_iff.mp hfalse
    exact ⟨hnumber, e, rfl⟩

theorem outputDispatch_ne_respond (m : ℕ) (isError : Bool) (message : Bytes) (n : ℕ)
    (result : Bool) : outputDispatch m isError message ≠ .respond n result := by
  unfold outputDispatch
  split_ifs <;> exact fun heq ↦ Dispatch.noConfusion heq

/-- A line gives a response only if it is one, whatever comes after it. -/
theorem lineFront_eq_respond {response rest rest' : Bytes} {n : ℕ} {result : Bool}
    (h : lineFront response rest = .message (.respond n result) rest') :
    ∃ number, matchResponse response = some (number, result) ∧ atoi number = some n := by
  unfold lineFront at h
  cases hmatch : matchResponse response with
  | some found =>
    obtain ⟨number, result'⟩ := found
    rw [hmatch] at h
    dsimp only at h
    cases hatoi : atoi number with
    | none =>
      rw [hatoi] at h
      cases h
    | some m =>
      rw [hatoi] at h
      cases h
      exact ⟨number, rfl, hatoi⟩
  | none =>
    rw [hmatch] at h
    dsimp only at h
    split at h
    · cases h
    · split at h
      · split at h
        · cases h
        · exact absurd (Front.message.inj h).1 (outputDispatch_ne_respond _ _ _ n result)
      · cases h

theorem lineFront_of_response {response number rest : Bytes} {n : ℕ} {result : Bool}
    (hmatch : matchResponse response = some (number, result)) (hatoi : atoi number = some n) :
    lineFront response rest = .message (.respond n result) rest := by
  unfold lineFront
  rw [hmatch]
  dsimp only
  rw [hatoi]

/-- A response is not found after what is left of another message, unless that is zeros. -/
theorem zeros_of_front {left number rest : Bytes} {n : ℕ} (hleft : front left = .incomplete)
    (hnumber : IsNumber number n)
    (h : front (left ++ (responseLine number true .lf ++ [newline])) =
      .message (.respond n true) rest) : ∀ d ∈ left, d = 48 := by
  by_cases hline : newline ∈ left
  · -- a line that is left is not a response
    have hsplit := takeWhile_append_drop hline
    have hnot : newline ∉ left.takeWhile (· != newline) := by
      intro hmem
      have hne := List.mem_takeWhile_imp hmem
      simp at hne
    generalize left.takeWhile (· != newline) = response at hsplit hnot
    generalize left.drop (response.length + 1) = more at hsplit
    rw [← hsplit, front_line hnot] at hleft
    rw [← hsplit, List.append_assoc, List.cons_append, front_line hnot] at h
    obtain ⟨number', hmatch, hatoi⟩ := lineFront_eq_respond h
    rw [lineFront_of_response hmatch hatoi] at hleft
    cases hleft
  · have hnot : newline ∉ left ++ responseLine number true .lf := by
      rw [List.mem_append]
      exact fun hmem ↦ hmem.elim hline (newline_not_mem_response hnumber true .lf)
    rw [← List.append_assoc, front_line hnot] at h
    obtain ⟨number', hmatch, hatoi⟩ := lineFront_eq_respond h
    obtain ⟨hdigits, e, heq⟩ := matchResponse_eq_some hmatch
    cases e with
    | lf =>
      unfold responseLine at heq
      rw [← List.append_assoc] at heq
      obtain rfl := List.append_cancel_right heq
      exact zeros_of_atoi (fun d hd ↦ hdigits d (List.mem_append_left _ hd)) hnumber.atoi hatoi
    | crlf =>
      have hlast := congrArg List.getLast? heq
      simp [responseLine, optionalReturn, resultText, ascii] at hlast
      exact absurd hlast (by decide)

/-- What a decoder dispatches comes after what had been dispatched. -/
theorem dispatched_of_drain {fuel : ℕ} {buffer left : Bytes} {b b' : JavaBuilder}
    (h : drain front act fuel buffer b = some (left, b')) : b.dispatched <+: b'.dispatched := by
  induction fuel generalizing buffer b with
  | zero =>
    obtain ⟨-, rfl⟩ := Prod.mk.inj (Option.some_inj.mp h)
    exact List.prefix_rfl
  | succ fuel ih =>
    cases hfront : front buffer with
    | incomplete =>
      rw [drain_incomplete hfront] at h
      obtain ⟨-, rfl⟩ := Prod.mk.inj (Option.some_inj.mp h)
      exact List.prefix_rfl
    | malformed =>
      rw [drain, hfront] at h
      cases h
    | message d rest =>
      rw [drain_message hfront] at h
      obtain ⟨b₁, hact, hrest⟩ := Option.bind_eq_some_iff.mp h
      refine List.IsPrefix.trans ?_ (ih hrest)
      unfold act at hact
      obtain ⟨-, heq⟩ := Option.ite_none_right_eq_some.mp hact
      rw [← Option.some_inj.mp heq]
      exact List.prefix_append _ _

/-- If a read dispatches one thing, then that is what the buffer begins with. -/
theorem front_of_drain {fuel : ℕ} {buffer left : Bytes} {b b' : JavaBuilder} {d : Dispatch}
    (h : drain front act (fuel + 1) buffer b = some (left, b'))
    (hdispatched : b'.dispatched = b.dispatched ++ [d]) :
    ∃ rest, front buffer = .message d rest := by
  cases hfront : front buffer with
  | incomplete =>
    rw [drain_incomplete hfront] at h
    obtain ⟨-, rfl⟩ := Prod.mk.inj (Option.some_inj.mp h)
    simp at hdispatched
  | malformed =>
    rw [drain, hfront] at h
    cases h
  | message d' rest =>
    rw [drain_message hfront] at h
    obtain ⟨b₁, hact, hrest⟩ := Option.bind_eq_some_iff.mp h
    have hdispatched₁ : b₁.dispatched = b.dispatched ++ [d'] := by
      unfold act at hact
      obtain ⟨-, heq⟩ := Option.ite_none_right_eq_some.mp hact
      rw [← Option.some_inj.mp heq]
    have happend := dispatched_of_drain hrest
    rw [hdispatched, hdispatched₁, List.prefix_append_right_inj] at happend
    obtain rfl : d' = d := by simpa using happend
    exact ⟨rest, rfl⟩

/-! ### The new connection -/

/-- The Java side is not started again. -/
def NoRestart (events : List ConnectionEvent) : Prop := ∀ event ∈ events, event ≠ .restart

theorem invariant_of_noRestart {c c' : Connection} (h : Invariant c)
    {events : List ConnectionEvent} (hevents : NoRestart events) (hrun : run c events = some c') :
    Invariant c' :=
  Fallible.foldlM_induction hrun h fun event hevent _ _ hstep hinvariant ↦
    hinvariant.step (fun heq ↦ absurd heq (hevents event hevent)) hstep

/-- Where a connection dispatches what is sent on it, a message that the Java side sends first
and that arrives in one read is dispatched. -/
theorem handleRead_of_dispatches {b : JavaBuilder} {s : SentMessage}
    (hmay : maySend b.jobData s.message = true)
    (h : ∀ events c, NoRestart events → run (openWith b) events = some c → Dispatches c) :
    ∃ b', b.handleRead s.bytes = some b' ∧ b'.dispatched = b.dispatched ++ [s.dispatch] := by
  have hpos : 0 < s.bytes.length := List.length_pos_of_mem (newline_mem_bytes s)
  let sentState : Connection :=
    { openWith b with
      outstanding := outstandingAfter b.jobData s.message
      sent := [s]
      wire := s.bytes }
  have hsend : run (openWith b) [.send s] = some sentState := by
    rw [run_singleton]
    exact if_pos hmay
  obtain ⟨b', hb'⟩ := Option.isSome_iff_exists.mp
    ((h [.send s] sentState (by simp [NoRestart]) hsend).1 s.bytes []
      (List.length_pos_iff.mp hpos) (List.append_nil _).symm)
  have hread : run (openWith b) [.send s, .read s.bytes.length] =
      some { sentState with builder := b', received := s.bytes, wire := [] } := by
    have hstep : step sentState (.read s.bytes.length) =
        some { sentState with builder := b', received := s.bytes, wire := [] } := by
      rw [step, if_pos ⟨hpos, le_refl _⟩, show sentState.wire = s.bytes from rfl, List.take_length,
        List.drop_length, hb']
      rfl
    have happend := run_append (openWith b) [.send s] [.read s.bytes.length]
    rw [hsend, Option.bind_some, run_singleton, hstep] at happend
    exact happend
  obtain ⟨-, done, rest, hsent, hdispatched, hall⟩ := h _ _ (by simp [NoRestart]) hread
  rw [hall rfl, List.append_nil] at hsent
  rw [← show [s] = done from hsent] at hdispatched
  exact ⟨b', hb', hdispatched⟩

/-- A connection that dispatches a response to the request that it was opened for has nothing
but zeros in front. -/
theorem zeros_of_dispatches {b : JavaBuilder} (hcapture : b.captureOutput = true)
    (hrunning : b.runMode = .running) (hlast : b.lastRequest < intLimit)
    (hjob : b.lastRequest ∈ b.jobData) (hleft : front b.accumulatedResponse = .incomplete)
    (h : ∀ events c, NoRestart events → run (openWith b) events = some c → Dispatches c) :
    ∀ z ∈ b.accumulatedResponse, z = 48 := by
  have hbytes : (SentMessage.mk (.response ⟨b.lastRequest, hlast⟩ true) .lf .lf).bytes =
      responseLine (intToString b.lastRequest) true .lf ++ [newline] := by
    rw [responseLine, List.append_assoc, List.append_assoc, ← lineEnd_bytes, ← List.append_assoc]
    rfl
  obtain ⟨b', hread, hdispatched⟩ :=
    @handleRead_of_dispatches b ⟨.response ⟨b.lastRequest, hlast⟩ true, .lf, .lf⟩
      (TreeSet.mem_iff_contains.mp hjob) h
  rw [hbytes, handleRead_eq hcapture hrunning] at hread
  obtain ⟨⟨left, b₁⟩, hdrain, rfl⟩ := Option.map_eq_some_iff.mp hread
  rw [← List.append_assoc, List.length_append, List.length_singleton] at hdrain
  obtain ⟨rest, hfront⟩ := front_of_drain hdrain hdispatched
  rw [List.append_assoc] at hfront
  exact zeros_of_front hleft (isNumber_intToString hlast) hfront

/-- A new connection dispatches what is sent on it, in order, whatever the reads, exactly
where the old one was received up to the end of a message, and every earlier one was. -/
theorem restart_dispatches_iff {events : List ConnectionEvent} {c c' : Connection}
    (hrestarts : Meets step RestartsAtBoundary first events) (hrun : run first events = some c)
    (hrestart : step c .restart = some c') :
    (∀ events' c'', NoRestart events' → run c' events' = some c'' → Dispatches c'') ↔
      AtBoundary c := by
  have h := invariant_of_run hrestarts hrun
  constructor
  · intro hdispatches
    obtain ⟨b, hb, rfl⟩ := Option.map_eq_some_iff.mp hrestart
    obtain ⟨hlast, rfl⟩ := (restartBuilder_eq_some_iff h.running).mp hb
    obtain ⟨lead, done, rest, part, -, hdecoded⟩ := h.decoded
    rw [h.atBoundary_iff]
    exact @zeros_of_dispatches { c.builder with
      lastRequest := c.builder.lastRequest + 1
      jobData := (∅ : TreeSet ℕ).insert (c.builder.lastRequest + 1)
      dispatched := c.builder.dispatched ++
        c.builder.jobData.toList.map (Dispatch.respond · false) }
      h.captureOutput h.running hlast TreeSet.mem_insert_self hdecoded.incomplete hdispatches
  · intro hboundary events' c'' hevents' hrun'
    exact (invariant_of_noRestart (h.restart hboundary hrestart) hevents' hrun').dispatches

/-- A request whose response has been received, and after it the beginning of the next
header. -/
def wholeResponse : List ConnectionEvent :=
  [.makeRequest, .send ⟨.response ⟨1, one_lt_intLimit⟩ true, .lf, .lf⟩,
    .send ⟨.output ⟨0, zero_lt_intLimit⟩ false (ascii "bye") (by decide), .lf, .lf⟩, .read 8]

/-- The theorem, for a Java side that exits after a response. -/
theorem restart_dispatches_wholeResponse :
    ∃ c c', run first wholeResponse = some c ∧ step c .restart = some c' ∧
      ∀ events' c'', NoRestart events' → run c' events' = some c'' → Dispatches c'' := by
  have hsome : ((run first wholeResponse).bind fun c ↦ (step c .restart).map fun _ ↦
      decide (c.received = ascii "1 true\n0" ∧ sentBytes (c.sent.take 1) = ascii "1 true\n")) =
        some true := by decide
  obtain ⟨c, hrun, hsome⟩ := Option.bind_eq_some_iff.mp hsome
  obtain ⟨c', hrestart, hfound⟩ := Option.map_eq_some_iff.mp hsome
  obtain ⟨hreceived, hsent⟩ := of_decide_eq_true hfound
  have hrestarts : Meets step RestartsAtBoundary first wholeResponse := by
    simp [Meets, RestartsAtBoundary, wholeResponse]
  have hboundary : AtBoundary c := by
    refine ⟨c.sent.take 1, [48], List.take_prefix 1 c.sent, ?_, by simp⟩
    rw [hreceived, hsent]
    rfl
  exact ⟨c, c', hrun, hrestart, (restart_dispatches_iff hrestarts hrun hrestart).mpr hboundary⟩

/-- A request whose output has been received in part. -/
def partOutput : List ConnectionEvent :=
  [.makeRequest, .send ⟨.output ⟨1, one_lt_intLimit⟩ false (ascii "compiling") (by decide), .lf,
    .lf⟩,
    .read 15]

/-- After the Java side has exited within a message, a response on the new connection is lost
in what was left of the message. -/
theorem not_dispatches_partOutput :
    ∃ c c', run first partOutput = some c ∧ step c .restart = some c' ∧
      ¬ ∀ events' c'', NoRestart events' → run c' events' = some c'' → Dispatches c'' := by
  have hsome : ((run first partOutput).bind fun c ↦ (step c .restart).bind fun c' ↦
      (run c' [.send ⟨.response ⟨2, by decide⟩ true, .lf, .lf⟩, .read 7]).map fun c'' ↦
        decide (c''.wire = [] ∧ c''.sent.length = 1 ∧
          c''.builder.dispatched.length = c''.opened.length)) = some true := by decide
  obtain ⟨c, hrun, hsome⟩ := Option.bind_eq_some_iff.mp hsome
  obtain ⟨c', hrestart, hsome⟩ := Option.bind_eq_some_iff.mp hsome
  obtain ⟨c'', hrun', hfound⟩ := Option.map_eq_some_iff.mp hsome
  obtain ⟨hwire, hsent, hdispatched⟩ := of_decide_eq_true hfound
  refine ⟨c, c', hrun, hrestart, fun hall ↦ ?_⟩
  obtain ⟨-, done, rest, hsplit, happend, hrest⟩ := hall _ c'' (by simp [NoRestart]) hrun'
  rw [hsplit, hrest hwire, List.append_nil] at hsent
  rw [happend, List.length_append, List.length_map, hsent] at hdispatched
  omega

end Abuild.Connection
