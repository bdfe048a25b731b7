import Abuild.Logger.Output
import Abuild.Util.Split

/-!
The prefix of a job. A message gets it when it goes into the queue, if the job is open then. As long
as the messages of such a job are single lines and nothing is left of it when it is closed, every
line that is shown of it has the prefix (`output_of_run`).
-/

set_option autoImplicit false
set_option relaxedAutoImplicit false

namespace Abuild.Logger

open Contiguous Guarded
open Std (TreeMap)

/-- What a call on a job with a prefix may not have for all of its lines to be marked: a prefix of
more than one line, or one that loses its end; a message or a header of more than one line;
something that is left when the job is closed. -/
def MarksLines (s : LoggerQueue) : QueueAction → Prop
  | .call (.requestJobHandle _ jobPrefix) =>
    newline ∉ jobPrefix ∧ jobPrefix.getLast? ≠ some carriageReturn
  | .call (.setJobHeader job header) =>
    ∀ j ∈ s.jobs.jobs[job]?, j.jobPrefix ≠ [] → newline ∉ header
  | .call (.log _ message job) => ∀ j ∈ s.jobs.jobs[job]?, j.jobPrefix ≠ [] → newline ∉ message
  | .call (.closeJob job) => ∀ j ∈ s.jobs.jobs[job]?, j.jobPrefix ≠ [] → j.flushWrites = []
  | _ => True

/-- A message is one line. -/
def OneLine (msg : Message) : Prop := ∃ body, newline ∉ body ∧ msg.2 = body ++ [newline]

/-! ### One message -/

/-- The line of a message begins with the prefix of its job. -/
theorem prefix_of_mem_outputLines {jobPrefix body line : Bytes} (linePrefix : Bytes)
    (hmark : newline ∉ jobPrefix) (hlast : jobPrefix.getLast? ≠ some carriageReturn)
    (hbody : newline ∉ body)
    (hline : line ∈ outputLines linePrefix (jobPrefix ++ (body ++ [newline]))) :
    linePrefix ++ jobPrefix <+: line := by
  have hstripped : ∃ rest, stripTrailingNewline (jobPrefix ++ (body ++ [newline])) =
      jobPrefix ++ rest ∧ newline ∉ rest := by
    unfold stripTrailingNewline stripLast
    rw [← List.append_assoc, if_pos List.getLast?_concat, List.dropLast_concat]
    by_cases hnil : body = []
    · refine ⟨[], ?_, List.not_mem_nil⟩
      rw [hnil, List.append_nil, if_neg hlast]
    · split_ifs
      · exact ⟨body.dropLast, List.dropLast_append_of_ne_nil hnil,
          fun hmem ↦ hbody (List.mem_of_mem_dropLast hmem)⟩
      · exact ⟨body, rfl, hbody⟩
  obtain ⟨rest, hrest, hnotMem⟩ := hstripped
  have hone : newline ∉ jobPrefix ++ rest := fun hmem ↦
    (List.mem_append.mp hmem).elim hmark hnotMem
  unfold outputLines at hline
  rw [hrest, List.splitOn_eq_singleton hone, List.map_singleton, List.mem_singleton] at hline
  rw [hline, ← List.append_assoc]
  exact List.prefix_append _ _

theorem oneLine_headerMessages {header : Bytes} (h : newline ∉ header)
    (lines : List (Bool × Bytes)) : ∀ msg ∈ headerMessages header lines, OneLine msg := by
  intro msg hmsg
  unfold headerMessages at hmsg
  split_ifs at hmsg with hnone
  · cases hmsg
  · rw [List.mem_singleton.mp hmsg]
    exact ⟨header, h, rfl⟩

theorem Tells.oneLine {j : JobData} {lines : List (Bool × Bytes)} {r : JobData × List Message}
    (h : Tells j lines r) (hheader : newline ∉ j.jobHeader)
    (hlines : ∀ line ∈ lines, ∃ body, newline ∉ body ∧ line.2 = body ++ [newline]) :
    (∀ msg ∈ r.2, OneLine msg) ∧ newline ∉ r.1.jobHeader := by
  constructor
  · intro msg hmsg
    cases hbuffer : j.bufferOutput with
    | true =>
      rw [(h.kept hbuffer).2] at hmsg
      cases hmsg
    | false =>
      rw [(h.written hbuffer).2] at hmsg
      rcases List.mem_append.mp hmsg with hmsg | hmsg
      · exact oneLine_headerMessages hheader lines msg hmsg
      · obtain ⟨line, hline, rfl⟩ := List.mem_map.mp hmsg
        exact hlines line hline
  · rw [h.jobHeader]
    split_ifs
    · exact hheader
    · exact List.not_mem_nil

/-! ### One call -/

/-- What a call on a job with a prefix writes is single lines, and so are those to come; while there
is something to write, the job stays open. -/
structure OneLines (s : Jobs) (c : Call) (jobs : Jobs) : Prop where
  writes : ∀ block ∈ s.writes c, ∀ msg ∈ block, OneLine msg
  header : ∀ j ∈ jobs.jobs[c.job]?, newline ∉ j.jobHeader
  opened : s.writes c ≠ [] → c.job ∈ jobs.jobs

theorem forall_mem_map_singleton {α : Type*} {P : α → Prop} {l : List α} (h : ∀ a ∈ l, P a) :
    ∀ block ∈ l.map ([·]), ∀ a ∈ block, P a := by
  intro block hblock a ha
  obtain ⟨b, hb, rfl⟩ := List.mem_map.mp hblock
  exact List.mem_singleton.mp ha ▸ h b hb

theorem mem_insert_self {jobs : TreeMap ℕ JobData} {n : ℕ} {j : JobData} : n ∈ jobs.insert n j :=
  TreeMap.mem_insert_self

theorem oneLines_call {s : LoggerQueue} {c : Call} {jobs : Jobs} {code : Code} {j : JobData}
    {t : Talk} (hc : c.job ≠ noJob) (hj : s.jobs.jobs[c.job]? = some j) (ht : Refines t j)
    (hheader : newline ∉ j.jobHeader) (hmark : j.jobPrefix ≠ [])
    (hguard : MarksLines s (.call c)) (hcall : s.jobs.call c = some (jobs, code)) :
    OneLines s.jobs c jobs := by
  cases c with
  | requestJobHandle bufferOutput jobPrefix => exact absurd rfl hc
  | setJobHeader job header =>
    obtain ⟨rfl, -⟩ := Prod.ext_iff.mp (Option.some_inj.mp ((if_neg hc).symm.trans hcall))
    refine ⟨fun _ hblock ↦ absurd hblock List.not_mem_nil, fun j' hj' ↦ ?_,
      fun hne ↦ absurd rfl hne⟩
    have hset : (s.jobs.jobs.modify job (·.setJobHeader header))[job]? =
        some (j.setJobHeader header) := by
      have hj : s.jobs.jobs[job]? = some j := hj
      rw [TreeMap.getElem?_modify_self, hj, Option.map_some]
    obtain rfl := Option.some_inj.mp (hset.symm.trans hj')
    exact hguard j hj hmark
  | getOutputHandler job =>
    obtain ⟨rfl, -⟩ := Prod.ext_iff.mp (Option.some_inj.mp hcall)
    refine ⟨fun _ hblock ↦ absurd hblock List.not_mem_nil, fun j' hj' ↦ ?_,
      fun hne ↦ absurd rfl hne⟩
    exact Option.some_inj.mp (hj.symm.trans hj') ▸ hheader
  | handleOutput job isError data =>
    have hj : s.jobs.jobs[job]? = some j := hj
    have hnext := (if_neg hc).symm.trans hcall
    rw [hj, Option.map_some] at hnext
    obtain ⟨rfl, -⟩ := Prod.ext_iff.mp (Option.some_inj.mp hnext)
    obtain ⟨-, htells⟩ := ht.handleOutput isError data
    obtain ⟨hmessages, hheader'⟩ := htells.oneLine hheader fun line hline ↦ by
      obtain ⟨text, htext, rfl⟩ := List.mem_map.mp hline
      exact (LineBuffer.feed_ended (ht.notMem isError) marker_notMem data).1 text htext
    have hwrites : s.jobs.writes (.handleOutput job isError data) =
        (j.handleOutput isError data).2.map ([·]) := by
      show (s.jobs.jobs[job]?).elim [] _ = _
      rw [hj, Option.elim_some]
    refine ⟨?_, fun j' hj' ↦ ?_, fun _ ↦ mem_insert_self⟩
    · rw [hwrites]
      exact forall_mem_map_singleton hmessages
    · obtain rfl := Option.some_inj.mp (TreeMap.getElem?_insert_self.symm.trans hj')
      exact hheader'
  | log isError message job =>
    have hj : s.jobs.jobs[job]? = some j := hj
    have hnext := (if_neg hc).symm.trans hcall
    rw [hj] at hnext
    obtain ⟨rfl, -⟩ := Prod.ext_iff.mp (Option.some_inj.mp hnext)
    obtain ⟨htells, -⟩ := handleMessage_tells j isError (message ++ [newline])
    obtain ⟨hmessages, hheader'⟩ := htells.oneLine hheader fun line hline ↦ by
      rw [List.mem_singleton.mp hline]
      exact ⟨message, hguard j hj hmark, rfl⟩
    have hwrites : s.jobs.writes (.log isError message job) =
        (j.handleMessage isError (message ++ [newline])).2.map ([·]) := by
      refine (if_neg hc).trans ?_
      rw [hj, Option.elim_some]
    refine ⟨?_, fun j' hj' ↦ ?_, fun _ ↦ mem_insert_self⟩
    · rw [hwrites]
      exact forall_mem_map_singleton hmessages
    · obtain rfl := Option.some_inj.mp (TreeMap.getElem?_insert_self.symm.trans hj')
      exact hheader'
  | closeJob job =>
    have hj : s.jobs.jobs[job]? = some j := hj
    obtain ⟨rfl, -⟩ := Prod.ext_iff.mp (Option.some_inj.mp ((if_neg hc).symm.trans hcall))
    have hwrites : s.jobs.writes (.closeJob job) = [] := by
      refine (if_neg hc).trans ?_
      rw [hj, Option.elim_some]
      exact hguard j hj hmark
    refine ⟨?_, fun j' hj' ↦ ?_, fun hne ↦ absurd hwrites hne⟩
    · rw [hwrites]
      exact fun _ hblock ↦ absurd hblock List.not_mem_nil
    · cases TreeMap.getElem?_erase_self.symm.trans hj'

/-! ### Runs -/

/-- Everything that a job with a prefix has written is marked with it. -/
structure Marked (actions : List QueueAction) (s : LoggerQueue) : Prop where
  prefixes : ∀ x ∈ requests actions, newline ∉ x.2 ∧ x.2.getLast? ≠ some carriageReturn
  header : ∀ (n : ℕ) (j : JobData), s.jobs.jobs[n]? = some j → j.jobPrefix ≠ [] →
    newline ∉ j.jobHeader
  pending : ∀ (n : ℕ) (x : Bool × Bytes), opening n actions = some x → x.2 ≠ [] →
    (∀ block ∈ s.pending n, ∀ msg ∈ block, OneLine msg) ∧ (s.pending n ≠ [] → n ∈ s.jobs.jobs)
  queue : ∀ (msg : Queued) (x : Bool × Bytes), msg ∈ s.queue →
    opening msg.job actions = some x → x.2 ≠ [] →
      ∃ body, newline ∉ body ∧ msg.text = x.2 ++ (body ++ [newline])
  output : ∀ (shown : Shown) (x : Bool × Bytes), shown ∈ s.output →
    opening shown.job actions = some x → x.2 ≠ [] → ∀ line ∈ shown.lines,
      s.linePrefix shown.message.1 ++ x.2 <+: line

section Steps

variable {actions : List QueueAction} {s s' : LoggerQueue}

theorem Marked.prefix_spec (h : Marked actions s) {n : ℕ} {x : Bool × Bytes}
    (hx : opening n actions = some x) :
    newline ∉ x.2 ∧ x.2.getLast? ≠ some carriageReturn := by
  unfold opening at hx
  split_ifs at hx
  exact h.prefixes x (List.mem_of_getElem? hx)

/-- An action that opens no job and shows nothing. -/
theorem Marked.of_requests (h : Marked actions s) {a : QueueAction} (ha : requests [a] = [])
    (hheader : ∀ (n : ℕ) (j : JobData), s'.jobs.jobs[n]? = some j → j.jobPrefix ≠ [] →
      newline ∉ j.jobHeader)
    (hpending : ∀ (n : ℕ) (x : Bool × Bytes), opening n actions = some x → x.2 ≠ [] →
      (∀ block ∈ s'.pending n, ∀ msg ∈ block, OneLine msg) ∧
        (s'.pending n ≠ [] → n ∈ s'.jobs.jobs))
    (hqueue : ∀ (msg : Queued) (x : Bool × Bytes), msg ∈ s'.queue →
      opening msg.job actions = some x → x.2 ≠ [] →
        ∃ body, newline ∉ body ∧ msg.text = x.2 ++ (body ++ [newline]))
    (houtput : ∀ (shown : Shown) (x : Bool × Bytes), shown ∈ s'.output →
      opening shown.job actions = some x → x.2 ≠ [] → ∀ line ∈ shown.lines,
        s'.linePrefix shown.message.1 ++ x.2 <+: line) : Marked (actions ++ [a]) s' := by
  have hsame : requests (actions ++ [a]) = requests actions := by
    rw [requests_append, ha, List.append_nil]
  have hopening := opening_of_requests hsame
  refine ⟨hsame ▸ h.prefixes, hheader, fun n x hx ↦ ?_, fun msg x hmsg hx ↦ ?_,
    fun shown x hshown hx ↦ ?_⟩
  · exact hpending n x ((hopening n).symm.trans hx)
  · exact hqueue msg x hmsg ((hopening msg.job).symm.trans hx)
  · exact houtput shown x hshown ((hopening shown.job).symm.trans hx)

theorem Marked.request (h : Marked actions s) (ht : Told actions s) (bufferOutput : Bool)
    {jobPrefix : Bytes} (hguard : newline ∉ jobPrefix ∧ jobPrefix.getLast? ≠ some carriageReturn) :
    Marked (actions ++ [.call (.requestJobHandle bufferOutput jobPrefix)])
      { s with jobs := ⟨s.jobs.nextJob + 1,
          s.jobs.jobs.insert s.jobs.nextJob (.new s.jobs.nextJob bufferOutput jobPrefix)⟩ } := by
  obtain ⟨-, hidle⟩ := ht.unopened s.jobs.nextJob le_rfl
  have hunheard : s.jobs.nextJob ∉ s.speakers := by
    have hnext : s.jobs.nextJob ≠ noJob := by
      rw [ht.nextJob]
      exact Nat.succ_ne_zero _
    have hsaid := ht.said _ hnext
    have hsilent : talk s.jobs.nextJob actions = .new := by
      unfold talk
      rw [(ht.unopened s.jobs.nextJob le_rfl).1, List.foldl_nil]
    rw [hsilent, List.append_assoc] at hsaid
    exact (notMem_speakers_iff s _).mpr (List.append_eq_nil_iff.mp hsaid).1
  rw [LoggerQueue.speakers, List.mem_append, not_or] at hunheard
  have hbefore : ∀ (n : ℕ) (x : Bool × Bytes), n ≠ s.jobs.nextJob →
      opening n (actions ++ [.call (.requestJobHandle bufferOutput jobPrefix)]) = some x →
        opening n actions = some x := fun n x hn hx ↦
    (opening_request bufferOutput jobPrefix hx).resolve_right fun hlast ↦
      hn (hlast.1.trans ht.nextJob.symm)
  refine ⟨fun x hx ↦ ?_, fun n j hj hmark ↦ ?_, fun n x hx hmark ↦ ?_,
    fun msg x hmsg hx hmark ↦ ?_, fun shown x hshown hx hmark ↦ ?_⟩
  · rw [requests_append] at hx
    rcases List.mem_append.mp hx with hx | hx
    · exact h.prefixes x hx
    · rw [List.mem_singleton.mp hx]
      exact hguard
  · by_cases hn : n = s.jobs.nextJob
    · subst hn
      obtain rfl := Option.some_inj.mp (TreeMap.getElem?_insert_self.symm.trans hj)
      exact List.not_mem_nil
    · exact h.header n j ((getElem?_insert_of_ne hn).symm.trans hj) hmark
  · by_cases hn : n = s.jobs.nextJob
    · subst hn
      show (∀ block ∈ s.pending s.jobs.nextJob, _) ∧ (s.pending s.jobs.nextJob ≠ [] → _)
      rw [hidle]
      exact ⟨fun _ hblock ↦ absurd hblock List.not_mem_nil, fun hne ↦ absurd rfl hne⟩
    · obtain ⟨hlines, hopen⟩ := h.pending n x (hbefore n x hn hx) hmark
      refine ⟨hlines, fun hne ↦ ?_⟩
      exact TreeMap.mem_insert.mpr (Or.inr (hopen hne))
  · have hn : msg.job ≠ s.jobs.nextJob := fun heq ↦
      hunheard.2 (heq ▸ List.mem_map_of_mem hmsg)
    exact h.queue msg x hmsg (hbefore msg.job x hn hx) hmark
  · have hn : shown.job ≠ s.jobs.nextJob := fun heq ↦
      hunheard.1 (heq ▸ List.mem_map_of_mem hshown)
    exact h.output shown x hshown (hbefore shown.job x hn hx) hmark

theorem Marked.call (h : Marked actions s) (ht : Told actions s) {c : Call} {jobs : Jobs}
    {code : Code} {j : JobData} (hc : c.job ≠ noJob) (hj : s.jobs.jobs[c.job]? = some j)
    (hpending : s.pending c.job = []) (hcall : s.jobs.call c = some (jobs, code))
    (hguard : MarksLines s (.call c)) :
    Marked (actions ++ [.call c])
      { s with jobs, pending := Function.update s.pending c.job (s.jobs.writes c) } := by
  have hrequest : requests [.call c] = [] := by
    cases c with
    | requestJobHandle bufferOutput jobPrefix => exact absurd rfl hc
    | _ => rfl
  obtain ⟨-, -, hopening, hrefines, hdirect⟩ := ht.opened _ j hj
  obtain ⟨after, others, hspeaks⟩ := exists_speaks rfl hc hj hrefines hdirect
  obtain ⟨code', hcode⟩ := hspeaks.call
  obtain ⟨rfl, -⟩ := Prod.ext_iff.mp (Option.some_inj.mp (hcall.symm.trans hcode))
  have hlines : j.jobPrefix ≠ [] → OneLines s.jobs c ⟨s.jobs.nextJob, others⟩ := fun hmark ↦
    oneLines_call hc hj hrefines (h.header _ j hj hmark) hmark hguard hcall
  refine h.of_requests hrequest (fun n j' hj' hmark ↦ ?_) (fun n x hx hmark ↦ ?_) h.queue
    h.output
  · by_cases hn : n = c.job
    · subst hn
      have hsame := (hspeaks.follows j' (hspeaks.self.symm.trans hj')).jobPrefix
      exact (hlines (hsame ▸ hmark)).header j' hj'
    · exact h.header n j' ((hspeaks.other n hn).symm.trans hj') hmark
  · show (∀ block ∈ Function.update s.pending c.job (s.jobs.writes c) n, _) ∧
      (Function.update s.pending c.job (s.jobs.writes c) n ≠ [] → _)
    by_cases hn : n = c.job
    · subst hn
      obtain rfl := Option.some_inj.mp (hopening.symm.trans hx)
      rw [Function.update_self]
      exact ⟨(hlines hmark).writes, (hlines hmark).opened⟩
    · obtain ⟨hone, hopen⟩ := h.pending n x hx hmark
      rw [Function.update_of_ne hn]
      refine ⟨hone, fun hne ↦ ?_⟩
      have hsome := TreeMap.isSome_getElem?_iff_mem.mpr (hopen hne)
      rw [← hspeaks.other n hn] at hsome
      exact TreeMap.isSome_getElem?_iff_mem.mp hsome

theorem Marked.write (h : Marked actions s) (ht : Told actions s) {n : ℕ}
    {messages : List Message} {rest : List (List Message)}
    (hpending : s.pending n = messages :: rest) :
    Marked (actions ++ [.write n])
      ({ s with pending := Function.update s.pending n rest }.writeToLogger messages n) := by
  refine h.of_requests rfl h.header (fun m x hx hmark ↦ ?_) (fun msg x hmsg hx hmark ↦ ?_)
    h.output
  · obtain ⟨hone, hopen⟩ := h.pending m x hx hmark
    show (∀ block ∈ Function.update s.pending n rest m, _) ∧
      (Function.update s.pending n rest m ≠ [] → _)
    by_cases hm : m = n
    · subst hm
      rw [hpending] at hone hopen
      rw [Function.update_self]
      exact ⟨fun block hblock ↦ hone block (List.mem_cons_of_mem _ hblock),
        fun _ ↦ hopen (List.cons_ne_nil _ _)⟩
    · rw [Function.update_of_ne hm]
      exact ⟨hone, hopen⟩
  · rcases List.mem_append.mp hmsg with hmsg | hmsg
    · exact h.queue msg x hmsg hx hmark
    · -- the job is open, so that the prefix is found
      obtain ⟨message, hmessage, rfl⟩ := List.mem_map.mp hmsg
      obtain ⟨hone, hopen⟩ := h.pending n x hx hmark
      rw [hpending] at hone hopen
      obtain ⟨j, hj⟩ := Option.isSome_iff_exists.mp
        (TreeMap.isSome_getElem?_iff_mem.mpr (hopen (List.cons_ne_nil _ _)))
      obtain ⟨-, -, hopening, -, -⟩ := ht.opened n j hj
      obtain rfl := Option.some_inj.mp (hopening.symm.trans hx)
      obtain ⟨body, hbody, htext⟩ := hone messages List.mem_cons_self message hmessage
      refine ⟨body, hbody, ?_⟩
      show (s.jobs.jobs[n]?).elim message.2 (·.prefixMessage message.2) = _
      rw [hj, Option.elim_some, JobData.prefixMessage, htext]

theorem Marked.display (h : Marked actions s) {msg : Queued} {queue : List Queued}
    (hqueue : s.queue = msg :: queue) :
    Marked (actions ++ [.display]) { s with queue, output := s.output ++ [s.display msg] } := by
  refine h.of_requests rfl h.header h.pending (fun other x hother ↦ ?_)
    fun shown x hshown hx hmark line hline ↦ ?_
  · exact h.queue other x (hqueue ▸ List.mem_cons_of_mem _ hother)
  · rcases List.mem_append.mp hshown with hshown | hshown
    · exact h.output shown x hshown hx hmark line hline
    · obtain rfl := List.mem_singleton.mp hshown
      obtain ⟨body, hbody, htext⟩ :=
        h.queue msg x (hqueue ▸ List.mem_cons_self) hx hmark
      obtain ⟨hplain, hlast⟩ := h.prefix_spec hx
      unfold LoggerQueue.display at hline
      rw [htext] at hline
      obtain ⟨n, ⟨type, data⟩, text⟩ := msg
      cases type with
      | shutdown => cases hline
      | info => exact prefix_of_mem_outputLines _ hplain hlast hbody hline
      | error => exact prefix_of_mem_outputLines _ hplain hlast hbody hline

theorem Marked.act (h : Marked actions s) (ht : Told actions s) {a : QueueAction}
    (hguard : MarksLines s a) (hact : s.act a = some s') : Marked (actions ++ [a]) s' := by
  cases acted_of_act hact with
  | request bufferOutput jobPrefix => exact h.request ht bufferOutput hguard
  | noJob c hc hrequest =>
    refine h.of_requests hrequest h.header (fun n x hx hmark ↦ ?_) h.queue h.output
    have hn : n ≠ c.job := hc ▸ ne_noJob_of_opening hx
    show (∀ block ∈ Function.update s.pending c.job _ n, _) ∧
      (Function.update s.pending c.job _ n ≠ [] → _)
    rw [Function.update_of_ne hn]
    exact h.pending n x hx hmark
  | call c jobs code j hc hj hpending hcall => exact h.call ht hc hj hpending hcall hguard
  | write n messages rest hpending => exact h.write ht hpending
  | display msg queue hqueue => exact h.display hqueue

end Steps

theorem marked_new (outputPrefix errorPrefix : Bytes) :
    Marked [] (.new outputPrefix errorPrefix) := by
  refine ⟨fun _ hx ↦ absurd hx List.not_mem_nil, fun n j hj ↦ ?_, fun n x hx ↦ ?_,
    fun _ _ hmsg ↦ absurd hmsg List.not_mem_nil, fun _ _ hshown ↦ absurd hshown List.not_mem_nil⟩
  · have hnone : (∅ : TreeMap ℕ JobData)[n]? = none := TreeMap.getElem?_emptyc
    cases hnone.symm.trans hj
  · unfold opening at hx
    split_ifs at hx
    cases hx

theorem marked_of_run {outputPrefix errorPrefix : Bytes} {actions : List QueueAction}
    {s : LoggerQueue} (hrun : (LoggerQueue.new outputPrefix errorPrefix).run actions = some s)
    (hmeets : Meets LoggerQueue.act MarksLines (.new outputPrefix errorPrefix) actions) :
    Marked actions s := by
  suffices h : ∀ (rest before : List QueueAction) (s₀ : LoggerQueue), Told before s₀ →
      Marked before s₀ → Meets LoggerQueue.act MarksLines s₀ rest →
      rest.foldlM LoggerQueue.act s₀ = some s → Marked (before ++ rest) s from
    h actions [] _ (told_new _ _) (marked_new _ _) hmeets hrun
  intro rest
  induction rest with
  | nil =>
    intro before s₀ _ hmarked _ hrest
    obtain rfl := Option.some_inj.mp hrest
    rwa [List.append_nil]
  | cons a rest ih =>
    intro before s₀ htold hmarked hmeets hrest
    rw [List.foldlM_cons] at hrest
    obtain ⟨s₁, hact, hrest⟩ := Option.bind_eq_some_iff.mp hrest
    have hnext := ih (before ++ [a]) s₁ (htold.act hact) (hmarked.act htold hmeets.1 hact)
      (hmeets.2 s₁ hact) hrest
    rwa [List.append_assoc] at hnext

/-- The text of a message is what the job wrote, or this with the prefix of the job. -/
def TextOf (actions : List QueueAction) (job : ℕ) (msg : Message) (text : Bytes) : Prop :=
  text = msg.2 ∨ ∃ x ∈ opening job actions, text = x.2 ++ msg.2

/-- Everything that is shown is the text of a message. -/
structure Texts (actions : List QueueAction) (s : LoggerQueue) : Prop where
  queue : ∀ msg ∈ s.queue, TextOf actions msg.job msg.message msg.text
  output : ∀ shown ∈ s.output, ∃ text, TextOf actions shown.job shown.message text ∧
    shown = s.display ⟨shown.job, shown.message, text⟩

section Steps

variable {actions : List QueueAction} {s s' : LoggerQueue}

theorem TextOf.append {n : ℕ} {msg : Message} {text : Bytes} (h : TextOf actions n msg text)
    (a : QueueAction) : TextOf (actions ++ [a]) n msg text := by
  refine h.imp_right fun hmark ↦ ?_
  obtain ⟨x, hx, htext⟩ := hmark
  exact ⟨x, opening_append hx a, htext⟩

theorem Texts.of_append (h : Texts actions s) (a : QueueAction) : Texts (actions ++ [a]) s := by
  refine ⟨fun msg hmsg ↦ (h.queue msg hmsg).append a, fun shown hshown ↦ ?_⟩
  obtain ⟨text, htext, hdisplay⟩ := h.output shown hshown
  exact ⟨text, htext.append a, hdisplay⟩

theorem Texts.act (h : Texts actions s) (ht : Told actions s) {a : QueueAction}
    (hact : s.act a = some s') : Texts (actions ++ [a]) s' := by
  have hnext := h.of_append a
  cases acted_of_act hact with
  | request bufferOutput jobPrefix => exact ⟨hnext.queue, hnext.output⟩
  | noJob c hc hrequest => exact ⟨hnext.queue, hnext.output⟩
  | call c jobs code j hc hj hpending hcall => exact ⟨hnext.queue, hnext.output⟩
  | write n messages rest hpending =>
    refine ⟨fun msg hmsg ↦ ?_, hnext.output⟩
    rcases List.mem_append.mp hmsg with hmsg | hmsg
    · exact hnext.queue msg hmsg
    · obtain ⟨message, -, rfl⟩ := List.mem_map.mp hmsg
      show TextOf _ n message ((s.jobs.jobs[n]?).elim message.2 (·.prefixMessage message.2))
      cases hj : s.jobs.jobs[n]? with
      | none => exact Or.inl rfl
      | some j => exact Or.inr ⟨_, opening_append (ht.opened n j hj).2.2.1 _, rfl⟩
  | display msg queue hqueue =>
    refine ⟨fun other hother ↦ hnext.queue other (hqueue ▸ List.mem_cons_of_mem _ hother),
      fun shown hshown ↦ ?_⟩
    rcases List.mem_append.mp hshown with hshown | hshown
    · exact hnext.output shown hshown
    · obtain rfl := List.mem_singleton.mp hshown
      exact ⟨msg.text, hnext.queue msg (hqueue ▸ List.mem_cons_self), rfl⟩

theorem texts_of_run {outputPrefix errorPrefix : Bytes}
    (hrun : (LoggerQueue.new outputPrefix errorPrefix).run actions = some s) : Texts actions s := by
  induction actions using List.reverseRecOn generalizing s with
  | nil =>
    obtain rfl := Option.some_inj.mp hrun
    exact ⟨fun _ hmsg ↦ absurd hmsg List.not_mem_nil,
      fun _ hshown ↦ absurd hshown List.not_mem_nil⟩
  | append_singleton actions a ih =>
    unfold LoggerQueue.run at hrun
    rw [List.foldlM_append] at hrun
    obtain ⟨s₁, hs₁, hact⟩ := Option.bind_eq_some_iff.mp hrun
    rw [List.foldlM_cons] at hact
    obtain ⟨s₂, hs₂, hlast⟩ := Option.bind_eq_some_iff.mp hact
    obtain rfl := Option.some_inj.mp hlast
    exact (ih hs₁).act (told_of_run hs₁) hs₂

end Steps

/-- Two jobs write at the same time, a buffered one and one with a prefix, and a message is logged
without a job. -/
def sampleActions : List QueueAction :=
  [.call (.requestJobHandle true []), .call (.requestJobHandle false (ascii "[2] ")),
    .call (.handleOutput 1 false (ascii "a\n")), .call (.handleOutput 2 false (ascii "b\nc")),
    .write 2, .call (.log true (ascii "e") noJob), .display,
    .call (.handleOutput 1 false (ascii "d")), .call (.closeJob 1), .write noJob,
    .call (.handleOutput 2 false (ascii "e\n")), .write 1, .write 2, .display, .display, .display,
    .display, .call (.closeJob 2)]

/-- A begun line is left when a job with a prefix is closed. -/
def leftActions : List QueueAction :=
  [.call (.requestJobHandle false (ascii "[1] ")), .call (.handleOutput 1 false (ascii "a")),
    .call (.closeJob 1), .write 1, .display]

instance : ∀ s a, Decidable (MarksLines s a)
  | _, .call (.requestJobHandle _ _) => inferInstanceAs (Decidable (_ ∧ _))
  | s, .call (.setJobHeader job header) =>
    inferInstanceAs (Decidable (∀ j ∈ s.jobs.jobs[job]?, j.jobPrefix ≠ [] → newline ∉ header))
  | s, .call (.log _ message job) =>
    inferInstanceAs (Decidable (∀ j ∈ s.jobs.jobs[job]?, j.jobPrefix ≠ [] → newline ∉ message))
  | s, .call (.closeJob job) =>
    inferInstanceAs (Decidable (∀ j ∈ s.jobs.jobs[job]?, j.jobPrefix ≠ [] → j.flushWrites = []))
  | _, .call (.getOutputHandler _) => isTrue trivial
  | _, .call (.handleOutput _ _ _) => isTrue trivial
  | _, .write _ => isTrue trivial
  | _, .display => isTrue trivial

example : ((LoggerQueue.new [] []).run sampleActions).map (fun s ↦ s.output.flatMap (·.lines)) =
    some [ascii "[2] b", ascii "e", ascii "a", ascii "d[no newline]", ascii "[2] ce"] := by decide

/-- Not every line of a job with a prefix has that prefix. -/
theorem not_prefix_of_run : ¬ ∀ (actions : List QueueAction) (s : LoggerQueue),
    (LoggerQueue.new [] []).run actions = some s →
      ∀ shown ∈ s.output, ∀ x ∈ opening shown.job actions, x.2 ≠ [] →
        ∀ line ∈ shown.lines, s.linePrefix shown.message.1 ++ x.2 <+: line := by
  intro h
  obtain ⟨s, hs⟩ := Option.isSome_iff_exists.mp
    (show ((LoggerQueue.new [] []).run leftActions).isSome by decide)
  have hlines : ((LoggerQueue.new [] []).run leftActions).map (·.output) =
      some [⟨1, (.info, ascii "a[no newline]\n"), [ascii "a[no newline]"]⟩] := by decide
  rw [hs, Option.map_some, Option.some_inj] at hlines
  have hline := h leftActions s hs ⟨1, (.info, ascii "a[no newline]\n"), [ascii "a[no newline]"]⟩
    (hlines ▸ List.mem_singleton_self _) (false, ascii "[1] ") (by decide) (by decide)
    (ascii "a[no newline]") (List.mem_singleton_self _)
  have houtput : s.linePrefix .info = [] := by
    have hsame : ((LoggerQueue.new [] []).run leftActions).map (·.linePrefix .info) =
        some [] := by decide
    rwa [hs, Option.map_some, Option.some_inj] at hsame
  rw [houtput] at hline
  exact absurd hline (by decide)

end Abuild.Logger
