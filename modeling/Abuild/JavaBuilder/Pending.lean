import Abuild.JavaBuilder.Decode
import Abuild.JavaBuilder.Threads
import Abuild.Library.Guarded

/-!
The requests that wait for a response. Each is responded to once, by a message of the Java
side or by the last section of `runIO`. A request that is registered after that section, by a
caller for which `start` returned before the Java side exited, is left without a response; so is
one that such a caller registers while the Java side is started again, when it does not connect
(`answered_and_emptied_iff`).
-/

set_option autoImplicit false
set_option relaxedAutoImplicit false

namespace Abuild.BuilderThreads

open Guarded JavaBuilder
open Std (TreeSet)

variable {ι : Type}

/-- No request waits when the thread of `runIO` has ended in the stopped mode. -/
def Emptied (s : BuilderThreads ι) : Prop :=
  s.ioThread = some .finished → s.builder.runMode = .stopped → ∀ n, n ∉ s.builder.jobData

/-- No request is registered then. -/
def NotLate (s : BuilderThreads ι) : BuilderAction ι → Prop
  | .register _ => ¬ (s.ioThread = some .finished ∧ s.builder.runMode = .stopped)
  | _ => True

instance (s : BuilderThreads ι) (action : BuilderAction ι) : Decidable (NotLate s action) := by
  cases action with
  | register _ => exact inferInstanceAs (Decidable (¬ _))
  | _ => exact isTrue trivial

/-! ### Responses -/

def isResponseTo (n : ℕ) : Dispatch → Bool
  | .respond requestNumber _ => requestNumber = n
  | _ => false

/-- A registered request waits and has had no response, or has had one. -/
structure Answered (b : JavaBuilder) : Prop where
  registered : ∀ n ∈ b.jobData, 1 ≤ n ∧ n ≤ b.lastRequest
  responses : ∀ n, b.dispatched.countP (isResponseTo n) =
    if n ∈ b.jobData then 0 else if 1 ≤ n ∧ n ≤ b.lastRequest then 1 else 0

theorem Answered.act {b b' : JavaBuilder} (h : Answered b) {d : Dispatch}
    (hact : act b d = some b') : Answered b' := by
  unfold JavaBuilder.act at hact
  obtain ⟨hexpected, heq⟩ := Option.ite_none_right_eq_some.mp hact
  obtain rfl := Option.some_inj.mp heq
  cases d with
  | respond m status =>
    have hm : m ∈ b.jobData := TreeSet.mem_iff_contains.mpr hexpected
    have herase : ∀ n, n ∈ b.jobData.erase m ↔ n ≠ m ∧ n ∈ b.jobData := by
      intro n
      rw [TreeSet.mem_erase, compare_eq_iff_eq.ne, ne_comm]
    refine ⟨fun n hn ↦ h.registered n ((herase n).mp hn).2, fun n ↦ ?_⟩
    show (b.dispatched ++ [Dispatch.respond m status]).countP (isResponseTo n) =
      if n ∈ b.jobData.erase m then 0 else if 1 ≤ n ∧ n ≤ b.lastRequest then 1 else 0
    rw [List.countP_append, h.responses n, List.countP_singleton]
    by_cases hnm : n = m
    · subst hnm
      have hself : isResponseTo n (.respond n status) = true := decide_eq_true rfl
      have hnot : n ∉ b.jobData.erase n := fun hn ↦ ((herase n).mp hn).1 rfl
      rw [if_pos hm, if_pos hself, if_neg hnot, if_pos (h.registered n hm)]
    · have hne : isResponseTo n (.respond m status) = false := decide_eq_false (Ne.symm hnm)
      rw [hne]
      simp only [herase, Bool.false_eq_true, if_false, Nat.add_zero]
      simp [hnm]
  | handleOutput m isError message =>
    refine ⟨h.registered, fun n ↦ ?_⟩
    show (b.dispatched ++ [Dispatch.handleOutput m isError message]).countP (isResponseTo n) = _
    rw [List.countP_append]
    exact h.responses n
  | handleRogueOutput isError message =>
    refine ⟨h.registered, fun n ↦ ?_⟩
    show (b.dispatched ++ [Dispatch.handleRogueOutput isError message]).countP (isResponseTo n) = _
    rw [List.countP_append]
    exact h.responses n

theorem Answered.registerRequest {b b' : JavaBuilder} (h : Answered b)
    (hregister : b.registerRequest = some b') : Answered b' := by
  unfold JavaBuilder.registerRequest at hregister
  obtain ⟨-, heq⟩ := Option.ite_none_right_eq_some.mp hregister
  obtain rfl := Option.some_inj.mp heq
  have hinsert : ∀ n, n ∈ b.jobData.insert (b.lastRequest + 1) ↔
      n = b.lastRequest + 1 ∨ n ∈ b.jobData := by
    intro n
    rw [TreeSet.mem_insert, compare_eq_iff_eq, eq_comm]
  refine ⟨fun n hn ↦ ?_, fun n ↦ ?_⟩
  · show 1 ≤ n ∧ n ≤ b.lastRequest + 1
    rcases (hinsert n).mp hn with rfl | hn
    · exact ⟨Nat.succ_pos _, le_refl _⟩
    · have hle := h.registered n hn
      omega
  · show b.dispatched.countP (isResponseTo n) = if n ∈ b.jobData.insert (b.lastRequest + 1) then 0
      else if 1 ≤ n ∧ n ≤ b.lastRequest + 1 then 1 else 0
    rw [h.responses n]
    simp only [hinsert]
    have hrange := h.registered n
    by_cases hnew : n = b.lastRequest + 1
    · have hnot : n ∉ b.jobData := fun hn ↦ by
        have hle := (hrange hn).2
        omega
      rw [if_neg hnot, if_pos (Or.inl hnew), if_neg (by omega)]
    · simp only [hnew, false_or]
      by_cases hn : n ∈ b.jobData
      · rw [if_pos hn, if_pos hn]
      · rw [if_neg hn, if_neg hn]
        exact if_congr (by omega) rfl rfl

/-- The requests that the last section fails. -/
theorem countP_failed (jobData : TreeSet ℕ) (n : ℕ) :
    (jobData.toList.map (Dispatch.respond · false)).countP (isResponseTo n) =
      if n ∈ jobData then 1 else 0 := by
  have hnodup : jobData.toList.Nodup :=
    TreeSet.distinct_toList.imp fun hne heq ↦ hne (compare_eq_iff_eq.mpr heq)
  have hcount : (jobData.toList.map (Dispatch.respond · false)).countP (isResponseTo n) =
      jobData.toList.count n := by
    rw [List.countP_map]
    exact List.countP_congr fun m _ ↦ by simp [isResponseTo]
  rw [hcount, hnodup.count]
  simp only [TreeSet.mem_toList]

theorem Answered.endOfRun {b : JavaBuilder} (h : Answered b) : Answered b.endOfRun := by
  unfold JavaBuilder.endOfRun
  by_cases hmode : b.runMode = .startingUp
  · rw [if_pos hmode]
    exact ⟨h.registered, h.responses⟩
  · rw [if_neg hmode]
    refine ⟨fun n hn ↦ absurd hn TreeSet.not_mem_emptyc, fun n ↦ ?_⟩
    show (b.dispatched ++ b.jobData.toList.map (Dispatch.respond · false)).countP (isResponseTo n) =
      if n ∈ (∅ : TreeSet ℕ) then 0 else if 1 ≤ n ∧ n ≤ b.lastRequest then 1 else 0
    rw [List.countP_append, h.responses n, countP_failed, if_neg TreeSet.not_mem_emptyc]
    by_cases hn : n ∈ b.jobData
    · rw [if_pos hn, if_pos hn, if_pos (h.registered n hn)]
    · rw [if_neg hn, if_neg hn, Nat.add_zero]

/-- What only changes the mode and what has been read. -/
theorem Answered.of_same {b b' : JavaBuilder} (h : Answered b) (hjobData : b'.jobData = b.jobData)
    (hlastRequest : b'.lastRequest = b.lastRequest) (hdispatched : b'.dispatched = b.dispatched) :
    Answered b' := by
  refine ⟨fun n hn ↦ ?_, fun n ↦ ?_⟩
  · rw [hlastRequest]
    exact h.registered n (hjobData ▸ hn)
  · rw [hdispatched, hjobData, hlastRequest]
    exact h.responses n

theorem Answered.handleReadError {b : JavaBuilder} (h : Answered b) (eof : Bool) :
    Answered (b.handleReadError eof) := by
  unfold JavaBuilder.handleReadError
  split_ifs
  · exact h.of_same rfl rfl rfl
  · exact h

theorem Answered.handleRead {b b' : JavaBuilder} {data : Bytes} (h : Answered b)
    (hread : b.handleRead data = some b') : Answered b' :=
  handleRead_induction hread h (fun _ _ h ↦ h.of_same rfl rfl rfl) fun _ _ _ hact h ↦ h.act hact

/-! ### All requests -/

/-- Every request has been responded to once when the thread of `runIO` has ended. -/
def AllAnswered (s : BuilderThreads ι) : Prop :=
  s.ioThread = some .finished → ∀ n, 1 ≤ n → n ≤ s.builder.lastRequest →
    s.builder.dispatched.countP (isResponseTo n) = 1

/-- No request is registered when the thread has ended, and none waits when it ends before the Java
side has connected. -/
def InTime (s : BuilderThreads ι) : BuilderAction ι → Prop
  | .register _ => s.ioThread ≠ some .finished
  | .endOfRun => s.builder.runMode = .startingUp → s.builder.jobData.isEmpty = true
  | _ => True

instance (s : BuilderThreads ι) (action : BuilderAction ι) : Decidable (InTime s action) := by
  cases action with
  | register _ => exact inferInstanceAs (Decidable (_ ≠ _))
  | endOfRun => exact inferInstanceAs (Decidable (_ → _))
  | _ => exact isTrue trivial

/-- A request that waits has had no response. -/
theorem Answered.not_mem {s : BuilderThreads ι} (h : Answered s.builder) (hall : AllAnswered s)
    (hio : s.ioThread = some .finished) (n : ℕ) : n ∉ s.builder.jobData := by
  intro hn
  obtain ⟨hpos, hle⟩ := h.registered n hn
  have hone := hall hio n hpos hle
  rw [h.responses n, if_pos hn] at hone
  cases hone

theorem Answered.allAnswered {s : BuilderThreads ι} (h : Answered s.builder)
    (hnone : ∀ n, n ∉ s.builder.jobData) : AllAnswered s := by
  intro _ n hpos hle
  rw [h.responses n, if_neg (hnone n), if_pos ⟨hpos, hle⟩]

theorem not_mem_of_isEmpty {jobData : TreeSet ℕ} (hempty : jobData.isEmpty = true) (n : ℕ) :
    n ∉ jobData :=
  TreeSet.isEmpty_iff_forall_not_mem.mp hempty n

/-! ### Steps -/

section Step

variable [DecidableEq ι] {s s' : BuilderThreads ι}

theorem Answered.startSection (h : Answered s.builder) (i : ι) :
    Answered (s.startSection i).builder := by
  unfold BuilderThreads.startSection
  cases s.builder.runMode with
  | idle => exact h.of_same rfl rfl rfl
  | _ => exact h

theorem Answered.step (h : Answered s.builder) {action : BuilderAction ι}
    (hstep : step s action = some s') : Answered s'.builder := by
  cases steps_of_step hstep with
  | @start i => exact h.startSection i
  | join => exact h.of_same rfl rfl rfl
  | wake =>
    unfold wakeSection
    cases s.builder.runMode <;> exact h
  | register _ _ _ hregister => exact h.registerRequest hregister
  | handleAccept => exact h.of_same rfl rfl rfl
  | handleRead _ _ _ hbuilder => exact h.handleRead hbuilder
  | @handleReadError eof => exact h.handleReadError eof
  | endOfRun => exact h.endOfRun
  | dequeue | setUp | dispatchAccept | handleWrite | runReturns | joinJava | connect | exit
  | reportExit => exact h

/-- A late request waits for a thread that has ended. -/
theorem not_emptied_of_late {action : BuilderAction ι} (hlate : ¬ NotLate s action)
    (hstep : step s action = some s') : ¬ Emptied s' := by
  cases steps_of_step hstep with
  | register _ _ _ hregister =>
    obtain ⟨hio, hmode⟩ := not_not.mp hlate
    obtain ⟨-, heq⟩ := Option.ite_none_right_eq_some.mp hregister
    obtain rfl := Option.some_inj.mp heq
    exact fun hemptied ↦ hemptied hio hmode (s.builder.lastRequest + 1) TreeSet.mem_insert_self
  | _ => exact absurd trivial hlate

theorem Emptied.step (h : Emptied s) {action : BuilderAction ι} (hnotLate : NotLate s action)
    (hstep : step s action = some s') : Emptied s' := by
  cases steps_of_step hstep with
  | start =>
    unfold startSection
    cases hmode : s.builder.runMode with
    | idle => exact fun hio ↦ by cases hio
    | _ => exact h
  | wake =>
    unfold wakeSection
    cases s.builder.runMode <;> exact h
  | register _ _ _ hregister =>
    obtain ⟨-, heq⟩ := Option.ite_none_right_eq_some.mp hregister
    obtain rfl := Option.some_inj.mp heq
    exact fun hio hmode ↦ absurd ⟨hio, hmode⟩ hnotLate
  | handleRead hserving | handleReadError hserving =>
    intro hio
    cases hserving.1.symm.trans hio
  | endOfRun =>
    intro _ hstopped n
    change s.builder.endOfRun.runMode = _ at hstopped
    show n ∉ s.builder.endOfRun.jobData
    unfold JavaBuilder.endOfRun at hstopped ⊢
    by_cases hmode : s.builder.runMode = .startingUp
    · rw [if_pos hmode] at hstopped
      cases hstopped
    · rw [if_neg hmode]
      exact TreeSet.not_mem_emptyc
  | join | setUp | dispatchAccept | handleAccept | runReturns | joinJava =>
    intro hio
    cases hio
  | dequeue | handleWrite | connect | exit | reportExit => exact h

theorem AllAnswered.step (h : AllAnswered s) (hanswered : Answered s.builder)
    {action : BuilderAction ι} (hinTime : InTime s action) (hstep : step s action = some s') :
    AllAnswered s' := by
  have hanswered' := hanswered.step hstep
  cases steps_of_step hstep with
  | start =>
    unfold startSection
    cases hmode : s.builder.runMode with
    | idle => exact fun hio ↦ by cases hio
    | _ => exact h
  | wake =>
    unfold wakeSection
    cases s.builder.runMode <;> exact h
  | register => exact fun hio ↦ absurd hio hinTime
  | handleRead hserving | handleReadError hserving =>
    intro hio
    cases hserving.1.symm.trans hio
  | endOfRun =>
    refine hanswered'.allAnswered fun n ↦ ?_
    show n ∉ s.builder.endOfRun.jobData
    unfold JavaBuilder.endOfRun
    by_cases hmode : s.builder.runMode = .startingUp
    · rw [if_pos hmode]
      exact not_mem_of_isEmpty (hinTime hmode) n
    · rw [if_neg hmode]
      exact TreeSet.not_mem_emptyc
  | join | setUp | dispatchAccept | handleAccept | runReturns | joinJava =>
    intro hio
    cases hio
  | dequeue | handleWrite | connect | exit | reportExit => exact h

/-- A request that is not in time waits for a thread that has ended. -/
theorem not_allAnswered_of_late (hanswered : Answered s.builder) {action : BuilderAction ι}
    (hlate : ¬ InTime s action) (hstep : step s action = some s') : ¬ AllAnswered s' := by
  have hanswered' := hanswered.step hstep
  intro hall
  cases steps_of_step hstep with
  | register _ _ _ hregister =>
    have hio : s.ioThread = some .finished := not_not.mp hlate
    obtain ⟨-, heq⟩ := Option.ite_none_right_eq_some.mp hregister
    obtain rfl := Option.some_inj.mp heq
    exact hanswered'.not_mem hall hio (s.builder.lastRequest + 1) TreeSet.mem_insert_self
  | endOfRun =>
    obtain ⟨hmode, hwaits⟩ := Classical.not_imp.mp hlate
    refine hwaits (TreeSet.isEmpty_iff_forall_not_mem.mpr fun n hn ↦ ?_)
    refine hanswered'.not_mem hall rfl n ?_
    show n ∈ s.builder.endOfRun.jobData
    unfold JavaBuilder.endOfRun
    rw [if_pos hmode]
    exact hn
  | _ => exact hlate trivial

end Step

theorem answered_new (captureOutput : Bool) : Answered (JavaBuilder.new captureOutput) := by
  refine ⟨fun n hn ↦ absurd hn TreeSet.not_mem_emptyc, fun n ↦ ?_⟩
  show 0 = if n ∈ (∅ : TreeSet ℕ) then 0 else if 1 ≤ n ∧ n ≤ 0 then 1 else 0
  rw [if_neg TreeSet.not_mem_emptyc, if_neg (by omega)]

/-- After it the Java program exits, and the thread of `runIO` ends. -/
def exitOfJava {ι : Type} : List (BuilderAction ι) :=
  [.exit, .reportExit, .handleReadError true, .runReturns, .joinJava, .endOfRun]

/-- The Java side is started and connects. -/
def startOfJava {ι : Type} (i : ι) : List (BuilderAction ι) :=
  [.start i, .setUp, .connect, .dispatchAccept, .handleAccept, .wake i]

/-- A Java side that exits while a request waits. -/
def exitWhileWaiting : List (BuilderAction Unit) :=
  startOfJava () ++ [.register (), .handleWrite false] ++ exitOfJava

/-- While a second caller starts the Java side again, a first one for which `start` has returned
registers a request, and the Java side exits before it connects. -/
def registeredWhileStarting : List (BuilderAction Bool) :=
  startOfJava true ++ exitOfJava ++ [.start false, .join false, .setUp, .register true, .exit,
    .reportExit, .runReturns, .joinJava, .endOfRun]

end Abuild.BuilderThreads
