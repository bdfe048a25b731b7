import Abuild.JavaBuilder

/-!
The messages of the Java side as the builder finds them in its accumulated response. The
loop of `handleResponse` is a decoder (`handleLines_eq`), and every message that the Java
side sends is told apart from what comes before it has arrived in full (`sound_front`).
-/

set_option autoImplicit false
set_option relaxedAutoImplicit false

namespace Abuild.JavaBuilder

open Framing
open Std (TreeSet)

/-! ### The loop as a decoder -/

/-- What output of a request is dispatched to. -/
def outputDispatch (requestNumber : ℕ) (isError : Bool) (message : Bytes) : Dispatch :=
  if requestNumber = 0 then .handleRogueOutput isError message
  else .handleOutput requestNumber isError message

/-- What a line and the bytes after it begin with. -/
def lineFront (response rest : Bytes) : Front Dispatch UInt8 :=
  match matchResponse response with
  | some (number, result) =>
    match atoi number with
    | some requestNumber => .message (.respond requestNumber result) rest
    | none => .malformed
  | none =>
    match matchData response with
    | none => .malformed
    | some (number, isError, length) =>
      match atoi number, atoi length with
      | some requestNumber, some messageLength =>
        match takeMessage messageLength rest with
        | none => .incomplete
        | some (message, rest) => .message (outputDispatch requestNumber isError message) rest
      | _, _ => .malformed

def front (buffer : Bytes) : Front Dispatch UInt8 :=
  if newline ∈ buffer then
    let response := buffer.takeWhile (· != newline)
    lineFront response (buffer.drop (response.length + 1))
  else .incomplete

/-- Whether a message does not violate the protocol, given the requests with job data. -/
def isExpected (jobData : TreeSet ℕ) : Dispatch → Bool
  | .respond requestNumber _ => jobData.contains requestNumber
  | .handleOutput requestNumber _ _ => jobData.contains requestNumber
  | .handleRogueOutput _ _ => true

def jobDataAfter (jobData : TreeSet ℕ) : Dispatch → TreeSet ℕ
  | .respond requestNumber _ => jobData.erase requestNumber
  | _ => jobData

/-- A dispatch, which does not bear on the buffer. -/
def act (b : JavaBuilder) (d : Dispatch) : Option JavaBuilder :=
  if isExpected b.jobData d then
    some { b with
      jobData := jobDataAfter b.jobData d
      dispatched := b.dispatched ++ [d] }
  else none

theorem handleData_eq (b : JavaBuilder) (requestNumber : ℕ) (isError : Bool) (message : Bytes) :
    b.handleData requestNumber isError message =
      act b (outputDispatch requestNumber isError message) := by
  unfold handleData outputDispatch
  by_cases hzero : requestNumber = 0
  · rw [if_pos hzero, if_pos hzero]
    rfl
  · rw [if_neg hzero, if_neg hzero]
    rfl

def setBuffer (b : JavaBuilder) (buffer : Bytes) : JavaBuilder :=
  { b with accumulatedResponse := buffer }

theorem act_setBuffer (b : JavaBuilder) (d : Dispatch) (buffer : Bytes) :
    act (b.setBuffer buffer) d = (act b d).map (·.setBuffer buffer) := by
  unfold act
  by_cases hexpected : isExpected b.jobData d = true
  · rw [if_pos hexpected,
      if_pos (show isExpected (b.setBuffer buffer).jobData d = true from hexpected)]
    rfl
  · rw [if_neg hexpected,
      if_neg (show ¬ isExpected (b.setBuffer buffer).jobData d = true from hexpected)]
    rfl

/-- What changes of the buffer and dispatches keep, the loop keeps. -/
theorem handleLines_induction {motive : JavaBuilder → Prop} {fuel : ℕ} {b b' : JavaBuilder}
    (h : handleLines fuel b = some b') (start : motive b)
    (setBuffer : ∀ b buffer, motive b → motive (b.setBuffer buffer))
    (act : ∀ b d b', act b d = some b' → motive b → motive b') : motive b' := by
  induction fuel generalizing b with
  | zero => exact Option.some_inj.mp h ▸ start
  | succ fuel ih =>
    rw [handleLines] at h
    by_cases hline : newline ∈ b.accumulatedResponse
    · rw [if_pos hline] at h
      dsimp only at h
      generalize b.accumulatedResponse.takeWhile (· != newline) = response at h
      generalize b.accumulatedResponse.drop (response.length + 1) = rest at h
      cases hmatch : matchResponse response with
      | some found =>
        obtain ⟨number, result⟩ := found
        rw [hmatch] at h
        obtain ⟨requestNumber, -, h⟩ := Option.bind_eq_some_iff.mp h
        obtain ⟨b₁, hresult, h⟩ := Option.bind_eq_some_iff.mp h
        exact ih h (act (b.setBuffer rest) (.respond requestNumber result) b₁ hresult
          (setBuffer b rest start))
      | none =>
        rw [hmatch] at h
        obtain ⟨⟨number, isError, length⟩, -, h⟩ := Option.bind_eq_some_iff.mp h
        obtain ⟨requestNumber, -, h⟩ := Option.bind_eq_some_iff.mp h
        obtain ⟨messageLength, -, h⟩ := Option.bind_eq_some_iff.mp h
        cases htake : takeMessage messageLength rest with
        | none =>
          rw [htake] at h
          exact Option.some_inj.mp h ▸ setBuffer b (response ++ newline :: rest) start
        | some found =>
          obtain ⟨message, rest'⟩ := found
          rw [htake] at h
          obtain ⟨b₁, hdata, h⟩ := Option.bind_eq_some_iff.mp h
          rw [handleData_eq] at hdata
          exact ih h (act _ _ b₁ hdata (setBuffer b rest' start))
    · rw [if_neg hline] at h
      exact Option.some_inj.mp h ▸ start

/-- What changes of the buffer and dispatches keep, a read keeps. -/
theorem handleRead_induction {motive : JavaBuilder → Prop} {data : Bytes} {b b' : JavaBuilder}
    (h : b.handleRead data = some b') (start : motive b)
    (setBuffer : ∀ b buffer, motive b → motive (b.setBuffer buffer))
    (act : ∀ b d b', act b d = some b' → motive b → motive b') : motive b' := by
  unfold handleRead at h
  by_cases hrunning : b.runMode = .running
  · rw [if_pos hrunning] at h
    exact handleLines_induction h (setBuffer b _ start) setBuffer act
  · rw [if_neg hrunning] at h
    exact Option.some_inj.mp h ▸ start

theorem drain_setBuffer (fuel : ℕ) (buffer left : Bytes) (b : JavaBuilder) :
    (drain front act fuel buffer (b.setBuffer left)).map (fun (left, b') ↦ b'.setBuffer left) =
      (drain front act fuel buffer b).map fun (left, b') ↦ b'.setBuffer left := by
  induction fuel generalizing buffer b with
  | zero => rfl
  | succ fuel ih =>
    cases hfront : front buffer with
    | incomplete =>
      rw [drain_incomplete hfront, drain_incomplete hfront]
      rfl
    | malformed =>
      rw [drain, drain, hfront]
    | message m rest =>
      rw [drain_message hfront, drain_message hfront, act_setBuffer]
      cases act b m with
      | none => rfl
      | some b' => exact ih rest b'

theorem takeWhile_append_drop {buffer : Bytes} (h : newline ∈ buffer) :
    buffer.takeWhile (· != newline) ++
      newline :: buffer.drop ((buffer.takeWhile (· != newline)).length + 1) = buffer := by
  induction buffer with
  | nil => exact absurd h List.not_mem_nil
  | cons c buffer ih =>
    by_cases hc : c = newline
    · rw [hc]
      simp
    · have hmem : newline ∈ buffer := (List.mem_cons.mp h).resolve_left (Ne.symm hc)
      rw [List.takeWhile_cons_of_pos (by simpa using hc), List.cons_append, List.length_cons,
        List.drop_succ_cons, ih hmem]

/-- One turn of the loop, with output capture. -/
theorem handleLines_succ (fuel : ℕ) {b : JavaBuilder} (hcapture : b.captureOutput = true) :
    handleLines (fuel + 1) b =
      match front b.accumulatedResponse with
      | .incomplete => some b
      | .malformed => none
      | .message d rest => (act (b.setBuffer rest) d).bind (handleLines fuel) := by
  by_cases hline : newline ∈ b.accumulatedResponse
  · have hkeep := takeWhile_append_drop hline
    rw [handleLines, if_pos hline, front, if_pos hline]
    dsimp only
    generalize b.accumulatedResponse.takeWhile (· != newline) = response at hkeep ⊢
    generalize b.accumulatedResponse.drop (response.length + 1) = rest at hkeep ⊢
    unfold lineFront
    cases matchResponse response with
    | some found =>
      obtain ⟨number, result⟩ := found
      dsimp only
      cases atoi number <;> rfl
    | none =>
      rw [show b.matchCaptured response = matchData response from if_pos hcapture]
      cases matchData response with
      | none => rfl
      | some found =>
        obtain ⟨number, isError, length⟩ := found
        dsimp only [Option.bind_eq_bind, Option.bind_some]
        cases atoi number with
        | none => rfl
        | some requestNumber =>
          cases atoi length with
          | none => rfl
          | some messageLength =>
            dsimp only [Option.bind_some]
            cases takeMessage messageLength rest with
            | none =>
              rw [hkeep]
            | some found =>
              obtain ⟨message, rest'⟩ := found
              dsimp only
              rw [handleData_eq]
              rfl
  · rw [handleLines, if_neg hline, front, if_neg hline]

theorem act_captureOutput {b b' : JavaBuilder} {d : Dispatch} (h : act b d = some b') :
    b'.captureOutput = b.captureOutput := by
  unfold act at h
  obtain ⟨-, heq⟩ := Option.ite_none_right_eq_some.mp h
  rw [← Option.some_inj.mp heq]

/-- With output capture, the loop is a decoder. -/
theorem handleLines_eq (fuel : ℕ) {b : JavaBuilder} (hcapture : b.captureOutput = true) :
    handleLines fuel b =
      (drain front act fuel b.accumulatedResponse b).map fun (left, b') ↦ b'.setBuffer left := by
  induction fuel generalizing b with
  | zero => rfl
  | succ fuel ih =>
    rw [handleLines_succ fuel hcapture]
    cases hfront : front b.accumulatedResponse with
    | incomplete =>
      rw [drain_incomplete hfront]
      rfl
    | malformed =>
      rw [drain, hfront]
      rfl
    | message d rest =>
      dsimp only
      rw [drain_message hfront, act_setBuffer]
      cases hact : act b d with
      | none => rfl
      | some b' =>
        rw [Option.map_some, Option.bind_some, Option.bind_some,
          ih (show (b'.setBuffer rest).captureOutput = true by
            rw [← hcapture, ← act_captureOutput hact]; rfl)]
        exact drain_setBuffer fuel rest rest b'

/-! ### Encodings -/

/-- Digits that give a number. -/
structure IsNumber (digits : Bytes) (n : ℕ) : Prop where
  ne_nil : digits ≠ []
  isDigit : ∀ d ∈ digits, isDigit d = true
  atoi : atoi digits = some n

/-- The optional carriage return in the end of a line. -/
def optionalReturn : LineEnd → Bytes
  | .lf => []
  | .crlf => [carriageReturn]

def responseLine (number : Bytes) (result : Bool) (e : LineEnd) : Bytes :=
  number ++ (resultText result ++ optionalReturn e)

def dataLine (number : Bytes) (isError : Bool) (length : Bytes) (e : LineEnd) : Bytes :=
  number ++ (dataText isError ++ (length ++ optionalReturn e))

/-- The encodings of what is dispatched, where numbers may have leading zeros. -/
inductive Encodes : Dispatch → Bytes → Prop
  | response {number : Bytes} {requestNumber : ℕ} (h : IsNumber number requestNumber)
      (result : Bool) (lineEnd : LineEnd) :
      Encodes (.respond requestNumber result) (responseLine number result lineEnd ++ [newline])
  | output {number length : Bytes} {requestNumber : ℕ} {data : Bytes}
      (h : IsNumber number requestNumber) (isError : Bool) (hlength : IsNumber length data.length)
      (headerEnd lineEnd : LineEnd) :
      Encodes (outputDispatch requestNumber isError data)
        (dataLine number isError length headerEnd ++ newline :: (data ++ lineEnd.bytes))

theorem lineEnd_bytes (e : LineEnd) : e.bytes = optionalReturn e ++ [newline] := by
  cases e <;> rfl

theorem newline_not_mem_optionalReturn (e : LineEnd) : newline ∉ optionalReturn e := by
  cases e <;> decide

/-- What ends the digits at the front. -/
def EndsDigits (rest : Bytes) : Prop := ∀ d, rest.head? = some d → isDigit d = false

theorem endsDigits_resultText (result : Bool) (rest : Bytes) :
    EndsDigits (resultText result ++ rest) := by
  intro d hd
  obtain rfl : 32 = d := by cases result <;> exact Option.some_inj.mp hd
  rfl

theorem endsDigits_dataText (isError : Bool) (rest : Bytes) :
    EndsDigits (dataText isError ++ rest) := by
  intro d hd
  obtain rfl : 32 = d := by cases isError <;> exact Option.some_inj.mp hd
  rfl

theorem endsDigits_optionalReturn (e : LineEnd) : EndsDigits (optionalReturn e) := by
  intro d hd
  cases e with
  | lf => cases hd
  | crlf =>
    obtain rfl : carriageReturn = d := Option.some_inj.mp hd
    rfl

theorem matchDigits_append {digits rest : Bytes} {n : ℕ} (h : IsNumber digits n)
    (hrest : EndsDigits rest) : matchDigits (digits ++ rest) = some (digits, rest) := by
  have hspan : rest.takeWhile isDigit = [] ∧ rest.dropWhile isDigit = rest := by
    cases rest with
    | nil => exact ⟨rfl, rfl⟩
    | cons d rest =>
      have hd := hrest d rfl
      simp [hd]
  unfold matchDigits
  rw [List.takeWhile_append_of_pos h.isDigit, List.dropWhile_append_of_pos h.isDigit, hspan.1,
    hspan.2, List.append_nil, if_neg (by simpa using h.ne_nil)]

theorem matchResponse_response {number : Bytes} {n : ℕ} (h : IsNumber number n) (result : Bool)
    (e : LineEnd) : matchResponse (responseLine number result e) = some (number, result) := by
  unfold matchResponse responseLine
  rw [matchDigits_append h (endsDigits_resultText result _)]
  cases result <;> cases e <;> rfl

theorem matchEnd_resultText_dataText (result isError : Bool) (rest : Bytes) :
    matchEnd (resultText result) (dataText isError ++ rest) = false := by
  cases result <;> cases isError <;> rfl

theorem matchResponse_data {number : Bytes} {n : ℕ} (h : IsNumber number n) (isError : Bool)
    (length : Bytes) (e : LineEnd) : matchResponse (dataLine number isError length e) = none := by
  unfold matchResponse dataLine
  rw [matchDigits_append h (endsDigits_dataText isError _)]
  simp [matchEnd_resultText_dataText]

theorem matchLength_data {length : Bytes} {n : ℕ} (h : IsNumber length n) (isError : Bool)
    (e : LineEnd) :
    matchLength isError (dataText isError ++ (length ++ optionalReturn e)) = some length := by
  unfold matchLength
  rw [if_pos (by simp), List.drop_left, matchDigits_append h (endsDigits_optionalReturn e)]
  cases e <;> rfl

theorem matchLength_other (isError : Bool) (rest : Bytes) :
    matchLength (!isError) (dataText isError ++ rest) = none := by
  have htext : (dataText (!isError)).isPrefixOf (dataText isError ++ rest) = false := by
    cases isError <;> rfl
  unfold matchLength
  rw [htext, if_neg Bool.false_ne_true]

theorem matchData_data {number length : Bytes} {n m : ℕ} (h : IsNumber number n) (isError : Bool)
    (hlength : IsNumber length m) (e : LineEnd) :
    matchData (dataLine number isError length e) = some (number, isError, length) := by
  unfold matchData dataLine
  rw [matchDigits_append h (endsDigits_dataText isError _)]
  dsimp only [Option.bind_eq_bind, Option.bind_some]
  cases isError with
  | false => rw [matchLength_data hlength false e]
  | true =>
    have hother := matchLength_other true (length ++ optionalReturn e)
    rw [Bool.not_true] at hother
    rw [hother, matchLength_data hlength true e]
    rfl

/-! ### Messages that are there in full and messages that are not -/

theorem front_line {response : Bytes} (h : newline ∉ response) (rest : Bytes) :
    front (response ++ newline :: rest) = lineFront response rest := by
  have htake : (response ++ newline :: rest).takeWhile (· != newline) = response := by
    rw [List.takeWhile_append_of_pos fun c hc ↦ ?_]
    · simp
    · simpa using fun heq : c = newline ↦ h (heq ▸ hc)
  unfold front
  rw [if_pos (List.mem_append_right _ List.mem_cons_self), htake]
  dsimp only
  rw [← List.drop_drop, List.drop_left]
  rfl

theorem front_of_not_mem {buffer : Bytes} (h : newline ∉ buffer) : front buffer = .incomplete :=
  if_neg h

theorem takeMessage_append (data rest : Bytes) (e : LineEnd) :
    takeMessage data.length (data ++ (e.bytes ++ rest)) = some (data, rest) := by
  unfold takeMessage
  rw [if_pos (by cases e <;> simp [LineEnd.bytes]), List.take_left, List.drop_left]
  cases e <;> rfl

/-- Data that has not come in full, or that has but not the end of its line. -/
theorem takeMessage_part {data p : Bytes} {e : LineEnd} (hp : p <+: data ++ e.bytes)
    (hne : p ≠ data ++ e.bytes) : takeMessage data.length p = none := by
  unfold takeMessage
  by_cases hlong : p.length > data.length
  · obtain ⟨q, hq⟩ := hp
    rcases List.append_eq_append_iff.mp hq with ⟨r, rfl, -⟩ | ⟨r, rfl, hr⟩
    · rw [List.length_append] at hlong
      omega
    · -- what is there after the data is a proper part of the end of the line
      have hq' : q ≠ [] := by
        rintro rfl
        rw [List.append_nil] at hr
        exact hne (by rw [hr])
      rw [if_pos hlong, List.take_left, List.drop_left]
      cases e with
      | lf =>
        have hlength := congrArg List.length hr
        have hpos := List.length_pos_iff.mpr hq'
        rw [List.length_append] at hlong hlength
        rw [show LineEnd.lf.bytes.length = 1 from rfl] at hlength
        omega
      | crlf =>
        cases r with
        | nil => simp at hlong
        | cons c r =>
          obtain ⟨rfl, htail⟩ := List.cons.inj hr
          obtain ⟨rfl, -⟩ := (List.append_eq_singleton_iff.mp htail.symm).resolve_right
            fun hr ↦ hq' hr.2
          rfl
  · exact if_neg hlong

theorem prefix_line {p response rest : Bytes} (h : p <+: response ++ newline :: rest) :
    p <+: response ∨ ∃ p', p = response ++ newline :: p' ∧ p' <+: rest := by
  obtain ⟨q, hq⟩ := h
  rcases List.append_eq_append_iff.mp hq with ⟨r, rfl, -⟩ | ⟨r, rfl, hr⟩
  · exact Or.inl (List.prefix_append p r)
  · cases r with
    | nil =>
      rw [List.append_nil]
      exact Or.inl (List.prefix_refl response)
    | cons c r =>
      obtain ⟨rfl, rfl⟩ := List.cons.inj hr
      exact Or.inr ⟨r, rfl, List.prefix_append r q⟩

theorem newline_not_isDigit : isDigit newline = false := rfl

theorem IsNumber.newline_not_mem {digits : Bytes} {n : ℕ} (h : IsNumber digits n) :
    newline ∉ digits := by
  intro hmem
  have hdigit := h.isDigit newline hmem
  rw [newline_not_isDigit] at hdigit
  cases hdigit

/-- The line of a response, and the header of a data message, without its end. -/
theorem newline_not_mem_response {number : Bytes} {n : ℕ} (h : IsNumber number n) (result : Bool)
    (e : LineEnd) : newline ∉ responseLine number result e := by
  have hresult : newline ∉ resultText result := by cases result <;> decide
  unfold responseLine
  rw [List.mem_append, List.mem_append]
  have hreturn := newline_not_mem_optionalReturn e
  have hnumber := h.newline_not_mem
  tauto

theorem newline_not_mem_data {number length : Bytes} {n m : ℕ} (h : IsNumber number n)
    (isError : Bool) (hlength : IsNumber length m) (e : LineEnd) :
    newline ∉ dataLine number isError length e := by
  have htext : newline ∉ dataText isError := by cases isError <;> decide
  unfold dataLine
  rw [List.mem_append, List.mem_append, List.mem_append]
  have hreturn := newline_not_mem_optionalReturn e
  have hnumber := h.newline_not_mem
  have hdigits := hlength.newline_not_mem
  tauto

theorem lineFront_response {number : Bytes} {n : ℕ} (h : IsNumber number n) (result : Bool)
    (e : LineEnd) (rest : Bytes) :
    lineFront (responseLine number result e) rest =
      .message (.respond n result) rest := by
  unfold lineFront
  rw [matchResponse_response h result e]
  dsimp only
  rw [h.atoi]

theorem lineFront_data {number length : Bytes} {n m : ℕ} (h : IsNumber number n)
    (isError : Bool) (hlength : IsNumber length m) (e : LineEnd) (rest : Bytes) :
    lineFront (dataLine number isError length e) rest =
      match takeMessage m rest with
      | none => .incomplete
      | some (message, rest) => .message (outputDispatch n isError message) rest := by
  unfold lineFront
  rw [matchResponse_data h, matchData_data h isError hlength e]
  dsimp only
  rw [h.atoi, hlength.atoi]

/-- The messages of the Java side are found where they have arrived in full, and nothing
else is. -/
theorem sound_front : Sound front Encodes where
  nil := front_of_not_mem List.not_mem_nil
  whole := by
    intro d w rest hw
    cases hw with
    | response h result e =>
      rw [List.append_assoc, List.singleton_append,
        front_line (newline_not_mem_response h result e),
        lineFront_response h]
    | output h isError hlength e e' =>
      rw [List.append_assoc, List.cons_append,
        front_line (newline_not_mem_data h isError hlength e),
        lineFront_data h isError hlength, List.append_assoc, takeMessage_append]
  part := by
    intro d w p hw hp hne
    cases hw with
    | response h result e =>
      have hbody := (List.prefix_concat_iff.mp hp).resolve_left hne
      exact front_of_not_mem fun hmem ↦ newline_not_mem_response h result e (hbody.subset hmem)
    | output h isError hlength e e' =>
      have hheader := newline_not_mem_data h isError hlength e
      rcases prefix_line hp with hbody | ⟨p', rfl, hp'⟩
      · exact front_of_not_mem fun hmem ↦ hheader (hbody.subset hmem)
      · rw [front_line hheader, lineFront_data h isError hlength, takeMessage_part hp']
        rintro rfl
        exact hne rfl

/-! ### What the Java side sends -/

theorem toNat_toUInt8_of_isDigit {c : Char} (h : c.isDigit = true) : c.toUInt8.toNat = c.toNat ∧
    48 ≤ c.toNat ∧ c.toNat ≤ 57 := by
  rw [Char.isDigit, Bool.and_eq_true, decide_eq_true_eq, decide_eq_true_eq] at h
  have hrange : 48 ≤ c.toNat ∧ c.toNat ≤ 57 := h
  refine ⟨?_, hrange⟩
  show c.toNat % 256 = c.toNat
  omega

theorem foldl_toUInt8 {digits : List Char} (h : ∀ c ∈ digits, c.isDigit = true) (start : ℕ) :
    (digits.map Char.toUInt8).foldl (fun n d ↦ 10 * n + (d.toNat - 48)) start =
      Nat.ofDigitChars 10 digits start := by
  induction digits generalizing start with
  | nil => rfl
  | cons c digits ih =>
    obtain ⟨hc, hdigits⟩ := List.forall_mem_cons.mp h
    rw [List.map_cons, List.foldl_cons, ih hdigits, Nat.ofDigitChars_cons,
      (toNat_toUInt8_of_isDigit hc).1]
    rfl

theorem isNumber_intToString {n : ℕ} (h : n < intLimit) : IsNumber (intToString n) n := by
  have hdigits : ∀ c ∈ Nat.toDigits 10 n, c.isDigit = true := fun c hc ↦
    Nat.isDigit_of_mem_toDigits (by decide) (by decide) hc
  refine ⟨?_, ?_, ?_⟩
  · exact fun hnil ↦ Nat.toDigits_ne_nil (List.map_eq_nil_iff.mp hnil)
  · intro d hd
    obtain ⟨c, hc, rfl⟩ := List.mem_map.mp hd
    obtain ⟨heq, hrange⟩ := toNat_toUInt8_of_isDigit (hdigits c hc)
    unfold isDigit
    rw [heq]
    simpa using hrange
  · unfold atoi intToString
    rw [foldl_toUInt8 hdigits, Nat.ofDigitChars_ten_toDigits]
    exact if_pos h

/-- What the Java side sends is an encoding. -/
theorem encodes_send (m : Message) (headerEnd lineEnd : LineEnd) :
    Encodes m.dispatch (m.send headerEnd lineEnd) := by
  cases m with
  | response number result =>
    have hencodes := Encodes.response (isNumber_intToString number.isLt) result lineEnd
    rw [responseLine, List.append_assoc, List.append_assoc, ← lineEnd_bytes] at hencodes
    rw [Message.send, List.append_assoc]
    exact hencodes
  | output number isError data h =>
    have hencodes := @Encodes.output _ _ _ data (isNumber_intToString number.isLt) isError
      (isNumber_intToString h) headerEnd lineEnd
    have hbytes : (Message.output number isError data h).send headerEnd lineEnd =
        dataLine (intToString number) isError (intToString data.length) headerEnd ++
          newline :: (data ++ lineEnd.bytes) := by
      rw [Message.send, dataLine, lineEnd_bytes headerEnd]
      simp only [List.append_assoc, List.cons_append, List.nil_append]
    rw [hbytes]
    exact hencodes

/-- Zeros in front of a number do not change it. -/
theorem IsNumber.append_zeros {digits zeros : Bytes} {n : ℕ} (h : IsNumber digits n)
    (hzeros : ∀ z ∈ zeros, z = 48) : IsNumber (zeros ++ digits) n where
  ne_nil := List.append_ne_nil_of_right_ne_nil zeros h.ne_nil
  isDigit := by
    intro d hd
    rcases List.mem_append.mp hd with hz | hd
    · rw [hzeros d hz]
      rfl
    · exact h.isDigit d hd
  atoi := by
    have hvalue : zeros.foldl (fun n d ↦ 10 * n + (d.toNat - 48)) 0 = 0 := by
      induction zeros with
      | nil => rfl
      | cons z zeros ih =>
        obtain ⟨rfl, hrest⟩ := List.forall_mem_cons.mp hzeros
        exact ih hrest
    rw [← h.atoi]
    unfold Abuild.atoi
    rw [List.foldl_append, hvalue]

theorem Encodes.append_zeros {d : Dispatch} {w zeros : Bytes} (h : Encodes d w)
    (hzeros : ∀ z ∈ zeros, z = 48) : Encodes d (zeros ++ w) := by
  cases h with
  | response h result e =>
    have hencodes := Encodes.response (h.append_zeros hzeros) result e
    rw [responseLine, List.append_assoc zeros, List.append_assoc zeros] at hencodes
    exact hencodes
  | output h isError hlength e e' =>
    have hencodes := Encodes.output (h.append_zeros hzeros) isError hlength e e'
    rw [dataLine, List.append_assoc zeros, List.append_assoc zeros] at hencodes
    exact hencodes

end Abuild.JavaBuilder
