import Abuild.Library.Fallible
import Mathlib.Data.List.Basic

/-!
The decoding of a stream that comes in pieces. A decoder looks at the front of what it has
buffered, where there is a whole message, or something that more input may complete, or
something malformed; it takes whole messages off the buffer until none is left. Where the
encodings are told apart in this way (`Sound`), what a decoder has taken off is the
messages that were sent, in order, however their stream was cut (`drain_stream`).
-/

set_option autoImplicit false
set_option relaxedAutoImplicit false

namespace Framing

open Fallible

/-- What stands at the front of a buffer. -/
inductive Front (μ β : Type)
  | incomplete
  | malformed
  | message (m : μ) (rest : List β)

variable {μ β σ : Type}

/-- Takes whole messages off a buffer and acts on each. -/
def drain (front : List β → Front μ β) (act : σ → μ → Option σ) :
    ℕ → List β → σ → Option (List β × σ)
  | 0, buffer, s => some (buffer, s)
  | fuel + 1, buffer, s =>
    match front buffer with
    | .incomplete => some (buffer, s)
    | .malformed => none
    | .message m rest => (act s m).bind (drain front act fuel rest)

/-- Every encoding is found in full, and none of its proper prefixes is taken for one. -/
structure Sound (front : List β → Front μ β) (Encodes : μ → List β → Prop) : Prop where
  nil : front [] = .incomplete
  whole : ∀ m w rest, Encodes m w → front (w ++ rest) = .message m rest
  part : ∀ m w p, Encodes m w → p <+: w → p ≠ w → front p = .incomplete

/-- The bytes of messages that are given with their encodings. -/
def bytes (code : List (μ × List β)) : List β := code.flatMap Prod.snd

theorem bytes_cons (m : μ) (w : List β) (code : List (μ × List β)) :
    bytes ((m, w) :: code) = w ++ bytes code := List.flatMap_cons

section Decoding

variable {front : List β → Front μ β} {Encodes : μ → List β → Prop} {act : σ → μ → Option σ}
  {buffer future : List β}

theorem Sound.ne_nil (h : Sound front Encodes) {m : μ} {w : List β} (hw : Encodes m w) :
    w ≠ [] := by
  intro heq
  have hfront := h.whole m w [] hw
  rw [heq, List.append_nil, h.nil] at hfront
  cases hfront

/-- A buffer has the first encoding of its stream in full, or is incomplete. -/
theorem Sound.whole_or_part (h : Sound front Encodes) {m : μ} {w rest : List β}
    (hw : Encodes m w) (heq : buffer ++ future = w ++ rest) :
    (∃ rest', buffer = w ++ rest' ∧ rest = rest' ++ future) ∨ front buffer = .incomplete := by
  rcases List.append_eq_append_iff.mp heq with ⟨more, rfl, -⟩ | ⟨rest', hbuffer, hrest⟩
  · by_cases hmore : more = []
    · refine Or.inl ⟨[], ?_, ?_⟩
      · rw [hmore, List.append_nil, List.append_nil]
      · rw [hmore, List.append_nil] at heq
        exact (List.append_cancel_left heq).symm
    · refine Or.inr (h.part m _ buffer hw (List.prefix_append buffer more) fun hself ↦ hmore ?_)
      exact List.self_eq_append_right.mp hself
  · exact Or.inl ⟨rest', hbuffer, hrest⟩

theorem drain_incomplete (hfront : front buffer = .incomplete) (fuel : ℕ) (s : σ) :
    drain front act fuel buffer s = some (buffer, s) := by
  cases fuel with
  | zero => rfl
  | succ fuel => rw [drain, hfront]

theorem drain_message {m : μ} {rest : List β} (hfront : front buffer = .message m rest) (fuel : ℕ)
    (s : σ) : drain front act (fuel + 1) buffer s = (act s m).bind (drain front act fuel rest) := by
  rw [drain, hfront]

/-- A decoder takes off the messages of a stream that have come in full, and acts on them
in order. -/
theorem drain_stream (h : Sound front Encodes) (act : σ → μ → Option σ) {fuel : ℕ}
    (hfuel : buffer.length ≤ fuel) {code : List (μ × List β)}
    (hcode : ∀ e ∈ code, Encodes e.1 e.2) (hstream : buffer ++ future = bytes code) :
    ∃ done rest left, code = done ++ rest ∧ buffer = bytes done ++ left ∧
      left ++ future = bytes rest ∧ front left = .incomplete ∧
      ∀ s, drain front act fuel buffer s =
        ((done.map Prod.fst).foldlM act s).map fun s' ↦ (left, s') := by
  -- along the messages; the buffer has the first of them in full, or the decoder stops
  induction code generalizing buffer fuel with
  | nil =>
    obtain ⟨rfl, rfl⟩ := List.append_eq_nil_iff.mp hstream
    exact ⟨[], [], [], rfl, rfl, rfl, h.nil, drain_incomplete h.nil fuel⟩
  | cons e code ih =>
    obtain ⟨m, w⟩ := e
    obtain ⟨hw, hcode⟩ := List.forall_mem_cons.mp hcode
    rw [bytes_cons] at hstream
    rcases h.whole_or_part hw hstream with ⟨rest', rfl, hrest⟩ | hfront
    · have hpos := List.length_pos_iff.mpr (h.ne_nil hw)
      rw [List.length_append] at hfuel
      obtain ⟨fuel, rfl⟩ : ∃ n, fuel = n + 1 := ⟨fuel - 1, by omega⟩
      obtain ⟨done, rest, left, rfl, rfl, hleft, hincomplete, hdrain⟩ :=
        ih (show rest'.length ≤ fuel by omega) hcode hrest.symm
      refine ⟨(m, w) :: done, rest, left, rfl, ?_, hleft, hincomplete, fun s ↦ ?_⟩
      · rw [bytes_cons, List.append_assoc]
      · rw [drain_message (h.whole m w _ hw), List.map_cons, foldlM_cons]
        cases act s m with
        | none => rfl
        | some s₁ => exact hdrain s₁
    · exact ⟨[], (m, w) :: code, buffer, rfl, rfl, hstream, hfront, drain_incomplete hfront fuel⟩

/-- An incomplete buffer does not begin with an encoding. -/
theorem Sound.not_incomplete (h : Sound front Encodes) {m : μ} {w rest : List β}
    (hw : Encodes m w) : front (w ++ rest) ≠ .incomplete := by
  rw [h.whole m w rest hw]
  intro heq
  cases heq

/-- When everything has come, nothing is left. -/
theorem Sound.eq_nil (h : Sound front Encodes) {code : List (μ × List β)}
    (hcode : ∀ e ∈ code, Encodes e.1 e.2) (hincomplete : front (bytes code) = .incomplete) :
    code = [] := by
  cases code with
  | nil => rfl
  | cons e code =>
    rw [bytes_cons] at hincomplete
    exact absurd hincomplete (h.not_incomplete (hcode e List.mem_cons_self))

end Decoding

end Framing
