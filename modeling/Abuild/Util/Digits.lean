import Abuild.Basic
import Abuild.Library.Decimal

/-!
Numbers as text, from `Util.cc`. `digitsIn` compares its argument with the powers of ten that it
computes in 32 bits. It returns the least exponent from 1 on at which the argument is less than what
is left of the power (`digitsIn_iff`), if there is one. The powers up to the ninth are left as they
are; of the tenth 1410065408 is left, and from the 32nd on nothing.
-/

set_option autoImplicit false
set_option relaxedAutoImplicit false

namespace Abuild.Util

def intToString (num : ℤ) (minDigits : ℕ) : String :=
  let buf := toString num
  String.ofList (List.replicate (minDigits - buf.length) '0') ++ buf

/-- The loop of `digitsIn`, which may not end. -/
def digitsLoop (num : UInt32) : ℕ → UInt32 → UInt32 → Option UInt32
  | 0, _, _ => none
  | fuel + 1, ndigits, upper =>
    if num ≥ upper then digitsLoop num fuel (ndigits + 1) (upper * 10) else some ndigits

def digitsIn (num : UInt32) (fuel : ℕ) : Option UInt32 := digitsLoop num fuel 1 10

theorem toList_intToString (n minDigits : ℕ) :
    (intToString n minDigits).toList = Decimal.pad minDigits n := by
  have hbuf : (toString (n : ℤ)).toList = Nat.toDigits 10 n := Nat.toList_repr
  unfold intToString Decimal.pad
  dsimp only
  rw [String.toList_append, String.toList_ofList, hbuf, ← String.length_toList, hbuf]

/-! ### The powers of ten -/

/-- What is left of a power of ten. -/
def upperBound (k : ℕ) : ℕ := 10 ^ k % 4294967296

theorem upperBound_le (k : ℕ) : upperBound k ≤ 10 ^ k := Nat.mod_le _ _

theorem upperBound_of_le {k : ℕ} (hk : k ≤ 9) : upperBound k = 10 ^ k := by
  refine Nat.mod_eq_of_lt ?_
  calc 10 ^ k ≤ 10 ^ 9 := Nat.pow_le_pow_right (by decide) hk
    _ < 4294967296 := by decide

theorem upperBound_eq_zero {k : ℕ} (hk : 32 ≤ k) : upperBound k = 0 := by
  obtain ⟨j, rfl⟩ := Nat.exists_eq_add_of_le hk
  refine Nat.mod_eq_zero_of_dvd (Dvd.dvd.trans ?_ (Dvd.intro (10 ^ j) (pow_add 10 32 j).symm))
  decide

theorem toNat_upper (k : ℕ) : (UInt32.ofNat (10 ^ k)).toNat = upperBound k := UInt32.toNat_ofNat

theorem upper_mul (k : ℕ) : UInt32.ofNat (10 ^ k) * 10 = UInt32.ofNat (10 ^ (k + 1)) := by
  rw [pow_succ, UInt32.ofNat_mul]
  rfl

theorem ndigits_add_one (k : ℕ) : UInt32.ofNat k + 1 = UInt32.ofNat (k + 1) := by
  rw [UInt32.ofNat_add]
  rfl

theorem toNat_ndigits {k : ℕ} (hk : k < 32) : (UInt32.ofNat k).toNat = k :=
  UInt32.toNat_ofNat.trans (Nat.mod_eq_of_lt (hk.trans (by decide)))

/-! ### The loop -/

/-- The exponent at which the loop ends. -/
structure EndsAt (num : UInt32) (first k : ℕ) : Prop where
  le : first ≤ k
  lt : num.toNat < upperBound k
  before : ∀ j, first ≤ j → j < k → upperBound j ≤ num.toNat

variable {num : UInt32}

theorem EndsAt.lt_32 {first k : ℕ} (h : EndsAt num first k) : k < 32 := by
  by_contra hk
  have hzero := upperBound_eq_zero (not_lt.mp hk)
  have hlt := h.lt
  omega

/-- When the loop ends, it is at the first exponent that is large enough. -/
theorem endsAt_of_digitsLoop {fuel first : ℕ} {r : UInt32}
    (h : digitsLoop num fuel (UInt32.ofNat first) (UInt32.ofNat (10 ^ first)) = some r) :
    ∃ k, EndsAt num first k ∧ r = UInt32.ofNat k := by
  induction fuel generalizing first with
  | zero => cases h
  | succ fuel ih =>
    unfold digitsLoop at h
    split_ifs at h with hge
    · rw [ndigits_add_one, upper_mul] at h
      obtain ⟨k, hk, hr⟩ := ih h
      refine ⟨k, ⟨(Nat.le_succ first).trans hk.le, hk.lt, ?_⟩, hr⟩
      intro j hfirst hj
      rcases hfirst.eq_or_lt with rfl | hfirst
      · rw [← toNat_upper]
        exact UInt32.le_iff_toNat_le.mp hge
      · exact hk.before j hfirst hj
    · refine ⟨first, ⟨le_refl first, ?_, fun j hfirst hj ↦ absurd hj (not_lt.mpr hfirst)⟩,
        (Option.some_inj.mp h).symm⟩
      rw [← toNat_upper]
      exact UInt32.lt_iff_toNat_lt.mp (UInt32.not_le.mp hge)

theorem digitsLoop_of_endsAt {first k : ℕ} (h : EndsAt num first k) :
    ∃ fuel, digitsLoop num fuel (UInt32.ofNat first) (UInt32.ofNat (10 ^ first)) =
      some (UInt32.ofNat k) := by
  obtain ⟨n, rfl⟩ := Nat.exists_eq_add_of_le h.le
  induction n generalizing first with
  | zero =>
    refine ⟨1, ?_⟩
    unfold digitsLoop
    rw [if_neg]
    · rfl
    · refine UInt32.not_le.mpr (UInt32.lt_iff_toNat_lt.mpr ?_)
      rw [toNat_upper]
      exact h.lt
  | succ n ih =>
    have hstep := h.before first (le_refl first) (by omega)
    have hrest : EndsAt num (first + 1) (first + 1 + n) := by
      refine ⟨by omega, ?_, fun j hfirst hj ↦ h.before j (by omega) (by omega)⟩
      rw [Nat.add_assoc, Nat.add_comm 1 n]
      exact h.lt
    obtain ⟨fuel, hfuel⟩ := ih hrest
    refine ⟨fuel + 1, ?_⟩
    unfold digitsLoop
    rw [if_pos, ndigits_add_one, upper_mul, hfuel, Nat.add_assoc, Nat.add_comm 1 n]
    refine UInt32.le_iff_toNat_le.mpr ?_
    rw [toNat_upper]
    exact hstep

/-- The result is the first exponent that is large enough. -/
theorem digitsIn_iff (num : UInt32) (k : ℕ) :
    (∃ fuel, (digitsIn num fuel).map UInt32.toNat = some k) ↔ EndsAt num 1 k := by
  constructor
  · rintro ⟨fuel, h⟩
    obtain ⟨r, hr, hk⟩ := Option.map_eq_some_iff.mp h
    obtain ⟨k', hends, rfl⟩ := endsAt_of_digitsLoop hr
    rw [toNat_ndigits hends.lt_32] at hk
    exact hk ▸ hends
  · intro h
    obtain ⟨fuel, hfuel⟩ := digitsLoop_of_endsAt h
    refine ⟨fuel, ?_⟩
    rw [show digitsIn num fuel = _ from hfuel, Option.map_some, toNat_ndigits h.lt_32]

/-- The loop ends where some power is large enough. -/
theorem exists_endsAt {k : ℕ} (hk : 1 ≤ k) (h : num.toNat < upperBound k) :
    ∃ k', EndsAt num 1 k' := by
  have hex : ∃ j, 1 ≤ j ∧ num.toNat < upperBound j := ⟨k, hk, h⟩
  refine ⟨Nat.find hex, (Nat.find_spec hex).1, (Nat.find_spec hex).2, ?_⟩
  intro j hone hj
  by_contra hlt
  exact Nat.find_min hex hj ⟨hone, not_le.mp hlt⟩

/-- The number of digits is the least exponent of a power of ten that is greater. -/
theorem endsAt_length_iff (num : UInt32) :
    EndsAt num 1 (Nat.toDigits 10 num.toNat).length ↔ num.toNat < 1410065408 := by
  have hbefore : ∀ j, 1 ≤ j → j < (Nat.toDigits 10 num.toNat).length → 10 ^ j ≤ num.toNat := by
    intro j hone hj
    by_contra hlt
    exact absurd ((Nat.length_toDigits_le_iff (by decide) hone).mpr (not_le.mp hlt))
      (not_le.mpr hj)
  have hten : (Nat.toDigits 10 num.toNat).length ≤ 10 :=
    (Nat.length_toDigits_le_iff (by decide) (by decide)).mpr
      (num.toNat_lt.trans (by decide))
  have hfits : num.toNat < 10 ^ (Nat.toDigits 10 num.toNat).length :=
    (Nat.length_toDigits_le_iff (by decide) Nat.length_toDigits_pos).mp (le_refl _)
  have htenth : upperBound 10 = 1410065408 := by decide
  constructor
  · intro h
    rcases hten.lt_or_eq with hnine | hten
    · refine hfits.trans ?_
      calc 10 ^ (Nat.toDigits 10 num.toNat).length ≤ 10 ^ 9 :=
            Nat.pow_le_pow_right (by decide) (Nat.le_of_lt_succ hnine)
        _ < 1410065408 := by decide
    · rw [← htenth, ← hten]
      exact h.lt
  · intro h
    refine ⟨Nat.length_toDigits_pos, ?_, fun j hone hj ↦
      (upperBound_le j).trans (hbefore j hone hj)⟩
    rcases hten.lt_or_eq with hnine | hten
    · rw [upperBound_of_le (Nat.le_of_lt_succ hnine)]
      exact hfits
    · rw [hten, htenth]
      exact h

/-- No power is large enough for the largest number. -/
theorem digitsIn_largest (fuel : ℕ) : digitsIn 4294967295 fuel = none := by
  by_contra h
  obtain ⟨r, hr⟩ := Option.ne_none_iff_exists'.mp h
  obtain ⟨k, hends, -⟩ := endsAt_of_digitsLoop hr
  have hbound : upperBound k < 4294967296 := Nat.mod_lt _ (by decide)
  have hlt : 4294967295 < upperBound k := hends.lt
  omega

end Abuild.Util
