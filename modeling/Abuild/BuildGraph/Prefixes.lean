import Abuild.BuildGraph

/-!
The prefixes of trees have one length and are in the order of the trees, as long as an `int` counts
them, although the width that `digitsIn` finds is not always the number of digits
(`digitsIn_and_prefixes_iff`). Where it is not, it is greater.
-/

set_option autoImplicit false
set_option relaxedAutoImplicit false

namespace Abuild

open Std (TreeMap)
open Util (digitsIn)

/-- The prefixes of the trees are distinct, of one length, and in the order of the trees. A name
that comes more than once has the prefix of its last place. -/
structure TreePrefixesSorted (treeNames : List String) (prefixes : TreeMap String String) :
    Prop where
  distinct : ∀ t ∈ treeNames, ∀ t' ∈ treeNames, prefixes[t]? = prefixes[t']? → t = t'
  width : ∃ width, ∀ t ∈ treeNames, ∃ p, prefixes[t]? = some p ∧ p.length = width
  sorted : treeNames.dedup.Pairwise fun t t' ↦
    ∃ p p', prefixes[t]? = some p ∧ prefixes[t']? = some p' ∧ p < p'

/-! ### The loop -/

/-- The numbers of the trees after those that have been counted before. -/
structure Numbered (width count : ℕ) (treeNames : List String) (prefixes : TreeMap String String) :
    Prop where
  mem : ∀ t ∈ treeNames, ∃ n : ℕ, count < n ∧ n ≤ count + treeNames.length ∧
    prefixes[t]? = some (Util.intToString n width)
  sorted : treeNames.dedup.Pairwise fun t t' ↦ ∃ n n' : ℕ, n < n' ∧
    n' ≤ count + treeNames.length ∧ prefixes[t]? = some (Util.intToString n width) ∧
    prefixes[t']? = some (Util.intToString n' width)

section Loop

variable {width count : ℕ} {treeName : String} {treeNames : List String}
  {before prefixes : TreeMap String String}

theorem increment_eq (h : count < 2147483647) : increment count = some ((count + 1 : ℕ) : ℤ) := by
  unfold increment
  rw [if_pos (by omega)]
  rfl

theorem getElem?_insert_ne {t p : String} (h : treeName ≠ t) :
    (before.insert treeName p)[t]? = before[t]? :=
  TreeMap.getElem?_insert.trans (if_neg fun hcompare ↦ h (compare_eq_iff_eq.mp hcompare))

/-- A tree that does not come again keeps its number. -/
theorem Numbered.cons (h : Numbered width (count + 1) treeNames prefixes)
    (hkept : treeName ∉ treeNames →
      prefixes[treeName]? = some (Util.intToString (count + 1 : ℕ) width)) :
    Numbered width count (treeName :: treeNames) prefixes := by
  have hlength : count + (treeName :: treeNames).length = count + 1 + treeNames.length := by
    rw [List.length_cons]
    omega
  have hlater : ∀ t ∈ treeNames, ∃ n : ℕ, count < n ∧ n ≤ count + 1 + treeNames.length ∧
      prefixes[t]? = some (Util.intToString n width) := by
    intro t ht
    obtain ⟨n, hlt, hle, hn⟩ := h.mem t ht
    exact ⟨n, (Nat.lt_succ_self count).trans hlt, hle, hn⟩
  by_cases hagain : treeName ∈ treeNames
  · constructor
    · rw [hlength]
      exact List.forall_mem_cons.mpr ⟨hlater treeName hagain, hlater⟩
    · rw [hlength, List.dedup_cons_of_mem hagain]
      exact h.sorted
  · constructor
    · rw [hlength]
      refine List.forall_mem_cons.mpr ⟨⟨count + 1, by omega, by omega, hkept hagain⟩, hlater⟩
    · rw [hlength, List.dedup_cons_of_notMem hagain]
      refine List.Pairwise.cons (fun t ht ↦ ?_) h.sorted
      obtain ⟨n, hlt, hle, hn⟩ := h.mem t (List.mem_dedup.mp ht)
      exact ⟨count + 1, n, hlt, hle, hkept hagain, hn⟩

/-- Other trees are left as they are. -/
theorem assignTreePrefixes_spec (h : count + treeNames.length < 2147483648) :
    ∃ prefixes, assignTreePrefixes width treeNames count before = some prefixes ∧
      (∀ t ∉ treeNames, prefixes[t]? = before[t]?) ∧ Numbered width count treeNames prefixes := by
  induction treeNames generalizing count before with
  | nil =>
    refine ⟨before, rfl, fun t _ ↦ rfl, ?_, List.Pairwise.nil⟩
    exact fun t ht ↦ absurd ht List.not_mem_nil
  | cons treeName treeNames ih =>
    rw [List.length_cons] at h
    have hstep : count < 2147483647 := by omega
    obtain ⟨prefixes, hprefixes, hother, hnumbered⟩ :=
      @ih (count + 1) (before.insert treeName (Util.intToString (count + 1 : ℕ) width)) (by omega)
    refine ⟨prefixes, ?_, ?_, hnumbered.cons fun hagain ↦ ?_⟩
    · unfold assignTreePrefixes
      rw [increment_eq hstep]
      exact hprefixes
    · intro t ht
      obtain ⟨hne, ht⟩ := List.ne_and_not_mem_of_not_mem_cons ht
      rw [hother t ht, getElem?_insert_ne hne.symm]
    · rw [hother treeName hagain]
      exact TreeMap.getElem?_insert_self

/-- The count goes up to the number of trees. -/
theorem length_of_assignTreePrefixes {count : ℤ} (hcount : count ≤ 2147483647)
    (h : assignTreePrefixes width treeNames count before = some prefixes) :
    count + treeNames.length ≤ 2147483647 := by
  induction treeNames generalizing count before with
  | nil => simpa using hcount
  | cons treeName treeNames ih =>
    obtain ⟨next, hnext, h⟩ := Option.bind_eq_some_iff.mp h
    unfold increment at hnext
    split_ifs at hnext with hlt
    obtain rfl := Option.some_inj.mp hnext
    have hrest := ih (by omega) h
    rw [List.length_cons]
    push_cast
    omega

end Loop

/-! ### The order of the texts -/

theorem intToString_lt {width n n' : ℕ} (hlt : n < n') (hn' : n' < 10 ^ (width + 1)) :
    Util.intToString n (width + 1) < Util.intToString n' (width + 1) := by
  rw [String.lt_iff_toList_lt, Util.toList_intToString, Util.toList_intToString]
  exact Decimal.pad_lt hlt hn'

theorem length_intToString {width n : ℕ} (hn : n < 10 ^ (width + 1)) :
    (Util.intToString n (width + 1)).length = width + 1 := by
  rw [← String.length_toList, Util.toList_intToString]
  exact Decimal.length_pad hn

/-- Numbers that fit into the width have texts of one length, in the order of the numbers. -/
theorem Numbered.treePrefixesSorted {width : ℕ} {treeNames : List String}
    {prefixes : TreeMap String String} (h : Numbered (width + 1) 0 treeNames prefixes)
    (hfits : treeNames.length < 10 ^ (width + 1)) : TreePrefixesSorted treeNames prefixes := by
  have hsorted : treeNames.dedup.Pairwise fun t t' ↦
      ∃ p p', prefixes[t]? = some p ∧ prefixes[t']? = some p' ∧ p < p' := by
    refine h.sorted.imp fun {t t'} ⟨n, n', hlt, hle, hn, hn'⟩ ↦ ?_
    exact ⟨_, _, hn, hn', intToString_lt hlt (by omega)⟩
  refine ⟨fun t ht t' ht' heq ↦ ?_, ⟨width + 1, fun t ht ↦ ?_⟩, hsorted⟩
  · have hdistinct : (treeNames.dedup.map fun t ↦ prefixes[t]?).Nodup := by
      refine List.pairwise_map.mpr (hsorted.imp fun {t t'} ⟨p, p', hp, hp', hlt⟩ heq ↦ ?_)
      rw [hp, hp'] at heq
      exact hlt.ne (Option.some_inj.mp heq)
    exact List.inj_on_of_nodup_map hdistinct (List.mem_dedup.mpr ht) (List.mem_dedup.mpr ht') heq
  · obtain ⟨n, -, hle, hn⟩ := h.mem t ht
    exact ⟨_, hn, length_intToString (by omega)⟩

/-- The loop of `digitsIn` ends at the twelfth power at the latest, with a width that is enough. -/
theorem exists_digitsIn {length : ℕ} (h : length < 2147483648) :
    ∃ fuel ndigits, digitsIn (UInt32.ofNat length) fuel = some ndigits ∧
      ∃ width, ndigits.toNat = width + 1 ∧ length < 10 ^ (width + 1) := by
  have hlength : (UInt32.ofNat length).toNat = length :=
    UInt32.toNat_ofNat.trans (Nat.mod_eq_of_lt (h.trans (by decide)))
  have htwelve : length < Util.upperBound 12 := h.trans (by decide)
  rw [← hlength] at htwelve
  obtain ⟨k, hk⟩ := Util.exists_endsAt (by decide) htwelve
  obtain ⟨fuel, hfuel⟩ := (Util.digitsIn_iff _ k).mpr hk
  obtain ⟨ndigits, hndigits, rfl⟩ := Option.map_eq_some_iff.mp hfuel
  obtain ⟨width, hwidth⟩ := Nat.exists_eq_succ_of_ne_zero (Nat.pos_iff_ne_zero.mp hk.le)
  refine ⟨fuel, ndigits, hndigits, width, hwidth, ?_⟩
  have hlt := hk.lt
  rw [hlength, hwidth] at hlt
  exact hlt.trans_le (Util.upperBound_le _)

theorem exists_computeTreePrefixes {treeNames : List String} (h : treeNames.length < 2147483648)
    (before : TreeMap String String) : ∃ fuel prefixes,
      computeTreePrefixes fuel treeNames before = some prefixes ∧
        TreePrefixesSorted treeNames prefixes := by
  obtain ⟨fuel, ndigits, hndigits, width, hwidth, hfits⟩ := exists_digitsIn h
  have hcount : 0 + treeNames.length < 2147483648 := by omega
  obtain ⟨prefixes, hprefixes, -, hnumbered⟩ :=
    @assignTreePrefixes_spec ndigits.toNat 0 treeNames before hcount
  refine ⟨fuel, prefixes, ?_, (hwidth ▸ hnumbered).treePrefixesSorted hfits⟩
  unfold computeTreePrefixes
  rw [hndigits]
  exact hprefixes

/-- `digitsIn` returns the number of digits of small enough numbers; the prefixes of trees are as
they should be for all lists whose length is an `int`. -/
theorem digitsIn_and_prefixes_iff (num : UInt32) (treeNames : List String)
    (before : TreeMap String String) :
    ((∃ fuel, (digitsIn num fuel).map UInt32.toNat = some (Nat.toDigits 10 num.toNat).length) ↔
        num.toNat < 1410065408) ∧
      ((∃ fuel prefixes, computeTreePrefixes fuel treeNames before = some prefixes ∧
          TreePrefixesSorted treeNames prefixes) ↔ treeNames.length < 2147483648) := by
  refine ⟨?_, ?_, fun h ↦ exists_computeTreePrefixes h before⟩
  · rw [Util.digitsIn_iff]
    exact Util.endsAt_length_iff num
  · rintro ⟨fuel, prefixes, h, -⟩
    obtain ⟨ndigits, -, h⟩ := Option.bind_eq_some_iff.mp h
    have hlength := length_of_assignTreePrefixes (by decide) h
    omega

theorem digitsIn_not_digits : (∀ fuel, digitsIn 4294967295 fuel = none) ∧
    ¬ ∀ num : UInt32, ∃ fuel, (digitsIn num fuel).map UInt32.toNat =
      some (Nat.toDigits 10 num.toNat).length := by
  refine ⟨Util.digitsIn_largest, fun h ↦ ?_⟩
  obtain ⟨fuel, hfuel⟩ := h 4294967295
  rw [Util.digitsIn_largest] at hfuel
  cases hfuel

end Abuild
