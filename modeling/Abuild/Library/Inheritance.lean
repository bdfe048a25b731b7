import Abuild.Library.Precedence

/-!
Names that are looked up in an area and, where the area does not define them, in
the areas it inherits from, in order. An area may hide what it inherits. The view
of an area (`Areas.view`) is what each name stands for in it; where inheritance has
no cycle it satisfies its own equation (`Areas.view_eq`). A name is met twice
(`Twice`) when two inherited areas offer the same definition of it, as can happen
where two of them inherit from a third.
-/

set_option autoImplicit false
set_option relaxedAutoImplicit false

namespace Inheritance

open Precedence Relation

variable {ι ν ε τ : Type*}

/-- What a name stands for, given the area's own definitions and what the areas it
inherits from offer. -/
def inherited (own : ν → Option ε) (offers : List (ν → Option ε)) (n : ν) : Option ε :=
  (own n).or (offers.findSome? (· n))

/-- The name is not the area's own, and a later offer of it clashes with the first
one. -/
def Twice (clash : ε → ε → Prop) (own : ν → Option ε) (offers : List (ν → Option ε)) (n : ν) :
    Prop :=
  own n = none ∧ ∃ first rest, offers.filterMap (· n) = first :: rest ∧ ∃ e ∈ rest, clash first e

theorem inherited_of_own {own : ν → Option ε} {offers : List (ν → Option ε)} {n : ν} {e : ε}
    (h : own n = some e) : inherited own offers n = some e := by
  unfold inherited
  rw [h, Option.some_or]

theorem inherited_nil (own : ν → Option ε) : inherited own [] = own := by
  ext1 n
  exact Option.or_none

theorem inherited_append (own : ν → Option ε) (offers more : List (ν → Option ε)) :
    inherited own (offers ++ more) = inherited (inherited own offers) more := by
  ext1 n
  unfold inherited
  rw [List.findSome?_append, Option.or_assoc]

theorem inherited_snoc (own : ν → Option ε) (offers : List (ν → Option ε)) (offer : ν → Option ε)
    (n : ν) : inherited own (offers ++ [offer]) n = (inherited own offers n).or (offer n) := by
  rw [inherited_append]
  unfold inherited
  rw [List.findSome?_singleton]

/-- What is inherited is the first offer. -/
theorem inherited_of_none {own : ν → Option ε} {offers : List (ν → Option ε)} {n : ν}
    (h : own n = none) : inherited own offers n = (offers.filterMap (· n)).head? := by
  unfold inherited
  rw [h, Option.none_or, List.head?_filterMap]

theorem twice_nil (clash : ε → ε → Prop) (own : ν → Option ε) (n : ν) :
    ¬ Twice clash own [] n := by
  rintro ⟨-, first, rest, h, -⟩
  cases h

/-- One more offer is met twice where it clashes with what was inherited. -/
theorem twice_snoc (clash : ε → ε → Prop) (own : ν → Option ε) (offers : List (ν → Option ε))
    (offer : ν → Option ε) (n : ν) :
    Twice clash own (offers ++ [offer]) n ↔ Twice clash own offers n ∨
      (own n = none ∧ ∃ first e, inherited own offers n = some first ∧ offer n = some e ∧
        clash first e) := by
  constructor
  · rintro ⟨hown, first, rest, hsplit, e, he, hclash⟩
    rw [List.filterMap_append] at hsplit
    cases hoffers : offers.filterMap (· n) with
    | nil =>
      rw [hoffers, List.nil_append] at hsplit
      have hshort : rest = [] := by
        cases hoffer : offer n <;> simp_all
      rw [hshort] at he
      cases he
    | cons first' rest' =>
      rw [hoffers, List.cons_append, List.cons_eq_cons] at hsplit
      obtain ⟨rfl, rfl⟩ := hsplit
      rcases List.mem_append.mp he with he | he
      · exact Or.inl ⟨hown, first', rest', hoffers, e, he, hclash⟩
      · refine Or.inr ⟨hown, first', e, ?_, ?_, hclash⟩
        · rw [inherited_of_none hown, hoffers, List.head?_cons]
        · obtain ⟨f, hf, hfe⟩ := List.mem_filterMap.mp he
          rw [List.mem_singleton.mp hf] at hfe
          exact hfe
  · rintro (⟨hown, first, rest, hoffers, e, he, hclash⟩ | ⟨hown, first, e, hfirst, he, hclash⟩)
    · exact ⟨hown, first, rest ++ [offer].filterMap (· n), by simp [hoffers], e,
        List.mem_append_left _ he, hclash⟩
    · rw [inherited_of_none hown, List.head?_eq_some_iff] at hfirst
      obtain ⟨rest, hoffers⟩ := hfirst
      exact ⟨hown, first, rest ++ [e], by simp [hoffers, he], e, by simp, hclash⟩

/-! ### Views -/

/-- Areas with definitions of their own, the areas they inherit from, and what they
hide of these. -/
structure Areas (ι ν ε : Type*) where
  own : ι → ν → Option ε
  backing : ι → List ι
  hides : ι → ν → ε → Bool

namespace Areas

variable (areas : Areas ι ν ε)

/-- What the areas that an area inherits from offer it, as they see it. -/
def offers (view : ι → ν → Option ε) (p : ι) : List (ν → Option ε) :=
  (areas.backing p).map fun b n ↦ (view b n).filter fun e ↦ !areas.hides p n e

/-- What a name stands for in an area. The first argument bounds the length of a
chain of inheritance. -/
def view : ℕ → ι → ν → Option ε
  | 0 => fun _ _ ↦ none
  | depth + 1 => fun p ↦ inherited (areas.own p) (areas.offers (view depth) p)

variable {areas}

/-- The view of an area does not depend on a bound that is large enough. -/
theorem view_stable [DecidableEq ι] {order : List ι}
    (h : Ordered (fun p q ↦ q ∈ areas.backing p) order) :
    ∀ p ∈ order, ∀ depth depth', order.idxOf p < depth → order.idxOf p < depth' →
      areas.view depth p = areas.view depth' p := by
  refine h.induction fun p hp ih depth depth' hdepth hdepth' ↦ ?_
  obtain ⟨depth, rfl⟩ := Nat.exists_eq_succ_of_ne_zero (Nat.ne_zero_of_lt hdepth)
  obtain ⟨depth', rfl⟩ := Nat.exists_eq_succ_of_ne_zero (Nat.ne_zero_of_lt hdepth')
  have hoffers : areas.offers (areas.view depth) p = areas.offers (areas.view depth') p := by
    unfold offers
    refine List.map_congr_left fun b hb ↦ ?_
    have hlt := h.idxOf_lt hp hb
    rw [ih b hb depth depth' (by omega) (by omega)]
  show inherited (areas.own p) (areas.offers (areas.view depth) p) =
    inherited (areas.own p) (areas.offers (areas.view depth') p)
  rw [hoffers]

/-- In an area that is listed after those it inherits from, a name stands for what
is defined there or is offered first. -/
theorem view_eq [DecidableEq ι] (areas : Areas ι ν ε) {order : List ι}
    (h : Ordered (fun p q ↦ q ∈ areas.backing p) order) {depth : ℕ} (hdepth : order.length ≤ depth)
    {p : ι} (hp : p ∈ order) :
    areas.view depth p = inherited (areas.own p) (areas.offers (areas.view depth) p) := by
  have hlt := List.idxOf_lt_length_of_mem hp
  rw [view_stable h p hp depth (depth + 1) (by omega) (by omega)]
  rfl

/-- What a name stands for in an area is defined in an area that it inherits from,
directly or not, or in the area itself. -/
theorem exists_own_of_view (areas : Areas ι ν ε) {n : ν} {e : ε} :
    ∀ {depth : ℕ} {p : ι}, areas.view depth p n = some e →
      ∃ q, ReflTransGen (fun p q ↦ q ∈ areas.backing p) p q ∧ areas.own q n = some e := by
  intro depth
  induction depth with
  | zero =>
    intro p h
    cases h
  | succ depth ih =>
    intro p h
    change inherited (areas.own p) (areas.offers (areas.view depth) p) n = some e at h
    cases hown : areas.own p n with
    | some own =>
      rw [inherited_of_own hown] at h
      exact ⟨p, ReflTransGen.refl, hown.trans h⟩
    | none =>
      rw [inherited_of_none hown] at h
      obtain ⟨offer, hoffer, he⟩ := List.mem_filterMap.mp (List.mem_of_mem_head? h)
      obtain ⟨b, hb, rfl⟩ := List.mem_map.mp hoffer
      obtain ⟨q, hreach, hq⟩ := ih (Option.filter_eq_some_iff.mp he).1
      exact ⟨q, ReflTransGen.head hb hreach, hq⟩

end Areas

/-! ### Copying -/

section Copying

variable {σ α β : Type*} {look : σ → ν → Option ε} {fails : τ → σ → Prop}
  {clash : τ → ε → ε → Prop} {own : ν → Option ε}

/-- A step copies an offer of one name unless the name is there already, and fails
in one of several ways where a name that is not the area's own clashes with the offer
in that way. -/
structure CopyStep (look : σ → ν → Option ε) (fails : τ → σ → Prop) (clash : τ → ε → ε → Prop)
    (own : ν → Option ε) (n : ν) (offer : Option ε) (s s' : σ) : Prop where
  here : look s' n = (look s n).or offer
  others : ∀ m, m ≠ n → look s' m = look s m
  fails_iff : ∀ t, fails t s' ↔ fails t s ∨
    (own n = none ∧ ∃ first e, look s n = some first ∧ offer = some e ∧ clash t first e)

/-- A step that does the same for all names of a table. -/
structure TableStep (look : σ → ν → Option ε) (fails : τ → σ → Prop) (clash : τ → ε → ε → Prop)
    (own : ν → Option ε) (offer : ν → Option ε) (s s' : σ) : Prop where
  look_eq : ∀ n, look s' n = (look s n).or (offer n)
  fails_iff : ∀ t, fails t s' ↔ fails t s ∨ ∃ n,
    own n = none ∧ ∃ first e, look s n = some first ∧ offer n = some e ∧ clash t first e

/-- Steps for the entries of a list, one after the other. -/
theorem foldl_copyStep_entries (inv : σ → Prop) {f : σ → ν → β → σ} (offer : ν → β → Option ε)
    (entries : List (ν × β)) (hnodup : (entries.map Prod.fst).Nodup)
    (step : ∀ s, inv s → ∀ n b, (n, b) ∈ entries →
      inv (f s n b) ∧ CopyStep look fails clash own n (offer n b) s (f s n b))
    {s s' : σ} (hs : inv s) (hrun : entries.foldl (fun s p ↦ f s p.1 p.2) s = s') :
    inv s' ∧ (∀ n b, (n, b) ∈ entries → look s' n = (look s n).or (offer n b)) ∧
      (∀ n, n ∉ entries.map Prod.fst → look s' n = look s n) ∧
      ∀ t, fails t s' ↔ fails t s ∨ ∃ n b, (n, b) ∈ entries ∧ own n = none ∧
        ∃ first e, look s n = some first ∧ offer n b = some e ∧ clash t first e := by
  induction entries generalizing s with
  | nil =>
    obtain rfl : s = s' := hrun
    exact ⟨hs, by simp, by simp, by simp⟩
  | cons p entries ih =>
    obtain ⟨k, c⟩ := p
    rw [List.map_cons, List.nodup_cons] at hnodup
    rw [List.foldl_cons] at hrun
    obtain ⟨hinv, hstep⟩ := step s hs k c List.mem_cons_self
    obtain ⟨hinv', hin, hout, hfails⟩ := ih hnodup.2
      (fun s hs n b h ↦ step s hs n b (List.mem_cons_of_mem _ h)) hinv hrun
    have hne : ∀ n b, (n, b) ∈ entries → n ≠ k := by
      intro n b h heq
      have hmem : n ∈ entries.map Prod.fst := List.mem_map_of_mem (f := Prod.fst) h
      exact hnodup.1 (heq ▸ hmem)
    refine ⟨hinv', fun n b h ↦ ?_, fun n h ↦ ?_, fun t ↦ ?_⟩
    · rcases List.mem_cons.mp h with heq | h
      · cases heq
        exact (hout k hnodup.1).trans hstep.here
      · rw [hin n b h, hstep.others n (hne n b h)]
    · rw [List.map_cons, List.mem_cons, not_or] at h
      exact (hout n h.2).trans (hstep.others n h.1)
    · rw [hfails, hstep.fails_iff, or_assoc]
      refine or_congr_right ⟨?_, ?_⟩
      · rintro (⟨hown, first, e, hfirst, he, hclash⟩ | ⟨n, b, h, hown, first, e, hfirst, he,
          hclash⟩)
        · exact ⟨k, c, List.mem_cons_self, hown, first, e, hfirst, he, hclash⟩
        · rw [hstep.others n (hne n b h)] at hfirst
          exact ⟨n, b, List.mem_cons_of_mem _ h, hown, first, e, hfirst, he, hclash⟩
      · rintro ⟨n, b, h, hown, first, e, hfirst, he, hclash⟩
        rcases List.mem_cons.mp h with heq | h
        · cases heq
          exact Or.inl ⟨hown, first, e, hfirst, he, hclash⟩
        · rw [← hstep.others n (hne n b h)] at hfirst
          exact Or.inr ⟨n, b, h, hown, first, e, hfirst, he, hclash⟩

/-- Steps for the entries of a table, one after the other. -/
theorem foldl_copyStep (inv : σ → Prop) {f : σ → ν → β → σ} (offer : ν → β → Option ε)
    (table : ν → Option β) (entries : List (ν × β)) (hnodup : (entries.map Prod.fst).Nodup)
    (htable : ∀ n b, (n, b) ∈ entries ↔ table n = some b)
    (step : ∀ s, inv s → ∀ n b, (n, b) ∈ entries →
      inv (f s n b) ∧ CopyStep look fails clash own n (offer n b) s (f s n b))
    {s s' : σ} (hs : inv s) (hrun : entries.foldl (fun s p ↦ f s p.1 p.2) s = s') :
    inv s' ∧ TableStep look fails clash own (fun n ↦ (table n).bind (offer n)) s s' := by
  obtain ⟨hinv, hin, hout, hfails⟩ := foldl_copyStep_entries inv offer entries hnodup step hs hrun
  refine ⟨hinv, fun n ↦ ?_, fun t ↦ ?_⟩
  · cases hn : table n with
    | none =>
      rw [Option.bind_none, Option.or_none]
      refine hout n fun hmem ↦ ?_
      obtain ⟨⟨m, b⟩, hentry, rfl⟩ := List.mem_map.mp hmem
      rw [(htable m b).mp hentry] at hn
      cases hn
    | some b => exact hin n b ((htable n b).mpr hn)
  · rw [hfails]
    refine or_congr_right ⟨?_, ?_⟩
    · rintro ⟨n, b, hmem, hown, first, e, hfirst, he, hclash⟩
      refine ⟨n, hown, first, e, hfirst, ?_, hclash⟩
      rw [(htable n b).mp hmem, Option.bind_some, he]
    · rintro ⟨n, hown, first, e, hfirst, he, hclash⟩
      obtain ⟨b, hb, he⟩ := Option.bind_eq_some_iff.mp he
      exact ⟨n, b, (htable n b).mpr hb, hown, first, e, hfirst, he, hclash⟩

/-- Copying from areas, one after the other, gives what is inherited from them, and
fails where a name is met twice. -/
theorem foldl_tableStep (inv : σ → Prop) {f : σ → α → σ} (offerOf : α → ν → Option ε)
    (areas : List α)
    (step : ∀ s, inv s → ∀ a ∈ areas,
      inv (f s a) ∧ TableStep look fails clash own (offerOf a) s (f s a))
    {s : σ} (hs : inv s) (hlook : look s = own) (hfails : ∀ t, ¬ fails t s) :
    inv (areas.foldl f s) ∧ look (areas.foldl f s) = inherited own (areas.map offerOf) ∧
      (∀ t, fails t (areas.foldl f s) ↔ ∃ n, Twice (clash t) own (areas.map offerOf) n) := by
  induction areas using List.reverseRecOn with
  | nil =>
    refine ⟨hs, by rw [List.map_nil, inherited_nil]; exact hlook, ?_⟩
    simp [hfails, twice_nil]
  | append_singleton areas a ih =>
    obtain ⟨hinv, hview, hiff⟩ := ih fun s hs a h ↦ step s hs a (List.mem_append_left _ h)
    obtain ⟨hinv', hstep⟩ := step _ hinv a (by simp)
    rw [List.foldl_append, List.foldl_cons, List.foldl_nil, List.map_append, List.map_singleton]
    refine ⟨hinv', ?_, fun t ↦ ?_⟩
    · ext1 n
      rw [hstep.look_eq, hview, inherited_snoc]
    · rw [hstep.fails_iff, hiff, hview, ← exists_or]
      exact exists_congr fun n ↦ (twice_snoc (clash t) own _ _ n).symm

end Copying

end Inheritance
