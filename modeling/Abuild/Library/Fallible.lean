import Mathlib.Data.List.Basic

/-!
Folds whose steps may fail. What a step keeps is kept by the fold; a fold gets to its
end exactly where every step, in the state that it is taken in, does; and where a step
does not bear on whether a later one fails, the steps may all be judged in the first
state. Two folds whose steps keep a relation both fail, or end in related states. The
results of a function that may fail, for all elements of a list, are there if each is. Where
failures have a reason, one statement is about the value and about the reason (`Ends`), and it goes
through binds and folds.
-/

set_option autoImplicit false
set_option relaxedAutoImplicit false

namespace Fallible

variable {σ β : Type} {f : σ → β → Option σ} {l : List β} {s s' : σ}

theorem foldlM_cons (b : β) (l : List β) (s : σ) :
    (b :: l).foldlM f s = (f s b).bind (l.foldlM f) := rfl

/-- What every step keeps is kept by the fold. -/
theorem foldlM_induction {motive : σ → Prop} (h : l.foldlM f s = some s') (start : motive s)
    (step : ∀ b ∈ l, ∀ s s', f s b = some s' → motive s → motive s') : motive s' := by
  induction l generalizing s with
  | nil =>
    obtain rfl : s = s' := by simpa using h
    exact start
  | cons b l ih =>
    rw [foldlM_cons] at h
    obtain ⟨s₁, hs₁, hrest⟩ := Option.bind_eq_some_iff.mp h
    exact ih hrest (step b List.mem_cons_self s s₁ hs₁ start)
      fun c hc ↦ step c (List.mem_cons_of_mem _ hc)

variable {P : σ → β → Prop}

/-- A fold gets to its end exactly where every step does in its own state. The motive is
about the steps that have been taken and the state after them. -/
theorem isSome_foldlM_iff {motive : List β → σ → Prop} (start : motive [] s)
    (step : ∀ before b after, l = before ++ b :: after → ∀ s s', f s b = some s' →
      motive before s → motive (before ++ [b]) s')
    (hiff : ∀ before b after, l = before ++ b :: after → ∀ s, motive before s →
      ((f s b).isSome ↔ P s b)) :
    (l.foldlM f s).isSome ↔ ∀ before b after, l = before ++ b :: after →
      ∀ s', before.foldlM f s = some s' → P s' b := by
  induction l generalizing s motive with
  | nil => exact iff_of_true rfl fun _ _ _ hsplit ↦ absurd hsplit (by simp)
  | cons b l ih =>
    have hfirst := hiff [] b l rfl s start
    rw [foldlM_cons]
    cases hs₁ : f s b with
    | none =>
      refine iff_of_false (by simp) fun hall ↦ ?_
      have hsome := hfirst.mpr (hall [] b l rfl s rfl)
      rw [hs₁] at hsome
      cases hsome
    | some s₁ =>
      rw [Option.bind_some, ih (motive := fun before ↦ motive (b :: before))
        (step [] b l rfl s s₁ hs₁ start)
        (fun before c after hsplit ↦ step (b :: before) c after (by rw [hsplit, List.cons_append]))
        (fun before c after hsplit ↦ hiff (b :: before) c after (by rw [hsplit, List.cons_append]))]
      constructor
      · intro hall before c after hsplit s' hs'
        cases before with
        | nil =>
          obtain ⟨rfl, -⟩ := List.cons.inj hsplit
          obtain rfl : s = s' := by simpa using hs'
          exact hfirst.mp (by rw [hs₁]; rfl)
        | cons d before =>
          obtain ⟨rfl, htail⟩ := List.cons.inj hsplit
          rw [foldlM_cons, hs₁, Option.bind_some] at hs'
          exact hall before c after htail s' hs'
      · intro hall before c after hsplit s' hs'
        refine hall (b :: before) c after (by rw [hsplit, List.cons_append]) s' ?_
        rw [foldlM_cons, hs₁, Option.bind_some, hs']

/-- Where a step does not bear on the later ones, a fold gets to its end exactly where
every step does in the first state. -/
theorem isSome_foldlM_iff_of_independent {motive : σ → Prop} (start : motive s)
    (step : ∀ b ∈ l, ∀ s s', f s b = some s' → motive s → motive s')
    (hiff : ∀ b ∈ l, ∀ s, motive s → ((f s b).isSome ↔ P s b))
    (hindependent : l.Pairwise fun b c ↦ ∀ s s', f s b = some s' → motive s → (P s' c ↔ P s c)) :
    (l.foldlM f s).isSome ↔ ∀ b ∈ l, P s b := by
  induction l generalizing s with
  | nil => simp
  | cons b l ih =>
    have hfirst := hiff b List.mem_cons_self s start
    obtain ⟨hhead, htail⟩ := List.pairwise_cons.mp hindependent
    rw [foldlM_cons, List.forall_mem_cons, ← hfirst]
    cases hs₁ : f s b with
    | none => simp
    | some s₁ =>
      rw [Option.bind_some, ih (step b List.mem_cons_self s s₁ hs₁ start)
        (fun c hc ↦ step c (List.mem_cons_of_mem _ hc))
        (fun c hc ↦ hiff c (List.mem_cons_of_mem _ hc)) htail, Option.isSome_some]
      refine ⟨fun hall ↦ ⟨rfl, fun c hc ↦ ?_⟩, fun hall c hc ↦ ?_⟩
      · exact (hhead c hc s s₁ hs₁ start).mp (hall c hc)
      · exact (hhead c hc s s₁ hs₁ start).mpr (hall.2 c hc)

/-! ### Two folds in step -/

section Related

variable {τ σ' τ' : Type} {R : σ → τ → Prop} {S : σ' → τ' → Prop}

theorem rel_bind {x : Option σ} {y : Option τ} {h : σ → Option σ'} {k : τ → Option τ'}
    (hxy : Option.Rel R x y) (hhk : ∀ s t, R s t → Option.Rel S (h s) (k t)) :
    Option.Rel S (x.bind h) (y.bind k) := by
  cases hxy with
  | none => exact .none
  | some hst => exact hhk _ _ hst

theorem rel_foldlM {g : τ → β → Option τ} {t : τ} (start : R s t)
    (step : ∀ b ∈ l, ∀ s t, R s t → Option.Rel R (f s b) (g t b)) :
    Option.Rel R (l.foldlM f s) (l.foldlM g t) := by
  induction l generalizing s t with
  | nil => exact .some start
  | cons b l ih =>
    rw [foldlM_cons, foldlM_cons]
    refine rel_bind (step b List.mem_cons_self s t start) fun s' t' hst ↦ ?_
    exact ih hst fun c hc ↦ step c (List.mem_cons_of_mem _ hc)

theorem isSome_eq_of_rel {x : Option σ} {y : Option τ} (h : Option.Rel R x y) :
    x.isSome = y.isSome := by
  cases h <;> rfl

theorem exists_of_rel {x : Option σ} {y : Option τ} {s : σ} (h : Option.Rel R x y)
    (hx : x = some s) : ∃ t, y = some t ∧ R s t := by
  subst hx
  cases h with
  | some hst => exact ⟨_, rfl, hst⟩

end Related

section MapM

variable {α γ : Type} {f f' : α → Option γ}

theorem mapM_isSome_iff {l : List α} : (l.mapM f).isSome ↔ ∀ a ∈ l, (f a).isSome := by
  induction l with
  | nil => simp
  | cons a l ih =>
    rw [List.mapM_cons, List.forall_mem_cons, ← ih]
    cases f a with
    | none => simp
    | some b => cases l.mapM f <;> simp

theorem mem_of_mapM {l : List α} {l' : List γ} (h : l.mapM f = some l') :
    (∀ a ∈ l, ∃ b ∈ l', f a = some b) ∧ ∀ b ∈ l', ∃ a ∈ l, f a = some b := by
  induction l generalizing l' with
  | nil =>
    obtain rfl : l' = [] := by simpa using h.symm
    exact ⟨by simp, by simp⟩
  | cons a l ih =>
    rw [List.mapM_cons] at h
    obtain ⟨b, hb, h⟩ := Option.bind_eq_some_iff.mp h
    obtain ⟨rest, hrest, h⟩ := Option.bind_eq_some_iff.mp h
    obtain rfl : b :: rest = l' := by simpa using h
    obtain ⟨hleft, hright⟩ := ih hrest
    refine ⟨fun c hc ↦ ?_, fun d hd ↦ ?_⟩
    · rcases List.mem_cons.mp hc with rfl | hc
      · exact ⟨b, List.mem_cons_self, hb⟩
      · obtain ⟨d, hd, hcd⟩ := hleft c hc
        exact ⟨d, List.mem_cons_of_mem _ hd, hcd⟩
    · rcases List.mem_cons.mp hd with rfl | hd
      · exact ⟨a, List.mem_cons_self, hb⟩
      · obtain ⟨c, hc, hcd⟩ := hright d hd
        exact ⟨c, List.mem_cons_of_mem _ hc, hcd⟩

theorem mapM_congr {l : List α} (h : ∀ a ∈ l, f a = f' a) : l.mapM f = l.mapM f' := by
  induction l with
  | nil => rfl
  | cons a l ih =>
    rw [List.mapM_cons, List.mapM_cons, h a List.mem_cons_self,
      ih fun c hc ↦ h c (List.mem_cons_of_mem _ hc)]

end MapM

/-! ### Failures with a reason -/

section Reasons

variable {ε α γ : Type} {x : Except ε α} {f : α → Except ε γ}

theorem bind_eq_ok {c : γ} : (x >>= f) = .ok c ↔ ∃ a, x = .ok a ∧ f a = .ok c := by
  cases x with
  | error e =>
    refine iff_of_false (fun h ↦ ?_) ?_
    · cases h
    · rintro ⟨a, h, -⟩
      cases h
  | ok a =>
    refine ⟨fun h ↦ ⟨a, rfl, h⟩, ?_⟩
    rintro ⟨b, hb, h⟩
    obtain rfl := Except.ok.inj hb
    exact h

variable {g : σ → β → Except ε σ}

/-- What every step keeps is kept by a fold that does not fail. -/
theorem foldlM_ok_induction {motive : σ → Prop} (h : l.foldlM g s = .ok s') (start : motive s)
    (step : ∀ b ∈ l, ∀ s s', g s b = .ok s' → motive s → motive s') : motive s' := by
  induction l generalizing s with
  | nil =>
    obtain rfl := Except.ok.inj h
    exact start
  | cons b l ih =>
    rw [List.foldlM_cons] at h
    obtain ⟨s₁, hs₁, hrest⟩ := bind_eq_ok.mp h
    exact ih hrest (step b List.mem_cons_self s s₁ hs₁ start)
      fun c hc ↦ step c (List.mem_cons_of_mem _ hc)

/-- What holds of the value if there is one, and of the reason if there is none. -/
def Ends (P : α → Prop) (E : ε → Prop) : Except ε α → Prop
  | .ok a => P a
  | .error e => E e

theorem Ends.mono {P P' : α → Prop} {E E' : ε → Prop} (h : Ends P E x) (hP : ∀ a, P a → P' a)
    (hE : ∀ e, E e → E' e) : Ends P' E' x := by
  cases x with
  | error e => exact hE e h
  | ok a => exact hP a h

theorem Ends.bind {P : α → Prop} {Q : γ → Prop} {E : ε → Prop} (h : Ends P E x)
    (hf : ∀ a, P a → Ends Q E (f a)) : Ends Q E (x >>= f) := by
  cases x with
  | error e => exact h
  | ok a => exact hf a h

/-- What the steps keep, a motive about the steps that have been taken and the state after them,
holds at the end of a fold. -/
theorem Ends.foldlM {motive : List β → σ → Prop} {E : ε → Prop} (start : motive [] s)
    (step : ∀ before b after, l = before ++ b :: after → ∀ s, motive before s →
      Ends (motive (before ++ [b])) E (g s b)) : Ends (motive l) E (l.foldlM g s) := by
  induction l generalizing s motive with
  | nil => exact start
  | cons b l ih =>
    rw [List.foldlM_cons]
    refine (step [] b l rfl s start).bind fun s₁ hs₁ ↦ ?_
    refine ih (motive := fun before ↦ motive (b :: before)) hs₁ fun before c after hsplit ↦ ?_
    exact step (b :: before) c after (by rw [hsplit, List.cons_append])

theorem Ends.forM {E : ε → Prop} {f : β → Except ε PUnit}
    (h : ∀ b ∈ l, Ends (fun _ ↦ True) E (f b)) : Ends (fun _ ↦ True) E (l.forM f) := by
  induction l with
  | nil => trivial
  | cons b l ih =>
    obtain ⟨hfirst, hrest⟩ := List.forall_mem_cons.mp h
    exact hfirst.bind fun _ _ ↦ ih hrest

end Reasons

end Fallible
