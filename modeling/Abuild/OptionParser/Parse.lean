import Abuild.OptionParser

/-!
What the arguments of a program are read as. They fall into pieces: an argument on its own, or an
option with the arguments that it takes and the one that ends its list. `parseOptions_spec` says
that every array of arguments is read to its end, is made of such pieces in their order, and that
there is one call for each piece; `Takes` is what each kind of option takes.
-/

set_option autoImplicit false
set_option relaxedAutoImplicit false

namespace Abuild.OptionParser

open Std (TreeMap)

variable {κ : Type}

/-! ### Pieces -/

/-- What some of the arguments are. -/
inductive Piece
  | positional (word : String)
  | unknown (word : String)
  | option (word : String) (args : List String) (terminator : Option String)

def Piece.words : Piece → List String
  | .positional word => [word]
  | .unknown word => [word]
  | .option word args terminator => word :: (args ++ terminator.toList)

/-- The argument of an option is the attached one or the next word. -/
def IsArgument (attachedArg : Option String) (args : List String) (value : String) : Prop :=
  attachedArg.toList ++ args = [value]

/-- What an option takes of the words after it, where `rest` is what it leaves, and its call. -/
def Takes (argData : ArgumentSpecification κ) (attachedArg : Option String) (args : List String)
    (terminator : Option String) (rest : List String) (call : Call κ) : Prop :=
  match argData.argType with
  | .none => args = [] ∧ terminator = none ∧
      ((attachedArg = none ∧ call = .cbVoid argData.callback) ∨
        (attachedArg ≠ none ∧ ∃ message, call = .errorFn message))
  | .optionalNumeric => terminator = none ∧
      ((∃ value, IsArgument attachedArg args value ∧ isNumeric value = true ∧
          call = .cbInt argData.callback (atoi value)) ∨
        (args = [] ∧ (∀ value ∈ attachedArg.or rest.head?, isNumeric value = false) ∧
          ((attachedArg = none ∧ call = .cbInt argData.callback (some argData.defaultValue)) ∨
            (attachedArg ≠ none ∧ ∃ message, call = .errorFn message))))
  | .numeric => terminator = none ∧
      ((∃ value, IsArgument attachedArg args value ∧ isNumeric value = true ∧
          call = .cbInt argData.callback (atoi value)) ∨
        (args = [] ∧ (∀ value ∈ attachedArg.or rest.head?, isNumeric value = false) ∧
          ∃ message, call = .errorFn message))
  | .string => terminator = none ∧
      ((∃ value, IsArgument attachedArg args value ∧ call = .cbString argData.callback value) ∨
        (attachedArg = none ∧ args = [] ∧ rest = [] ∧ ∃ message, call = .errorFn message))
  | .regex => terminator = none ∧
      ((∃ value, IsArgument attachedArg args value ∧
          ((argData.regex value = true ∧ call = .cbRegex argData.callback value) ∨
            (argData.regex value = false ∧ ∃ message, call = .errorFn message))) ∨
        (attachedArg = none ∧ args = [] ∧ rest = [] ∧ ∃ message, call = .errorFn message))
  | .list => (∀ arg ∈ args, argData.regex arg = false) ∧
      (∀ word ∈ (terminator.toList ++ rest).head?, argData.regex word = true) ∧
      (terminator.isSome ↔ argData.discardTermArg = true ∧ terminator.toList ++ rest ≠ []) ∧
      call = .cbVector argData.callback (attachedArg.toList ++ args)

/-- The call that is made for a piece when the words of `rest` come after it. -/
def Piece.Reads (arguments : Arguments κ) (rest : List String) (call : Call κ) : Piece → Prop
  | .positional word => matchOption word = none ∧ word.toList.head? ≠ some '-' ∧
      call = .posCallback word
  | .unknown word => (∀ p ∈ matchOption word, arguments[p.1]? = none) ∧
      (matchOption word = none → word.toList.head? = some '-') ∧ ∃ message, call = .errorFn message
  | .option word args terminator => ∃ option attachedArg argData,
      matchOption word = some (option, attachedArg) ∧ arguments[option]? = some argData ∧
        Takes argData attachedArg args terminator rest call

/-- There is a call for every piece, and no other. -/
inductive Parsed (arguments : Arguments κ) : List Piece → List (Call κ) → Prop
  | nil : Parsed arguments [] []
  | cons {piece : Piece} {call : Call κ} {pieces : List Piece} {calls : List (Call κ)}
      (head : piece.Reads arguments (pieces.flatMap Piece.words) call)
      (tail : Parsed arguments pieces calls) : Parsed arguments (piece :: pieces) (call :: calls)

/-! ### The pointer -/

/-- What a pointer to a word reads, and one to the word after it. -/
theorem deref_append (before after : List String) :
    deref (before ++ after) before.length = some after.head? := by
  unfold deref
  rw [if_pos (by rw [List.length_append]; exact Nat.le_add_right _ _),
    List.getElem?_append_right le_rfl, Nat.sub_self, List.head?_eq_getElem?]

theorem deref_next (before after : List String) (word : String) :
    deref (before ++ word :: after) (before.length + 1) = some after.head? := by
  have h := deref_append (before ++ [word]) after
  rwa [List.append_assoc, List.singleton_append, List.length_append, List.length_singleton] at h

variable {argData : ArgumentSpecification κ} {arguments : Arguments κ}

/-- The arguments of a list are gathered from wherever the pointer is. -/
theorem gatherArgs_spec {after : List String} {fuel : ℕ} (hfuel : after.length < fuel)
    (before : List String) (word : String) (gathered : List String) :
    ∃ args terminator rest, after = args ++ (Option.toList terminator ++ rest) ∧
      gatherArgs (before ++ word :: after) argData fuel before.length gathered =
        some (before.length + (args ++ terminator.toList).length, gathered ++ args) ∧
      (∀ arg ∈ args, argData.regex arg = false) ∧
      (∀ word ∈ (terminator.toList ++ rest).head?, argData.regex word = true) ∧
      (terminator.isSome ↔ argData.discardTermArg = true ∧ terminator.toList ++ rest ≠ []) := by
  induction fuel generalizing after before word gathered with
  | zero => exact absurd hfuel (Nat.not_lt_zero _)
  | succ fuel ih =>
    unfold gatherArgs
    rw [deref_next, Option.bind_eq_bind, Option.bind_some]
    cases after with
    | nil =>
      refine ⟨[], none, [], rfl, ?_, ?_⟩
      · simp
      · simp
    | cons nextArg after =>
      dsimp only [List.head?_cons]
      by_cases hterminates : argData.regex nextArg = true
      · rw [if_pos hterminates]
        cases hdiscard : argData.discardTermArg with
        | true =>
          refine ⟨[], some nextArg, after, rfl, ?_, ?_⟩
          · simp
          · simp [hterminates]
        | false =>
          refine ⟨[], none, nextArg :: after, rfl, ?_, ?_⟩
          · simp
          · simp [hterminates]
      · rw [if_neg hterminates]
        have hlength : after.length < fuel := by
          rw [List.length_cons] at hfuel
          omega
        obtain ⟨args, terminator, rest, hafter, hgather, hargs, hends⟩ :=
          ih hlength (before ++ [word]) nextArg (gathered ++ [nextArg])
        refine ⟨nextArg :: args, terminator, rest, ?_, ?_, ?_, hends⟩
        · rw [hafter, List.cons_append]
        · rw [List.append_assoc, List.singleton_append, List.length_append, List.length_singleton,
            List.append_assoc, List.singleton_append] at hgather
          rw [hgather, List.cons_append, List.length_cons]
          congr 2
          omega
        · intro arg harg
          rcases List.mem_cons.mp harg with rfl | harg
          · exact Bool.eq_false_of_not_eq_true hterminates
          · exact hargs arg harg

/-- The first argument of an option, from where it is attached or from the next word. -/
theorem firstArg_spec (attachedArg : Option String) (before : List String) (word : String)
    (after : List String) :
    ∃ nextArg, findNextArg (before ++ word :: after) attachedArg before.length = some nextArg ∧
      attachedArg.or nextArg = attachedArg.or after.head? ∧
      (attachedArg.or nextArg = none → attachedArg = none ∧ after = []) ∧
      ∀ value ∈ attachedArg.or nextArg, ∃ args rest, after = args ++ rest ∧
        IsArgument attachedArg args value ∧
          (if nextArg.isSome then before.length + 1 else before.length) =
            before.length + args.length := by
  cases attachedArg with
  | some attached =>
    refine ⟨none, rfl, rfl, fun h ↦ (by cases h), fun value hvalue ↦ ⟨[], after, rfl, ?_, rfl⟩⟩
    rw [← Option.some_inj.mp hvalue]
    rfl
  | none =>
    refine ⟨after.head?, deref_next before after word, rfl,
      fun h ↦ ⟨rfl, List.head?_eq_none_iff.mp h⟩, fun value hvalue ↦ ?_⟩
    obtain ⟨rest, rfl⟩ := List.head?_eq_some_iff.mp hvalue
    exact ⟨[value], rest, rfl, rfl, rfl⟩

/-! ### Options -/

/-- The pointer goes on over what the option takes of the words after it, and the call is the one
for that. -/
def Handled (argData : ArgumentSpecification κ) (attachedArg : Option String) (after : List String)
    (arg : ℕ) (result : Option (ℕ × Call κ)) : Prop :=
  ∃ args terminator rest call, after = args ++ (Option.toList terminator ++ rest) ∧
    result = some (arg + (args ++ terminator.toList).length, call) ∧
    Takes argData attachedArg args terminator rest call

section Handled

variable {attachedArg : Option String} {after args rest : List String} {arg pointer : ℕ}
  {call : Call κ}

theorem Handled.take (hpointer : pointer = arg + args.length)
    (htakes : Takes argData attachedArg args none rest call) :
    Handled argData attachedArg (args ++ rest) arg (some (pointer, call)) := by
  refine ⟨args, none, rest, call, rfl, ?_, htakes⟩
  rw [hpointer, Option.toList_none, List.append_nil]

theorem Handled.stay (htakes : Takes argData attachedArg [] none after call) :
    Handled argData attachedArg after arg (some (arg, call)) :=
  Handled.take (Nat.add_zero arg).symm htakes

/-- A number is taken alike whether the option has a default for it or not. -/
theorem takes_digits {digits : String}
    (htype : argData.argType = .optionalNumeric ∨ argData.argType = .numeric)
    (hargument : IsArgument attachedArg args digits) (hdigits : isNumeric digits = true) :
    Takes argData attachedArg args none rest (.cbInt argData.callback (atoi digits)) := by
  unfold Takes
  rcases htype with htype | htype
  · rw [htype]
    exact ⟨rfl, Or.inl ⟨digits, hargument, hdigits, rfl⟩⟩
  · rw [htype]
    exact ⟨rfl, Or.inl ⟨digits, hargument, hdigits, rfl⟩⟩

end Handled

theorem handleOption_spec (option : String) (attachedArg : Option String) (before : List String)
    (word : String) (after : List String) :
    Handled argData attachedArg after before.length
      (handleOption (before ++ word :: after) option argData attachedArg before.length) := by
  obtain ⟨nextArg, hnext, hfirst, hmissing, hvalue⟩ :=
    firstArg_spec attachedArg before word after
  have hdigits : ∀ digits, (argData.argType = .optionalNumeric ∨ argData.argType = .numeric) →
      (attachedArg.or nextArg).filter isNumeric = some digits →
      Handled argData attachedArg after before.length
        (some (if nextArg.isSome then before.length + 1 else before.length,
          .cbInt argData.callback (atoi digits))) := by
    intro digits htype hfilter
    obtain ⟨harg, hdigit⟩ := Option.filter_eq_some_iff.mp hfilter
    obtain ⟨args, rest, rfl, hargument, hpointer⟩ := hvalue digits harg
    exact .take hpointer (takes_digits htype hargument hdigit)
  have hnone : (attachedArg.or nextArg).filter isNumeric = none →
      ∀ value ∈ attachedArg.or after.head?, isNumeric value = false := by
    intro hfilter value hin
    rw [← hfirst] at hin
    exact Bool.eq_false_of_not_eq_true (Option.filter_eq_none_iff.mp hfilter value hin)
  unfold handleOption
  rw [hnext, Option.bind_eq_bind, Option.bind_some]
  cases htype : argData.argType with
  | none =>
    dsimp only
    cases attachedArg with
    | none =>
      apply Handled.stay
      unfold Takes
      rw [htype]
      exact ⟨rfl, rfl, Or.inl ⟨rfl, rfl⟩⟩
    | some attached =>
      apply Handled.stay
      unfold Takes
      rw [htype]
      exact ⟨rfl, rfl, Or.inr ⟨Option.some_ne_none _, _, rfl⟩⟩
  | optionalNumeric =>
    dsimp only
    cases hfilter : (attachedArg.or nextArg).filter isNumeric with
    | some digits => exact hdigits digits (Or.inl htype) hfilter
    | none =>
      cases attachedArg with
      | none =>
        apply Handled.stay
        unfold Takes
        rw [htype]
        exact ⟨rfl, Or.inr ⟨rfl, hnone hfilter, Or.inl ⟨rfl, rfl⟩⟩⟩
      | some attached =>
        apply Handled.stay
        unfold Takes
        rw [htype]
        exact ⟨rfl, Or.inr ⟨rfl, hnone hfilter, Or.inr ⟨Option.some_ne_none _, _, rfl⟩⟩⟩
  | numeric =>
    dsimp only
    cases hfilter : (attachedArg.or nextArg).filter isNumeric with
    | some digits => exact hdigits digits (Or.inr htype) hfilter
    | none =>
      apply Handled.stay
      unfold Takes
      rw [htype]
      exact ⟨rfl, Or.inr ⟨rfl, hnone hfilter, _, rfl⟩⟩
  | string =>
    dsimp only
    cases harg : attachedArg.or nextArg with
    | none =>
      obtain ⟨rfl, rfl⟩ := hmissing harg
      apply Handled.stay
      unfold Takes
      rw [htype]
      exact ⟨rfl, Or.inr ⟨rfl, rfl, rfl, _, rfl⟩⟩
    | some value =>
      obtain ⟨args, rest, rfl, hargument, hpointer⟩ := hvalue value harg
      apply Handled.take hpointer
      unfold Takes
      rw [htype]
      exact ⟨rfl, Or.inl ⟨value, hargument, rfl⟩⟩
  | regex =>
    dsimp only
    cases harg : attachedArg.or nextArg with
    | none =>
      obtain ⟨rfl, rfl⟩ := hmissing harg
      apply Handled.stay
      unfold Takes
      rw [htype]
      exact ⟨rfl, Or.inr ⟨rfl, rfl, rfl, _, rfl⟩⟩
    | some value =>
      obtain ⟨args, rest, rfl, hargument, hpointer⟩ := hvalue value harg
      dsimp only
      by_cases hregex : argData.regex value = true
      · rw [if_pos hregex]
        apply Handled.take hpointer
        unfold Takes
        rw [htype]
        exact ⟨rfl, Or.inl ⟨value, hargument, Or.inl ⟨hregex, rfl⟩⟩⟩
      · rw [if_neg hregex]
        apply Handled.take hpointer
        unfold Takes
        rw [htype]
        have hmismatch : argData.regex value = false := Bool.eq_false_of_not_eq_true hregex
        exact ⟨rfl, Or.inl ⟨value, hargument, Or.inr ⟨hmismatch, _, rfl⟩⟩⟩
  | list =>
    dsimp only
    have hfuel : after.length < (before ++ word :: after).length + 1 := by
      rw [List.length_append, List.length_cons]
      omega
    obtain ⟨args, terminator, rest, hafter, hgather, hargs, hstops, hdiscards⟩ :=
      gatherArgs_spec hfuel before word attachedArg.toList
    rw [hgather]
    refine ⟨args, terminator, rest, _, hafter, rfl, ?_⟩
    unfold Takes
    rw [htype]
    exact ⟨hargs, hstops, hdiscards, rfl⟩

/-! ### The whole array -/

theorem parseArg_spec (before : List String) (word : String) (after : List String) :
    ∃ piece rest call, word :: after = Piece.words piece ++ rest ∧
      parseArg arguments (before ++ word :: after) word before.length =
        some ((before ++ piece.words).length - 1, call) ∧ piece.Reads arguments rest call := by
  unfold parseArg
  cases hoption : matchOption word with
  | none =>
    dsimp only
    by_cases hdash : word.toList.head? = some '-'
    · rw [if_pos hdash]
      refine ⟨.unknown word, after, .errorFn ("unknown argument \"" ++ word ++ "\""), rfl, ?_, ?_,
        fun _ ↦ hdash, _, rfl⟩
      · rw [Piece.words, List.length_append, List.length_singleton, Nat.add_sub_cancel]
      · rw [hoption]
        exact fun p hp ↦ by cases hp
    · rw [if_neg hdash]
      refine ⟨.positional word, after, _, rfl, ?_, hoption, hdash, rfl⟩
      rw [Piece.words, List.length_append, List.length_singleton, Nat.add_sub_cancel]
  | some matched =>
    obtain ⟨option, attachedArg⟩ := matched
    dsimp only
    cases hdata : arguments[option]? with
    | none =>
      refine ⟨.unknown word, after, .errorFn ("unknown option \"" ++ option ++ "\""), rfl, ?_, ?_,
        fun hno ↦ ?_, _, rfl⟩
      · rw [Piece.words, List.length_append, List.length_singleton, Nat.add_sub_cancel]
      · rw [hoption]
        intro p hp
        rwa [← Option.some_inj.mp hp]
      · rw [hoption] at hno
        cases hno
    | some argData =>
      obtain ⟨args, terminator, rest, call, hafter, hhandle, htakes⟩ :=
        handleOption_spec option attachedArg before word after
      refine ⟨.option word args terminator, rest, call, ?_, ?_,
        option, attachedArg, argData, hoption, hdata, htakes⟩
      · rw [hafter, Piece.words, List.cons_append, List.append_assoc]
      · have hlength : (before ++ word :: (args ++ terminator.toList)).length - 1 =
            before.length + (args ++ terminator.toList).length := by
          rw [List.length_append, List.length_cons, ← Nat.add_assoc, Nat.add_sub_cancel]
        dsimp only
        rw [hhandle, Piece.words, hlength]

theorem parseFrom_spec {after : List String} {fuel : ℕ} (hfuel : after.length < fuel)
    (before : List String) (calls : List (Call κ)) :
    ∃ pieces rest, after = List.flatMap Piece.words pieces ∧
      parseFrom arguments (before ++ after) fuel before.length calls = some (calls ++ rest) ∧
      Parsed arguments pieces rest := by
  induction fuel generalizing after before calls with
  | zero => exact absurd hfuel (Nat.not_lt_zero _)
  | succ fuel ih =>
    unfold parseFrom
    rw [deref_append, Option.bind_eq_bind, Option.bind_some]
    cases after with
    | nil => exact ⟨[], [], rfl, congrArg some (List.append_nil calls).symm, .nil⟩
    | cons word after =>
      obtain ⟨piece, rest, call, hwords, hparse, hreads⟩ :=
        parseArg_spec before word after
      have hpos : 0 < piece.words.length := by
        cases piece <;> simp [Piece.words]
      have hlength : rest.length < fuel := by
        have h := congrArg List.length hwords
        rw [List.length_append, List.length_cons] at h
        rw [List.length_cons] at hfuel
        omega
      obtain ⟨pieces, later, hrest, hrun, hparsed⟩ :=
        ih hlength (before ++ piece.words) (calls ++ [call])
      refine ⟨piece :: pieces, call :: later, ?_, ?_, .cons ?_ hparsed⟩
      · rw [hwords, hrest, List.flatMap_cons]
      · dsimp only [List.head?_cons]
        have hnext : (before ++ piece.words).length - 1 + 1 = (before ++ piece.words).length := by
          rw [List.length_append]
          omega
        rw [hparse, Option.bind_eq_bind, Option.bind_some]
        dsimp only
        rw [hnext, hwords, ← List.append_assoc, hrun, List.append_assoc, List.singleton_append]
      · rwa [← hrest]

theorem Parsed.exists_error {pieces : List Piece} {calls : List (Call κ)} {word : String}
    (h : Parsed arguments pieces calls) (hword : .unknown word ∈ pieces) :
    ∃ message, .errorFn message ∈ calls := by
  induction h with
  | nil => exact absurd hword List.not_mem_nil
  | cons head tail ih =>
    rcases List.mem_cons.mp hword with rfl | hlater
    · obtain ⟨-, -, message, rfl⟩ := head
      exact ⟨message, List.mem_cons_self⟩
    · obtain ⟨message, hmessage⟩ := ih hlater
      exact ⟨message, List.mem_cons_of_mem _ hmessage⟩

/-- Every array of arguments is read to the null pointer and not behind it. The words are those of
the pieces, in their order, and there is a call for every piece. Unless an error is reported, they
are options with what they take and positional arguments. -/
theorem parseOptions_spec (arguments : Arguments κ) (argv : List String) :
    ∃ calls pieces, parseOptions arguments argv = some calls ∧
      argv = List.flatMap Piece.words pieces ∧ Parsed arguments pieces calls ∧
      ((∃ message, .errorFn message ∈ calls) ∨ ∀ word, .unknown word ∉ pieces) := by
  obtain ⟨pieces, calls, hwords, hrun, hparsed⟩ :=
    parseFrom_spec (Nat.lt_succ_self argv.length) [] []
  refine ⟨calls, pieces, hrun, hwords, hparsed, ?_⟩
  by_cases hunknown : ∃ word, .unknown word ∈ pieces
  · obtain ⟨word, hword⟩ := hunknown
    exact Or.inl (hparsed.exists_error hword)
  · exact Or.inr (not_exists.mp hunknown)

set_option maxRecDepth 4000 in
/-- A list with an attached argument and a terminator that is discarded. -/
example : parseOptions (.ofList [("help", .mk .list 0 true (· = "--end-help") 0)] compare)
    ["--help=a", "b", "--end-help", "c"] = some [.cbVector 0 ["a", "b"], .posCallback "c"] := by
  decide

end Abuild.OptionParser
