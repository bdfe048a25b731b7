import Abuild.KeyVal.Match

/-!
The pieces of a file: a key with its value, which may go on over several lines, or a line without a
key. `Pieces` says what the lines of a file mean, without the state of the reader. A file is read
without an error exactly when its lines are such pieces with keys of the specification, none of
them twice and no mandatory one missing (`pieces_of_readFile`), and what has been read are the
pieces (`readFile_of_pieces`).
-/

set_option autoImplicit false
set_option relaxedAutoImplicit false

namespace Abuild.KeyVal

open Std (TreeMap TreeSet)
open Reading

/-- The lines that go on with a value, and the value with them. -/
inductive Continues : Bool → String → List (List Char) → String → Prop
  | done {value : String} : Continues false value [] value
  | comment {value value' : String} {line : List Char} {lines : List (List Char)}
      (hcomment : commentLine line = true) (rest : Continues true value lines value') :
      Continues true value (line :: lines) value'
  | content {value value' : String} {line : List Char} {lines : List (List Char)}
      (hcomment : commentLine line = false)
      (rest : Continues (lineContent line).2 (value ++ String.ofList (lineContent line).1) lines
        value') :
      Continues true value (line :: lines) value'

/-- The lines of one piece, with its text and its key and value. -/
inductive IsPiece : List (List Char) → OrigData → Option (String × String) → Prop
  | other {line : List Char} (h : commentLine line = true ∨ ∀ c ∈ line, isSpace c = true) :
      IsPiece [line] ⟨line, "", []⟩ none
  | entry {line : List Char} {m : KvLine} {lines : List (List Char)} {value : String}
      (hcomment : commentLine line = false) (hm : matchKvLine line = some m)
      (rest : Continues (lineContent line).2 (String.ofList (m.firstValue (lineContent line).2))
        lines value) :
      IsPiece (line :: lines) ⟨m.leading, String.ofList m.key, m.trailing ++ lines.flatten⟩
        (some (String.ofList m.key, value))

inductive Pieces : List (List Char) → List (OrigData × Option (String × String)) → Prop
  | nil : Pieces [] []
  | cons {lines rest : List (List Char)} {od : OrigData} {entry : Option (String × String)}
      {pieces : List (OrigData × Option (String × String))} (head : IsPiece lines od entry)
      (tail : Pieces rest pieces) : Pieces (lines ++ rest) ((od, entry) :: pieces)

/-- The keys of some pieces with their values. -/
def entries (pieces : List (OrigData × Option (String × String))) : List (String × String) :=
  pieces.filterMap Prod.snd

def entryKeys (pieces : List (OrigData × Option (String × String))) : List String :=
  (entries pieces).map Prod.fst

theorem Pieces.append {lines lines' : List (List Char)}
    {pieces pieces' : List (OrigData × Option (String × String))} (h : Pieces lines pieces)
    (h' : Pieces lines' pieces') : Pieces (lines ++ lines') (pieces ++ pieces') := by
  induction h with
  | nil => exact h'
  | cons head tail ih =>
    rw [List.append_assoc]
    exact .cons head ih

theorem entries_append (pieces pieces' : List (OrigData × Option (String × String))) :
    entries (pieces ++ pieces') = entries pieces ++ entries pieces' :=
  List.filterMap_append

/-! ### The reader -/

variable {spec : KeySpec}

/-- The reader knows some keys of the specification, each with one value. -/
structure Known (spec : KeySpec) (known : List (String × String)) (s : Reading) : Prop where
  data : ∀ key value, s.data[key]? = some value ↔ (key, value) ∈ known
  explicitKeys : ∀ key, key ∈ s.explicitKeys ↔ key ∈ known.map Prod.fst
  keys : ∀ key ∈ known.map Prod.fst, key ∈ spec.keys
  nodup : (known.map Prod.fst).Nodup

/-- The reader has read some pieces without an error. -/
structure Between (spec : KeySpec) (pieces : List (OrigData × Option (String × String)))
    (s : Reading) : Prop where
  origData : s.origData = pieces.map Prod.fst
  current : s.current = .empty
  value : s.value = .none
  errors : s.errors = []
  known : Known spec (entries pieces) s

/-- After some pieces, the reader is in a value that goes on. -/
structure Within (spec : KeySpec) (pieces : List (OrigData × Option (String × String)))
    (od : OrigData) (entry : String × String) (s : Reading) : Prop where
  origData : s.origData = pieces.map Prod.fst
  current : s.current = od
  value : s.value = .data entry.1
  errors : s.errors = []
  known : Known spec (entries pieces ++ [entry]) s

section Steps

variable {pieces : List (OrigData × Option (String × String))} {od : OrigData}
  {entry : String × String} {s : Reading} {line : List Char}

theorem Known.congr {known known' : List (String × String)} {s s' : Reading}
    (h : Known spec known s) (hknown : known = known') (hdata : s'.data = s.data)
    (hkeys : s'.explicitKeys = s.explicitKeys) : Known spec known' s' := by
  subst hknown
  exact ⟨hdata ▸ h.data, hkeys ▸ h.explicitKeys, h.keys, h.nodup⟩

/-- A new key. -/
theorem Known.add {known : List (String × String)} {s s' : Reading} {key value : String}
    (h : Known spec known s) (hnew : key ∉ known.map Prod.fst) (hkey : key ∈ spec.keys)
    (hdata : s'.data = s.data.insert key value)
    (hkeys : s'.explicitKeys = s.explicitKeys.insert key) :
    Known spec (known ++ [(key, value)]) s' := by
  refine ⟨fun key' value' ↦ ?_, fun key' ↦ ?_, ?_, ?_⟩
  · rw [hdata, TreeMap.getElem?_insert, List.mem_append, List.mem_singleton]
    split_ifs with heq
    · obtain rfl := compare_eq_iff_eq.mp heq
      rw [Option.some_inj, or_iff_right fun hmem ↦ hnew (List.mem_map_of_mem hmem), Prod.mk.injEq,
        and_iff_right rfl, eq_comm]
    · rw [h.data, or_iff_left]
      intro hpair
      exact heq (compare_eq_iff_eq.mpr (Prod.mk.inj hpair).1.symm)
  · rw [hkeys, TreeSet.mem_insert, compare_eq_iff_eq, h.explicitKeys, List.map_append,
      List.mem_append, or_comm, List.map_singleton, List.mem_singleton, eq_comm]
  · rw [List.map_append, List.forall_mem_append]
    exact ⟨h.keys, List.forall_mem_singleton.mpr hkey⟩
  · rw [List.map_append]
    exact List.concat_eq_append ▸ h.nodup.concat hnew

/-- More of the last value. -/
theorem Known.set {known : List (String × String)} {s s' : Reading} {key value value' : String}
    (h : Known spec (known ++ [(key, value)]) s)
    (hdata : s'.data = s.data.insert key value') (hkeys : s'.explicitKeys = s.explicitKeys) :
    Known spec (known ++ [(key, value')]) s' := by
  have hfst : (known ++ [(key, value)]).map Prod.fst = (known ++ [(key, value')]).map Prod.fst := by
    rw [List.map_append, List.map_append]
    rfl
  have hnew : key ∉ known.map Prod.fst := by
    have hnodup := h.nodup
    rw [List.map_append] at hnodup
    exact fun hmem ↦ (List.disjoint_of_nodup_append hnodup) hmem (List.mem_singleton.mpr rfl)
  refine ⟨fun key' v ↦ ?_, fun key' ↦ ?_, hfst ▸ h.keys, hfst ▸ h.nodup⟩
  · rw [hdata, TreeMap.getElem?_insert, List.mem_append, List.mem_singleton]
    split_ifs with heq
    · obtain rfl := compare_eq_iff_eq.mp heq
      rw [Option.some_inj, or_iff_right fun hmem ↦ hnew (List.mem_map_of_mem hmem), Prod.mk.injEq,
        and_iff_right rfl, eq_comm]
    · have hne : ∀ w : String, (key', v) ≠ (key, w) := fun w hpair ↦
        heq (compare_eq_iff_eq.mpr (Prod.mk.inj hpair).1.symm)
      rw [h.data, List.mem_append, List.mem_singleton, or_iff_left (hne value),
        or_iff_left (hne value')]
  · rw [hkeys, h.explicitKeys, hfst]

theorem entries_concat_none (pieces : List (OrigData × Option (String × String))) (od : OrigData) :
    entries (pieces ++ [(od, none)]) = entries pieces :=
  (entries_append pieces [(od, none)]).trans (List.append_nil _)

theorem entries_concat_some (pieces : List (OrigData × Option (String × String))) (od : OrigData)
    (entry : String × String) :
    entries (pieces ++ [(od, some entry)]) = entries pieces ++ [entry] :=
  entries_append pieces [(od, some entry)]

theorem Within.endLine_false (h : Within spec pieces od entry s) :
    Between spec (pieces ++ [(od, some entry)]) (s.endLine false) := by
  refine ⟨?_, rfl, rfl, h.errors, h.known.congr (entries_concat_some _ _ _).symm rfl rfl⟩
  show s.origData ++ [s.current] = _
  rw [h.origData, h.current, List.map_append]
  rfl

/-- The next line. -/
def nextLine (s : Reading) : Reading := { s with lineno := s.lineno + 1 }

theorem readLine_comment (hvalue : s.value = .none) (hcomment : commentLine line = true) :
    readLine spec s line = ((nextLine s).addText line).endLine false := by
  simp [readLine, nextLine, hvalue, hcomment]

theorem readLine_blank (hvalue : s.value = .none) (hcomment : commentLine line = false)
    (hblank : ∀ c ∈ line, isSpace c = true) :
    readLine spec s line = ((nextLine s).addText line).endLine false := by
  simp [readLine, nextLine, hvalue, hcomment, lineContent_blank hblank,
    (lineContent_eq_nil_iff line).mpr hblank]

theorem readLine_content (hvalue : s.value = .none) (hcomment : commentLine line = false)
    (hblank : ¬ ∀ c ∈ line, isSpace c = true) :
    readLine spec s line =
      match matchKvLine line with
      | some m => ((nextLine s).addKvLine spec (.new spec.filename (s.lineno + 1) 0)
          (lineContent line).2 m).endLine (lineContent line).2
      | none => (((nextLine s).error (.new spec.filename (s.lineno + 1) 0) "syntax error").addText
          line).endLine (lineContent line).2 := by
  cases hm : matchKvLine line <;>
    simp [readLine, nextLine, hvalue, hcomment, mt (lineContent_eq_nil_iff line).mp hblank, hm]

theorem readLine_within_comment (hvalue : s.value ≠ .none) (hcomment : commentLine line = true) :
    readLine spec s line = ((nextLine s).addText line).addValue [] := by
  simp [readLine, nextLine, hvalue, hcomment]

theorem readLine_within (hvalue : s.value ≠ .none) (hcomment : commentLine line = false) :
    readLine spec s line = (((nextLine s).addText line).addValue (lineContent line).1).endLine
      (lineContent line).2 := by
  simp [readLine, nextLine, hvalue, hcomment]

theorem Between.readLine_other (h : Between spec pieces s)
    (hline : commentLine line = true ∨ ∀ c ∈ line, isSpace c = true) :
    Between spec (pieces ++ [(⟨line, "", []⟩, none)]) (readLine spec s line) := by
  have hstep : readLine spec s line = ((nextLine s).addText line).endLine false := by
    cases hcomment : commentLine line with
    | true => exact readLine_comment h.value hcomment
    | false =>
      rw [hcomment] at hline
      exact readLine_blank h.value hcomment (hline.resolve_left Bool.false_ne_true)
  have hadd : (nextLine s).addText line =
      { nextLine s with current := ⟨line, "", []⟩ } := by
    unfold addText nextLine
    dsimp only
    rw [h.value, h.current]
    rfl
  rw [hstep, hadd]
  refine ⟨?_, rfl, rfl, h.errors, h.known.congr (entries_concat_none _ _).symm rfl rfl⟩
  show s.origData ++ [⟨line, "", []⟩] = _
  rw [h.origData, List.map_append]
  rfl

/-- The line of a new key of the specification. -/
theorem Between.readLine_key (h : Between spec pieces s) (hcomment : commentLine line = false)
    {m : KvLine} (hm : matchKvLine line = some m)
    (hnew : String.ofList m.key ∉ (entries pieces).map Prod.fst)
    (hkey : String.ofList m.key ∈ spec.keys) :
    ∃ s', readLine spec s line = s'.endLine (lineContent line).2 ∧
      Within spec pieces ⟨m.leading, String.ofList m.key, m.trailing⟩
        (String.ofList m.key, String.ofList (m.firstValue (lineContent line).2)) s' := by
  have hblank : ¬ ∀ c ∈ line, isSpace c = true := (isKvLine_of_matchKvLine hm).not_blank
  have hdata : ¬ (nextLine s).data.contains (String.ofList m.key) := by
    intro hmem
    obtain ⟨value, hvalue⟩ := Option.isSome_iff_exists.mp
      (TreeMap.isSome_getElem?_iff_mem.mpr (TreeMap.contains_iff_mem.mp hmem))
    exact hnew (List.mem_map_of_mem ((h.known.data _ _).mp hvalue))
  refine ⟨(nextLine s).addKvLine spec (.new spec.filename (s.lineno + 1) 0) (lineContent line).2 m,
    ?_, ?_⟩
  · rw [readLine_content h.value hcomment hblank, hm]
  · unfold addKvLine checkDuplicate
    dsimp only
    rw [if_neg hdata, setKey, if_pos (TreeSet.contains_iff_mem.mpr hkey)]
    refine ⟨h.origData, ?_, rfl, h.errors, h.known.add hnew hkey rfl rfl⟩
    show OrigData.mk (s.current.before ++ m.leading) _ (s.current.after ++ m.trailing) = _
    rw [h.current]
    rfl

/-- More text and content of the value. -/
theorem Within.added (h : Within spec pieces od entry s) (text content : List Char) :
    Within spec pieces { od with after := od.after ++ text }
      (entry.1, entry.2 ++ String.ofList content)
      (((nextLine s).addText text).addValue content) := by
  obtain ⟨key, value⟩ := entry
  have hget : s.data.getD key "" = value := by
    have hdata :=
      (h.known.data key value).mpr (List.mem_append_right _ (List.mem_singleton.mpr rfl))
    rw [TreeMap.getD_eq_getD_getElem?, hdata]
    rfl
  have hadd : (nextLine s).addText text =
      { nextLine s with current := { od with after := od.after ++ text } } := by
    unfold addText nextLine
    dsimp only
    rw [h.value, h.current]
  have hvalue : ((nextLine s).addText text).addValue content =
      { nextLine s with
        current := { od with after := od.after ++ text }
        data := s.data.insert key (value ++ String.ofList content) } := by
    rw [hadd]
    unfold addValue nextLine
    dsimp only
    rw [h.value]
    dsimp only
    rw [hget]
  rw [hvalue]
  exact ⟨h.origData, rfl, h.value, h.errors, h.known.set rfl rfl⟩

@[simp] theorem errors_addText (s : Reading) (text : List Char) :
    (s.addText text).errors = s.errors := by
  unfold addText
  split <;> rfl

@[simp] theorem errors_addValue (s : Reading) (content : List Char) :
    (s.addValue content).errors = s.errors := by
  unfold addValue
  split <;> rfl

@[simp] theorem errors_endLine (s : Reading) (continuation : Bool) :
    (s.endLine continuation).errors = s.errors := by
  unfold endLine
  split_ifs <;> rfl

theorem errors_error_ne (s : Reading) (location : FileLocation) (message : String) :
    (s.error location message).errors ≠ [] :=
  List.append_ne_nil_of_right_ne_nil _ (List.cons_ne_nil _ _)

theorem errors_setKey {location : FileLocation} {key : String} {value : List Char}
    (h : (s.setKey spec location key value).errors = []) : s.errors = [] ∧ key ∈ spec.keys := by
  unfold setKey at h
  split_ifs at h with hkey
  · exact ⟨h, TreeSet.contains_iff_mem.mp hkey⟩
  · exact absurd h (errors_error_ne _ _ _)

theorem errors_checkDuplicate {location : FileLocation} {key : String}
    (h : (s.checkDuplicate location key).errors = []) :
    s.errors = [] ∧ s.data.contains key = false := by
  unfold checkDuplicate at h
  split_ifs at h with hdata
  · exact absurd h (errors_error_ne _ _ _)
  · exact ⟨h, Bool.eq_false_of_not_eq_true hdata⟩

/-- A key that is added without an error is new, and one of the specification. -/
theorem errors_addKvLine {location : FileLocation} {continuation : Bool} {m : KvLine}
    (h : (s.addKvLine spec location continuation m).errors = []) :
    s.errors = [] ∧ s.data.contains (String.ofList m.key) = false ∧
      String.ofList m.key ∈ spec.keys := by
  obtain ⟨hcheck, hkey⟩ := errors_setKey h
  obtain ⟨herrors, hdata⟩ := errors_checkDuplicate hcheck
  exact ⟨herrors, hdata, hkey⟩

/-- The errors that have been reported before a line stay. -/
theorem errors_readLine (h : (readLine spec s line).errors = []) : s.errors = [] := by
  by_cases hvalue : s.value = .none
  · cases hcomment : commentLine line with
    | true =>
      rw [readLine_comment hvalue hcomment, errors_endLine, errors_addText] at h
      exact h
    | false =>
      by_cases hblank : ∀ c ∈ line, isSpace c = true
      · rw [readLine_blank hvalue hcomment hblank, errors_endLine, errors_addText] at h
        exact h
      · rw [readLine_content hvalue hcomment hblank] at h
        split at h
        · rw [errors_endLine] at h
          exact (errors_addKvLine h).1
        · rw [errors_endLine, errors_addText] at h
          exact absurd h (errors_error_ne _ _ _)
  · cases hcomment : commentLine line with
    | true =>
      rw [readLine_within_comment hvalue hcomment, errors_addValue, errors_addText] at h
      exact h
    | false =>
      rw [readLine_within hvalue hcomment, errors_endLine, errors_addValue, errors_addText] at h
      exact h

theorem errors_readLines {lines : List (List Char)}
    (h : (lines.foldl (readLine spec) s).errors = []) : s.errors = [] := by
  induction lines generalizing s with
  | nil => exact h
  | cons line lines ih => exact errors_readLine (ih h)

/-- A line between two pieces that is read without an error. -/
theorem Between.readLine_cases (h : Between spec pieces s)
    (hline : (readLine spec s line).errors = []) :
    (commentLine line = true ∨ ∀ c ∈ line, isSpace c = true) ∨
      ∃ m, commentLine line = false ∧ matchKvLine line = some m ∧
        String.ofList m.key ∉ (entries pieces).map Prod.fst ∧ String.ofList m.key ∈ spec.keys := by
  cases hcomment : commentLine line with
  | true => exact Or.inl (Or.inl rfl)
  | false =>
    by_cases hblank : ∀ c ∈ line, isSpace c = true
    · exact Or.inl (Or.inr hblank)
    · rw [readLine_content h.value hcomment hblank] at hline
      cases hm : matchKvLine line with
      | none =>
        rw [hm, errors_endLine, errors_addText] at hline
        exact absurd hline (errors_error_ne _ _ _)
      | some m =>
        rw [hm, errors_endLine] at hline
        obtain ⟨-, hdata, hkey⟩ := errors_addKvLine hline
        refine Or.inr ⟨m, rfl, rfl, fun hmem ↦ ?_, hkey⟩
        obtain ⟨⟨key, value⟩, hentry, heq⟩ := List.mem_map.mp hmem
        have hvalue := (h.known.data _ _).mpr hentry
        have hcontains : s.data.contains key = true :=
          TreeMap.contains_iff_mem.mpr (TreeMap.isSome_getElem?_iff_mem.mp
            (Option.isSome_iff_exists.mpr ⟨value, hvalue⟩))
        rw [← heq] at hdata
        exact Bool.false_ne_true (hdata.symm.trans hcontains)

theorem Within.value_ne (h : Within spec pieces od entry s) : s.value ≠ .none := by
  rw [h.value]
  exact Value.noConfusion

theorem Within.readLine_comment (h : Within spec pieces od entry s)
    (hcomment : commentLine line = true) :
    Within spec pieces { od with after := od.after ++ line } entry (readLine spec s line) := by
  rw [readLine_within_comment h.value_ne hcomment]
  have hadded := h.added line []
  rw [show String.ofList [] = "" from rfl, String.append_empty] at hadded
  exact hadded

theorem Within.readLine_content (h : Within spec pieces od entry s)
    (hcomment : commentLine line = false) :
    ∃ s', readLine spec s line = s'.endLine (lineContent line).2 ∧
      Within spec pieces { od with after := od.after ++ line }
        (entry.1, entry.2 ++ String.ofList (lineContent line).1) s' :=
  ⟨_, readLine_within h.value_ne hcomment, h.added line _⟩

end Steps

/-! ### Whole files -/

section Runs

variable {pieces : List (OrigData × Option (String × String))} {s : Reading}
  {lines : List (List Char)}

/-- The lines that go on with a value are read as such. -/
theorem Continues.run {continuation : Bool} {value value' : String}
    (h : Continues continuation value lines value') {od : OrigData} {key : String}
    (hs : Within spec pieces od (key, value) s) :
    Between spec
      (pieces ++ [({ od with after := od.after ++ lines.flatten }, some (key, value'))])
      (lines.foldl (readLine spec) (s.endLine continuation)) := by
  induction h generalizing od s with
  | done =>
    rw [List.flatten_nil, List.append_nil]
    exact hs.endLine_false
  | comment hcomment rest ih =>
    rw [List.flatten_cons, ← List.append_assoc]
    exact ih (hs.readLine_comment hcomment)
  | content hcomment rest ih =>
    obtain ⟨s', hline, hs'⟩ := hs.readLine_content hcomment
    rw [List.flatten_cons, ← List.append_assoc, List.foldl_cons]
    rw [show s.endLine true = s from rfl, hline]
    exact ih hs'

theorem IsPiece.run {od : OrigData} {entry : Option (String × String)}
    (h : IsPiece lines od entry) (hs : Between spec pieces s)
    (hnew : ∀ e ∈ entry, e.1 ∉ (entries pieces).map Prod.fst ∧ e.1 ∈ spec.keys) :
    Between spec (pieces ++ [(od, entry)]) (lines.foldl (readLine spec) s) := by
  cases h with
  | other hline => exact hs.readLine_other hline
  | entry hcomment hm rest =>
    obtain ⟨hnew, hkey⟩ := hnew _ rfl
    obtain ⟨s', hline, hs'⟩ := hs.readLine_key hcomment hm hnew hkey
    rw [List.foldl_cons, hline]
    exact rest.run hs'

theorem Pieces.run {pieces' : List (OrigData × Option (String × String))}
    (h : Pieces lines pieces') (hs : Between spec pieces s)
    (hnodup : ((entries (pieces ++ pieces')).map Prod.fst).Nodup)
    (hkeys : ∀ key ∈ (entries pieces').map Prod.fst, key ∈ spec.keys) :
    Between spec (pieces ++ pieces') (lines.foldl (readLine spec) s) := by
  induction h generalizing pieces s with
  | nil =>
    rw [List.append_nil]
    exact hs
  | @cons lines rest od entry pieces' head tail ih =>
    have hassoc : pieces ++ (od, entry) :: pieces' = pieces ++ [(od, entry)] ++ pieces' :=
      List.append_cons pieces (od, entry) pieces'
    have hnew : ∀ e ∈ entry, e.1 ∉ (entries pieces).map Prod.fst ∧ e.1 ∈ spec.keys := by
      intro e he
      obtain rfl := Option.mem_def.mp he
      refine ⟨fun hmem ↦ ?_, hkeys e.1 List.mem_cons_self⟩
      rw [entries_append, List.map_append] at hnodup
      exact List.disjoint_of_nodup_append hnodup hmem List.mem_cons_self
    have hkeys' : ∀ key ∈ (entries pieces').map Prod.fst, key ∈ spec.keys := by
      intro key hkey
      refine hkeys key ?_
      rw [show (od, entry) :: pieces' = [(od, entry)] ++ pieces' from rfl, entries_append,
        List.map_append]
      exact List.mem_append_right _ hkey
    rw [List.foldl_append, hassoc]
    rw [hassoc] at hnodup
    exact ih (head.run hs hnew) hnodup hkeys'

/-- What follows a line in a value, which goes on or not. -/
theorem exists_continues {continuation : Bool} {od : OrigData} {key value : String}
    (hbetween : continuation = false →
      ∃ pieces', Pieces lines pieces' ∧
        Between spec (pieces ++ [(od, some (key, value))] ++ pieces')
        (lines.foldl (readLine spec) (s.endLine false)))
    (hwithin : continuation = true → ∃ front rest value' pieces', lines = front ++ rest ∧
      Continues true value front value' ∧ Pieces rest pieces' ∧
      Between spec (pieces ++ ({ od with after := od.after ++ front.flatten },
        some (key, value')) :: pieces') (lines.foldl (readLine spec) s)) :
    ∃ front rest value' pieces', lines = front ++ rest ∧
      Continues continuation value front value' ∧ Pieces rest pieces' ∧
      Between spec (pieces ++ ({ od with after := od.after ++ front.flatten },
        some (key, value')) :: pieces')
        (lines.foldl (readLine spec) (s.endLine continuation)) := by
  cases continuation with
  | false =>
    obtain ⟨pieces', hpieces, hresult⟩ := hbetween rfl
    refine ⟨[], lines, value, pieces', rfl, .done, hpieces, ?_⟩
    rw [List.flatten_nil, List.append_nil, List.append_cons]
    exact hresult
  | true => exact hwithin rfl

/-- What has been read without an error are pieces, from between two of them on and from within a
value. -/
theorem pieces_of_run (lines : List (List Char)) :
    (∀ {s pieces}, Between spec pieces s → (lines.foldl (readLine spec) s).errors = [] →
      (lines.foldl (readLine spec) s).value = .none →
      ∃ pieces', Pieces lines pieces' ∧
        Between spec (pieces ++ pieces') (lines.foldl (readLine spec) s)) ∧
    (∀ {s pieces od key value}, Within spec pieces od (key, value) s →
      (lines.foldl (readLine spec) s).errors = [] →
      (lines.foldl (readLine spec) s).value = .none →
      ∃ front rest value' pieces', lines = front ++ rest ∧ Continues true value front value' ∧
        Pieces rest pieces' ∧
        Between spec (pieces ++ ({ od with after := od.after ++ front.flatten },
          some (key, value')) :: pieces') (lines.foldl (readLine spec) s)) := by
  induction lines with
  | nil =>
    refine ⟨fun {_ pieces} hs _ _ ↦ ⟨[], .nil, by rwa [List.append_nil]⟩, fun hs _ hvalue ↦ ?_⟩
    exact absurd hvalue hs.value_ne
  | cons line lines ih =>
    obtain ⟨ihbetween, ihwithin⟩ := ih
    have hnext : ∀ {continuation s pieces od key value}, Within spec pieces od (key, value) s →
        (lines.foldl (readLine spec) (s.endLine continuation)).errors = [] →
        (lines.foldl (readLine spec) (s.endLine continuation)).value = .none →
        ∃ front rest value' pieces', lines = front ++ rest ∧
          Continues continuation value front value' ∧ Pieces rest pieces' ∧
          Between spec (pieces ++ ({ od with after := od.after ++ front.flatten },
            some (key, value')) :: pieces')
            (lines.foldl (readLine spec) (s.endLine continuation)) := by
      intro continuation s pieces od key value hs herrors hvalue
      refine exists_continues (fun hfalse ↦ ?_) fun htrue ↦ ?_
      · rw [hfalse] at herrors hvalue
        exact ihbetween hs.endLine_false herrors hvalue
      · rw [htrue] at herrors hvalue
        exact ihwithin hs herrors hvalue
    constructor
    · intro s pieces hs herrors hvalue
      rw [List.foldl_cons] at herrors hvalue ⊢
      rcases hs.readLine_cases (errors_readLines herrors) with hother | ⟨m, hcomment, hm, hnew,
        hkey⟩
      · obtain ⟨pieces', hpieces, hresult⟩ :=
          ihbetween (hs.readLine_other hother) herrors hvalue
        rw [← List.append_cons] at hresult
        exact ⟨_, .cons (.other hother) hpieces, hresult⟩
      · obtain ⟨s', hline, hs'⟩ := hs.readLine_key hcomment hm hnew hkey
        rw [hline] at herrors hvalue ⊢
        obtain ⟨front, rest, value', pieces', rfl, hcontinues, hpieces, hresult⟩ :=
          hnext hs' herrors hvalue
        exact ⟨_, .cons (.entry hcomment hm hcontinues) hpieces, hresult⟩
    · intro s pieces od key value hs herrors hvalue
      rw [List.foldl_cons] at herrors hvalue ⊢
      cases hcomment : commentLine line with
      | true =>
        obtain ⟨front, rest, value', pieces', rfl, hcontinues, hpieces, hresult⟩ :=
          ihwithin (hs.readLine_comment hcomment) herrors hvalue
        refine ⟨line :: front, rest, value', pieces', rfl, .comment hcomment hcontinues,
          hpieces, ?_⟩
        rw [List.flatten_cons, ← List.append_assoc]
        exact hresult
      | false =>
        obtain ⟨s', hline, hs'⟩ := hs.readLine_content hcomment
        rw [hline] at herrors hvalue ⊢
        obtain ⟨front, rest, value', pieces', rfl, hcontinues, hpieces, hresult⟩ :=
          hnext hs' herrors hvalue
        refine ⟨line :: front, rest, value', pieces', rfl, .content hcomment hcontinues,
          hpieces, ?_⟩
        rw [List.flatten_cons, ← List.append_assoc]
        exact hresult

/-- The keys of some pieces are those of a specification, each of them once. -/
structure Fits (spec : KeySpec) (pieces : List (OrigData × Option (String × String))) : Prop where
  nodup : ((entries pieces).map Prod.fst).Nodup
  keys : ∀ key ∈ (entries pieces).map Prod.fst, key ∈ spec.keys

theorem between_start : Between spec [] .start := by
  refine ⟨rfl, rfl, rfl, rfl, fun key value ↦ ?_, fun key ↦ ?_, List.forall_mem_nil _,
    List.nodup_nil⟩
  · exact iff_of_false (by simp [start]) List.not_mem_nil
  · exact iff_of_false (by simp [start]) List.not_mem_nil

theorem mem_keys {key : String} :
    key ∈ spec.keys ↔ key ∈ spec.mandatory ∨ key ∈ spec.defaults := by
  unfold KeySpec.keys
  rw [TreeSet.mem_insertMany_list, List.contains_iff_mem, TreeMap.mem_keys]

theorem find?_toList (t : TreeMap String String) (key : String) :
    (t.toList.find? (·.1 = key)).map Prod.snd = t[key]? := by
  cases hget : t[key]? with
  | none =>
    rw [Option.map_eq_none_iff, List.find?_eq_none]
    rintro ⟨key', value⟩ hmem heq
    obtain rfl := of_decide_eq_true heq
    rw [TreeMap.mem_toList_iff_getElem?_eq_some, hget] at hmem
    cases hmem
  | some value =>
    have hmem := TreeMap.mem_toList_iff_getElem?_eq_some.mpr hget
    have hsome : (t.toList.find? (·.1 = key)).isSome :=
      List.find?_isSome.mpr ⟨(key, value), hmem, by simp⟩
    obtain ⟨⟨key', value'⟩, hfind⟩ := Option.isSome_iff_exists.mp hsome
    have heq : key' = key := by simpa using List.find?_some hfind
    subst heq
    have hvalue := TreeMap.mem_toList_iff_getElem?_eq_some.mp (List.mem_of_find?_eq_some hfind)
    rw [hfind, ← hget, hvalue]
    rfl

theorem getElem?_foldl_insertIfNew (l : List (String × String)) (data : TreeMap String String)
    (key : String) :
    (l.foldl (fun data entry ↦ data.insertIfNew entry.1 entry.2) data)[key]? =
      data[key]?.or ((l.find? (·.1 = key)).map Prod.snd) := by
  induction l generalizing data with
  | nil => exact Option.or_none.symm
  | cons entry l ih =>
    rw [List.foldl_cons, ih, TreeMap.getElem?_insertIfNew]
    by_cases heq : entry.1 = key
    · rw [List.find?_cons_of_pos (by simpa using heq), ← heq]
      by_cases hmem : entry.1 ∈ data
      · obtain ⟨value, hvalue⟩ := Option.isSome_iff_exists.mp
          (TreeMap.isSome_getElem?_iff_mem.mpr hmem)
        rw [if_neg fun h ↦ h.2 hmem, hvalue]
        rfl
      · rw [if_pos ⟨compare_eq_iff_eq.mpr rfl, hmem⟩, TreeMap.getElem?_eq_none hmem]
        rfl
    · rw [List.find?_cons_of_neg (by simpa using heq),
        if_neg fun h ↦ heq (compare_eq_iff_eq.mp h.1)]

/-- The keys without a value get their defaults, and no others. -/
theorem getElem?_addDefaults (s : Reading) (key : String) :
    (s.addDefaults spec).data[key]? = s.data[key]?.or spec.defaults[key]? := by
  unfold addDefaults
  dsimp only
  rw [TreeMap.foldl_eq_foldl_toList, getElem?_foldl_insertIfNew, find?_toList]

theorem Known.mem_data {known : List (String × String)} (h : Known spec known s) {key : String} :
    s.data.contains key = true ↔ key ∈ known.map Prod.fst := by
  rw [TreeMap.contains_iff_mem, ← TreeMap.isSome_getElem?_iff_mem, Option.isSome_iff_exists,
    List.mem_map]
  constructor
  · rintro ⟨value, hvalue⟩
    exact ⟨(key, value), (h.data key value).mp hvalue, rfl⟩
  · rintro ⟨⟨_, value⟩, hmem, rfl⟩
    exact ⟨value, (h.data _ value).mpr hmem⟩

/-- No key is missing when the mandatory ones are there. -/
theorem missingKeys_eq_nil_iff (hs : Between spec pieces s) :
    s.missingKeys spec = [] ↔ ∀ key ∈ spec.mandatory, key ∈ (entries pieces).map Prod.fst := by
  unfold missingKeys
  rw [List.filter_eq_nil_iff]
  constructor
  · intro h key hkey
    have hdefault : ¬ spec.defaults.contains key := fun hmem ↦
      spec.disjoint key (TreeMap.contains_iff_mem.mp hmem) hkey
    have hmem := h key (TreeSet.mem_toList.mpr (mem_keys.mpr (Or.inl hkey)))
    refine hs.known.mem_data.mp ?_
    simpa [hdefault] using hmem
  · intro h key hkey
    rcases mem_keys.mp (TreeSet.mem_toList.mp hkey) with hmandatory | hdefault
    · simp [hs.known.mem_data.mpr (h key hmandatory)]
    · simp [TreeMap.contains_iff_mem.mpr hdefault]

/-- At the end of a file, the keys that are missing are reported. -/
theorem exists_finish_of_between (hs : Between spec pieces s) :
    ∃ errors, s.finish spec = { s.addDefaults spec with errors := errors } ∧
      (errors = [] ↔ s.missingKeys spec = []) := by
  unfold finish checkMissing
  dsimp only
  rw [if_pos hs.value]
  by_cases hmissing : s.missingKeys spec = []
  · rw [hmissing]
    exact ⟨s.errors, rfl, iff_of_true hs.errors rfl⟩
  · rw [if_neg (by simpa using hmissing)]
    exact ⟨_, rfl, iff_of_false (errors_error_ne _ _ _) hmissing⟩

/-- The end of a file is found without an error. -/
theorem errors_finish (h : (s.finish spec).errors = []) :
    s.errors = [] ∧ s.value = .none ∧ s.missingKeys spec = [] := by
  unfold finish checkMissing at h
  dsimp only at h
  by_cases hvalue : s.value = .none
  · rw [if_pos hvalue] at h
    by_cases hmissing : s.missingKeys spec = []
    · rw [hmissing] at h
      exact ⟨h, hvalue, hmissing⟩
    · rw [if_neg (by simpa using hmissing)] at h
      exact absurd h (errors_error_ne _ _ _)
  · rw [if_neg hvalue] at h
    split_ifs at h <;> exact absurd h (by simp [addDefaults, error])

end Runs

/-- What has been read of pieces with keys of the specification. -/
theorem readFile_of_pieces {pieces : List (OrigData × Option (String × String))}
    {content : List Char} (h : Pieces (Lines.lines '\n' content) pieces)
    (hfits : Fits spec pieces) :
    ((readFile spec content).errors = [] ↔
        ∀ key ∈ spec.mandatory, key ∈ (entries pieces).map Prod.fst) ∧
      (readFile spec content).origData = pieces.map Prod.fst ++ [.empty] ∧
      (∀ key, key ∈ (readFile spec content).explicitKeys ↔ key ∈ (entries pieces).map Prod.fst) ∧
      ∀ key value, (readFile spec content).data[key]? = some value ↔
        (key, value) ∈ entries pieces ∨
          key ∉ (entries pieces).map Prod.fst ∧ spec.defaults[key]? = some value := by
  have hs := h.run between_start hfits.nodup hfits.keys
  rw [List.nil_append] at hs
  obtain ⟨errors, hfinish, herrors⟩ := exists_finish_of_between hs
  unfold readFile
  dsimp only
  rw [hfinish]
  refine ⟨herrors.trans (missingKeys_eq_nil_iff hs), ?_, hs.known.explicitKeys, fun key value ↦ ?_⟩
  · exact congrArg₂ (· ++ [·]) hs.origData hs.current
  · rw [getElem?_addDefaults, Option.or_eq_some_iff, hs.known.data]
    refine or_congr_right (and_congr_left fun _ ↦ ?_)
    rw [← hs.known.mem_data, TreeMap.contains_iff_mem, ← TreeMap.isSome_getElem?_iff_mem,
      Option.not_isSome_iff_eq_none]

/-- A file that is read without an error consists of pieces with keys of the specification. -/
theorem pieces_of_readFile {content : List Char} (h : (readFile spec content).errors = []) :
    ∃ pieces, Pieces (Lines.lines '\n' content) pieces ∧ Fits spec pieces ∧
      ∀ key ∈ spec.mandatory, key ∈ (entries pieces).map Prod.fst := by
  obtain ⟨herrors, hvalue, hmissing⟩ := errors_finish h
  obtain ⟨pieces, hpieces, hs⟩ := (pieces_of_run _).1 between_start herrors hvalue
  rw [List.nil_append] at hs
  exact ⟨pieces, hpieces, ⟨hs.known.nodup, hs.known.keys⟩,
    (missingKeys_eq_nil_iff hs).mp hmissing⟩

end Abuild.KeyVal
