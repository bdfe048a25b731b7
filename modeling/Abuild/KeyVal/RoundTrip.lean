import Abuild.KeyVal.Pieces

/-!
Reading a file that has been written with changes. Each piece is written so that it is read as one
piece again, with the key and value that the changes ask for, and the pieces do not run into each
other, because only the last one may be without a line terminator.
-/

set_option autoImplicit false
set_option relaxedAutoImplicit false

namespace Abuild.KeyVal

open Std (TreeMap TreeSet)
open Reading Lines

/-! ### Lines with other spaces -/

/-- Two lines that differ only in the spaces at their ends. -/
def SameLine (line line' : List Char) : Prop :=
  ∃ body front back front' back', line = front ++ (body ++ back) ∧
    line' = front' ++ (body ++ back') ∧ (∀ c ∈ front, isSpace c = true) ∧
    (∀ c ∈ back, isSpace c = true) ∧ (∀ c ∈ front', isSpace c = true) ∧
    ∀ c ∈ back', isSpace c = true

theorem SameLine.refl (line : List Char) : SameLine line line :=
  ⟨line, [], [], [], [], by simp, by simp, List.forall_mem_nil _, List.forall_mem_nil _,
    List.forall_mem_nil _, List.forall_mem_nil _⟩

theorem sameLine_append (line : List Char) {space : List Char} (h : ∀ c ∈ space, isSpace c = true) :
    SameLine line (line ++ space) :=
  ⟨line, [], [], [], space, by simp, by simp, List.forall_mem_nil _, List.forall_mem_nil _,
    List.forall_mem_nil _, h⟩

theorem SameLine.prepend {line line' : List Char} (h : SameLine line line') {space : List Char}
    (hspace : ∀ c ∈ space, isSpace c = true) : SameLine line (space ++ line') := by
  obtain ⟨body, front, back, front', back', hline, rfl, hfront, hback, hfront', hback'⟩ := h
  exact ⟨body, front, back, space ++ front', back', hline, (List.append_assoc _ _ _).symm, hfront,
    hback, List.forall_mem_append.mpr ⟨hspace, hfront'⟩, hback'⟩

section SameLine

variable {line line' : List Char} (h : SameLine line line')

include h

theorem SameLine.commentLine_eq : commentLine line = commentLine line' := by
  obtain ⟨body, front, back, front', back', rfl, rfl, hfront, hback, hfront', hback'⟩ := h
  rw [commentLine_prepend hfront, commentLine_prepend hfront', commentLine_append body hback,
    commentLine_append body hback']

theorem SameLine.lineContent_eq : lineContent line = lineContent line' := by
  obtain ⟨body, front, back, front', back', rfl, rfl, hfront, hback, hfront', hback'⟩ := h
  rw [lineContent_prepend hfront, lineContent_prepend hfront', lineContent_append body hback,
    lineContent_append body hback']

theorem SameLine.matchKvLine_some {m : KvLine} (hm : matchKvLine line = some m) :
    ∃ m', matchKvLine line' = some m' ∧ m'.key = m.key ∧ m'.value = m.value := by
  obtain ⟨body, front, back, front', back', rfl, rfl, hfront, hback, hfront', hback'⟩ := h
  rw [matchKvLine_prepend hfront, matchKvLine_append body hback, Option.map_map,
    Option.map_eq_some_iff] at hm
  obtain ⟨m, hbody, rfl⟩ := hm
  rw [matchKvLine_prepend hfront', matchKvLine_append body hback', hbody]
  exact ⟨_, rfl, rfl, rfl⟩

theorem SameLine.blank (hline : ∀ c ∈ line, isSpace c = true) : ∀ c ∈ line', isSpace c = true := by
  rw [← lineContent_eq_nil_iff, h.lineContent_eq] at hline
  exact (lineContent_eq_nil_iff line').mp hline

end SameLine

theorem Continues.congr {continuation : Bool} {value value' : String}
    {lines lines' : List (List Char)}
    (h : Continues continuation value lines value') (hsame : List.Forall₂ SameLine lines lines') :
    Continues continuation value lines' value' := by
  induction h generalizing lines' with
  | done =>
    cases hsame
    exact .done
  | comment hcomment rest ih =>
    cases hsame with
    | cons hline hrest => exact .comment (hline.commentLine_eq ▸ hcomment) (ih hrest)
  | content hcomment rest ih =>
    cases hsame with
    | cons hline hrest =>
      refine .content (hline.commentLine_eq ▸ hcomment) ?_
      rw [← hline.lineContent_eq]
      exact ih hrest

/-- The lines of a key with other spaces are those of the same key and value. -/
theorem IsPiece.congr {lines lines' : List (List Char)} {od : OrigData}
    {entry : Option (String × String)} (h : IsPiece lines od entry)
    (hsame : List.Forall₂ SameLine lines lines') : ∃ od', IsPiece lines' od' entry := by
  cases h with
  | other hline =>
    cases hsame with
    | cons hfirst hrest =>
      cases hrest
      exact ⟨_, .other (hline.imp (hfirst.commentLine_eq ▸ ·) hfirst.blank)⟩
  | @entry line m lines value hcomment hm rest =>
    cases hsame with
    | @cons _ line' _ lines' hfirst hrest =>
      obtain ⟨m', hm', hkey, hvalue⟩ := hfirst.matchKvLine_some hm
      have hfirstValue :
          ∀ continuation, m'.firstValue continuation = m.firstValue continuation := by
        intro continuation
        unfold KvLine.firstValue
        rw [hvalue]
      rw [hfirst.lineContent_eq, ← hfirstValue] at rest
      have hpiece := IsPiece.entry (hfirst.commentLine_eq ▸ hcomment) hm' (rest.congr hrest)
      rw [hkey] at hpiece
      exact ⟨_, hpiece⟩

/-! ### Edits -/

/-- A name for a key: no space, no colon, and no number sign at the beginning. -/
structure IsKeyName (key : String) : Prop where
  chars : ∀ c ∈ key.toList, isKeyChar c = true
  nonempty : key.toList ≠ []
  first : key.toList.head? ≠ some '#'

/-- A text whose lines are those of one key with its value. -/
structure LogicalLine where
  text : List Char
  key : String
  value : String
  isPiece : ∃ od, IsPiece (lines '\n' text) od (some (key, value))

/-- Edits with what they mean. -/
structure KeyEdits where
  keyChanges : TreeMap String String
  replacements : TreeMap String LogicalLine
  deletions : TreeSet String
  additions : List LogicalLine
  names : ∀ key newKey : String, keyChanges[key]? = some newKey → IsKeyName newKey

namespace KeyEdits

def toEdits (edits : KeyEdits) : Edits where
  keyChanges := edits.keyChanges
  replacements := edits.replacements.map fun _ line ↦ line.text
  deletions := edits.deletions
  additions := edits.additions.map LogicalLine.text

/-- What becomes of a key and its value. -/
def entry (edits : KeyEdits) (e : String × String) : Option (String × String) :=
  if edits.deletions.contains e.1 then none
  else
    match edits.replacements[e.1]? with
    | some line => some (line.key, line.value)
    | none => some (edits.keyChanges.getD e.1 e.1, e.2)

/-- What becomes of the keys of a file and their values. -/
def entries (edits : KeyEdits) (es : List (String × String)) : List (String × String) :=
  edits.additions.map (fun line ↦ (line.key, line.value)) ++ es.filterMap edits.entry

end KeyEdits

/-- A line with another key. -/
theorem IsKvLine.rename {line : List Char} {m : KvLine} (h : IsKvLine line m) {key : String}
    (hkey : IsKeyName key) :
    IsKvLine (m.leading ++ (key.toList ++ m.trailing)) { m with key := key.toList } :=
  ⟨rfl, h.leading, hkey.chars, hkey.nonempty, h.trailing⟩

theorem IsKvLine.commentLine_eq {line : List Char} {m : KvLine} (h : IsKvLine line m) :
    commentLine line = decide (m.key.head? = some '#') := by
  obtain ⟨first, key, hkey⟩ := List.exists_cons_of_ne_nil h.key_ne
  have hspace := not_isSpace_of_isKeyChar (h.key first (hkey ▸ List.mem_cons_self))
  unfold commentLine
  rw [h.line_eq, List.dropWhile_append_of_pos h.leading, hkey, List.cons_append,
    List.dropWhile_cons_of_neg (by simp [hspace])]
  rfl

/-- Whether a line goes on does not depend on its key. -/
theorem IsKvLine.lineContent_eq {line line' : List Char} {m m' : KvLine} (h : IsKvLine line m)
    (h' : IsKvLine line' m') (htrailing : m.trailing = m'.trailing) :
    (lineContent line).2 = (lineContent line').2 := by
  obtain ⟨gap, text, hgap, -, -⟩ := h.trailing
  have hline : ∀ {l : List Char} {k : KvLine}, IsKvLine l k → k.trailing = gap ++ ':' :: text →
      (lineContent l).2 = (matchContent text).2 := by
    intro l k hk hk'
    have hcolon : l = (k.leading ++ (k.key ++ gap)) ++ ':' :: text := by
      rw [hk.line_eq, hk']
      simp only [List.append_assoc]
    rw [hcolon, lineContent_colon]
  rw [hline h hgap, hline h' (htrailing ▸ hgap)]

/-- The key of a piece is a name for a key. -/
theorem isKeyName_of_matchKvLine {line : List Char} {m : KvLine}
    (hcomment : commentLine line = false)
    (hm : matchKvLine line = some m) : IsKeyName (String.ofList m.key) := by
  have h := isKvLine_of_matchKvLine hm
  rw [h.commentLine_eq] at hcomment
  refine ⟨?_, ?_, ?_⟩ <;> rw [String.toList_ofList]
  · exact h.key
  · exact h.key_ne
  · exact of_decide_eq_false hcomment

/-! ### One piece -/

/-- A line terminator. -/
inductive IsEol : List Char → Prop
  | none : IsEol []
  | lf : IsEol ['\n']
  | crlf : IsEol ['\r', '\n']

theorem isEol_matchEol (text : List Char) : IsEol (matchEol text) := by
  unfold matchEol
  split
  · exact .crlf
  · exact .lf
  · exact .none

theorem ended_matchEol {text : List Char} (h : Ended '\n' text) (hne : text ≠ []) :
    Ended '\n' (matchEol text) ∧ matchEol text ≠ [] := by
  have hlast := h.resolve_left hne
  rw [← List.head?_reverse] at hlast
  unfold matchEol
  obtain ⟨rest, hrest⟩ := List.head?_eq_some_iff.mp hlast
  rw [hrest]
  cases rest with
  | nil => exact ⟨Or.inr rfl, List.cons_ne_nil _ _⟩
  | cons c rest =>
    by_cases hc : c = '\r'
    · subst hc
      exact ⟨Or.inr rfl, List.cons_ne_nil _ _⟩
    · simp [hc, Ended]

theorem isSpace_of_isEol {eol : List Char} (h : IsEol eol) : ∀ c ∈ eol, isSpace c = true := by
  cases h <;> simp [isSpace]

theorem pieces_eol {eol : List Char} (h : IsEol eol) :
    ∃ pieces, Pieces (Lines.lines '\n' eol) pieces ∧ KeyVal.entries pieces = [] := by
  have hblank := isSpace_of_isEol h
  have hother : ∀ line, (∀ c ∈ line, isSpace c = true) →
      Pieces [line] [(⟨line, "", []⟩, none)] := fun line hline ↦
    .cons (.other (Or.inr hline)) .nil
  cases h with
  | none => exact ⟨[], .nil, rfl⟩
  | lf => exact ⟨_, hother ['\n'] hblank, rfl⟩
  | crlf => exact ⟨_, hother ['\r', '\n'] hblank, rfl⟩

theorem forall₂_sameLine_refl (lines : List (List Char)) : List.Forall₂ SameLine lines lines :=
  List.forall₂_same.mpr fun line _ ↦ .refl line

theorem IsPiece.lines_ne_nil {lines : List (List Char)} {od : OrigData}
    {entry : Option (String × String)} (h : IsPiece lines od entry) : lines ≠ [] := by
  cases h <;> exact List.cons_ne_nil _ _

/-- The lines of a text with a line terminator after it. -/
theorem lines_append_eol (text : List Char) {eol : List Char} (heol : IsEol eol) :
    ∃ lines' extra pieces, Lines.lines '\n' (text ++ eol) = lines' ++ extra ∧
      List.Forall₂ SameLine (Lines.lines '\n' text) lines' ∧ Pieces extra pieces ∧
      KeyVal.entries pieces = [] := by
  by_cases hended : Ended '\n' text
  · obtain ⟨pieces, hpieces, hentries⟩ := pieces_eol heol
    exact ⟨_, _, pieces, lines_append hended eol, forall₂_sameLine_refl _, hpieces, hentries⟩
  · have hlast : ∀ body, '\n' ∉ body → (∀ c ∈ body, isSpace c = true) →
        ∃ lines', Lines.lines '\n' (text ++ (body ++ ['\n'])) = lines' ∧
          List.Forall₂ SameLine (Lines.lines '\n' text) lines' := by
      intro body hbody hspace
      obtain ⟨front, last, hlines, heq⟩ := lines_append_last hended hbody
      refine ⟨_, heq, ?_⟩
      rw [hlines]
      refine List.rel_append (forall₂_sameLine_refl front) (.cons (sameLine_append last ?_) .nil)
      exact List.forall_mem_append.mpr ⟨hspace, by simp [isSpace]⟩
    have hnone : Pieces [] [] := .nil
    cases heol with
    | none =>
      refine ⟨_, [], [], ?_, forall₂_sameLine_refl _, hnone, rfl⟩
      rw [List.append_nil, List.append_nil]
    | lf =>
      obtain ⟨lines', heq, hsame⟩ := hlast [] List.not_mem_nil (List.forall_mem_nil _)
      exact ⟨lines', [], [], heq.trans (List.append_nil _).symm, hsame, hnone, rfl⟩
    | crlf =>
      obtain ⟨lines', heq, hsame⟩ := hlast ['\r'] (by decide) (by simp [isSpace])
      exact ⟨lines', [], [], heq.trans (List.append_nil _).symm, hsame, hnone, rfl⟩

/-- A logical line in place of the key and the value of a piece. -/
theorem LogicalLine.pieces (line : LogicalLine) {before eol : List Char}
    (hspace : ∀ c ∈ before, isSpace c = true) (hbefore : '\n' ∉ before) (heol : IsEol eol) :
    ∃ pieces, Pieces (Lines.lines '\n' (before ++ (line.text ++ eol))) pieces ∧
      KeyVal.entries pieces = [(line.key, line.value)] := by
  obtain ⟨od, hpiece⟩ := line.isPiece
  obtain ⟨lines', extra, pieces, heq, hsame, hextra, hentries⟩ := lines_append_eol line.text heol
  obtain ⟨first, rest, hlines⟩ := List.exists_cons_of_ne_nil hpiece.lines_ne_nil
  rw [hlines] at hsame hpiece
  cases hsame with
  | @cons _ first' _ rest' hfirst hrest =>
    have hsame' : List.Forall₂ SameLine (first :: rest) ((before ++ first') :: rest') :=
      .cons (hfirst.prepend hspace) hrest
    obtain ⟨od', hpiece'⟩ := hpiece.congr hsame'
    refine ⟨(od', some (line.key, line.value)) :: pieces, ?_,
      congrArg ((line.key, line.value) :: ·) hentries⟩
    rw [lines_append_of_notMem hbefore heq]
    exact .cons hpiece' hextra

theorem IsPiece.pieces {lines : List (List Char)} {od : OrigData}
    {entry : Option (String × String)} (h : IsPiece lines od entry) :
    Pieces lines [(od, entry)] := by
  have hpieces : Pieces (lines ++ []) [(od, entry)] := .cons h .nil
  rwa [List.append_nil] at hpieces

theorem Pieces.eq_nil {lines : List (List Char)}
    {pieces : List (OrigData × Option (String × String))} (h : Pieces lines pieces)
    (hlines : lines = []) : pieces = [] := by
  cases h with
  | nil => rfl
  | cons head tail => exact absurd (List.append_eq_nil_iff.mp hlines).1 head.lines_ne_nil

theorem entries_cons (od : OrigData) (entry : Option (String × String))
    (pieces : List (OrigData × Option (String × String))) :
    entries ((od, entry) :: pieces) = entry.toList ++ entries pieces := by
  cases entry <;> rfl

section Piece

variable (edits : KeyEdits)

/-- What is written for a key is read as what has become of it. -/
theorem exists_pieces_entry {line : List Char} {m : KvLine} {rest : List (List Char)}
    {value : String} (hcomment : commentLine line = false) (hm : matchKvLine line = some m)
    (hrest : Continues (lineContent line).2 (String.ofList (m.firstValue (lineContent line).2)) rest
      value)
    (hlines : lines '\n' (line :: rest).flatten = line :: rest) :
    ∃ pieces, Pieces (lines '\n' (writeOrigData edits.toEdits
        ⟨m.leading, String.ofList m.key, m.trailing ++ rest.flatten⟩)) pieces ∧
      entries pieces = (edits.entry (String.ofList m.key, value)).toList ∧
      (Ended '\n' (line :: rest).flatten → Ended '\n' (writeOrigData edits.toEdits
        ⟨m.leading, String.ofList m.key, m.trailing ++ rest.flatten⟩)) := by
  have hkv := isKvLine_of_matchKvLine hm
  have htrailing : m.trailing ≠ [] := by
    obtain ⟨gap, text, htrailing, -, -⟩ := hkv.trailing
    rw [htrailing]
    exact List.append_ne_nil_of_right_ne_nil _ (List.cons_ne_nil _ _)
  have hafter : m.trailing ++ rest.flatten ≠ [] := List.append_ne_nil_of_left_ne_nil htrailing _
  have htext : (line :: rest).flatten = (m.leading ++ m.key) ++ (m.trailing ++ rest.flatten) := by
    rw [List.flatten_cons, hkv.line_eq]
    simp only [List.append_assoc]
  rw [htext] at hlines ⊢
  have hline : line = (m.leading ++ m.key) ++ m.trailing := by
    rw [hkv.line_eq, List.append_assoc]
  rw [List.append_assoc] at hlines
  have hleading : '\n' ∉ m.leading := fun hmem ↦
    notMem_of_lines_eq (hline ▸ (lines_cons hlines).1) htrailing (List.mem_append_left _ hmem)
  have hempty : ¬ (String.ofList m.key).isEmpty := by
    rw [String.isEmpty_iff, ← String.toList_inj, String.toList_ofList]
    exact hkv.key_ne
  unfold writeOrigData KeyEdits.entry KeyEdits.toEdits
  dsimp only
  rw [if_neg hempty]
  split_ifs with hdeleted
  · exact ⟨[], .nil, rfl, fun _ ↦ ended_nil⟩
  · rw [TreeMap.getElem?_map]
    cases hreplaced : edits.replacements[String.ofList m.key]? with
    | some text =>
      obtain ⟨pieces, hpieces, hentries⟩ := text.pieces hkv.leading hleading
        (isEol_matchEol (m.trailing ++ rest.flatten))
      refine ⟨pieces, ?_, hentries, fun hended ↦ ?_⟩
      · show Pieces (lines '\n' (m.leading ++ text.text ++ matchEol _)) pieces
        rw [List.append_assoc]
        exact hpieces
      · obtain ⟨heol, hne⟩ := ended_matchEol hended.of_append hafter
        exact heol.prepend hne _
    | none =>
      obtain ⟨newKey, hnewKey, hname⟩ : ∃ newKey,
          edits.keyChanges.getD (String.ofList m.key) (String.ofList m.key) = newKey ∧
            IsKeyName newKey := by
        refine ⟨_, rfl, ?_⟩
        rw [TreeMap.getD_eq_getD_getElem?]
        cases hchange : edits.keyChanges[String.ofList m.key]? with
        | none => exact isKeyName_of_matchKvLine hcomment hm
        | some newKey => exact edits.names _ newKey hchange
      have hkv' := hkv.rename hname
      have hcomment' : commentLine (m.leading ++ (newKey.toList ++ m.trailing)) = false :=
        hkv'.commentLine_eq.trans (decide_eq_false hname.first)
      rw [hkv.lineContent_eq hkv' rfl] at hrest
      have hpiece := (IsPiece.entry hcomment' (matchKvLine_of_isKvLine hkv') hrest).pieces
      have hnew : '\n' ∉ m.leading ++ newKey.toList := fun hmem ↦
        (List.mem_append.mp hmem).elim hleading fun hmem ↦ absurd (hname.chars _ hmem) (by decide)
      have hold : lines '\n' ((m.leading ++ m.key) ++ (m.trailing ++ rest.flatten)) =
          ((m.leading ++ m.key) ++ m.trailing) :: rest := by
        rw [List.append_assoc, hlines, hline]
      have hwritten := lines_exchange hold htrailing hnew
      simp only [Option.map_none, hnewKey, hwritten]
      rw [← List.append_assoc] at hpiece
      refine ⟨_, hpiece, ?_, fun hended ↦ ?_⟩
      · show [(String.ofList newKey.toList, value)] = [(newKey, value)]
        rw [String.ofList_toList]
      · exact (hended.of_append).prepend hafter _

/-- What is written for a piece is read as what has become of it. -/
theorem exists_pieces_writeOrigData {group : List (List Char)} {od : OrigData}
    {entry : Option (String × String)} (h : IsPiece group od entry)
    (hlines : lines '\n' group.flatten = group) :
    ∃ pieces, Pieces (lines '\n' (writeOrigData edits.toEdits od)) pieces ∧
      entries pieces = entry.toList.filterMap edits.entry ∧
      (Ended '\n' group.flatten → Ended '\n' (writeOrigData edits.toEdits od)) := by
  cases h with
  | @other line hline =>
    have hwrite : writeOrigData edits.toEdits ⟨line, "", []⟩ = line := by
      simp [writeOrigData]
    rw [List.flatten_singleton] at hlines ⊢
    rw [hwrite, hlines]
    exact ⟨[(⟨line, "", []⟩, none)], .cons (.other hline) .nil, rfl, id⟩
  | @entry line m rest value hcomment hm hrest =>
    obtain ⟨pieces, hpieces, hentries, hended⟩ :=
      exists_pieces_entry edits hcomment hm hrest hlines
    refine ⟨pieces, hpieces, ?_, hended⟩
    rw [hentries]
    cases hentry : edits.entry (String.ofList m.key, value) with
    | none => simp [hentry]
    | some e => simp [hentry]

/-- What is written for the pieces of a file is read as what has become of them. -/
theorem exists_pieces_write {group : List (List Char)}
    {pieces : List (OrigData × Option (String × String))} (h : Pieces group pieces)
    (hlines : lines '\n' group.flatten = group) :
    ∃ pieces', Pieces (lines '\n' ((pieces.map Prod.fst).flatMap (writeOrigData edits.toEdits)))
        pieces' ∧ entries pieces' = (entries pieces).filterMap edits.entry := by
  induction h with
  | nil => exact ⟨[], .nil, rfl⟩
  | @cons front rest od entry pieces head tail ih =>
    have hflatten : (front ++ rest).flatten = front.flatten ++ rest.flatten := List.flatten_append
    obtain ⟨hfront, hrest, hended⟩ := lines_of_append hlines
    obtain ⟨pieces₁, hpieces₁, hentries₁, hended₁⟩ := exists_pieces_writeOrigData edits head hfront
    obtain ⟨pieces₂, hpieces₂, hentries₂⟩ := ih hrest
    refine ⟨pieces₁ ++ pieces₂, ?_, ?_⟩
    · rw [List.map_cons, List.flatMap_cons]
      rcases hended with rfl | hended
      · obtain rfl := tail.eq_nil rfl
        obtain rfl := hpieces₂.eq_nil rfl
        rw [List.map_nil, List.flatMap_nil, List.append_nil, List.append_nil]
        exact hpieces₁
      · rw [lines_append (hended₁ hended)]
        exact hpieces₁.append hpieces₂
    · rw [entries_append, hentries₁, hentries₂, ← List.filterMap_append, entries_cons]

theorem ended_preferredEolOf (lines : List (List Char)) :
    IsEol (preferredEolOf lines) ∧ Ended '\n' (preferredEolOf lines) ∧
      preferredEolOf lines ≠ [] := by
  have hended : ∀ {eol : List Char}, IsEol eol → eol ≠ [] → Ended '\n' eol := by
    intro eol heol hne
    cases heol with
    | none => exact absurd rfl hne
    | lf => exact Or.inr rfl
    | crlf => exact Or.inr rfl
  unfold preferredEolOf
  split
  · exact ⟨.lf, hended .lf (List.cons_ne_nil _ _), List.cons_ne_nil _ _⟩
  · rename_i line _
    split_ifs with hempty
    · exact ⟨.lf, hended .lf (List.cons_ne_nil _ _), List.cons_ne_nil _ _⟩
    · have hne : matchEol line ≠ [] := fun hnil ↦ hempty (List.isEmpty_iff.mpr hnil)
      exact ⟨isEol_matchEol line, hended (isEol_matchEol line) hne, hne⟩

/-- The additions, each with a line terminator, come before the rest of the file. -/
theorem exists_pieces_additions {eol : List Char} (heol : IsEol eol) (hended : Ended '\n' eol)
    (hne : eol ≠ []) (additions : List LogicalLine) :
    ∃ pieces, Pieces (lines '\n' ((additions.map LogicalLine.text).flatMap (· ++ eol))) pieces ∧
      entries pieces = additions.map (fun line ↦ (line.key, line.value)) ∧
      Ended '\n' ((additions.map LogicalLine.text).flatMap (· ++ eol)) := by
  induction additions with
  | nil => exact ⟨[], .nil, rfl, ended_nil⟩
  | cons line additions ih =>
    obtain ⟨pieces, hpieces, hentries, hrest⟩ := ih
    obtain ⟨pieces', hpieces', hentries'⟩ :=
      line.pieces (List.forall_mem_nil _) List.not_mem_nil heol
    have hline : Ended '\n' (line.text ++ eol) := hended.prepend hne _
    rw [List.nil_append] at hpieces'
    refine ⟨pieces' ++ pieces, ?_, ?_, ?_⟩
    · rw [List.map_cons, List.flatMap_cons, lines_append hline]
      exact hpieces'.append hpieces
    · rw [entries_append, hentries', hentries]
      rfl
    · exact hline.append hrest

end Piece

/-! ### The whole file -/

/-- The keys that are in the file, with their values. -/
def fileEntries (kv : KeyVal) : List (String × String) :=
  kv.data.toList.filter fun e ↦ kv.explicitKeys.contains e.1

/-- The keys of a file are those of its pieces. -/
theorem fileEntries_perm {spec : KeySpec} {content : List Char}
    {pieces : List (OrigData × Option (String × String))}
    (h : Pieces (lines '\n' content) pieces) (hfits : Fits spec pieces) :
    (readFile spec content).fileEntries.Perm (entries pieces) := by
  obtain ⟨-, -, hexplicit, hdata⟩ := readFile_of_pieces h hfits
  have hnodup : (readFile spec content).fileEntries.Nodup := by
    refine List.Nodup.filter _ ?_
    exact TreeMap.distinct_keys_toList.imp fun hne heq ↦
      hne (by rw [heq]; exact compare_eq_iff_eq.mpr rfl)
  refine (List.perm_ext_iff_of_nodup hnodup hfits.nodup.of_map).mpr fun ⟨key, value⟩ ↦ ?_
  unfold fileEntries
  rw [List.mem_filter, TreeMap.mem_toList_iff_getElem?_eq_some, hdata, TreeSet.contains_iff_mem,
    hexplicit]
  constructor
  · rintro ⟨hmem | ⟨hnot, -⟩, hkey⟩
    · exact hmem
    · exact absurd hkey hnot
  · exact fun hmem ↦ ⟨Or.inl hmem, List.mem_map_of_mem hmem⟩

/-- A file that was read without an error, and is written with changes, is read as the changes ask
for, under a specification with the keys that are left. An error can only say that a mandatory key
is not among these. -/
theorem readFile_writeFile (spec spec' : KeySpec) (content : List Char) (edits : KeyEdits)
    (hread : (readFile spec content).errors = [])
    (hnodup : ((edits.entries (readFile spec content).fileEntries).map Prod.fst).Nodup)
    (hkeys : ∀ key ∈ (edits.entries (readFile spec content).fileEntries).map Prod.fst,
      key ∈ spec'.keys) :
    let kv := readFile spec' ((readFile spec content).writeFile edits.toEdits)
    (kv.errors = [] ↔ ∀ key ∈ spec'.mandatory,
        key ∈ (edits.entries (readFile spec content).fileEntries).map Prod.fst) ∧
      kv.fileEntries.Perm (edits.entries (readFile spec content).fileEntries) ∧
      ∀ key value, kv.data[key]? = some value ↔
        (key, value) ∈ kv.fileEntries ∨
          key ∉ kv.fileEntries.map Prod.fst ∧ spec'.defaults[key]? = some value := by
  obtain ⟨pieces, hpieces, hfits, -⟩ := pieces_of_readFile hread
  have hperm := fileEntries_perm hpieces hfits
  obtain ⟨-, horig, -, -⟩ := readFile_of_pieces hpieces hfits
  obtain ⟨heol, hended, hne⟩ := ended_preferredEolOf (lines '\n' content)
  obtain ⟨added, hadded, hadditions, haddedEnded⟩ :=
    exists_pieces_additions heol hended hne edits.additions
  have hflatten : lines '\n' (lines '\n' content).flatten = lines '\n' content := by
    rw [flatten_lines]
  obtain ⟨kept, hkept, hkeptEntries⟩ := exists_pieces_write edits hpieces hflatten
  have hwrite : (readFile spec content).writeFile edits.toEdits =
      (edits.additions.map LogicalLine.text).flatMap (· ++ preferredEolOf (lines '\n' content)) ++
        (pieces.map Prod.fst).flatMap (writeOrigData edits.toEdits) := by
    unfold writeFile
    rw [horig, List.flatMap_append]
    exact congrArg _ (List.append_nil _)
  have hentries : (edits.entries (readFile spec content).fileEntries).Perm
      (entries (added ++ kept)) := by
    rw [entries_append, hadditions, hkeptEntries]
    exact (hperm.filterMap _).append_left _
  have hmap := hentries.map Prod.fst
  have hwritten : Pieces (lines '\n' ((readFile spec content).writeFile edits.toEdits))
      (added ++ kept) := by
    rw [hwrite, lines_append haddedEnded]
    exact hadded.append hkept
  have hfits' : Fits spec' (added ++ kept) :=
    ⟨hmap.nodup_iff.mp hnodup, fun key hkey ↦ hkeys key (hmap.mem_iff.mpr hkey)⟩
  have hperm' := fileEntries_perm hwritten hfits'
  obtain ⟨herrors, -, -, hdata⟩ := readFile_of_pieces hwritten hfits'
  refine ⟨?_, hperm'.trans hentries.symm, fun key value ↦ ?_⟩
  · rw [herrors]
    exact forall₂_congr fun key _ ↦ hmap.mem_iff.symm
  · rw [hdata, hperm'.mem_iff, (hperm'.map Prod.fst).mem_iff]

/-- A specification with mandatory keys only. -/
def mandatoryKeys (keys : List String) : KeySpec where
  filename := "Abuild.conf"
  mandatory := TreeSet.ofList keys
  defaults := ∅
  disjoint := by simp

/-- A file with three keys, the second of which goes on in a second line. -/
def threeKeysText : List Char :=
  ['a', ':', '1', '\n', 'b', ':', ' ', '2', '\\', '\n', '3', '\n', 'd', ':', '4']

def threeKeysPieces : List (OrigData × Option (String × String)) :=
  [(⟨[], "a", [':', '1', '\n']⟩, some ("a", "1")),
    (⟨[], "b", [':', ' ', '2', '\\', '\n', '3', '\n']⟩, some ("b", "2 3")),
    (⟨[], "d", [':', '4']⟩, some ("d", "4"))]

theorem pieces_threeKeysText : Pieces (lines '\n' threeKeysText) threeKeysPieces := by
  have ha : IsPiece [['a', ':', '1', '\n']] ⟨[], "a", [':', '1', '\n']⟩ (some ("a", "1")) :=
    .entry (m := ⟨[], ['a'], [':', '1', '\n'], ['1']⟩) rfl rfl .done
  have hb : IsPiece [['b', ':', ' ', '2', '\\', '\n'], ['3', '\n']]
      ⟨[], "b", [':', ' ', '2', '\\', '\n', '3', '\n']⟩ (some ("b", "2 3")) :=
    .entry (m := ⟨[], ['b'], [':', ' ', '2', '\\', '\n'], ['2']⟩) rfl rfl (.content rfl .done)
  have hd : IsPiece [['d', ':', '4']] ⟨[], "d", [':', '4']⟩ (some ("d", "4")) :=
    .entry (m := ⟨[], ['d'], [':', '4'], ['4']⟩) rfl rfl .done
  exact .cons ha (.cons hb (.cons hd .nil))

/-- The first key gets another name, another one and its value take the place of the second one, the
third one is deleted, and one is added. -/
def fourEdits : KeyEdits where
  keyChanges := TreeMap.ofList [("a", "c")]
  replacements := (∅ : TreeMap String LogicalLine).insert "b"
    ⟨['e', ':', '5'], "e", "5", _, .entry (m := ⟨[], ['e'], [':', '5'], ['5']⟩) rfl rfl .done⟩
  deletions := TreeSet.ofList ["d"]
  additions :=
    [⟨['f', ':', '6'], "f", "6", _, .entry (m := ⟨[], ['f'], [':', '6'], ['6']⟩) rfl rfl .done⟩]
  names := by
    intro key newKey hchange
    rw [TreeMap.ofList_singleton, TreeMap.getElem?_insert] at hchange
    split_ifs at hchange
    · obtain rfl := Option.some_inj.mp hchange
      exact ⟨by simp [isKeyChar, isSpace], by simp, by simp⟩
    · exact absurd hchange (by simp)

theorem fileEntries_threeKeysText :
    (readFile (mandatoryKeys ["a", "b", "d"]) threeKeysText).errors = [] ∧
      (fourEdits.entries
        (readFile (mandatoryKeys ["a", "b", "d"]) threeKeysText).fileEntries).Perm
          [("f", "6"), ("c", "1"), ("e", "5")] := by
  have hfits : Fits (mandatoryKeys ["a", "b", "d"]) threeKeysPieces := by
    refine ⟨by decide, fun key hkey ↦ mem_keys.mpr (Or.inl ?_)⟩
    simpa [mandatoryKeys, threeKeysPieces, entries] using hkey
  obtain ⟨herrors, -⟩ := readFile_of_pieces pieces_threeKeysText hfits
  refine ⟨herrors.mpr fun key hkey ↦ by
    simpa [mandatoryKeys, threeKeysPieces, entries] using hkey, ?_⟩
  have hperm := (fileEntries_perm pieces_threeKeysText hfits).filterMap fourEdits.entry
  have hlast : (entries threeKeysPieces).filterMap fourEdits.entry = [("c", "1"), ("e", "5")] := by
    decide
  rw [hlast] at hperm
  exact hperm.cons ("f", "6")

theorem readFile_writeFile_threeKeysText :
    (readFile (mandatoryKeys ["c", "e", "f"])
      ((readFile (mandatoryKeys ["a", "b", "d"]) threeKeysText).writeFile
        fourEdits.toEdits)).fileEntries.Perm [("f", "6"), ("c", "1"), ("e", "5")] := by
  obtain ⟨herrors, hperm⟩ := fileEntries_threeKeysText
  have hmap := hperm.map Prod.fst
  refine (readFile_writeFile (mandatoryKeys ["a", "b", "d"]) (mandatoryKeys ["c", "e", "f"])
    threeKeysText fourEdits herrors (hmap.nodup_iff.mpr (by decide)) fun key hkey ↦ ?_).2.1.trans
      hperm
  have hkey : key ∈ ["f", "c", "e"] := hmap.mem_iff.mp hkey
  refine mem_keys.mpr (Or.inl ?_)
  have hmem : ∀ key ∈ ["f", "c", "e"], key ∈ (mandatoryKeys ["c", "e", "f"]).mandatory := by decide
  exact hmem key hkey

end Abuild.KeyVal
