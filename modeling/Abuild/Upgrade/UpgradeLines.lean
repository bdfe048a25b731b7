import Abuild.Library.Lines
import Abuild.Library.Trim
import Abuild.KeyVal.Match
import Abuild.Upgrade.UpgradeData

/-!
What the reader of the upgrade data makes of one line. A line for a tree is a comment, names the
tree, or is an error, as its path says (`readLine_treeLine`); a line does one of five things to what
the reader keeps (`step_of_readLine`).
-/

set_option autoImplicit false
set_option relaxedAutoImplicit false

namespace Abuild.UpgradeData

open KeyVal (isSpace isKeyChar)
open Trim (trim)

/-! ### The lines of the text -/

section Pieces

variable {line : String}

/-- What a line that has been written is read as: more lines than one where it has newlines. -/
def pieces (line : String) : List (List Char) := Lines.lines '\n' (line.toList ++ ['\n'])

theorem pieces_of_notMem (h : '\n' ∉ line.toList) : pieces line = [line.toList ++ ['\n']] :=
  Lines.lines_line h []

theorem lines_join (written : List String) :
    Lines.lines '\n' (String.join (written.map (· ++ "\n"))).toList = written.flatMap pieces := by
  rw [String.toList_join, List.flatMap_map]
  induction written with
  | nil => rfl
  | cons line written ih =>
    have hline : (line ++ "\n").toList = line.toList ++ ['\n'] := String.toList_append
    rw [List.flatMap_cons, hline, Lines.lines_append (Lines.ended_concat _), ih]
    rfl

theorem trim_stripNewline (line : List Char) :
    trim isSpace (Util.stripNewline line) = trim isSpace line := by
  have hline : ∃ space, (∀ c ∈ space, isSpace c = true) ∧
      line = Util.stripNewline line ++ space := by
    unfold Util.stripNewline
    split
    · rename_i rest hreverse
      refine ⟨['\r', '\n'], by simp [isSpace], ?_⟩
      rw [← List.reverse_reverse line, hreverse]
      simp
    · rename_i rest _ hreverse
      refine ⟨['\n'], List.forall_mem_singleton.mpr rfl, ?_⟩
      rw [← List.reverse_reverse line, hreverse]
      simp
    · exact ⟨[], List.forall_mem_nil _, (List.append_nil line).symm⟩
  obtain ⟨space, hspace, heq⟩ := hline
  conv_rhs => rw [heq]
  exact (Trim.trim_append_of_all _ hspace).symm

end Pieces

section Reader

variable {fs : FileSystem} {isDirectory : String → Bool} {fuel : ℕ} {s s' : ReadState}
  {line : List Char}

theorem readLine_congr {line' : List Char} (h : trim isSpace line = trim isSpace line')
    (s : ReadState) :
    s.readLine fs isDirectory fuel line = s.readLine fs isDirectory fuel line' := by
  unfold ReadState.readLine
  rw [h]

theorem readLine_newline (s : ReadState) (line : List Char) :
    s.readLine fs isDirectory fuel (line ++ ['\n']) = s.readLine fs isDirectory fuel line :=
  readLine_congr (Trim.trim_append_of_all line (List.forall_mem_singleton.mpr rfl)) s

variable (fs isDirectory fuel) in
/-- A line that has been written, as it is read. -/
def readWritten (s : ReadState) (line : String) : Option ReadState :=
  (pieces line).foldlM (ReadState.readLine fs isDirectory fuel) s

theorem readWritten_of_notMem {line : String} (h : '\n' ∉ line.toList) (s : ReadState) :
    readWritten fs isDirectory fuel s line = s.readLine fs isDirectory fuel line.toList := by
  unfold readWritten
  rw [pieces_of_notMem h, ← readLine_newline, List.foldlM_cons]
  exact bind_pure _

theorem foldlM_pieces (written : List String) (s : ReadState) :
    (written.flatMap pieces).foldlM (ReadState.readLine fs isDirectory fuel) s =
      written.foldlM (readWritten fs isDirectory fuel) s := by
  induction written generalizing s with
  | nil => rfl
  | cons line written ih =>
    rw [List.flatMap_cons, List.foldlM_append, List.foldlM_cons]
    exact bind_congr ih

theorem readUpgradeData_join (written : List String) :
    readUpgradeData fs isDirectory fuel (String.join (written.map (· ++ "\n"))) =
      written.foldlM (readWritten fs isDirectory fuel) .initial := by
  unfold readUpgradeData Util.readLinesFromFile
  rw [List.foldlM_map, lines_join, ← foldlM_pieces]
  congr 1
  funext s line
  exact readLine_congr (trim_stripNewline line) s

/-! ### Lines without content -/

def IsComment (text : List Char) : Prop := text.head? = some '#'

instance : DecidablePred IsComment := fun text ↦ inferInstanceAs (Decidable (text.head? = some '#'))

/-- The line that has been read counts, whatever it says. -/
def nextLine (s : ReadState) : ReadState := { s with lineno := s.lineno + 1 }

theorem readLine_skip (h : trim isSpace line = [] ∨ IsComment (trim isSpace line)) (s : ReadState) :
    s.readLine fs isDirectory fuel line = some (nextLine s) := by
  have hskip : (trim isSpace line).isEmpty ∨ (trim isSpace line).head? = some '#' :=
    h.imp_left List.isEmpty_iff.mpr
  unfold ReadState.readLine
  dsimp only
  rw [if_pos hskip]
  rfl

theorem readLine_content (hempty : trim isSpace line ≠ []) (h : ¬ IsComment (trim isSpace line))
    (s : ReadState) : s.readLine fs isDirectory fuel line =
      (nextLine s).readContent fs isDirectory fuel (trim isSpace line) := by
  have hcontent : ¬ ((trim isSpace line).isEmpty ∨ (trim isSpace line).head? = some '#') :=
    not_or.mpr ⟨fun hnil ↦ hempty (List.isEmpty_iff.mp hnil), h⟩
  unfold ReadState.readLine
  dsimp only
  rw [if_neg hcontent]
  rfl

end Reader

/-! ### Sections -/

/-- There is no space in a section marker. -/
theorem matchSection_eq_none {line : List Char} {c : Char} (hc : c ∈ line)
    (hspace : isSpace c = true) :
    matchSection line = none := by
  unfold matchSection
  split
  · rename_i rest
    dsimp only
    rw [if_neg]
    rintro ⟨hlast, -, hname⟩
    have hne (bracket : Char) (hbracket : isSpace bracket = false) : c ≠ bracket := by
      rintro rfl
      rw [hspace] at hbracket
      cases hbracket
    obtain ⟨front, rfl⟩ := List.getLast?_eq_some_iff.mp hlast
    rw [List.dropLast_concat] at hname
    apply hname
    rw [List.any_eq_true]
    refine ⟨c, ?_, hspace⟩
    rcases List.mem_cons.mp hc with heq | hc
    · exact absurd heq (hne '[' rfl)
    · exact (List.mem_append.mp hc).resolve_right fun hmem ↦
        hne ']' rfl (List.mem_singleton.mp hmem)
  · rfl

/-! ### Trees -/

/-- `[^:\s]+` -/
def IsWord (text : List Char) : Prop := text ≠ [] ∧ ∀ c ∈ text, isKeyChar c = true

instance : DecidablePred IsWord :=
  fun text ↦ decidable_of_iff (text ≠ [] ∧ text.all isKeyChar = true)
    (and_congr_right fun _ ↦ List.all_eq_true)

/-- `\S+`: the names that can be read. -/
def IsTreeName (name : List Char) : Prop := name ≠ [] ∧ ∀ c ∈ name, isSpace c = false

section Trees

variable {path name : List Char}

theorem trim_word (h : IsWord path) : trim isSpace path = path := by
  obtain ⟨hne, hword⟩ := h
  have hspace (c : Char) (hc : c ∈ path) : ¬ isSpace c = true := by
    rw [KeyVal.not_isSpace_of_isKeyChar (hword c hc)]
    exact Bool.false_ne_true
  unfold trim
  rw [List.dropWhile_eq_self_iff.mpr fun hlength ↦ hspace _ (List.getElem_mem hlength)]
  exact List.rdropWhile_eq_self_iff.mpr fun hnil ↦ hspace _ (List.getLast_mem hnil)

theorem trim_treeLine (h : IsTreeName name) : trim isSpace (path ++ ':' :: ' ' :: name) =
    path.dropWhile isSpace ++ ':' :: ' ' :: name := by
  have hhead : ∀ c ∈ (':' :: ' ' :: name).head?, isSpace c = false := by
    intro c hc
    cases hc
    rfl
  unfold trim
  rw [(Trim.takeWhile_append_of_head path hhead).2, List.rdropWhile_eq_self_iff]
  intro hne
  rw [List.getLast_append_of_ne_nil _ (List.cons_ne_nil _ _),
    List.getLast_cons (List.cons_ne_nil _ _), List.getLast_cons h.1]
  rw [h.2 _ (List.getLast_mem h.1)]
  exact Bool.false_ne_true

theorem rdropWhile_eq_takeWhile {text : List Char}
    (h : (text.dropWhile isKeyChar).dropWhile isSpace = []) :
    text.rdropWhile isSpace = text.takeWhile isKeyChar := by
  have hdrop : text.rdropWhile isSpace = (text.takeWhile isKeyChar).rdropWhile isSpace := by
    have hrest := Trim.rdropWhile_append_of_all (text.takeWhile isKeyChar)
      (List.dropWhile_eq_nil_iff.mp h)
    rwa [List.takeWhile_append_dropWhile] at hrest
  rw [hdrop, List.rdropWhile_eq_self_iff]
  intro hnil hlast
  have hkey := List.mem_takeWhile_imp (List.getLast_mem hnil)
  rw [KeyVal.isKeyChar_eq_false_of_isSpace hlast] at hkey
  cases hkey

/-- Nothing but spaces comes after a word. -/
theorem isWord_rdropWhile_iff (text : List Char) : IsWord (text.rdropWhile isSpace) ↔
    text.takeWhile isKeyChar ≠ [] ∧ (text.dropWhile isKeyChar).dropWhile isSpace = [] := by
  constructor
  · rintro ⟨hne, hword⟩
    have hrest : ∀ c ∈ (text.rtakeWhile isSpace).head?, isKeyChar c = false := fun c hc ↦
      KeyVal.isKeyChar_eq_false_of_isSpace (List.mem_rtakeWhile_imp (List.mem_of_mem_head? hc))
    obtain ⟨htake, hdrop⟩ := Trim.span_append hword hrest
    rw [List.rdropWhile_append_rtakeWhile] at htake hdrop
    rw [htake, hdrop]
    exact ⟨hne, List.dropWhile_eq_nil_iff.mpr fun c hc ↦ List.mem_rtakeWhile_imp hc⟩
  · rintro ⟨hne, hspace⟩
    rw [rdropWhile_eq_takeWhile hspace]
    exact ⟨hne, fun c hc ↦ List.mem_takeWhile_imp hc⟩

/-- The path of a line for a tree is read when it is a word, without the spaces at its ends. -/
theorem matchTreename_treeLine (h : IsTreeName name) :
    matchTreename (path.dropWhile isSpace ++ ':' :: ' ' :: name) =
      if IsWord (trim isSpace path) then some (trim isSpace path, name) else none := by
  have htrim : trim isSpace path = (path.dropWhile isSpace).rdropWhile isSpace := rfl
  rw [htrim]
  generalize path.dropWhile isSpace = word
  have hcolonKey : ∀ c ∈ (':' :: ' ' :: name).head?, isKeyChar c = false := by
    intro c hc
    cases hc
    rfl
  have hcolon : ∀ c ∈ (':' :: ' ' :: name).head?, isSpace c = false := by
    intro c hc
    cases hc
    rfl
  obtain ⟨htake, hdrop⟩ := Trim.takeWhile_append_of_head word hcolonKey
  have hspaces := (Trim.takeWhile_append_of_head (word.dropWhile isKeyChar) hcolon).2
  have hname : (' ' :: name).dropWhile isSpace = name := by
    rw [List.dropWhile_cons_of_pos (by rfl), List.dropWhile_eq_self_iff]
    intro hlength hspace
    rw [h.2 _ (List.getElem_mem hlength)] at hspace
    cases hspace
  unfold matchTreename
  dsimp only
  rw [htake, hdrop, hspaces]
  have hword := isWord_rdropWhile_iff word
  cases hrest : (word.dropWhile isKeyChar).dropWhile isSpace with
  | nil =>
    rw [rdropWhile_eq_takeWhile hrest] at hword ⊢
    rw [List.nil_append]
    show (if _ ∨ ((' ' :: name).dropWhile isSpace).isEmpty ∨
      ((' ' :: name).dropWhile isSpace).any isSpace then none else some (_, _)) = _
    rw [hname]
    have hread : (word.takeWhile isKeyChar).isEmpty ∨ name.isEmpty ∨ name.any isSpace ↔
        word.takeWhile isKeyChar = [] := by
      refine ⟨fun hor ↦ ?_, fun hnil ↦ Or.inl (List.isEmpty_iff.mpr hnil)⟩
      rcases hor with hnil | hnil | hspace
      · exact List.isEmpty_iff.mp hnil
      · exact absurd (List.isEmpty_iff.mp hnil) h.1
      · obtain ⟨c, hc, hspace⟩ := List.any_eq_true.mp hspace
        rw [h.2 c hc] at hspace
        cases hspace
    by_cases hnil : word.takeWhile isKeyChar = []
    · rw [if_pos (hread.mpr hnil), if_neg fun his ↦ his.1 hnil]
    · rw [if_neg (mt hread.mp hnil), if_pos (hword.mpr ⟨hnil, hrest⟩)]
  | cons c rest =>
    -- A colon in the path leaves the one after the path in the name, with a space.
    rw [if_neg fun his ↦ by cases hrest.symm.trans (hword.mp his).2]
    by_cases hc : c = ':'
    · subst hc
      have hspace : ' ' ∈ (rest ++ ':' :: ' ' :: name).dropWhile isSpace := by
        rw [(Trim.takeWhile_append_of_head rest hcolon).2]
        exact List.mem_append_right _ (List.mem_cons_of_mem _ List.mem_cons_self)
      exact if_pos (Or.inr (Or.inr (List.any_eq_true.mpr ⟨' ', hspace, rfl⟩)))
    · rw [List.cons_append]
      split
      · rename_i rest' heq
        exact absurd (List.cons_eq_cons.mp heq).1 hc
      · rfl

end Trees

section Reader

variable {fs : FileSystem} {isDirectory : String → Bool} {fuel : ℕ} {s s' : ReadState}

theorem toList_treeLine (path name : String) :
    (treeLine path name).toList = path.toList ++ ':' :: ' ' :: name.toList := by
  unfold treeLine
  rw [String.toList_append, String.toList_append, List.append_assoc]
  rfl

/-- The line of a tree, in a section of trees. -/
theorem readLine_treeLine {path name : String} (hname : IsTreeName name.toList)
    (hstate : s.state = .names) :
    s.readLine fs isDirectory fuel (treeLine path name).toList = some (
      let text := trim isSpace path.toList
      if IsComment text then nextLine s
      else if IsWord text then (nextLine s).addTree isDirectory (String.ofList text) name
      else (nextLine s).error "invalid tree name") := by
  have htrim : trim isSpace (treeLine path name).toList =
      path.toList.dropWhile isSpace ++ ':' :: ' ' :: name.toList := by
    rw [toList_treeLine]
    exact trim_treeLine hname
  have hcomment : IsComment (trim isSpace (treeLine path name).toList) ↔
      IsComment (trim isSpace path.toList) := by
    unfold IsComment
    rw [htrim, Trim.head?_trim, List.head?_append]
    cases path.toList.dropWhile isSpace with
    | nil => exact iff_of_false (by simp) (by simp)
    | cons c rest => rfl
  have hempty : trim isSpace (treeLine path name).toList ≠ [] := by
    rw [htrim]
    exact List.append_ne_nil_of_right_ne_nil _ (List.cons_ne_nil _ _)
  by_cases hskip : IsComment (trim isSpace path.toList)
  · rw [readLine_skip (Or.inr (hcomment.mpr hskip))]
    dsimp only
    rw [if_pos hskip]
  · rw [readLine_content hempty (mt hcomment.mp hskip)]
    dsimp only
    rw [if_neg hskip, htrim]
    have hspace : ' ' ∈ path.toList.dropWhile isSpace ++ ':' :: ' ' :: name.toList :=
      List.mem_append_right _ (List.mem_cons_of_mem _ List.mem_cons_self)
    have hnext : (nextLine s).state = .names := hstate
    unfold ReadState.readContent
    rw [matchSection_eq_none hspace rfl, hnext]
    dsimp only
    rw [matchTreename_treeLine hname]
    split_ifs
    · show some ((nextLine s).addTree isDirectory _ (String.ofList name.toList)) = _
      rw [String.ofList_toList]
    · rfl

/-! ### What a line does -/

/-- A line that has content, and is no section marker. -/
structure IsContent (text : List Char) : Prop where
  nonempty : text ≠ []
  comment : ¬ IsComment text
  marker : matchSection text = none

/-- A path that names are kept for. -/
structure IsKey (path : String) : Prop where
  word : IsWord path.toList
  comment : ¬ IsComment path.toList

inductive Step (fs : FileSystem) (fuel : ℕ) (text : List Char) (s : ReadState) : ReadState → Prop
  | skip : Step fs fuel text s s
  | error (message : String) : Step fs fuel text s (s.error message)
  | enter (state : Section) : Step fs fuel text s { s with state }
  | ignored {path : String} {sawLoop : Bool} (hcontent : IsContent text)
      (hrun : Util.canonicalizePath fs fuel (String.ofList text) = some (path, sawLoop)) :
      Step fs fuel text s { s with ignoredDirectories := s.ignoredDirectories.insert path }
  | tree {path : String} (name : String) (hkey : IsKey path) :
      Step fs fuel text s { s with treeNames := s.treeNames.insert path name }

theorem isKey_of_matchTreename {text path name : List Char} (hcomment : ¬ IsComment text)
    (h : matchTreename text = some (path, name)) : IsKey (String.ofList path) := by
  have hpath : path = text.takeWhile isKeyChar ∧ path ≠ [] := by
    unfold matchTreename at h
    split at h
    · dsimp only at h
      split_ifs at h with hor
      cases h
      exact ⟨rfl, fun hnil ↦ hor (Or.inl (List.isEmpty_iff.mpr hnil))⟩
    · cases h
  obtain ⟨htake, hne⟩ := hpath
  refine ⟨?_, ?_⟩
  · rw [String.toList_ofList]
    refine ⟨hne, fun c hc ↦ ?_⟩
    rw [htake] at hc
    exact List.mem_takeWhile_imp hc
  · rw [String.toList_ofList]
    intro hhead
    apply hcomment
    obtain ⟨rest, hrest⟩ := List.takeWhile_prefix isKeyChar (l := text)
    unfold IsComment at hhead ⊢
    rw [← hrest, ← htake, List.head?_append, hhead]
    rfl

theorem step_addTree {text : List Char} {path : String} (name : String) (hkey : IsKey path)
    (s : ReadState) : Step fs fuel text s (s.addTree isDirectory path name) := by
  unfold ReadState.addTree
  split_ifs
  · exact .skip
  · exact .error _
  · exact .tree name hkey
  · exact .error _

theorem step_readContent {text : List Char} (hempty : text ≠ []) (hcomment : ¬ IsComment text)
    (h : s.readContent fs isDirectory fuel text = some s') : Step fs fuel text s s' := by
  unfold ReadState.readContent at h
  split at h
  · cases h
    unfold ReadState.enterSection
    split_ifs
    · exact .enter .ignoredDirs
    · exact .enter .names
    · exact .error _
  · rename_i hmarker _
    unfold ReadState.addIgnored at h
    split_ifs at h
    · obtain ⟨⟨path, sawLoop⟩, hrun, rfl⟩ := Option.map_eq_some_iff.mp h
      exact .ignored ⟨hempty, hcomment, hmarker⟩ hrun
    · cases h
      exact .error _
  · split at h
    · rename_i path name hmatch
      cases h
      exact step_addTree _ (isKey_of_matchTreename hcomment hmatch) s
    · cases h
      exact .error _
  · cases h
    exact .error _

theorem step_of_readLine {line : List Char}
    (h : s.readLine fs isDirectory fuel line = some s') :
    Step fs fuel (trim isSpace line) (nextLine s) s' := by
  by_cases hskip : trim isSpace line = [] ∨ IsComment (trim isSpace line)
  · rw [readLine_skip hskip] at h
    cases h
    exact .skip
  · obtain ⟨hempty, hcomment⟩ := not_or.mp hskip
    rw [readLine_content hempty hcomment] at h
    exact step_readContent hempty hcomment h

variable {lines : List (List Char)}

/-- Names are kept for paths that have been read. -/
theorem isKey_of_foldlM (h : lines.foldlM (ReadState.readLine fs isDirectory fuel) s = some s')
    (hkeys : ∀ path ∈ s.treeNames, IsKey path) : ∀ path ∈ s'.treeNames, IsKey path := by
  refine Fallible.foldlM_induction (motive := fun s ↦ ∀ path ∈ s.treeNames, IsKey path) h hkeys ?_
  intro line hline t t' hread hmotive path hpath
  cases step_of_readLine hread with
  | skip => exact hmotive path hpath
  | error message => exact hmotive path hpath
  | enter state => exact hmotive path hpath
  | ignored hcontent hrun => exact hmotive path hpath
  | tree name hkey =>
    rcases Std.TreeMap.mem_insert.mp hpath with heq | hpath
    · rw [← Std.LawfulEqCmp.eq_of_compare heq]
      exact hkey
    · exact hmotive path hpath

/-- What a line leads to, where it is a directory to ignore. -/
def LeadsTo (fs : FileSystem) (fuel : ℕ) (text : List Char) (dir : String) : Prop :=
  IsContent text ∧ ∃ sawLoop, Util.canonicalizePath fs fuel (String.ofList text) =
    some (dir, sawLoop)

theorem exists_line_of_foldlM
    (h : lines.foldlM (ReadState.readLine fs isDirectory fuel) s = some s') {dir : String}
    (hdir : dir ∈ s'.ignoredDirectories) :
    dir ∈ s.ignoredDirectories ∨ ∃ line ∈ lines, LeadsTo fs fuel (trim isSpace line) dir := by
  refine Fallible.foldlM_induction (motive := fun s' ↦ dir ∈ s'.ignoredDirectories →
    dir ∈ s.ignoredDirectories ∨ ∃ line ∈ lines, LeadsTo fs fuel (trim isSpace line) dir) h Or.inl
    ?_ hdir
  intro line hline t t' hread hmotive hdir
  cases step_of_readLine hread with
  | skip => exact hmotive hdir
  | error message => exact hmotive hdir
  | enter state => exact hmotive hdir
  | ignored hcontent hrun =>
    rcases Std.TreeSet.mem_insert.mp hdir with heq | hdir
    · rw [Std.LawfulEqCmp.eq_of_compare heq] at hrun
      exact Or.inr ⟨line, hline, hcontent, _, hrun⟩
    · exact hmotive hdir
  | tree name hkey => exact hmotive hdir

end Reader

end Abuild.UpgradeData
