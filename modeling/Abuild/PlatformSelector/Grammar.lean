import Abuild.PlatformSelector
import Abuild.PlatformTables.Check
import Abuild.Util.Split

/-!
The grammar of platform selectors, what a selector stands for, and that selectors are read and
matched by it. A selector that is not a special one stands for a tuple of fields, each of which may
be left out.
-/

set_option autoImplicit false
set_option relaxedAutoImplicit false

namespace Abuild.PlatformSelector

open Util (split)

/-! ### The grammar -/

/-- The name of a platform type or of a field of a platform. -/
structure Name where
  text : String
  valid : isName text = true

/-- A field of a selector. -/
inductive Pattern
  | any
  | name (name : Name)

def Pattern.text : Pattern → String
  | .any => "*"
  | .name n => n.text

/-- A field that may be left out. -/
def patternText (p : Option Pattern) : String := p.elim "" Pattern.text

def joined (patterns : List Pattern) : String := ".".intercalate (patterns.map Pattern.text)

inductive Criterion
  | all
  | skip
  | dfault
  | option (option : Option Pattern)
  | compiler (compiler : Pattern) (option : Option Pattern)
  | platform (os cpu toolset compiler : Pattern) (option : Option Pattern)

def Criterion.text : Criterion → String
  | .all => "all"
  | .skip => "skip"
  | .dfault => "default"
  | .option o => "option=" ++ patternText o
  | .compiler c o => "compiler=" ++ joined (c :: o.toList)
  | .platform os cpu toolset c o => "platform=" ++ joined (os :: cpu :: toolset :: c :: o.toList)

/-- A selector for one platform type, or for all of them. -/
structure Selector where
  platformType : Option Name
  criterion : Criterion

namespace Selector

def text (s : Selector) : String :=
  s.platformType.elim s.criterion.text fun name ↦ name.text ++ ":" ++ s.criterion.text

/-- `default` is for one platform type. -/
def Allowed (s : Selector) : Prop := s.criterion = .dfault → s.platformType ≠ none

end Selector

/-! ### The meaning -/

/-- What a selector says about each field, where it says anything. -/
structure Tuple where
  os : Option Pattern
  cpu : Option Pattern
  toolset : Option Pattern
  compiler : Option Pattern
  option : Option Pattern

/-- A special selector has no tuple, but `all` has one of any fields. -/
def Criterion.tuple : Criterion → Option Tuple
  | .all => some ⟨some .any, some .any, some .any, some .any, some .any⟩
  | .skip => none
  | .dfault => none
  | .option o => some ⟨none, none, none, none, o⟩
  | .compiler c o => some ⟨none, none, none, some c, o⟩
  | .platform os cpu toolset c o => some ⟨some os, some cpu, some toolset, some c, o⟩

/-- A field that is left out is that of the default. -/
def Accepts : Option Pattern → String → String → Prop
  | none, dfault, field => field = dfault
  | some .any, _, _ => True
  | some (.name n), _, field => field = n.text

/-- The option of the first platform is not used. -/
structure Tuple.Accepts (t : Tuple) (first platform : Fields) : Prop where
  os : PlatformSelector.Accepts t.os first.os platform.os
  cpu : PlatformSelector.Accepts t.cpu first.cpu platform.cpu
  toolset : PlatformSelector.Accepts t.toolset first.toolset platform.toolset
  compiler : PlatformSelector.Accepts t.compiler first.compiler platform.compiler
  option : PlatformSelector.Accepts t.option "" platform.option

/-- A field of a platform name. -/
def IsField (field : String) : Prop := field ≠ "" ∧ '.' ∉ field.toList

/-- A platform has four fields, or five with an option. -/
structure IsPlatform (platform : String) (fields : Fields) : Prop where
  os : IsField fields.os
  cpu : IsField fields.cpu
  toolset : IsField fields.toolset
  compiler : IsField fields.compiler
  eq_join : (fields.option = "" ∧ platform =
      ".".intercalate [fields.os, fields.cpu, fields.toolset, fields.compiler]) ∨
    IsField fields.option ∧ platform =
      ".".intercalate [fields.os, fields.cpu, fields.toolset, fields.compiler, fields.option]

theorem splitPlatform_of_isPlatform {platform : String} {fields : Fields}
    (h : IsPlatform platform fields) : splitPlatform platform = some fields := by
  have hjoint : ".".toList = ['.'] := rfl
  unfold splitPlatform
  rcases h.eq_join with ⟨hoption, rfl⟩ | ⟨hoption, rfl⟩
  · rw [Util.split_join hjoint (by simp [h.os.2, h.cpu.2, h.toolset.2, h.compiler.2])
      (List.cons_ne_nil _ _), ← hoption]
  · rw [Util.split_join hjoint (by simp [h.os.2, h.cpu.2, h.toolset.2, h.compiler.2, hoption.2])
      (List.cons_ne_nil _ _)]

/-! ### Characters -/

theorem isComponentChar_of_mem {name : Name} {c : Char} (h : c ∈ name.text.toList) :
    isComponentChar c = true :=
  List.all_eq_true.mp (Bool.and_eq_true_iff.mp name.valid).2 c h

theorem Name.text_ne_empty (name : Name) : name.text ≠ "" := by
  intro h
  have hvalid := (Bool.and_eq_true_iff.mp name.valid).1
  rw [h] at hvalid
  cases hvalid

theorem not_mem_name {name : Name} {c : Char} (h : isComponentChar c = false) :
    c ∉ name.text.toList := fun hin ↦ by
  rw [isComponentChar_of_mem hin] at h
  cases h

theorem Name.text_ne_any (name : Name) : name.text ≠ "*" := by
  intro h
  have hin : '*' ∈ name.text.toList := by
    rw [h]
    exact List.mem_singleton.mpr rfl
  exact not_mem_name rfl hin

theorem not_mem_pattern {p : Pattern} {c : Char} (h : isComponentChar c = false) (hc : c ≠ '*') :
    c ∉ p.text.toList := by
  cases p with
  | any => exact fun hin ↦ hc (List.mem_singleton.mp hin)
  | name name => exact not_mem_name h

theorem Pattern.text_ne_empty (p : Pattern) : p.text ≠ "" := by
  cases p with
  | any => decide
  | name name => exact name.text_ne_empty

theorem not_mem_joined {patterns : List Pattern} {c : Char} (h : isComponentChar c = false)
    (hstar : c ≠ '*') (hdot : c ≠ '.') : c ∉ (joined patterns).toList := by
  intro hin
  rcases Util.mem_join rfl hin with hin | ⟨part, hpart, hin⟩
  · exact hdot hin
  · obtain ⟨p, -, rfl⟩ := List.mem_map.mp hpart
    exact not_mem_pattern h hstar hin

theorem split_joined {patterns : List Pattern} (h : patterns ≠ []) :
    split '.' (joined patterns) = patterns.map Pattern.text := by
  refine Util.split_join rfl (List.forall_mem_map.mpr fun p _ ↦ ?_) (mt List.map_eq_nil_iff.mp h)
  exact not_mem_pattern rfl (by decide)

theorem not_mem_patternText {p : Option Pattern} {c : Char} (h : isComponentChar c = false)
    (hc : c ≠ '*') : c ∉ (patternText p).toList := by
  cases p with
  | none => exact List.not_mem_nil
  | some p => exact not_mem_pattern h hc

theorem not_mem_criterion {k : Criterion} : ':' ∉ k.text.toList := by
  have hjoined : ∀ patterns : List Pattern, ':' ∉ (joined patterns).toList :=
    fun patterns ↦ not_mem_joined rfl (by decide) (by decide)
  cases k with
  | all => decide
  | skip => decide
  | dfault => decide
  | option o =>
    have hpattern : ':' ∉ (patternText o).toList := not_mem_patternText rfl (by decide)
    simp [Criterion.text, hpattern]
  | compiler compiler option => simp [Criterion.text, hjoined]
  | platform os cpu toolset compiler option => simp [Criterion.text, hjoined]

/-! ### What the regular expression matches -/

theorem patternOf_eq_some_iff {specifier selector pattern : String} :
    patternOf specifier selector = some pattern ↔ selector = specifier ++ pattern := by
  unfold patternOf
  rw [Option.map_eq_some_iff]
  constructor
  · rintro ⟨rest, hrest, rfl⟩
    rw [PlatformTables.dropPrefix?_eq_some_iff] at hrest
    rw [← String.toList_inj, String.toList_append, String.toList_ofList, hrest]
  · rintro rfl
    refine ⟨pattern.toList, ?_, String.ofList_toList⟩
    rw [PlatformTables.dropPrefix?_eq_some_iff, String.toList_append]

theorem isComponent_iff {text : String} :
    isComponent text = true ↔ ∃ p : Pattern, p.text = text := by
  unfold isComponent
  rw [Bool.or_eq_true, decide_eq_true_iff]
  constructor
  · rintro (h | rfl)
    · exact ⟨.name ⟨text, h⟩, rfl⟩
    · exact ⟨.any, rfl⟩
  · rintro ⟨p, rfl⟩
    cases p with
    | any => exact Or.inr rfl
    | name name => exact Or.inl name.valid

theorem areComponents_iff {least most : ℕ} {pattern : String} (hleast : 0 < least) :
    areComponents least most pattern = true ↔ ∃ patterns : List Pattern,
      (least ≤ patterns.length ∧ patterns.length ≤ most) ∧ joined patterns = pattern := by
  unfold areComponents
  dsimp only
  rw [Bool.and_eq_true, Bool.and_eq_true, decide_eq_true_iff, decide_eq_true_iff,
    List.all_eq_true]
  constructor
  · rintro ⟨hlength, hall⟩
    have hrange : split '.' pattern ∈ Set.range (List.map Pattern.text) := by
      rw [Set.range_list_map]
      exact fun text htext ↦ isComponent_iff.mp (hall text htext)
    obtain ⟨patterns, hpatterns⟩ := hrange
    rw [← hpatterns, List.length_map] at hlength
    refine ⟨patterns, hlength, ?_⟩
    unfold joined
    rw [hpatterns]
    exact Util.join_split rfl pattern
  · rintro ⟨patterns, hlength, rfl⟩
    have hne : patterns ≠ [] := List.ne_nil_of_length_pos (hleast.trans_le hlength.1)
    rw [split_joined hne, List.length_map]
    exact ⟨hlength, List.forall_mem_map.mpr fun p _ ↦ isComponent_iff.mpr ⟨p, rfl⟩⟩

theorem isCriterion_iff {selector : String} :
    isCriterion selector = true ↔ ∃ k : Criterion, k.text = selector := by
  have hpattern : ∀ (specifier : String) (p : String → Bool),
      (patternOf specifier selector).any p = true ↔
        ∃ pattern, selector = specifier ++ pattern ∧ p pattern = true := by
    intro specifier p
    rw [Option.any_eq_true]
    simp only [patternOf_eq_some_iff]
  unfold isCriterion
  simp only [Bool.or_eq_true, decide_eq_true_iff, hpattern, areComponents_iff (Nat.succ_pos _)]
  constructor
  · rintro (((((rfl | rfl) | rfl) | ⟨pattern, rfl, hoption⟩) | ⟨pattern, rfl, patterns, hlength,
      rfl⟩) |
      ⟨pattern, rfl, patterns, hlength, rfl⟩)
    · exact ⟨.all, rfl⟩
    · exact ⟨.skip, rfl⟩
    · exact ⟨.dfault, rfl⟩
    · rcases hoption with hempty | hcomponent
      · exact ⟨.option none, by rw [String.isEmpty_iff.mp hempty]; rfl⟩
      · obtain ⟨p, rfl⟩ := isComponent_iff.mp hcomponent
        exact ⟨.option (some p), rfl⟩
    · match patterns, hlength with
      | [compiler], _ => exact ⟨.compiler compiler none, rfl⟩
      | [compiler, option], _ => exact ⟨.compiler compiler (some option), rfl⟩
      | [], h => exact absurd h.1 (by decide)
      | _ :: _ :: _ :: _, h => exact absurd h.2 (by simp)
    · match patterns, hlength with
      | [os, cpu, toolset, compiler], _ => exact ⟨.platform os cpu toolset compiler none, rfl⟩
      | [os, cpu, toolset, compiler, option], _ =>
        exact ⟨.platform os cpu toolset compiler (some option), rfl⟩
      | [], h => exact absurd h.1 (by decide)
      | [_], h => exact absurd h.1 (by simp)
      | [_, _], h => exact absurd h.1 (by simp)
      | [_, _, _], h => exact absurd h.1 (by simp)
      | _ :: _ :: _ :: _ :: _ :: _ :: _, h => exact absurd h.2 (by simp)
  · rintro ⟨k, rfl⟩
    cases k with
    | all => simp [Criterion.text]
    | skip => simp [Criterion.text]
    | dfault => simp [Criterion.text]
    | option option =>
      refine Or.inl (Or.inl (Or.inr ⟨_, rfl, ?_⟩))
      cases option with
      | none => exact Or.inl rfl
      | some p => exact Or.inr (isComponent_iff.mpr ⟨p, rfl⟩)
    | compiler compiler option =>
      refine Or.inl (Or.inr ⟨_, rfl, _, ?_, rfl⟩)
      cases option <;> simp
    | platform os cpu toolset compiler option =>
      refine Or.inr ⟨_, rfl, _, ?_, rfl⟩
      cases option <;> simp

theorem matchSelector_eq_some_iff {str criterion : String} {platformType : Option String} :
    matchSelector str = some (platformType, criterion) ↔ ∃ s : Selector,
      s.text = str ∧ s.platformType.map Name.text = platformType ∧
      s.criterion.text = criterion := by
  have hcolon : ":".toList = [':'] := rfl
  unfold matchSelector
  constructor
  · intro h
    have hjoin := Util.join_split hcolon str
    split at h
    · rename_i selector hsplit
      rw [hsplit, String.intercalate_singleton] at hjoin
      split_ifs at h with hcriterion
      obtain ⟨rfl, rfl⟩ := Prod.mk.inj (Option.some_inj.mp h)
      obtain ⟨k, hk⟩ := isCriterion_iff.mp hcriterion
      exact ⟨⟨none, k⟩, hk.trans hjoin, rfl, hk⟩
    · rename_i name selector hsplit
      split_ifs at h with hboth
      obtain ⟨hname, hcriterion⟩ := Bool.and_eq_true_iff.mp hboth
      obtain ⟨rfl, rfl⟩ := Prod.mk.inj (Option.some_inj.mp h)
      obtain ⟨k, hk⟩ := isCriterion_iff.mp hcriterion
      refine ⟨⟨some ⟨name, hname⟩, k⟩, ?_, rfl, hk⟩
      rw [← hjoin, hsplit, ← hk]
      rfl
    · cases h
  · rintro ⟨⟨name, k⟩, rfl, rfl, rfl⟩
    have hcriterion : isCriterion k.text = true := isCriterion_iff.mpr ⟨k, rfl⟩
    cases name with
    | none =>
      have hsplit : split ':' k.text = [k.text] := by
        have hparts : ∀ part ∈ [k.text], ':' ∉ part.toList :=
          List.forall_mem_singleton.mpr not_mem_criterion
        have hone := Util.split_join hcolon hparts (List.cons_ne_nil _ _)
        rwa [String.intercalate_singleton] at hone
      have htext : Selector.text ⟨none, k⟩ = k.text := rfl
      rw [htext, hsplit]
      exact if_pos hcriterion
    | some name =>
      have hsplit : split ':' (name.text ++ ":" ++ k.text) = [name.text, k.text] := by
        have hparts : ∀ part ∈ [name.text, k.text], ':' ∉ part.toList := by
          refine List.forall_mem_cons.mpr ⟨not_mem_name rfl, ?_⟩
          exact List.forall_mem_singleton.mpr not_mem_criterion
        exact Util.split_join hcolon hparts (List.cons_ne_nil _ _)
      have htext : Selector.text ⟨some name, k⟩ = name.text ++ ":" ++ k.text := rfl
      rw [htext, hsplit]
      exact if_pos (Bool.and_eq_true_iff.mpr ⟨name.valid, hcriterion⟩)

/-! ### What a selector is read as -/

/-- The fields that a selector leaves in a fresh `PlatformSelector`. -/
def Selector.selector (s : Selector) : PlatformSelector where
  skip := s.criterion matches .skip
  dfault := s.criterion matches .dfault
  platformType := (s.platformType.map Name.text).getD any
  os := s.criterion.tuple.elim "" fun t ↦ patternText t.os
  cpu := s.criterion.tuple.elim "" fun t ↦ patternText t.cpu
  toolset := s.criterion.tuple.elim "" fun t ↦ patternText t.toolset
  compiler := s.criterion.tuple.elim "" fun t ↦ patternText t.compiler
  option := s.criterion.tuple.elim "" fun t ↦ patternText t.option

/-- A selector with a specifier is split where its only equals sign is. -/
theorem initializeWith_specifier (specifier : String) {str pattern : String}
    {platformType : Option String}
    (hmatch : matchSelector str = some (platformType, specifier ++ "=" ++ pattern))
    (hspecifier : '=' ∉ specifier.toList) (hpattern : '=' ∉ pattern.toList) :
    initializeWith new str =
      (readPattern { new with platformType := platformType.getD any } specifier pattern).map
        fun self ↦ (self, true) := by
  have hsplit : split '=' (specifier ++ "=" ++ pattern) = [specifier, pattern] := by
    have hparts : ∀ part ∈ [specifier, pattern], '=' ∉ part.toList :=
      List.forall_mem_cons.mpr ⟨hspecifier, List.forall_mem_singleton.mpr hpattern⟩
    exact Util.split_join rfl hparts (List.cons_ne_nil _ _)
  have hne : ∀ text : String, '=' ∉ text.toList → specifier ++ "=" ++ pattern ≠ text := by
    rintro text htext rfl
    refine htext ?_
    rw [String.toList_append, String.toList_append]
    exact List.mem_append_left _ (List.mem_append_right _ (List.mem_singleton.mpr rfl))
  unfold initializeWith
  rw [hmatch]
  dsimp only
  rw [if_neg (hne "skip" (by decide)), if_neg (hne "default" (by decide)),
    if_neg (hne "all" (by decide)), hsplit]

theorem readPattern_option (self : PlatformSelector) (o : Option Pattern) :
    readPattern self "option" (patternText o) = some { self with option := patternText o } :=
  if_pos rfl

theorem readPattern_compiler (self : PlatformSelector) (c : Pattern) (o : Option Pattern)
    (hself : self.option = "") : readPattern self "compiler" (joined (c :: o.toList)) =
      some { self with compiler := c.text, option := patternText o } := by
  unfold readPattern
  rw [if_neg (by decide), if_pos rfl, split_joined (List.cons_ne_nil _ _)]
  cases o with
  | none =>
    rw [show patternText none = self.option from hself.symm]
    rfl
  | some o => rfl

theorem readPattern_platform (self : PlatformSelector) (os cpu toolset c : Pattern)
    (o : Option Pattern) (hself : self.option = "") :
    readPattern self "platform" (joined (os :: cpu :: toolset :: c :: o.toList)) =
      some { self with
        os := os.text
        cpu := cpu.text
        toolset := toolset.text
        compiler := c.text
        option := patternText o } := by
  unfold readPattern splitPlatform
  rw [if_neg (by decide), if_neg (by decide), if_pos rfl, split_joined (List.cons_ne_nil _ _)]
  cases o with
  | none =>
    rw [show patternText none = self.option from hself.symm]
    rfl
  | some o =>
    have hne : (Pattern.text o).isEmpty = false := by
      rw [← Bool.not_eq_true, String.isEmpty_iff]
      exact o.text_ne_empty
    show some (setPlatform self ⟨os.text, cpu.text, toolset.text, c.text, o.text⟩) = _
    unfold setPlatform
    dsimp only
    rw [hne]
    rfl

theorem initializeWith_text (s : Selector) :
    (s.Allowed → initializeWith new s.text = some (s.selector, true)) ∧
      (¬ s.Allowed → ∃ self, initializeWith new s.text = some (self, false)) := by
  have hmatch : matchSelector s.text = some (s.platformType.map Name.text, s.criterion.text) :=
    matchSelector_eq_some_iff.mpr ⟨s, rfl, rfl, rfl⟩
  have hjoined : ∀ patterns : List Pattern, '=' ∉ (joined patterns).toList :=
    fun patterns ↦ not_mem_joined rfl (by decide) (by decide)
  obtain ⟨name, k⟩ := s
  have hallowed : k ≠ .dfault → (⟨name, k⟩ : Selector).Allowed := fun hk hdefault ↦
    absurd hdefault hk
  cases k with
  | all =>
    refine ⟨fun _ ↦ ?_, fun h ↦ absurd (hallowed Criterion.noConfusion) h⟩
    unfold initializeWith
    rw [hmatch]
    rfl
  | skip =>
    refine ⟨fun _ ↦ ?_, fun h ↦ absurd (hallowed Criterion.noConfusion) h⟩
    unfold initializeWith
    rw [hmatch]
    rfl
  | dfault =>
    unfold initializeWith
    rw [hmatch]
    cases name with
    | none => exact ⟨fun h ↦ absurd rfl (h rfl), fun _ ↦ ⟨_, rfl⟩⟩
    | some n =>
      refine ⟨fun _ ↦ ?_, fun h ↦ absurd (fun _ ↦ Option.some_ne_none n) h⟩
      exact if_neg n.text_ne_any
  | option o =>
    refine ⟨fun _ ↦ ?_, fun h ↦ absurd (hallowed Criterion.noConfusion) h⟩
    have hpattern : '=' ∉ (patternText o).toList := not_mem_patternText rfl (by decide)
    have hread := initializeWith_specifier "option" hmatch (by decide) hpattern
    rw [hread, readPattern_option]
    rfl
  | compiler c o =>
    refine ⟨fun _ ↦ ?_, fun h ↦ absurd (hallowed Criterion.noConfusion) h⟩
    have hread := initializeWith_specifier "compiler" hmatch (by decide) (hjoined _)
    rw [hread, readPattern_compiler _ c o rfl]
    rfl
  | platform os cpu toolset c o =>
    refine ⟨fun _ ↦ ?_, fun h ↦ absurd (hallowed Criterion.noConfusion) h⟩
    have hread := initializeWith_specifier "platform" hmatch (by decide) (hjoined _)
    rw [hread, readPattern_platform _ os cpu toolset c o rfl]
    rfl

/-! ### What a selector matches -/

theorem fieldsMatch_iff {p : Option Pattern} {dfault field : String}
    (h : field = "" → dfault = "") :
    Matcher.fieldsMatch dfault (patternText p) field = true ↔ Accepts p dfault field := by
  unfold Matcher.fieldsMatch
  rw [Bool.or_eq_true, Bool.or_eq_true, Bool.and_eq_true, decide_eq_true_iff, decide_eq_true_iff,
    decide_eq_true_iff, decide_eq_true_iff]
  cases p with
  | none =>
    show ("" = "*" ∨ "" = "" ∧ field = dfault) ∨ "" = field ↔ field = dfault
    constructor
    · rintro ((hany | ⟨-, heq⟩) | hempty)
      · exact absurd hany (by decide)
      · exact heq
      · rw [h hempty.symm, hempty]
    · exact fun heq ↦ Or.inl (Or.inr ⟨rfl, heq⟩)
  | some p =>
    cases p with
    | any => exact iff_of_true (Or.inl (Or.inl rfl)) trivial
    | name n =>
      show (n.text = "*" ∨ n.text = "" ∧ field = dfault) ∨ n.text = field ↔ field = n.text
      constructor
      · rintro ((hany | ⟨hempty, -⟩) | heq)
        · exact absurd hany n.text_ne_any
        · exact absurd hempty n.text_ne_empty
        · exact heq.symm
      · exact fun heq ↦ Or.inr heq.symm

/-- A matcher for the tuple of a selector takes a platform exactly where the tuple does. -/
theorem isMatch_iff {s : Selector} {t : Tuple} (ht : s.criterion.tuple = some t)
    {firstPlatform platform : String} {first fields : Fields}
    (hfirst : IsPlatform firstPlatform first) (hplatform : IsPlatform platform fields) :
    ∃ m matched, Matcher.new firstPlatform s.selector = some m ∧
      m.isMatch platform = some matched ∧ (matched = true ↔ t.Accepts first fields) := by
  have hdefault : s.selector.dfault = false := by
    unfold Selector.selector
    dsimp only
    cases hk : s.criterion with
    | dfault =>
      rw [hk] at ht
      cases ht
    | _ => rfl
  have htexts : s.selector.os = patternText t.os ∧ s.selector.cpu = patternText t.cpu ∧
      s.selector.toolset = patternText t.toolset ∧ s.selector.compiler = patternText t.compiler ∧
      s.selector.option = patternText t.option := by
    unfold Selector.selector
    rw [ht]
    exact ⟨rfl, rfl, rfl, rfl, rfl⟩
  obtain ⟨hos, hcpu, htoolset, hcompiler, hoption⟩ := htexts
  have hnew : Matcher.new firstPlatform s.selector =
      some ⟨s.selector, first.os, first.cpu, first.toolset, first.compiler, ""⟩ := by
    unfold Matcher.new
    rw [hdefault, splitPlatform_of_isPlatform hfirst]
    rfl
  have hmatch : Matcher.isMatch
      ⟨s.selector, first.os, first.cpu, first.toolset, first.compiler, ""⟩ platform = some
        (Matcher.fieldsMatch first.os s.selector.os fields.os &&
          Matcher.fieldsMatch first.cpu s.selector.cpu fields.cpu &&
          Matcher.fieldsMatch first.toolset s.selector.toolset fields.toolset &&
          Matcher.fieldsMatch first.compiler s.selector.compiler fields.compiler &&
          Matcher.fieldsMatch "" s.selector.option fields.option) := by
    unfold Matcher.isMatch
    rw [splitPlatform_of_isPlatform hplatform]
    rfl
  refine ⟨_, _, hnew, hmatch, ?_⟩
  · rw [Bool.and_eq_true, Bool.and_eq_true, Bool.and_eq_true, Bool.and_eq_true, hos, hcpu,
      htoolset, hcompiler, hoption, fieldsMatch_iff fun h ↦ absurd h hplatform.os.1,
      fieldsMatch_iff fun h ↦ absurd h hplatform.cpu.1,
      fieldsMatch_iff fun h ↦ absurd h hplatform.toolset.1,
      fieldsMatch_iff fun h ↦ absurd h hplatform.compiler.1, fieldsMatch_iff fun _ ↦ rfl]
    constructor
    · rintro ⟨⟨⟨⟨h₁, h₂⟩, h₃⟩, h₄⟩, h₅⟩
      exact ⟨h₁, h₂, h₃, h₄, h₅⟩
    · rintro ⟨h₁, h₂, h₃, h₄, h₅⟩
      exact ⟨⟨⟨⟨h₁, h₂⟩, h₃⟩, h₄⟩, h₅⟩

/-- No assertion fails. -/
theorem exists_initializeWith (str : String) :
    ∃ p valid, initializeWith new str = some (p, valid) := by
  cases hmatch : matchSelector str with
  | none =>
    refine ⟨new, false, ?_⟩
    unfold initializeWith
    rw [hmatch]
  | some groups =>
    obtain ⟨platformType, criterion⟩ := groups
    obtain ⟨s, rfl, -, -⟩ := matchSelector_eq_some_iff.mp hmatch
    by_cases hs : s.Allowed
    · exact ⟨s.selector, true, (initializeWith_text s).1 hs⟩
    · obtain ⟨self, hfalse⟩ := (initializeWith_text s).2 hs
      exact ⟨self, false, hfalse⟩

/-- A string is a valid selector exactly when it is one of the grammar, and the selector matches the
platforms that its tuple accepts. -/
theorem initializeWith_matches (str : String) :
    ((∃ p, initializeWith new str = some (p, true)) ↔
      ∃ s : Selector, s.Allowed ∧ s.text = str) ∧
    (∃ p valid, initializeWith new str = some (p, valid)) ∧
    ∀ (s : Selector) (t : Tuple), s.text = str → s.criterion.tuple = some t →
      ∃ p, initializeWith new str = some (p, true) ∧
        ∀ (firstPlatform platform : String) (first fields : Fields),
          IsPlatform firstPlatform first → IsPlatform platform fields →
          ∃ m matched, Matcher.new firstPlatform p = some m ∧
            m.isMatch platform = some matched ∧ (matched = true ↔ t.Accepts first fields) := by
  have hallowed : ∀ (s : Selector) (t : Tuple), s.criterion.tuple = some t → s.Allowed := by
    intro s t ht hdefault
    rw [hdefault] at ht
    cases ht
  have hvalid : ∀ {p : PlatformSelector} {valid : Bool},
      initializeWith new str = some (p, valid) → valid = true → ∃ s : Selector, s.text = str := by
    intro p valid hread hvalid
    subst hvalid
    unfold initializeWith at hread
    cases hmatch : matchSelector str with
    | none =>
      rw [hmatch] at hread
      cases hread
    | some groups =>
      obtain ⟨platformType, criterion⟩ := groups
      obtain ⟨s, hs, -, -⟩ := matchSelector_eq_some_iff.mp hmatch
      exact ⟨s, hs⟩
  refine ⟨⟨fun ⟨p, hread⟩ ↦ ?_, ?_⟩, exists_initializeWith str, ?_⟩
  · obtain ⟨s, rfl⟩ := hvalid hread rfl
    refine ⟨s, ?_, rfl⟩
    by_contra hnot
    obtain ⟨self, hfalse⟩ := (initializeWith_text s).2 hnot
    cases hfalse.symm.trans hread
  · rintro ⟨s, hs, rfl⟩
    exact ⟨s.selector, (initializeWith_text s).1 hs⟩
  · rintro s t rfl ht
    exact ⟨s.selector, (initializeWith_text s).1 (hallowed s t ht),
      fun firstPlatform platform first fields hfirst hplatform ↦ isMatch_iff ht hfirst hplatform⟩

/-- `native:compiler=gcc` -/
def nativeGcc : Selector where
  platformType := some ⟨"native", by decide +kernel⟩
  criterion := .compiler (.name ⟨"gcc", by decide +kernel⟩) none

theorem initializeWith_matches_nativeGcc :
    ∃ p m, initializeWith new "native:compiler=gcc" = some (p, true) ∧
      Matcher.new "linux.x86.rhel4.xlc" p = some m ∧ m.isMatch "linux.x86.rhel4.gcc" = some true ∧
      m.isMatch "linux.x86.rhel4.gcc.debug" = some false := by
  have hos : IsField "linux" := ⟨by decide, by decide⟩
  have hcpu : IsField "x86" := ⟨by decide, by decide⟩
  have htoolset : IsField "rhel4" := ⟨by decide, by decide⟩
  have hgcc : IsField "gcc" := ⟨by decide, by decide⟩
  have hxlc : IsField "xlc" := ⟨by decide, by decide⟩
  have hdebug : IsField "debug" := ⟨by decide, by decide⟩
  have hfirst : IsPlatform "linux.x86.rhel4.xlc" ⟨"linux", "x86", "rhel4", "xlc", ""⟩ :=
    ⟨hos, hcpu, htoolset, hxlc, Or.inl ⟨rfl, by decide +kernel⟩⟩
  have hplain : IsPlatform "linux.x86.rhel4.gcc" ⟨"linux", "x86", "rhel4", "gcc", ""⟩ :=
    ⟨hos, hcpu, htoolset, hgcc, Or.inl ⟨rfl, by decide +kernel⟩⟩
  have hoption : IsPlatform "linux.x86.rhel4.gcc.debug" ⟨"linux", "x86", "rhel4", "gcc", "debug"⟩ :=
    ⟨hos, hcpu, htoolset, hgcc, Or.inr ⟨hdebug, by decide +kernel⟩⟩
  obtain ⟨p, hp, hmatches⟩ := (initializeWith_matches "native:compiler=gcc").2.2 nativeGcc
    ⟨none, none, none, some (.name ⟨"gcc", by decide +kernel⟩), none⟩ (by decide +kernel) rfl
  obtain ⟨m, matched, hm, hmatched, hplain⟩ := hmatches _ _ _ _ hfirst hplain
  obtain ⟨m', matched', hm', hmatched', hoption⟩ := hmatches _ _ _ _ hfirst hoption
  obtain rfl := Option.some_inj.mp (hm.symm.trans hm')
  have htrue : matched = true := hplain.mpr ⟨rfl, rfl, rfl, rfl, rfl⟩
  have hfalse : matched' = false := by
    rw [← Bool.not_eq_true, hoption]
    exact fun haccepts ↦ absurd (show "debug" = "" from haccepts.option) (by decide)
  subst htrue hfalse
  exact ⟨p, m, hp, hm, hmatched, hmatched'⟩

end Abuild.PlatformSelector
