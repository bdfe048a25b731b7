import Abuild.BuildForest.Backing
import Abuild.DumpData.Records

/-!
The texts that `dumpData` is put together from stand for the elements of the records, as far as the
values that they are written with do. Of these only descriptions are escaped, and they lose their
newlines and carriage returns.
-/

set_option autoImplicit false
set_option relaxedAutoImplicit false

namespace Abuild

open Std (TreeMap TreeSet)

namespace DumpData

open Xml (Element Attribute Gap Declared Stands startText)
open Util (xmlify)

/-- A text that may be written as it is. -/
def Plain (text : String) : Prop := text.toList.all Xml.isPlain = true

instance (text : String) : Decidable (Plain text) :=
  inferInstanceAs (Decidable (text.toList.all Xml.isPlain = true))

/-! ### Descriptions -/

/-- A character that a description may have. -/
def isReadable (c : Char) : Bool := Xml.isChar c && c ≠ '\t'

def Readable (description : String) : Prop := description.toList.all isReadable = true

instance (description : String) : Decidable (Readable description) :=
  inferInstanceAs (Decidable (description.toList.all isReadable = true))

def foldedChar : Char → List Char
  | '\r' => []
  | '\n' => [' ']
  | c => [c]

/-- A description without its newlines and carriage returns. -/
def folded (description : String) : String :=
  String.ofList (description.toList.flatMap foldedChar)

theorem foldedChar_eq {c : Char} (hreturn : c ≠ '\r') (hnewline : c ≠ '\n') :
    foldedChar c = [c] := by
  unfold foldedChar
  split
  · exact absurd rfl hreturn
  · exact absurd rfl hnewline
  · rfl

theorem ofList_singleton (c : Char) : String.ofList [c] = String.singleton c := rfl

theorem valueText_description {c : Char} (h : isReadable c = true) :
    Xml.ValueText (Util.xmlifyChar true c) (String.ofList (foldedChar c)) := by
  by_cases hreturn : c = '\r'
  · subst hreturn
    exact Xml.valueText_nil
  by_cases hnewline : c = '\n'
  · subst hnewline
    exact Xml.valueText_plain rfl
  rw [foldedChar_eq hreturn hnewline, ofList_singleton]
  unfold Util.xmlifyChar
  split
  · exact Xml.valueText_reference ['l', 't'] rfl rfl
  · exact Xml.valueText_reference ['g', 't'] rfl rfl
  · exact Xml.valueText_reference ['a', 'm', 'p'] rfl rfl
  · exact Xml.valueText_reference ['a', 'p', 'o', 's'] rfl rfl
  · exact Xml.valueText_reference ['q', 'u', 'o', 't'] rfl rfl
  · exact absurd rfl hreturn
  · exact absurd rfl hnewline
  · rename_i htag _ hreference _ hmark _ _
    unfold isReadable at h
    simp only [Bool.and_eq_true, decide_eq_true_eq] at h
    obtain ⟨hchar, htab⟩ := h
    have hplain : c ≠ '<' ∧ c ≠ '&' ∧ c ≠ '"' := ⟨htag, hreference, hmark⟩
    refine Xml.valueText_plain ?_
    simp [Xml.isPlain, Xml.isSpace, hchar, hplain, htab, hreturn, hnewline]

/-- A tab is taken for a blank, and the reader stops at what is no character. -/
theorem takes_description {c : Char} (h : isReadable c = false) (text value : List Char) :
    Xml.Takes (Util.xmlifyChar true c ++ text) (· ≠ foldedChar c ++ value) := by
  unfold isReadable at h
  by_cases htab : c = '\t'
  · subst htab
    have hstep : ∀ (tag : Xml.Tag) (key : String) (before : List Char)
        (stack : List Xml.OpenElement) (root : Option Xml.Node),
        Xml.step ⟨.value tag key '"' before, stack, root⟩ '\t' =
          some ⟨.value tag key '"' (before ++ [' ']), stack, root⟩ := fun _ _ _ _ _ ↦ rfl
    refine Xml.Takes.imp ((Xml.takes_length text).cons hstep) ?_
    rintro v ⟨rest, rfl, -⟩ heq
    cases (List.cons.inj heq).1
  · have hchar : Xml.isChar c = false := by simpa [htab] using h
    have hxmlify : Util.xmlifyChar true c = [c] := by
      unfold Util.xmlifyChar
      split <;> first | rfl | cases hchar
    have hmark : c ≠ '"' := by
      rintro rfl
      cases hchar
    have hreference : c ≠ '&' := by
      rintro rfl
      cases hchar
    rw [hxmlify]
    exact Xml.takes_none (Or.inr hchar) hmark hreference text _

def descriptionAttribute (gap : Gap) (description : String) : Attribute where
  gap := gap
  key := "description"
  text := (xmlify description true).toList
  value := folded description
  good := Readable description
  isName := by decide
  reads hgood := by
    unfold xmlify folded
    rw [String.toList_ofList]
    exact (Xml.valueText_or_takes (fun _ ↦ valueText_description)
      (fun _ _ hc ↦ takes_description hc _ _) description.toList).1 hgood
  misreads hbad := by
    unfold xmlify folded
    rw [String.toList_ofList, String.toList_ofList]
    exact (Xml.valueText_or_takes (fun _ ↦ valueText_description)
      (fun _ _ hc ↦ takes_description hc _ _) description.toList).2 (Bool.not_eq_true _ ▸ hbad)

/-! ### Names -/

theorem nil_isSpace : ([] : List Char).all Xml.isSpace = true := rfl

theorem nodup_attlist (name : String) : (attlist name).Nodup := by
  unfold attlist
  split <;> decide +kernel

theorem declared_nil {tag : String} (h : Xml.isName tag.toList = true) : Declared attlist tag [] :=
  ⟨h, nodup_attlist tag, List.nil_sublist _⟩

/-- The elements that have a name, among other things. -/
def IsNamed (child : String) : Prop := Xml.isName child.toList = true ∧ "name" ∈ attlist child

instance (child : String) : Decidable (IsNamed child) :=
  inferInstanceAs (Decidable (Xml.isName child.toList = true ∧ "name" ∈ attlist child))

theorem isName_targetType : Xml.isName "target-type".toList = true := by
  decide

theorem isName_name : Xml.isName "name".toList = true := by
  decide +kernel

def nameAttribute (name : String) : Attribute := .raw .blank "name" name isName_name

theorem stands_dumpName {indent child name : String}
    (hindent : indent.toList.all Xml.isSpace = true)
    (hchild : IsNamed child) (h : Plain name) :
    Stands attlist (dumpName indent child name).toList [nameElement child name] True := by
  have hdeclared : Declared attlist child [nameAttribute name] :=
    ⟨hchild.1, nodup_attlist child, List.singleton_sublist.mpr hchild.2⟩
  have htext : (dumpName indent child name).toList = indent.toList ++
      (startText child [nameAttribute name] [] ++ ['/', '>']) ++ ['\n'] := by
    unfold dumpName
    simp [startText, nameAttribute, Attribute.toList_raw, Gap.blank]
  rw [htext]
  refine ((Stands.emptyTag hdeclared rfl).between hindent rfl).of_iff ?_
  exact iff_of_true (List.forall_mem_singleton.mpr h) trivial

section Group

variable {α : Type} {l : List α} {write : α → String} {element : α → Element} {good : α → Prop}

theorem stands_join (h : ∀ a ∈ l, Stands attlist (write a).toList [element a] (good a)) :
    Stands attlist (String.join (l.map write)).toList (l.map element) (∀ a ∈ l, good a) := by
  have htext : (String.join (l.map write)).toList = l.flatMap fun a ↦ (write a).toList := by
    rw [String.toList_join, List.flatMap_map]
  rw [htext, List.map_eq_flatMap]
  exact Stands.flatMap h

/-- Elements in an element of their own. -/
theorem stands_group {indent tag : String} (hindent : indent.toList.all Xml.isSpace = true)
    (htag : Xml.isName tag.toList = true)
    (h : ∀ a ∈ l, Stands attlist (write a).toList [element a] (good a)) :
    Stands attlist (if l.isEmpty then "" else indent ++ "<" ++ tag ++ ">" ++ "\n" ++
        String.join (l.map write) ++ indent ++ "</" ++ tag ++ ">" ++ "\n").toList
      (group tag (l.map element)) (∀ a ∈ l, good a) := by
  unfold group
  rw [List.isEmpty_map]
  split_ifs with hempty
  · rw [List.isEmpty_iff.mp hempty]
    exact Stands.nil.of_iff (by simp)
  · have htext : (indent ++ "<" ++ tag ++ ">" ++ "\n" ++ String.join (l.map write) ++ indent ++
        "</" ++ tag ++ ">" ++ "\n").toList = indent.toList ++ (startText tag [] [] ++ ['>'] ++
          (['\n'] ++ (String.join (l.map write)).toList ++ indent.toList) ++
            ('<' :: '/' :: tag.toList ++ ['>'])) ++ ['\n'] := by
      simp [startText]
    have hinner : Stands attlist (['\n'] ++ (String.join (l.map write)).toList ++ indent.toList)
        (l.map element) (∀ a ∈ l, good a) := (stands_join h).between rfl hindent
    rw [htext]
    refine ((Stands.element (declared_nil htag) rfl hinner).between hindent rfl).of_iff ?_
    simp

end Group

/-- An element that is closed at once when it is empty. -/
theorem stands_entry {front back text : List Char} {tag : String} {written : List Attribute}
    {es : List Element} {good : Prop} (gap : List Char) (isEmpty : Bool)
    (hfront : front.all Xml.isSpace = true) (hback : back.all Xml.isSpace = true)
    (hgap : gap.all Xml.isSpace = true) (hdeclared : Declared attlist tag written)
    (hempty : isEmpty = true → es = [] ∧ good)
    (h : isEmpty = false → Stands attlist text es good) :
    Stands attlist (front ++ (startText tag written gap ++ if isEmpty then ['/', '>']
        else ['>'] ++ (['\n'] ++ text ++ back) ++ ('<' :: '/' :: tag.toList ++ ['>'])) ++ ['\n'])
      [⟨tag, written.map Attribute.pair, es⟩] ((∀ a ∈ written, a.good) ∧ good) := by
  cases isEmpty with
  | true =>
    obtain ⟨rfl, hgood⟩ := hempty rfl
    exact ((Stands.emptyTag hdeclared hgap).between hfront rfl).of_iff (by simp [hgood])
  | false =>
    have hinner : Stands attlist (['\n'] ++ text ++ back) es good := (h rfl).between rfl hback
    have hend : ['\n'].all Xml.isSpace = true := rfl
    have hentry := (Stands.element hdeclared hgap hinner).between hfront hend
    rw [List.append_assoc (startText tag written gap),
      List.append_assoc (startText tag written gap)]
      at hentry
    exact hentry

theorem stands_dumpNames {indent : String} (tag child : String) {names : List String}
    (hindent : indent.toList.all Xml.isSpace = true) (htag : Xml.isName tag.toList = true)
    (hchild : IsNamed child) (h : ∀ name ∈ names, Plain name) :
    Stands attlist (dumpNames indent tag child names).toList (nameElements tag child names)
      True := by
  have hindent' : (indent ++ " ").toList.all Xml.isSpace = true := by
    rw [String.toList_append, List.all_append, hindent]
    rfl
  exact (stands_group hindent htag fun name hname ↦ stands_dumpName hindent' hchild (h name hname))
    |>.of_iff (by simp)

/-! ### `dumpPlatformData` -/

theorem plain_boolean (b : Bool) : Plain (boolean b) := by
  cases b <;> decide +kernel

theorem plain_getName (targetType : TargetType) : Plain targetType.getName := by
  cases targetType <;> decide +kernel

/-- What platform data may have in them. -/
structure PlainTables (d : PlatformTables) : Prop where
  checked : d.checked = true
  known : ∀ platformType ∈ d.targetTypes,
    platformType ∈ d.platformsByType ∧ platformType ∈ d.platformTypeParents
  names : ∀ platformType ∈ d.targetTypes, Plain platformType
  parents : ∀ platformType, Plain (d.platformTypeParents.getD platformType "")
  platforms : ∀ platformType, ∀ platform ∈ d.platformsByType.getD platformType [], Plain platform.1

def platformTypeRecord (d : PlatformTables) (targetType : TargetType) (platformType : String) :
    PlatformTypeRecord where
  name := platformType
  parent := d.platformTypeParents.getD platformType ""
  targetType := targetType
  platforms := d.platformsByType.getD platformType []

def platformRecords (d : PlatformTables) : List PlatformTypeRecord :=
  targetTypes.flatMap fun targetType ↦
    (d.getPlatformTypes targetType).map (platformTypeRecord d targetType)

/-- An attribute that is left out when its value is empty. -/
def optionalAttribute (gap : Gap) (key value : String) (hkey : Xml.isName key.toList = true) :
    List Attribute :=
  if value.isEmpty then [] else [.raw gap key value hkey]

section Optional

variable (gap : Gap) (key value : String) (hkey : Xml.isName key.toList = true)

theorem map_pair_optionalAttribute :
    (optionalAttribute gap key value hkey).map Attribute.pair = optionalText key value := by
  unfold optionalAttribute optionalText
  split_ifs <;> rfl

theorem map_key_optionalAttribute :
    ((optionalAttribute gap key value hkey).map Attribute.key).Sublist [key] := by
  unfold optionalAttribute
  split_ifs
  · exact List.nil_sublist _
  · exact List.Sublist.refl _

theorem good_optionalAttribute (h : Plain value) :
    ∀ a ∈ optionalAttribute gap key value hkey, a.good := by
  unfold optionalAttribute
  split_ifs
  · exact fun _ hmem ↦ absurd hmem List.not_mem_nil
  · exact List.forall_mem_singleton.mpr h

end Optional

def platformAttributes (platform : String × Bool) : List Attribute :=
  [nameAttribute platform.1,
    .raw .blank "selected" (boolean platform.2) (by decide)]

theorem stands_dumpPlatform {indent : String} {platform : String × Bool}
    (hindent : indent.toList.all Xml.isSpace = true) (h : Plain platform.1) :
    Stands attlist (dumpPlatform indent platform).toList [platformElement platform] True := by
  have hdeclared : Declared attlist "platform" (platformAttributes platform) :=
    ⟨by decide, nodup_attlist _, List.Sublist.refl _⟩
  have htext : (dumpPlatform indent platform).toList = (indent.toList ++ [' ', ' ']) ++
      (startText "platform" (platformAttributes platform) [] ++ ['/', '>']) ++ ['\n'] := by
    unfold dumpPlatform
    simp [startText, platformAttributes, nameAttribute, Attribute.toList_raw, Gap.blank, boolean]
  have hspace : (indent.toList ++ [' ', ' ']).all Xml.isSpace = true := by
    rw [List.all_append, hindent]
    rfl
  have hgood : ∀ a ∈ platformAttributes platform, a.good :=
    List.forall_mem_cons.mpr ⟨h, List.forall_mem_singleton.mpr (plain_boolean _)⟩
  rw [htext]
  exact ((Stands.emptyTag hdeclared rfl).between hspace rfl).of_iff (iff_of_true hgood trivial)

namespace PlatformTypeRecord

def written (r : PlatformTypeRecord) : List Attribute :=
  [nameAttribute r.name] ++ optionalAttribute .blank "parent" r.parent (by decide) ++
    [.raw .blank "target-type" r.targetType.getName isName_targetType]

/-- What `dumpPlatformType` writes. -/
def text (indent : String) (r : PlatformTypeRecord) : String :=
  indent ++ " <platform-type name=\"" ++ r.name ++ "\"" ++
    (if r.parent.isEmpty then "" else " parent=\"" ++ r.parent ++ "\"") ++
    " target-type=\"" ++ r.targetType.getName ++ "\"" ++
    if r.platforms.isEmpty then "/>" ++ "\n"
    else ">" ++ "\n" ++ String.join (r.platforms.map (dumpPlatform indent)) ++
      indent ++ " </platform-type>" ++ "\n"

theorem declared_written (r : PlatformTypeRecord) : Declared attlist "platform-type" r.written := by
  refine ⟨by decide, nodup_attlist _, ?_⟩
  unfold written
  rw [List.map_append, List.map_append]
  exact ((List.Sublist.refl ["name"]).append (map_key_optionalAttribute ..)).append
    (List.Sublist.refl ["target-type"])

theorem good_written {r : PlatformTypeRecord} (hname : Plain r.name) (hparent : Plain r.parent) :
    ∀ a ∈ r.written, a.good := by
  unfold written
  rw [List.forall_mem_append, List.forall_mem_append]
  exact ⟨⟨List.forall_mem_singleton.mpr hname, good_optionalAttribute _ _ _ _ hparent⟩,
    List.forall_mem_singleton.mpr (plain_getName r.targetType)⟩

theorem map_pair_written (r : PlatformTypeRecord) :
    r.written.map Attribute.pair = r.toElement.attributes := by
  unfold written
  rw [List.map_append, List.map_append, map_pair_optionalAttribute]
  rfl

end PlatformTypeRecord

theorem dumpPlatformType_eq {d : PlatformTables} (h : PlainTables d) {platformType : String}
    (hmem : platformType ∈ d.targetTypes) (indent : String) (targetType : TargetType) :
    dumpPlatformType d indent targetType platformType =
      some ((platformTypeRecord d targetType platformType).text indent) := by
  obtain ⟨hplatforms, hparents⟩ := h.known platformType hmem
  have hvalid : d.isPlatformTypeValid platformType = some true := by
    unfold PlatformTables.isPlatformTypeValid
    rw [if_pos h.checked]
    exact congrArg some (TreeMap.contains_iff_mem.mpr hplatforms)
  have hparent : d.getPlatformTypeParent platformType =
      some (d.platformTypeParents.getD platformType "") := by
    unfold PlatformTables.getPlatformTypeParent
    rw [hvalid]
    exact TreeMap.getElem?_eq_some_getD hparents
  have hlist : d.getPlatformsByType platformType =
      some (d.platformsByType.getD platformType []) := by
    unfold PlatformTables.getPlatformsByType
    rw [hvalid]
    exact TreeMap.getElem?_eq_some_getD hplatforms
  unfold dumpPlatformType
  rw [hparent, hlist]
  rfl

theorem stands_platformTypeRecord {indent : String} (hindent : indent.toList.all Xml.isSpace = true)
    {r : PlatformTypeRecord} (hname : Plain r.name) (hparent : Plain r.parent)
    (hplatforms : ∀ platform ∈ r.platforms, Plain platform.1) :
    Stands attlist (r.text indent).toList [r.toElement] True := by
  have hspace : (indent.toList ++ [' ']).all Xml.isSpace = true := by
    rw [List.all_append, hindent]
    rfl
  have hinner : Stands attlist (String.join (r.platforms.map (dumpPlatform indent))).toList
      (r.platforms.map platformElement) True :=
    (stands_join fun platform hplatform ↦
      stands_dumpPlatform hindent (hplatforms platform hplatform)).of_iff (by simp)
  have hentry := stands_entry [] r.platforms.isEmpty hspace hspace rfl r.declared_written
    (fun hempty ↦ ⟨by rw [List.isEmpty_iff.mp hempty]; rfl, trivial⟩) fun _ ↦ hinner
  have htext : (r.text indent).toList = (indent.toList ++ [' ']) ++
      (startText "platform-type" r.written [] ++ if r.platforms.isEmpty then ['/', '>']
        else ['>'] ++ (['\n'] ++ (String.join (r.platforms.map (dumpPlatform indent))).toList ++
          (indent.toList ++ [' '])) ++ ('<' :: '/' :: "platform-type".toList ++ ['>'])) ++
        ['\n'] := by
    unfold PlatformTypeRecord.text PlatformTypeRecord.written optionalAttribute
    by_cases hparent' : r.parent.isEmpty <;> by_cases hplatforms' : r.platforms.isEmpty <;>
      simp [startText, nameAttribute, Attribute.toList_raw, Gap.blank, hparent', hplatforms']
  rw [PlatformTypeRecord.map_pair_written] at hentry
  rw [htext]
  exact hentry.of_iff (iff_of_true
    ⟨PlatformTypeRecord.good_written hname hparent, trivial⟩ trivial)

theorem mem_getPlatformTypes {d : PlatformTables} {targetType : TargetType} {platformType : String}
    (h : platformType ∈ d.getPlatformTypes targetType) : platformType ∈ d.targetTypes := by
  unfold PlatformTables.getPlatformTypes at h
  obtain ⟨entry, hentry, rfl⟩ := List.mem_map.mp h
  exact BuildForest.mem_of_getElem?
    (TreeMap.mem_toList_iff_getElem?_eq_some.mp (List.mem_of_mem_filter hentry))

theorem plain_of_mem_platformRecords {d : PlatformTables} (h : PlainTables d)
    {r : PlatformTypeRecord} (hr : r ∈ platformRecords d) :
    Plain r.name ∧ Plain r.parent ∧ ∀ platform ∈ r.platforms, Plain platform.1 := by
  unfold platformRecords at hr
  obtain ⟨targetType, -, hr⟩ := List.mem_flatMap.mp hr
  obtain ⟨platformType, htype, rfl⟩ := List.mem_map.mp hr
  exact ⟨h.names platformType (mem_getPlatformTypes htype), h.parents platformType,
    h.platforms platformType⟩

theorem dumpPlatformData_eq {d : PlatformTables} (h : PlainTables d) (indent : String) :
    dumpPlatformData d indent = some (indent ++ "<platform-data>" ++ "\n" ++
      String.join ((platformRecords d).map (PlatformTypeRecord.text indent)) ++
      indent ++ "</platform-data>" ++ "\n") := by
  have hinner : ∀ targetType ∈ targetTypes,
      (d.getPlatformTypes targetType).mapM (dumpPlatformType d indent targetType) =
        some ((d.getPlatformTypes targetType).map fun platformType ↦
          (platformTypeRecord d targetType platformType).text indent) :=
    fun targetType _ ↦ Interface.mapM_eq_map fun platformType htype ↦
      dumpPlatformType_eq h (mem_getPlatformTypes htype) indent targetType
  have htypes : (targetTypes.map fun targetType ↦
      (d.getPlatformTypes targetType).map fun platformType ↦
        (platformTypeRecord d targetType platformType).text indent).flatten =
      (platformRecords d).map (PlatformTypeRecord.text indent) := by
    unfold platformRecords
    rw [List.map_flatMap, List.flatMap_def]
    simp only [List.map_map, Function.comp_def]
  unfold dumpPlatformData
  rw [Interface.mapM_eq_map hinner]
  show some _ = _
  rw [htypes]

/-- Platform data are written, with the elements of their records. -/
theorem stands_dumpPlatformData {d : PlatformTables} (h : PlainTables d) {indent : String}
    (hindent : indent.toList.all Xml.isSpace = true) :
    ∃ text, dumpPlatformData d indent = some text ∧
      Stands attlist text.toList [platformDataElement (platformRecords d)] True := by
  refine ⟨_, dumpPlatformData_eq h indent, ?_⟩
  have htypes : Stands attlist
      (String.join ((platformRecords d).map (PlatformTypeRecord.text indent))).toList
      ((platformRecords d).map PlatformTypeRecord.toElement) True :=
    (stands_join fun r hr ↦ by
      obtain ⟨hname, hparent, hplatforms⟩ := plain_of_mem_platformRecords h hr
      exact stands_platformTypeRecord hindent hname hparent hplatforms).of_iff (by simp)
  have hinner : Stands attlist (['\n'] ++
      (String.join ((platformRecords d).map (PlatformTypeRecord.text indent))).toList ++
        indent.toList) ((platformRecords d).map PlatformTypeRecord.toElement) True :=
    htypes.between rfl hindent
  have hend : ['\n'].all Xml.isSpace = true := rfl
  have hdeclared : Declared attlist "platform-data" [] := declared_nil (by decide)
  have helement := (Stands.element hdeclared nil_isSpace hinner).between hindent hend
  have htext : (indent ++ "<platform-data>" ++ "\n" ++
      String.join ((platformRecords d).map (PlatformTypeRecord.text indent)) ++
      indent ++ "</platform-data>" ++ "\n").toList = indent.toList ++
        (startText "platform-data" [] [] ++ ['>'] ++ (['\n'] ++
          (String.join ((platformRecords d).map (PlatformTypeRecord.text indent))).toList ++
            indent.toList) ++ ('<' :: '/' :: "platform-data".toList ++ ['>'])) ++ ['\n'] := by
    simp [startText]
  rw [htext]
  exact helement.of_iff (by simp)

end DumpData

end Abuild
