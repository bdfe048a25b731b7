import Abuild.DumpData.Texts

/-!
What `dumpBuildItem` writes stands for the element of the item exactly if the path of the item may
be written as it is and its description is readable. All the rest of an item is made of names.
-/

set_option autoImplicit false
set_option relaxedAutoImplicit false

namespace Abuild

open Std (TreeMap TreeSet)

namespace DumpData

open Xml (Element Attribute Gap Declared Stands startText)
open Util (xmlify)

/-! ### Flags -/

/-- An attribute that is left out when it is false. -/
def flagAttribute (gap : Gap) (key : String) (b : Bool) (hkey : Xml.isName key.toList = true) :
    List Attribute :=
  if b then [.raw gap key "1" hkey] else []

section Flag

variable (gap : Gap) (key : String) (b : Bool) (hkey : Xml.isName key.toList = true)

theorem map_pair_flagAttribute :
    (flagAttribute gap key b hkey).map Attribute.pair = optionalFlag key b := by
  unfold flagAttribute optionalFlag
  split_ifs <;> rfl

theorem map_key_flagAttribute :
    ((flagAttribute gap key b hkey).map Attribute.key).Sublist [key] := by
  unfold flagAttribute
  split_ifs
  · exact List.Sublist.refl _
  · exact List.nil_sublist _

theorem good_flagAttribute : ∀ a ∈ flagAttribute gap key b hkey, a.good := by
  unfold flagAttribute
  split_ifs
  · exact List.forall_mem_singleton.mpr (plain_boolean true)
  · exact fun _ hmem ↦ absurd hmem List.not_mem_nil

end Flag

/-! ### `dumpBuildAlso` -/

def buildAlsoWritten (b : BuildAlso) : List Attribute :=
  [nameAttribute b.name] ++ flagAttribute .blank "is-tree" b.isTree (by decide) ++
    flagAttribute .blank "desc" b.desc (by decide) ++
    flagAttribute .blank "with-tree-deps" b.withTreeDeps (by decide)

theorem declared_buildAlsoWritten (b : BuildAlso) :
    Declared attlist "build-also" (buildAlsoWritten b) := by
  refine ⟨by decide, nodup_attlist _, ?_⟩
  unfold buildAlsoWritten
  simp only [List.map_append]
  exact (((List.Sublist.refl ["name"]).append (map_key_flagAttribute ..)).append
    (map_key_flagAttribute ..)).append (map_key_flagAttribute ..)

theorem stands_dumpBuildAlsoEntry {b : BuildAlso} (h : Plain b.name) :
    Stands attlist (dumpBuildAlsoEntry b).toList [buildAlsoElement b] True := by
  have hgood : ∀ a ∈ buildAlsoWritten b, a.good := by
    unfold buildAlsoWritten
    simp only [List.forall_mem_append]
    exact ⟨⟨⟨List.forall_mem_singleton.mpr h, good_flagAttribute _ _ _ _⟩,
      good_flagAttribute _ _ _ _⟩, good_flagAttribute _ _ _ _⟩
  have hpair : (buildAlsoWritten b).map Attribute.pair = (buildAlsoElement b).attributes := by
    unfold buildAlsoWritten buildAlsoElement
    simp only [List.map_append, map_pair_flagAttribute]
    rfl
  have htext : (dumpBuildAlsoEntry b).toList = [' ', ' ', ' ', ' ', ' '] ++
      (startText "build-also" (buildAlsoWritten b) [] ++ ['/', '>']) ++ ['\n'] := by
    obtain ⟨name, isTree, desc, withTreeDeps⟩ := b
    unfold dumpBuildAlsoEntry buildAlsoWritten flagAttribute
    cases isTree <;> cases desc <;> cases withTreeDeps <;>
      simp [startText, nameAttribute, Attribute.toList_raw, Gap.blank]
  have hentry := Stands.emptyTag (declared_buildAlsoWritten b) nil_isSpace
  rw [hpair] at hentry
  rw [htext]
  exact (hentry.between rfl rfl).of_iff (iff_of_true hgood trivial)

theorem isSpace_indent : "    ".toList.all Xml.isSpace = true := rfl

theorem stands_dumpBuildAlso (trees : Bool) {entries : List BuildAlso}
    (h : ∀ b ∈ entries, Plain b.name) :
    Stands attlist (dumpBuildAlso trees entries).toList
      (group (if trees then "build-also-trees" else "build-also-items")
        (entries.map buildAlsoElement)) True := by
  have htag : Xml.isName
      (if trees then "build-also-trees" else "build-also-items").toList = true := by
    cases trees <;> decide +kernel
  have hgroup := stands_group isSpace_indent htag fun b hb ↦ stands_dumpBuildAlsoEntry (h b hb)
  have htext : dumpBuildAlso trees entries = if entries.isEmpty then "" else
      "    " ++ "<" ++ (if trees then "build-also-trees" else "build-also-items") ++ ">" ++ "\n" ++
        String.join (entries.map dumpBuildAlsoEntry) ++ "    " ++ "</" ++
        (if trees then "build-also-trees" else "build-also-items") ++ ">" ++ "\n" := by
    unfold dumpBuildAlso
    split_ifs <;> simp [← String.toList_inj]
  rw [htext]
  exact hgroup.of_iff (by simp)

/-! ### Dependencies and traits -/

def dependencyRecord (item : Item) (dep : String) : DependencyRecord where
  name := dep
  platformType := (item.config.getDepPlatformType dep).1
  flags := ((item.flagData.getFlags dep).map TreeSet.toList).getD []

def DependencyRecord.written (r : DependencyRecord) : List Attribute :=
  [nameAttribute r.name] ++
    optionalAttribute .blank "platform-type" r.platformType (by decide)

theorem DependencyRecord.declared_written (r : DependencyRecord) :
    Declared attlist "dependency" r.written := by
  refine ⟨by decide, nodup_attlist _, ?_⟩
  unfold written
  rw [List.map_append]
  exact (List.Sublist.refl ["name"]).append (map_key_optionalAttribute ..)

theorem DependencyRecord.map_pair_written (r : DependencyRecord) :
    r.written.map Attribute.pair = r.toElement.attributes := by
  unfold written
  rw [List.map_append, map_pair_optionalAttribute]
  rfl

theorem DependencyRecord.good_written {r : DependencyRecord} (hname : Plain r.name)
    (htype : Plain r.platformType) : ∀ a ∈ r.written, a.good := by
  unfold written
  rw [List.forall_mem_append]
  exact ⟨List.forall_mem_singleton.mpr hname, good_optionalAttribute _ _ _ _ htype⟩

theorem stands_names {indent child : String} {names : List String}
    (hindent : indent.toList.all Xml.isSpace = true) (hchild : IsNamed child)
    (h : ∀ name ∈ names, Plain name) :
    Stands attlist (String.join (names.map (dumpName indent child))).toList
      (names.map (nameElement child)) True :=
  (stands_join fun name hname ↦ stands_dumpName hindent hchild (h name hname)).of_iff (by simp)

theorem isSpace_six : "      ".toList.all Xml.isSpace = true := rfl

theorem isSpace_five : [' ', ' ', ' ', ' ', ' '].all Xml.isSpace = true := rfl

theorem toList_dumpDependency (item : Item) (dep : String) :
    (dumpDependency item dep).toList = [' ', ' ', ' ', ' ', ' '] ++
      (startText "dependency" (dependencyRecord item dep).written [] ++
        if (item.flagData.getFlags dep).isNone then ['/', '>']
        else ['>'] ++ (['\n'] ++ (String.join ((dependencyRecord item dep).flags.map
            (dumpName "      " "flag"))).toList ++ [' ', ' ', ' ', ' ', ' ']) ++
          ('<' :: '/' :: "dependency".toList ++ ['>'])) ++ ['\n'] := by
  unfold dumpDependency DependencyRecord.written optionalAttribute dependencyRecord
  by_cases htype : (item.config.getDepPlatformType dep).1.isEmpty <;>
    cases hdep : item.flagData.getFlags dep <;>
    simp [startText, nameAttribute, Attribute.toList_raw, Gap.blank, htype]

theorem stands_dumpDependency {item : Item} {dep : String} (hname : Plain dep)
    (htype : Plain (item.config.getDepPlatformType dep).1)
    (hflags : ∀ flag ∈ (dependencyRecord item dep).flags, Plain flag) :
    Stands attlist (dumpDependency item dep).toList [(dependencyRecord item dep).toElement]
      True := by
  have hinner := stands_names isSpace_six (by decide : IsNamed "flag") hflags
  have hentry := stands_entry [] (item.flagData.getFlags dep).isNone isSpace_five isSpace_five
    nil_isSpace (dependencyRecord item dep).declared_written
    (fun hnone ↦ ⟨by simp [dependencyRecord, Option.isNone_iff_eq_none.mp hnone], trivial⟩)
    fun _ ↦ hinner
  rw [DependencyRecord.map_pair_written] at hentry
  rw [toList_dumpDependency]
  exact hentry.of_iff (iff_of_true ⟨DependencyRecord.good_written hname htype, trivial⟩ trivial)

theorem stands_dumpDependencies {item : Item}
    (h : ∀ dep ∈ item.deps, Plain dep ∧ Plain (item.config.getDepPlatformType dep).1 ∧
      ∀ flag ∈ (dependencyRecord item dep).flags, Plain flag) :
    Stands attlist (dumpDependencies item).toList
      (group "declared-dependencies"
        ((item.deps.map (dependencyRecord item)).map DependencyRecord.toElement)) True := by
  have hgroup := stands_group isSpace_indent (by decide :
    Xml.isName "declared-dependencies".toList = true) fun dep hdep ↦
      stands_dumpDependency (h dep hdep).1 (h dep hdep).2.1 (h dep hdep).2.2
  have htext : dumpDependencies item = if item.deps.isEmpty then "" else
      "    " ++ "<" ++ "declared-dependencies" ++ ">" ++ "\n" ++
        String.join (item.deps.map (dumpDependency item)) ++ "    " ++ "</" ++
        "declared-dependencies" ++ ">" ++ "\n" := by
    unfold dumpDependencies
    split_ifs <;> simp [← String.toList_inj]
  rw [htext, List.map_map]
  exact hgroup.of_iff (by simp)

def traitRecord (entry : String × TreeSet String) : TraitRecord := ⟨entry.1, entry.2.toList⟩

theorem stands_dumpTrait {entry : String × TreeSet String} (hname : Plain entry.1)
    (hreferents : ∀ referent ∈ entry.2.toList, Plain referent) :
    Stands attlist (dumpTrait entry).toList [(traitRecord entry).toElement] True := by
  have hdeclared : Declared attlist "trait" [nameAttribute entry.1] :=
    ⟨by decide, nodup_attlist _, List.Sublist.refl _⟩
  have hinner := stands_names isSpace_six
    (by decide : IsNamed "trait-referent") hreferents
  have hentry := stands_entry [] entry.2.isEmpty isSpace_five isSpace_five nil_isSpace hdeclared
    (fun hempty ↦ ⟨by
      rw [List.isEmpty_iff.mp (TreeSet.isEmpty_toList.trans hempty)]
      rfl, trivial⟩) fun _ ↦ hinner
  have htext : (dumpTrait entry).toList = [' ', ' ', ' ', ' ', ' '] ++
      (startText "trait" [nameAttribute entry.1] [] ++ if entry.2.isEmpty then ['/', '>']
        else ['>'] ++ (['\n'] ++ (String.join (entry.2.toList.map
            (dumpName "      " "trait-referent"))).toList ++ [' ', ' ', ' ', ' ', ' ']) ++
          ('<' :: '/' :: "trait".toList ++ ['>'])) ++ ['\n'] := by
    unfold dumpTrait
    by_cases hempty : entry.2.isEmpty <;>
      simp [startText, nameAttribute, Attribute.toList_raw, Gap.blank, hempty]
  rw [htext]
  exact hentry.of_iff (iff_of_true ⟨List.forall_mem_singleton.mpr hname, trivial⟩ trivial)

theorem stands_dumpTraits {traits : TreeMap String (TreeSet String)}
    (h : ∀ entry ∈ traits.toList, Plain entry.1 ∧ ∀ referent ∈ entry.2.toList, Plain referent) :
    Stands attlist (dumpTraits traits).toList
      (group "traits" ((traits.toList.map traitRecord).map TraitRecord.toElement)) True := by
  have hgroup := stands_group isSpace_indent (by decide :
    Xml.isName "traits".toList = true) fun entry hentry ↦
      stands_dumpTrait (h entry hentry).1 (h entry hentry).2
  have htext : dumpTraits traits = if traits.toList.isEmpty then "" else
      "    " ++ "<" ++ "traits" ++ ">" ++ "\n" ++
        String.join (traits.toList.map dumpTrait) ++ "    " ++ "</" ++ "traits" ++ ">" ++ "\n" := by
    unfold dumpTraits
    rw [TreeMap.isEmpty_toList]
    split_ifs <;> simp [← String.toList_inj]
  rw [htext, List.map_map]
  exact hgroup.of_iff (by simp)

/-! ### The attributes of an item -/

theorem isPlain_of_isAlphanum {c : Char} (h : c.isAlphanum = true) : Xml.isPlain c = true := by
  have hne : ∀ c', c'.isAlphanum = false → c ≠ c' := by
    rintro c' hc' rfl
    cases h.symm.trans hc'
  have hspace : Xml.isSpace c = false := by
    simp [Xml.isSpace, hne ' ' rfl, hne '\t' rfl, hne '\n' rfl, hne '\r' rfl]
  have hbound : 48 ≤ c.toNat ∧ c.toNat ≤ 122 := by
    simp only [Char.isAlphanum, Char.isAlpha, Char.isUpper, Char.isLower, Char.isDigit,
      Bool.or_eq_true, Bool.and_eq_true, decide_eq_true_eq, ge_iff_le,
      UInt32.le_iff_toNat_le] at h
    simp at h
    omega
  have hother : ∀ v : UInt32, 122 < v.toNat → c.val ≠ v := by
    rintro v hv rfl
    exact absurd hbound.2 (Nat.not_le.mpr hv)
  have hval : 0x20 ≤ c.val ∧ c.val ≠ 0xFFFE ∧ c.val ≠ 0xFFFF :=
    ⟨UInt32.le_iff_toNat_le.mpr (Nat.le_trans (by decide) hbound.1), hother _ (by decide),
      hother _ (by decide)⟩
  simp [Xml.isPlain, Xml.isChar, hspace, hval, hne '<' rfl, hne '&' rfl, hne '"' rfl]

theorem plain_toString (n : ℕ) : Plain (toString n) := by
  refine List.all_eq_true.mpr fun c hc ↦ isPlain_of_isAlphanum ?_
  have hdigit : c.isDigit = true :=
    Nat.isDigit_of_mem_toDigits (by decide) (Nat.le_refl _) (by simpa using hc)
  simp [Char.isAlphanum, hdigit]

theorem plain_append {front back : String} (hfront : Plain front) (hback : Plain back) :
    Plain (front ++ back) := by
  unfold Plain
  rw [String.toList_append, List.all_append, hfront, hback]
  rfl

theorem plain_forestId (id : ℕ) : Plain (forestId id) :=
  plain_append (by decide) (plain_toString id)

theorem xmlifyChar_eq_nil_iff {c : Char} : Util.xmlifyChar true c = [] ↔ foldedChar c = [] := by
  by_cases hreturn : c = '\r'
  · subst hreturn
    exact iff_of_true rfl rfl
  · refine iff_of_false ?_ ?_
    · unfold Util.xmlifyChar
      split <;> first | exact List.cons_ne_nil _ _ | exact absurd rfl hreturn
    · unfold foldedChar
      split <;> first | exact List.cons_ne_nil _ _ | exact absurd rfl hreturn

theorem isEmpty_xmlify (description : String) :
    (xmlify description true).isEmpty = (folded description).isEmpty := by
  have hempty : ∀ l : List Char, (String.ofList l).isEmpty = l.isEmpty := by
    intro l
    cases l <;> simp
  unfold xmlify folded
  rw [hempty, hempty, Bool.eq_iff_iff, List.isEmpty_iff, List.isEmpty_iff,
    List.flatMap_eq_nil_iff, List.flatMap_eq_nil_iff]
  exact forall₂_congr fun c _ ↦ xmlifyChar_eq_nil_iff

/-- The description is left out when nothing of it would be read. -/
def descriptionAttributes (gap : Gap) (description : String) : List Attribute :=
  if (xmlify description true).isEmpty then [] else [descriptionAttribute gap description]

theorem map_pair_descriptionAttributes (gap : Gap) (description : String) :
    (descriptionAttributes gap description).map Attribute.pair =
      optionalText "description" (folded description) := by
  unfold descriptionAttributes optionalText
  rw [isEmpty_xmlify]
  split_ifs <;> rfl

theorem map_key_descriptionAttributes (gap : Gap) (description : String) :
    ((descriptionAttributes gap description).map Attribute.key).Sublist ["description"] := by
  unfold descriptionAttributes
  split_ifs
  · exact List.nil_sublist _
  · exact List.Sublist.refl _

theorem good_descriptionAttributes_iff (gap : Gap) (description : String) :
    (∀ a ∈ descriptionAttributes gap description, a.good) ↔ Readable description := by
  unfold descriptionAttributes
  by_cases hempty : (xmlify description true).isEmpty
  · rw [if_pos hempty]
    refine iff_of_true (fun _ hmem ↦ absurd hmem List.not_mem_nil) ?_
    -- Nothing but carriage returns is dropped without a trace.
    refine List.all_eq_true.mpr fun c hc ↦ ?_
    have hnil : xmlify description true = "" := String.isEmpty_iff.mp hempty
    have hchar : Util.xmlifyChar true c = [] := by
      have hlist := congrArg String.toList hnil
      unfold xmlify at hlist
      rw [String.toList_ofList] at hlist
      exact List.flatMap_eq_nil_iff.mp hlist c hc
    by_cases hreturn : c = '\r'
    · subst hreturn
      rfl
    · have hfolded := xmlifyChar_eq_nil_iff.mp hchar
      unfold foldedChar at hfolded
      split at hfolded
      · exact absurd rfl hreturn
      · cases hfolded
      · cases hfolded
  · rw [if_neg hempty]
    exact List.forall_mem_singleton

/-! ### `dumpBuildItem` -/

/-- What is to be told of an item. -/
def itemRecord (data : DumpData) (homeForest : ℕ) (item : Item) (name : String) : ItemRecord where
  name := name
  description := folded item.description
  homeForest := homeForest
  absolutePath := item.getAbsolutePath
  backingDepth := item.backingDepth
  hasShadowedReferences := !item.shadowedReferences.isEmpty
  visibleTo := item.visibleTo
  targetType := item.targetType
  isPlugin := data.isPlugin name
  serial := item.serial
  buildAlsoTrees := item.getBuildAlso.filter (·.isTree)
  buildAlsoItems := item.getBuildAlso.filter (!·.isTree)
  declaredDependencies := item.deps.map (dependencyRecord item)
  expandedDependencies := item.expandedDependencies
  omittedDependencies := item.omittedDependencies
  platformTypes := item.getPlatformTypes
  buildablePlatforms := item.buildablePlatforms
  supportedFlags := item.supportedFlags.toList
  traits := item.traitData.traitData.toList.map traitRecord

/-- What an item may have in it, besides its path and its description. -/
structure PlainItem (item : Item) : Prop where
  visibleTo : Plain item.visibleTo
  buildAlso : ∀ b ∈ item.getBuildAlso, Plain b.name
  deps : ∀ dep ∈ item.deps, Plain dep ∧ Plain (item.config.getDepPlatformType dep).1 ∧
    ∀ flag ∈ (dependencyRecord item dep).flags, Plain flag
  expandedDependencies : ∀ dep ∈ item.expandedDependencies, Plain dep
  omittedDependencies : ∀ dep ∈ item.omittedDependencies, Plain dep
  platformTypes : ∀ platformType ∈ item.getPlatformTypes, Plain platformType
  buildablePlatforms : ∀ platform ∈ item.buildablePlatforms, Plain platform
  supportedFlags : ∀ flag ∈ item.supportedFlags.toList, Plain flag
  traits : ∀ entry ∈ item.traitData.traitData.toList,
    Plain entry.1 ∧ ∀ referent ∈ entry.2.toList, Plain referent

theorem isName_homeForest : Xml.isName "home-forest".toList = true := by
  decide

theorem isName_absolutePath : Xml.isName "absolute-path".toList = true := by
  decide

theorem isName_backingDepth : Xml.isName "backing-depth".toList = true := by
  decide

def itemWritten (data : DumpData) (homeForest : ℕ) (item : Item) (name : String) :
    List Attribute :=
  [.raw (.line 4) "name" name isName_name] ++ descriptionAttributes (.line 4) item.description ++
    [.raw (.line 4) "home-forest" (forestId homeForest) isName_homeForest,
      .raw (.line 4) "absolute-path" item.getAbsolutePath isName_absolutePath,
      .raw (.line 4) "backing-depth" (toString item.backingDepth) isName_backingDepth] ++
    flagAttribute (.line 4) "has-shadowed-references" (!item.shadowedReferences.isEmpty)
      (by decide) ++
    optionalAttribute (.line 4) "visible-to" item.visibleTo (by decide) ++
    [.raw (.line 4) "target-type" item.targetType.getName isName_targetType,
      .raw (.line 4) "is-plugin" (boolean (data.isPlugin name)) (by decide)] ++
    flagAttribute (.line 4) "serial" item.serial (by decide)

section Written

variable (data : DumpData) (homeForest : ℕ) (item : Item) (name : String)

theorem declared_itemWritten :
    Declared attlist "build-item" (itemWritten data homeForest item name) := by
  refine ⟨by decide, nodup_attlist _, ?_⟩
  unfold itemWritten
  simp only [List.map_append]
  exact ((((((List.Sublist.refl ["name"]).append (map_key_descriptionAttributes _ _)).append
    (List.Sublist.refl ["home-forest", "absolute-path", "backing-depth"])).append
    (map_key_flagAttribute ..)).append (map_key_optionalAttribute ..)).append
    (List.Sublist.refl ["target-type", "is-plugin"])).append (map_key_flagAttribute ..)

theorem map_pair_itemWritten : (itemWritten data homeForest item name).map Attribute.pair =
    (itemRecord data homeForest item name).toElement.attributes := by
  unfold itemWritten
  simp only [List.map_append, map_pair_descriptionAttributes, map_pair_flagAttribute,
    map_pair_optionalAttribute]
  rfl

theorem good_itemWritten_iff (hname : Plain name) (hvisible : Plain item.visibleTo) :
    (∀ a ∈ itemWritten data homeForest item name, a.good) ↔
      Plain item.getAbsolutePath ∧ Readable item.description := by
  unfold itemWritten
  simp only [List.forall_mem_append, good_descriptionAttributes_iff]
  constructor
  · rintro ⟨⟨⟨⟨⟨⟨-, hdescription⟩, hpath⟩, -⟩, -⟩, -⟩, -⟩
    exact ⟨(List.forall_mem_cons.mp (List.forall_mem_cons.mp hpath).2).1, hdescription⟩
  · rintro ⟨hpath, hdescription⟩
    have hpaths : ∀ a ∈ [Attribute.raw (.line 4) "home-forest" (forestId homeForest)
          isName_homeForest, .raw (.line 4) "absolute-path" item.getAbsolutePath
          isName_absolutePath, .raw (.line 4) "backing-depth" (toString item.backingDepth)
          isName_backingDepth], a.good :=
      List.forall_mem_cons.mpr ⟨plain_forestId homeForest, List.forall_mem_cons.mpr
        ⟨hpath, List.forall_mem_singleton.mpr (plain_toString item.backingDepth)⟩⟩
    have htypes : ∀ a ∈ [Attribute.raw (.line 4) "target-type" item.targetType.getName
          isName_targetType, .raw (.line 4) "is-plugin" (boolean (data.isPlugin name))
          (by decide)], a.good :=
      List.forall_mem_cons.mpr ⟨plain_getName item.targetType,
        List.forall_mem_singleton.mpr (plain_boolean _)⟩
    exact ⟨⟨⟨⟨⟨⟨List.forall_mem_singleton.mpr hname, hdescription⟩, hpaths⟩,
      good_flagAttribute _ _ _ _⟩, good_optionalAttribute _ _ _ _ hvisible⟩, htypes⟩,
      good_flagAttribute _ _ _ _⟩

/-- An attribute on a line of its own. -/
def line (indent : ℕ) (a : Attribute) : List Char :=
  List.replicate indent ' ' ++ (a.key.toList ++ '=' :: '"' :: (a.text ++ ['"', '\n']))

/-- Lines of attributes, between ends of lines. -/
theorem flatMap_line {indent : ℕ} {written : List Attribute}
    (h : ∀ a ∈ written, a.gap = .line indent) :
    '\n' :: written.flatMap (line indent) = written.flatMap Attribute.toList ++ ['\n'] := by
  induction written with
  | nil => rfl
  | cons a written ih =>
    obtain ⟨ha, hrest⟩ := List.forall_mem_cons.mp h
    rw [List.flatMap_cons, List.flatMap_cons, List.append_assoc, ← ih hrest]
    simp [line, Attribute.toList, ha, Gap.line]

theorem gap_itemWritten : ∀ a ∈ itemWritten data homeForest item name, a.gap = .line 4 := by
  have hdescription : ∀ a ∈ descriptionAttributes (.line 4) item.description, a.gap = .line 4 := by
    unfold descriptionAttributes
    split_ifs <;> simp [descriptionAttribute]
  have hflag : ∀ (key : String) (b : Bool) (hkey : Xml.isName key.toList = true),
      ∀ a ∈ flagAttribute (.line 4) key b hkey, a.gap = .line 4 := by
    intro key b hkey
    unfold flagAttribute
    split_ifs <;> simp [Attribute.raw]
  have hoptional : ∀ a ∈ optionalAttribute (.line 4) "visible-to" item.visibleTo
      (by decide), a.gap = .line 4 := by
    unfold optionalAttribute
    split_ifs <;> simp [Attribute.raw]
  unfold itemWritten
  simp only [List.forall_mem_append]
  refine ⟨⟨⟨⟨⟨⟨?_, hdescription⟩, ?_⟩, hflag _ _ _⟩, hoptional⟩, ?_⟩, hflag _ _ _⟩ <;>
    simp [Attribute.raw]

theorem toList_dumpItemAttributes : (dumpItemAttributes data item name homeForest).toList =
    (itemWritten data homeForest item name).flatMap (line 4) := by
  have hdescription : (if (xmlify item.description true).isEmpty then "" else
      "    description=\"" ++ xmlify item.description true ++ "\"" ++ "\n").toList =
      (descriptionAttributes (.line 4) item.description).flatMap (line 4) := by
    unfold descriptionAttributes
    split_ifs <;> simp [line, descriptionAttribute]
  have hshadowed : (if item.shadowedReferences.isEmpty then "" else
      "    has-shadowed-references=\"1\"" ++ "\n").toList =
      (flagAttribute (.line 4) "has-shadowed-references" (!item.shadowedReferences.isEmpty)
        (by decide)).flatMap (line 4) := by
    unfold flagAttribute
    cases item.shadowedReferences.isEmpty <;> simp [line, Attribute.raw]
  have hvisible : (if item.visibleTo.isEmpty then "" else
      "    visible-to=\"" ++ item.visibleTo ++ "\"" ++ "\n").toList =
      (optionalAttribute (.line 4) "visible-to" item.visibleTo
        (by decide)).flatMap (line 4) := by
    unfold optionalAttribute
    split_ifs <;> simp [line, Attribute.raw]
  have hserial : (if item.serial then "    serial=\"1\"" ++ "\n" else "").toList =
      (flagAttribute (.line 4) "serial" item.serial (by decide)).flatMap (line 4) := by
    unfold flagAttribute
    split_ifs <;> simp [line, Attribute.raw]
  unfold dumpItemAttributes itemWritten
  simp only [String.toList_append, List.flatMap_append, hdescription, hshadowed, hvisible, hserial]
  simp [line, Attribute.raw, forestId, boolean]

end Written

theorem stands_dumpSubelements {item : Item} (h : PlainItem item) (data : DumpData)
    (homeForest : ℕ) (name : String) :
    Stands attlist (dumpSubelements item).toList
      (itemRecord data homeForest item name).toElement.children True := by
  have htrees : Stands attlist (dumpBuildAlso true (item.getBuildAlso.filter (·.isTree))).toList
      (group "build-also-trees" ((item.getBuildAlso.filter (·.isTree)).map buildAlsoElement))
      True :=
    stands_dumpBuildAlso true fun b hb ↦ h.buildAlso b (List.mem_of_mem_filter hb)
  have hitems : Stands attlist (dumpBuildAlso false (item.getBuildAlso.filter (!·.isTree))).toList
      (group "build-also-items" ((item.getBuildAlso.filter (!·.isTree)).map buildAlsoElement))
      True :=
    stands_dumpBuildAlso false fun b hb ↦ h.buildAlso b (List.mem_of_mem_filter hb)
  have hexpanded := stands_dumpNames "expanded-dependencies" "dependency" isSpace_indent
    (by decide) (by decide) h.expandedDependencies
  have homitted := stands_dumpNames "omitted-dependencies" "dependency" isSpace_indent
    (by decide) (by decide) h.omittedDependencies
  have htypes := stands_dumpNames "platform-types" "platform-type" isSpace_indent
    (by decide) (by decide) h.platformTypes
  have hplatforms := stands_dumpNames "buildable-platforms" "platform" isSpace_indent
    (by decide) (by decide) h.buildablePlatforms
  have hflags := stands_dumpNames "supported-flags" "supported-flag" isSpace_indent
    (by decide) (by decide) h.supportedFlags
  have hgroups := (((((((htrees.append hitems).append (stands_dumpDependencies h.deps)).append
    hexpanded).append homitted).append htypes).append hplatforms).append hflags).append
      (stands_dumpTraits h.traits)
  unfold dumpSubelements
  simp only [String.toList_append]
  exact hgroups.of_iff (by simp)

/-- No element is to be written in an item for which none is announced. -/
theorem children_itemRecord {item : Item} (h : item.anySubelements = false) (data : DumpData)
    (homeForest : ℕ) (name : String) :
    (itemRecord data homeForest item name).toElement.children = [] := by
  unfold Item.anySubelements at h
  simp only [Bool.not_eq_false', Bool.and_eq_true, List.isEmpty_iff] at h
  obtain ⟨⟨⟨⟨⟨⟨⟨halso, hdeps⟩, hexpanded⟩, homitted⟩, htypes⟩, hplatforms⟩, hflags⟩, htraits⟩ := h
  have hflags' : item.supportedFlags.toList = [] :=
    List.isEmpty_iff.mp (TreeSet.isEmpty_toList.trans hflags)
  have htraits' : item.traitData.traitData.toList = [] :=
    List.isEmpty_iff.mp (TreeMap.isEmpty_toList.trans htraits)
  simp [itemRecord, ItemRecord.toElement, nameElements, group, halso, hdeps, hexpanded, homitted,
    htypes, hplatforms, hflags', htraits']

theorem stands_dumpBuildItem (data : DumpData) {forestNumbers : TreeMap String ℕ} {item : Item}
    {name : String} {homeForest : ℕ} (h : PlainItem item) (hname : Plain name)
    (hhome : forestNumbers[item.forestRoot]? = some homeForest) :
    ∃ text, dumpBuildItem data forestNumbers item name = some text ∧
      Stands attlist text.toList [(itemRecord data homeForest item name).toElement]
        (Plain item.getAbsolutePath ∧ Readable item.description) := by
  unfold dumpBuildItem
  rw [hhome]
  refine ⟨_, rfl, ?_⟩
  have hspace : [' ', ' ', ' '].all Xml.isSpace = true := rfl
  have hgap : ['\n', ' ', ' ', ' '].all Xml.isSpace = true := rfl
  have hentry := stands_entry ['\n', ' ', ' ', ' '] (!item.anySubelements) hspace hspace hgap
    (declared_itemWritten data homeForest item name)
    (fun hnone ↦ ⟨children_itemRecord (by simpa using hnone) data homeForest name, trivial⟩)
    fun _ ↦ stands_dumpSubelements h data homeForest name
  have htext : ("   <build-item" ++ "\n" ++ dumpItemAttributes data item name homeForest ++
      if item.anySubelements then
        "   >" ++ "\n" ++ dumpSubelements item ++ "   </build-item>" ++ "\n"
      else "   />" ++ "\n").toList = [' ', ' ', ' '] ++
        (startText "build-item" (itemWritten data homeForest item name) ['\n', ' ', ' ', ' '] ++
          if (!item.anySubelements) = true then ['/', '>']
          else ['>'] ++ (['\n'] ++ (dumpSubelements item).toList ++ [' ', ' ', ' ']) ++
            ('<' :: '/' :: "build-item".toList ++ ['>'])) ++ ['\n'] := by
    have hlines := flatMap_line (gap_itemWritten data homeForest item name)
    rw [← toList_dumpItemAttributes] at hlines
    have hstart :
        ("   <build-item" ++ "\n" ++ dumpItemAttributes data item name homeForest).toList =
        [' ', ' ', ' '] ++ ('<' :: "build-item".toList ++
          ((itemWritten data homeForest item name).flatMap Attribute.toList ++ ['\n'])) := by
      rw [← hlines]
      simp
    rw [String.toList_append, hstart]
    cases item.anySubelements <;> simp [startText]
  rw [map_pair_itemWritten] at hentry
  rw [htext]
  refine hentry.of_iff ?_
  rw [good_itemWritten_iff data homeForest item name hname h.visibleTo]
  exact and_iff_left trivial

end DumpData

end Abuild
