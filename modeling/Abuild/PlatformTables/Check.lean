import Abuild.Library.Chain
import Abuild.PlatformTables.Graph

/-!
One addition to platform data, and one check of it. Beside it there is a copy that has not been
checked (`Same`): additions keep the two alike, and a check finds the same platforms in both. The
types that a check finds above a platform type are the chain of its parents
(`Sound.isChain_parentsOf`), and it adds them to those that it has found before
(`checkTypes_spec`).
-/

set_option autoImplicit false
set_option relaxedAutoImplicit false

namespace Abuild.PlatformTables

open Std (TreeMap)
open Relation Precedence Chain Fallible DependencyGraph

/-! ### Names -/

/-- The names of platforms and platform types have no spaces. -/
structure IsName (name : String) : Prop where
  nonempty : name ≠ ""
  spaces : ∀ c ∈ name.toList, KeyVal.isSpace c = false

theorem dropPrefix?_eq_some_iff {front rest text : List Char} :
    text.dropPrefix? front = some rest ↔ text = front ++ rest := by
  rw [List.dropPrefix?_eq_some_iff]
  constructor
  · rintro ⟨front', rfl, hfront⟩
    rw [eq_of_beq hfront]
  · rintro rfl
    exact ⟨front, rfl, beq_self_eq_true front⟩

theorem matchItem_eq_some_iff {front item name : String} :
    matchItem front item = some name ↔ item = front ++ name ∧ IsName name := by
  have hitem : item = front ++ name ↔ item.toList.dropPrefix? front.toList = some name.toList := by
    rw [dropPrefix?_eq_some_iff, ← String.toList_append, String.toList_inj]
  have hname : IsName name ↔ ¬ (name.toList.isEmpty ∨ name.toList.any KeyVal.isSpace) := by
    rw [not_or]
    constructor
    · exact fun h ↦ ⟨by simpa using h.nonempty, by simpa using h.spaces⟩
    · exact fun h ↦ ⟨by simpa using h.1, by simpa using h.2⟩
  unfold matchItem
  rw [hitem, hname]
  cases item.toList.dropPrefix? front.toList with
  | none => exact iff_of_false (fun hnone ↦ by cases hnone) fun hboth ↦ by cases hboth.1
  | some rest =>
    dsimp only
    split_ifs with hbad
    · refine iff_of_false id fun hboth ↦ hboth.2 ?_
      rw [← Option.some_inj.mp hboth.1]
      exact hbad
    · constructor
      · intro heq
        obtain rfl := Option.some_inj.mp heq
        rw [String.toList_ofList]
        exact ⟨rfl, hbad⟩
      · rintro ⟨heq, -⟩
        rw [Option.some_inj.mp heq, String.ofList_toList]

theorem matchPlatformType_eq_some_iff {item name : String} :
    matchPlatformType item = some name ↔ item = platformTypeItem name ∧ IsName name := by
  unfold matchPlatformType
  rw [matchItem_eq_some_iff]
  rfl

/-- No platform is taken for a platform type. -/
theorem platformItem_ne {platform platformType : String} (h : IsName platform) :
    platformItem platform ≠ platformTypeItem platformType := by
  intro heq
  have hlist := congrArg String.toList heq
  unfold platformItem platformTypeItem at hlist
  rw [String.toList_append, String.toList_append] at hlist
  have hplatform : platform.toList = "type ".toList ++ platformType.toList :=
    (List.append_right_inj "platform ".toList).mp hlist
  have hspace := h.spaces ' ' (hplatform ▸ by simp)
  cases hspace

theorem platformTypeItem_inj {platformType platformType' : String} :
    platformTypeItem platformType = platformTypeItem platformType' ↔
      platformType = platformType' :=
  String.append_right_inj _

/-! ### Additions -/

/-- Platform data and a copy of it that has not been checked. -/
structure Same (d d₀ : PlatformTables) : Prop where
  initializing : d.initializing = d₀.initializing
  targetTypes : d.targetTypes = d₀.targetTypes
  platformTypes : d.platformTypes = d₀.platformTypes
  platformDeclaration : d.platformDeclaration = d₀.platformDeclaration
  platformTypeParents : d.platformTypeParents = d₀.platformTypeParents
  platformGraph : SameGraph d.platformGraph d₀.platformGraph
  compatible : d₀.compatiblePlatformTypes = ∅

section Same

variable {d d₀ : PlatformTables}

theorem Same.addPlatformType (h : Same d d₀) (platformType : String) (targetType : TargetType)
    (parentPlatformType : String) :
    Option.Rel (fun x y ↦ Same x.1 y.1)
      (d.addPlatformType platformType targetType parentPlatformType)
      (d₀.addPlatformType platformType targetType parentPlatformType) := by
  obtain ⟨initializing, _, targetTypes, platformTypes, _, _, declared, parents, g⟩ := d
  obtain ⟨_, _, _, _, _, _, _, _, g₀⟩ := d₀
  obtain ⟨rfl, rfl, rfl, rfl, rfl, hgraph, rfl⟩ := h
  unfold PlatformTables.addPlatformType
  dsimp only
  by_cases hrefused : ¬ (initializing = true ∨ targetType = .objectCode)
  · rw [if_pos hrefused, if_pos hrefused]
    exact .some ⟨rfl, rfl, rfl, rfl, rfl, hgraph, rfl⟩
  rw [if_neg hrefused, if_neg hrefused]
  by_cases htwice : targetTypes.contains platformType = true
  · rw [if_pos htwice, if_pos htwice]
    exact .some ⟨rfl, rfl, rfl, rfl, rfl, hgraph, rfl⟩
  rw [if_neg htwice, if_neg htwice]
  refine rel_bind (hgraph.add (.addItem (platformTypeItem platformType))) fun g g₀ hg ↦ ?_
  by_cases hparent : parentPlatformType.isEmpty = true
  · rw [if_pos hparent, if_pos hparent]
    exact .some ⟨rfl, rfl, rfl, rfl, rfl, hg, rfl⟩
  rw [if_neg hparent, if_neg hparent]
  by_cases hobject : targetType ≠ .objectCode
  · rw [if_pos hobject, if_pos hobject]
    exact .none
  rw [if_neg hobject, if_neg hobject]
  cases (targetTypes.insert platformType targetType)[parentPlatformType]? with
  | none => exact .some ⟨rfl, rfl, rfl, rfl, rfl, hg, rfl⟩
  | some parentTargetType =>
    dsimp only
    by_cases hcode : parentTargetType ≠ .objectCode
    · rw [if_pos hcode, if_pos hcode]
      exact .some ⟨rfl, rfl, rfl, rfl, rfl, hg, rfl⟩
    · rw [if_neg hcode, if_neg hcode]
      refine rel_bind (hg.add (.addDependency _ _)) fun g g₀ hg ↦ ?_
      exact .some ⟨rfl, rfl, rfl, rfl, rfl, hg, rfl⟩

theorem Same.addPlatform (h : Same d d₀) (platform platformType : String) (lowpri : Bool) :
    Option.Rel (fun x y ↦ Same x.1 y.1) (d.addPlatform platform platformType lowpri)
      (d₀.addPlatform platform platformType lowpri) := by
  obtain ⟨initializing, _, targetTypes, platformTypes, _, _, declared, parents, g⟩ := d
  obtain ⟨_, _, _, _, _, _, _, _, g₀⟩ := d₀
  obtain ⟨rfl, rfl, rfl, rfl, rfl, hgraph, rfl⟩ := h
  unfold PlatformTables.addPlatform
  dsimp only
  by_cases htwice : declared.contains platform = true
  · rw [if_pos htwice, if_pos htwice]
    exact .some ⟨rfl, rfl, rfl, rfl, rfl, hgraph, rfl⟩
  rw [if_neg htwice, if_neg htwice]
  refine rel_bind (hgraph.add (.addItem (platformItem platform))) fun g g₀ hg ↦ ?_
  by_cases hunknown : ¬ targetTypes.contains platformType = true
  · rw [if_pos hunknown, if_pos hunknown]
    exact .some ⟨rfl, rfl, rfl, rfl, rfl, hg, rfl⟩
  rw [if_neg hunknown, if_neg hunknown]
  refine rel_bind (hg.add (.addDependency _ _)) fun g g₀ hg ↦ ?_
  exact .some ⟨rfl, rfl, rfl, rfl, rfl, hg, rfl⟩

end Same

/-! ### The items of the graph -/

/-- The platform type has been declared with a parent. -/
def HasParent (d : PlatformTables) (platformType parentPlatformType : String) : Prop :=
  DependsOn d.platformGraph.dependencies (platformTypeItem platformType)
    (platformTypeItem parentPlatformType)

/-- The items are those of platforms and platform types, of which only the latter depend on others:
on platforms, and on at most one parent. -/
structure Sound (d : PlatformTables) : Prop where
  name : ∀ platformType ∈ d.targetTypes, IsName platformType
  mem : ∀ platformType ∈ d.targetTypes,
    platformTypeItem platformType ∈ d.platformGraph.dependencies
  items : ∀ a ∈ d.platformGraph.dependencies,
    (∃ platformType ∈ d.targetTypes, a = platformTypeItem platformType) ∨
      ∃ platform, IsName platform ∧ a = platformItem platform
  dependsOn : ∀ a b, DependsOn d.platformGraph.dependencies a b →
    (∃ platformType ∈ d.targetTypes, a = platformTypeItem platformType) ∧
      ((∃ platform, IsName platform ∧ b = platformItem platform) ∨
        ∃ parent, d.targetTypes[parent]? = some .objectCode ∧ b = platformTypeItem parent)
  unique : Relator.RightUnique d.HasParent
  platformTypes : ∀ platform platformType : String,
    d.platformTypes[platform]? = some platformType → platformType ∈ d.targetTypes

/-- The tables with a platform type. -/
def withType (d : PlatformTables) (platformType : String) (targetType : TargetType)
    (parentPlatformType : String) (platformGraph : DependencyGraph) : PlatformTables :=
  { d with
    checked := false
    targetTypes := d.targetTypes.insert platformType targetType
    platformTypeParents := d.platformTypeParents.insert platformType parentPlatformType
    platformGraph }

/-- The type is not declared at all. -/
def RefusesType (d : PlatformTables) (platformType : String) (targetType : TargetType) : Prop :=
  ¬ (d.initializing = true ∨ targetType = .objectCode) ∨ platformType ∈ d.targetTypes

/-- The parent is a platform type of target type object code, for all that is known when the type
has been declared. -/
def KnownParent (d : PlatformTables) (platformType : String) (targetType : TargetType)
    (parentPlatformType : String) : Prop :=
  (d.targetTypes.insert platformType targetType)[parentPlatformType]? = some .objectCode

section Items

variable {d d' : PlatformTables} {message : Option String}

/-- The outcomes of `addPlatformType`. -/
theorem addPlatformType_spec {platformType parentPlatformType : String} {targetType : TargetType}
    (h : d.addPlatformType platformType targetType parentPlatformType = some (d', message)) :
    (d.RefusesType platformType targetType ∧ message.isSome ∧ d' = { d with checked := false }) ∨
      ¬ d.RefusesType platformType targetType ∧
        ∃ g, d.platformGraph.addItem (platformTypeItem platformType) = some g ∧
          ((parentPlatformType = "" ∧ message = none ∧
              d' = d.withType platformType targetType parentPlatformType g) ∨
            parentPlatformType ≠ "" ∧
              ((¬ d.KnownParent platformType targetType parentPlatformType ∧ message.isSome ∧
                  d' = d.withType platformType targetType parentPlatformType g) ∨
                d.KnownParent platformType targetType parentPlatformType ∧ message = none ∧
                  ∃ g', g.addDependency (platformTypeItem platformType)
                      (platformTypeItem parentPlatformType) = some g' ∧
                    d' = d.withType platformType targetType parentPlatformType g')) := by
  unfold addPlatformType at h
  dsimp only at h
  by_cases hrefused : ¬ (d.initializing = true ∨ targetType = .objectCode)
  · rw [if_pos hrefused] at h
    obtain ⟨rfl, rfl⟩ := Prod.mk.inj (Option.some_inj.mp h)
    exact Or.inl ⟨Or.inl hrefused, rfl, rfl⟩
  rw [if_neg hrefused] at h
  by_cases htwice : d.targetTypes.contains platformType = true
  · rw [if_pos htwice] at h
    obtain ⟨rfl, rfl⟩ := Prod.mk.inj (Option.some_inj.mp h)
    exact Or.inl ⟨Or.inr htwice, rfl, rfl⟩
  rw [if_neg htwice] at h
  obtain ⟨g, hg, h⟩ := Option.bind_eq_some_iff.mp h
  refine Or.inr ⟨not_or.mpr ⟨hrefused, htwice⟩, g, hg, ?_⟩
  by_cases hparent : parentPlatformType.isEmpty = true
  · rw [if_pos hparent] at h
    obtain ⟨rfl, rfl⟩ := Prod.mk.inj (Option.some_inj.mp h)
    exact Or.inl ⟨String.isEmpty_iff.mp hparent, rfl, rfl⟩
  rw [if_neg hparent] at h
  refine Or.inr ⟨fun hempty ↦ hparent (String.isEmpty_iff.mpr hempty), ?_⟩
  by_cases hobject : targetType ≠ .objectCode
  · rw [if_pos hobject] at h
    cases h
  rw [if_neg hobject] at h
  unfold KnownParent
  split at h
  · rename_i hunknown
    obtain ⟨rfl, rfl⟩ := Prod.mk.inj (Option.some_inj.mp h)
    rw [hunknown]
    refine Or.inl ⟨fun hknown ↦ ?_, rfl, rfl⟩
    cases hknown
  · rename_i parentTargetType hparentType
    rw [hparentType]
    by_cases hcode : parentTargetType = .objectCode
    · rw [if_neg (not_not.mpr hcode)] at h
      obtain ⟨g', hg', h⟩ := Option.bind_eq_some_iff.mp h
      obtain ⟨rfl, rfl⟩ := Prod.mk.inj (Option.some_inj.mp h)
      exact Or.inr ⟨congrArg some hcode, rfl, g', hg', rfl⟩
    · rw [if_pos hcode] at h
      obtain ⟨rfl, rfl⟩ := Prod.mk.inj (Option.some_inj.mp h)
      exact Or.inl ⟨fun hknown ↦ hcode (Option.some_inj.mp hknown), rfl, rfl⟩

theorem addPlatformType_cases {platformType parentPlatformType : String} {targetType : TargetType}
    (h : d.addPlatformType platformType targetType parentPlatformType = some (d', message)) :
    d' = { d with checked := false } ∨
      platformType ∉ d.targetTypes ∧
        ∃ g, d.platformGraph.addItem (platformTypeItem platformType) = some g ∧
          (d' = d.withType platformType targetType parentPlatformType g ∨
            d.KnownParent platformType targetType parentPlatformType ∧
              ∃ g', g.addDependency (platformTypeItem platformType)
                  (platformTypeItem parentPlatformType) = some g' ∧
                d' = d.withType platformType targetType parentPlatformType g') := by
  rcases addPlatformType_spec h with ⟨-, -, heq⟩ | ⟨haccepts, g, hg, hrest⟩
  · exact Or.inl heq
  · refine Or.inr ⟨(not_or.mp haccepts).2, g, hg, ?_⟩
    rcases hrest with ⟨-, -, heq⟩ | ⟨-, ⟨-, -, heq⟩ | ⟨hparent, -, hadded⟩⟩
    · exact Or.inl heq
    · exact Or.inl heq
    · exact Or.inr ⟨hparent, hadded⟩

/-- The tables with a platform that may have no type. -/
def withPlatform (d : PlatformTables) (platform : String) (n : ℤ)
    (platformGraph : DependencyGraph) : PlatformTables :=
  { d with
    checked := false
    platformDeclaration := d.platformDeclaration.insert platform n
    platformGraph }

/-- The priority of the platform that is declared next. -/
def nextPriority (d : PlatformTables) (lowpri : Bool) : ℤ :=
  if lowpri then -(d.platformDeclaration.size : ℤ) else d.platformDeclaration.size

/-- The outcomes of `addPlatform`. -/
theorem addPlatform_spec {platform platformType : String} {lowpri : Bool}
    (h : d.addPlatform platform platformType lowpri = some (d', message)) :
    (platform ∈ d.platformDeclaration ∧ message.isSome ∧ d' = { d with checked := false }) ∨
      platform ∉ d.platformDeclaration ∧
        ∃ g, d.platformGraph.addItem (platformItem platform) = some g ∧
          ((platformType ∉ d.targetTypes ∧ message.isSome ∧
              d' = d.withPlatform platform (d.nextPriority lowpri) g) ∨
            platformType ∈ d.targetTypes ∧ message = none ∧
              ∃ g', g.addDependency (platformTypeItem platformType) (platformItem platform) =
                  some g' ∧
                d' = { d.withPlatform platform (d.nextPriority lowpri) g' with
                  platformTypes := d.platformTypes.insert platform platformType }) := by
  unfold addPlatform at h
  dsimp only at h
  by_cases htwice : d.platformDeclaration.contains platform = true
  · rw [if_pos htwice] at h
    obtain ⟨rfl, rfl⟩ := Prod.mk.inj (Option.some_inj.mp h)
    exact Or.inl ⟨htwice, rfl, rfl⟩
  rw [if_neg htwice] at h
  obtain ⟨g, hg, h⟩ := Option.bind_eq_some_iff.mp h
  refine Or.inr ⟨htwice, g, hg, ?_⟩
  by_cases hknown : d.targetTypes.contains platformType = true
  · rw [if_neg (not_not.mpr hknown)] at h
    obtain ⟨g', hg', h⟩ := Option.bind_eq_some_iff.mp h
    obtain ⟨rfl, rfl⟩ := Prod.mk.inj (Option.some_inj.mp h)
    exact Or.inr ⟨hknown, rfl, g', hg', rfl⟩
  · rw [if_pos hknown] at h
    obtain ⟨rfl, rfl⟩ := Prod.mk.inj (Option.some_inj.mp h)
    exact Or.inl ⟨hknown, rfl, rfl⟩

theorem addPlatform_cases {platform platformType : String} {lowpri : Bool}
    (h : d.addPlatform platform platformType lowpri = some (d', message)) :
    d' = { d with checked := false } ∨
      ∃ n g, d.platformGraph.addItem (platformItem platform) = some g ∧
        (d' = d.withPlatform platform n g ∨
          platformType ∈ d.targetTypes ∧
            ∃ g', g.addDependency (platformTypeItem platformType) (platformItem platform) =
                some g' ∧
              d' = { d.withPlatform platform n g' with
                platformTypes := d.platformTypes.insert platform platformType }) := by
  rcases addPlatform_spec h with ⟨-, -, heq⟩ | ⟨-, g, hg, ⟨-, -, heq⟩ | ⟨hknown, -, hadded⟩⟩
  · exact Or.inl heq
  · exact Or.inr ⟨_, g, hg, Or.inl heq⟩
  · exact Or.inr ⟨_, g, hg, Or.inr ⟨hknown, hadded⟩⟩

theorem hasParent_congr (h : d'.platformGraph.dependencies.Equiv d.platformGraph.dependencies) :
    d'.HasParent = d.HasParent := by
  unfold HasParent
  rw [DependsOn.congr h]

/-- An item that is added depends on nothing. -/
theorem dependsOn_addItem {g g' : DependencyGraph} {item : String} (h : g.addItem item = some g') :
    (∀ a b, DependsOn g'.dependencies a b ↔ DependsOn g.dependencies a b) ∧
      (∀ a, a ∈ g'.dependencies ↔ a = item ∨ a ∈ g.dependencies) ∧
      ∀ b, ¬ DependsOn g'.dependencies item b := by
  obtain ⟨hnew, -, rfl⟩ := addItem_spec h
  have hiff : ∀ a b, DependsOn (g.dependencies.insert item []) a b ↔ DependsOn g.dependencies a b :=
    dependsOn_insert_nil hnew
  refine ⟨hiff, fun a ↦ ?_, fun b hb ↦ hnew ((hiff item b).mp hb).mem⟩
  exact TreeMap.mem_insert.trans (or_congr_left (compare_eq_iff_eq.trans eq_comm))

theorem dependsOn_addDependency {g g' : DependencyGraph} {item dep : String}
    (h : g.addDependency item dep = some g') :
    (∀ a b, DependsOn g'.dependencies a b ↔
      DependsOn g.dependencies a b ∨ (a = item ∧ b = dep)) ∧
      ∀ a, a ∈ g'.dependencies ↔ a ∈ g.dependencies := by
  obtain ⟨hitem, -, rfl⟩ := addDependency_spec h
  refine ⟨dependsOn_insert_append, fun a ↦ ?_⟩
  refine TreeMap.mem_insert.trans (or_iff_right_of_imp fun hcompare ↦ ?_)
  exact compare_eq_iff_eq.mp hcompare ▸ hitem

section Sound

variable (h : Sound d) {g g' : DependencyGraph}

include h

theorem Sound.withType {platformType parentPlatformType : String} {targetType : TargetType}
    (hname : IsName platformType) (hnew : platformType ∉ d.targetTypes)
    (hg : d.platformGraph.addItem (platformTypeItem platformType) = some g) :
    Sound (d.withType platformType targetType parentPlatformType g) := by
  obtain ⟨hdepends, hmem, -⟩ := dependsOn_addItem hg
  have htypes : ∀ platformType', platformType' ∈ d.targetTypes.insert platformType targetType ↔
      platformType = platformType' ∨ platformType' ∈ d.targetTypes :=
    fun _ ↦ TreeMap.mem_insert.trans (or_congr_left compare_eq_iff_eq)
  have hold : ∀ parent : String, d.targetTypes[parent]? = some .objectCode →
      (d.targetTypes.insert platformType targetType)[parent]? = some .objectCode := by
    intro parent hparent
    rw [TreeMap.getElem?_insert, if_neg, hparent]
    intro hcompare
    obtain rfl := compare_eq_iff_eq.mp hcompare
    exact hnew (TreeMap.mem_iff_isSome_getElem?.mpr (by rw [hparent]; rfl))
  refine ⟨fun platformType' hin ↦ ?_, fun platformType' hin ↦ ?_, fun a ha ↦ ?_,
    fun a b hab ↦ ?_, fun a b c hab hac ↦ ?_, fun platform platformType' hplatform ↦ ?_⟩
  · rcases (htypes platformType').mp hin with rfl | hin
    · exact hname
    · exact h.name _ hin
  · refine (hmem _).mpr ?_
    rcases (htypes platformType').mp hin with rfl | hin
    · exact Or.inl rfl
    · exact Or.inr (h.mem _ hin)
  · rcases (hmem a).mp ha with rfl | ha
    · exact Or.inl ⟨platformType, (htypes _).mpr (Or.inl rfl), rfl⟩
    · exact (h.items a ha).imp_left fun ⟨platformType', hin, heq⟩ ↦
        ⟨platformType', (htypes _).mpr (Or.inr hin), heq⟩
  · obtain ⟨⟨platformType', hin, ha⟩, hb⟩ := h.dependsOn a b ((hdepends a b).mp hab)
    exact ⟨⟨platformType', (htypes _).mpr (Or.inr hin), ha⟩,
      hb.imp_right fun ⟨parent, hparent, heq⟩ ↦ ⟨parent, hold parent hparent, heq⟩⟩
  · exact h.unique ((hdepends _ _).mp hab) ((hdepends _ _).mp hac)
  · exact (htypes _).mpr (Or.inr (h.platformTypes platform platformType' hplatform))

/-- The parent of a platform type that depends on nothing. -/
theorem Sound.addParent {platformType parent : String} (hin : platformType ∈ d.targetTypes)
    (hnone : ∀ b, ¬ DependsOn d.platformGraph.dependencies (platformTypeItem platformType) b)
    (hparent : d.targetTypes[parent]? = some .objectCode)
    (hg : d.platformGraph.addDependency (platformTypeItem platformType) (platformTypeItem parent) =
      some g) : Sound { d with platformGraph := g } := by
  obtain ⟨hdepends, hmem⟩ := dependsOn_addDependency hg
  refine ⟨h.name, fun platformType' hin ↦ (hmem _).mpr (h.mem _ hin),
    fun a ha ↦ h.items a ((hmem a).mp ha), fun a b hab ↦ ?_, fun a b c hab hac ↦ ?_,
    h.platformTypes⟩
  · rcases (hdepends a b).mp hab with hab | ⟨rfl, rfl⟩
    · exact h.dependsOn a b hab
    · exact ⟨⟨platformType, hin, rfl⟩, Or.inr ⟨parent, hparent, rfl⟩⟩
  · rcases (hdepends _ _).mp hab with hab | ⟨ha, hb⟩
    · rcases (hdepends _ _).mp hac with hac | ⟨ha, -⟩
      · exact h.unique hab hac
      · exact absurd (ha ▸ hab) (hnone _)
    · rcases (hdepends _ _).mp hac with hac | ⟨-, hc⟩
      · exact absurd (ha ▸ hac) (hnone _)
      · exact platformTypeItem_inj.mp (hb.trans hc.symm)

theorem Sound.withPlatform {platform : String} {n : ℤ} (hname : IsName platform)
    (hg : d.platformGraph.addItem (platformItem platform) = some g) :
    Sound (d.withPlatform platform n g) := by
  obtain ⟨hdepends, hmem, -⟩ := dependsOn_addItem hg
  refine ⟨h.name, fun platformType hin ↦ (hmem _).mpr (Or.inr (h.mem _ hin)), fun a ha ↦ ?_,
    fun a b hab ↦ h.dependsOn a b ((hdepends a b).mp hab),
    fun a b c hab hac ↦ h.unique ((hdepends _ _).mp hab) ((hdepends _ _).mp hac), h.platformTypes⟩
  rcases (hmem a).mp ha with rfl | ha
  · exact Or.inr ⟨platform, hname, rfl⟩
  · exact h.items a ha

theorem Sound.addToType {platform platformType : String} (hname : IsName platform)
    (hin : platformType ∈ d.targetTypes)
    (hg : d.platformGraph.addDependency (platformTypeItem platformType) (platformItem platform) =
      some g) :
    Sound { d with
      platformGraph := g
      platformTypes := d.platformTypes.insert platform platformType } := by
  obtain ⟨hdepends, hmem⟩ := dependsOn_addDependency hg
  have hparent : ∀ {a b}, DependsOn g.dependencies (platformTypeItem a) (platformTypeItem b) →
      d.HasParent a b := fun hab ↦
    ((hdepends _ _).mp hab).resolve_right fun hboth ↦ platformItem_ne hname hboth.2.symm
  refine ⟨h.name, fun platformType' hin ↦ (hmem _).mpr (h.mem _ hin),
    fun a ha ↦ h.items a ((hmem a).mp ha), fun a b hab ↦ ?_,
    fun a b c hab hac ↦ h.unique (hparent hab) (hparent hac),
    fun platform' platformType' htype ↦ ?_⟩
  · rcases (hdepends a b).mp hab with hab | ⟨rfl, rfl⟩
    · exact h.dependsOn a b hab
    · exact ⟨⟨platformType, hin, rfl⟩, Or.inl ⟨platform, hname, rfl⟩⟩
  · change (d.platformTypes.insert platform platformType)[platform']? = _ at htype
    rw [TreeMap.getElem?_insert] at htype
    split_ifs at htype
    · exact Option.some_inj.mp htype ▸ hin
    · exact h.platformTypes platform' platformType' htype

end Sound

end Items

/-! ### One check -/

/-- The platform types above a platform type, as a check finds them. -/
def parentsOf (d : PlatformTables) (platformType : String) : List String :=
  (sortedOf d.platformGraph.dependencies (platformTypeItem platformType)).dropLast.reverse.filterMap
    matchPlatformType

/-- The graph has been checked without an error. -/
structure Ready (d : PlatformTables) : Prop where
  unspoiled : Unspoiled d.platformGraph
  state : d.platformGraph.graphState = .ready

section CheckTypes

variable {d d' d₀ : PlatformTables} {selectors : TreeMap String PlatformSelector}
  {unusedSelectors unusedSelectors' : TreeMap String String} {types : List (String × TargetType)}
  {platformType : String} {targetType : TargetType}

theorem checkType_compatible (hready : d.Ready)
    (hmem : platformTypeItem platformType ∈ d.platformGraph.dependencies) {entry : TypeEntry}
    (h : d.checkType selectors platformType targetType = some (.ok entry)) :
    entry.compatible = d.parentsOf platformType := by
  unfold checkType at h
  dsimp only at h
  rw [(hready.unspoiled.getSortedDependencies hready.state hmem).1] at h
  split_ifs at h
  · cases h
  · obtain ⟨deps, -, h⟩ := Option.bind_eq_some_iff.mp h
    rw [Option.bind_eq_bind, Option.bind_some] at h
    obtain ⟨⟨platforms, used⟩, -, h⟩ := Option.bind_eq_some_iff.mp h
    cases h
    rfl

theorem checkType_same (hgraph : SameGraph d.platformGraph d₀.platformGraph) (hready : d.Ready)
    (hready₀ : d₀.Ready) (hdeclared : d.platformDeclaration = d₀.platformDeclaration)
    (hmem : platformTypeItem platformType ∈ d.platformGraph.dependencies) :
    d.checkType selectors platformType targetType =
      d₀.checkType selectors platformType targetType := by
  have horder : d.declarationOrder = d₀.declarationOrder := by
    unfold declarationOrder
    rw [hdeclared]
  have hmem₀ := hgraph.dependencies.mem_iff.mp hmem
  unfold checkType
  rw [getDirectDependencies_of_ready hready.state, getDirectDependencies_of_ready hready₀.state,
    (hready.unspoiled.getSortedDependencies hready.state hmem).1,
    (hready₀.unspoiled.getSortedDependencies hready₀.state hmem₀).1,
    hgraph.dependencies.getElem?_eq, sortedOf_congr hgraph.dependencies, horder]

theorem checkTypes_spec (hready : d.Ready)
    (hmem : ∀ p ∈ types, platformTypeItem p.1 ∈ d.platformGraph.dependencies)
    (hnodup : (types.map Prod.fst).Nodup)
    (h : checkTypes selectors types d unusedSelectors = some (d', unusedSelectors', none)) :
    d' = { d with
      platformsByType := d'.platformsByType
      compatiblePlatformTypes := d'.compatiblePlatformTypes } ∧
    (∀ platformType : String, d'.compatiblePlatformTypes[platformType]? =
      if platformType ∈ types.map Prod.fst then
        some (d.compatiblePlatformTypes.getD platformType [] ++ d.parentsOf platformType)
      else d.compatiblePlatformTypes[platformType]?) ∧
    ∀ platformType, platformType ∈ d'.platformsByType ↔
      platformType ∈ types.map Prod.fst ∨ platformType ∈ d.platformsByType := by
  induction types generalizing d unusedSelectors with
  | nil =>
    obtain ⟨rfl, -⟩ := Prod.mk.inj (Option.some_inj.mp h)
    exact ⟨rfl, fun _ ↦ rfl, fun _ ↦ (or_iff_right List.not_mem_nil).symm⟩
  | cons p types ih =>
    obtain ⟨platformType, targetType⟩ := p
    obtain ⟨hfirst, hrest⟩ := List.forall_mem_cons.mp hmem
    obtain ⟨hnew, hnodup⟩ := List.nodup_cons.mp hnodup
    obtain ⟨result, hresult, h⟩ := Option.bind_eq_some_iff.mp h
    cases result with
    | error message => cases h
    | ok entry =>
      have hentry := checkType_compatible hready hfirst hresult
      obtain ⟨hd', hcompatible, hbyType⟩ :=
        ih (d := d.addEntry platformType entry) ⟨hready.unspoiled, hready.state⟩ hrest hnodup h
      refine ⟨hd', fun platformType' ↦ ?_, fun platformType' ↦ ?_⟩
      · rw [hcompatible]
        by_cases heq : platformType' = platformType
        · subst heq
          have hmem' : platformType' ∈ ((platformType', targetType) :: types).map Prod.fst :=
            List.mem_cons_self
          rw [if_neg hnew, if_pos hmem', ← hentry]
          exact TreeMap.getElem?_insert_self
        · have hcompare : ¬ compare platformType platformType' = .eq := fun hcompare ↦
            heq (compare_eq_iff_eq.mp hcompare).symm
          have hget : (d.addEntry platformType entry).compatiblePlatformTypes[platformType']? =
              d.compatiblePlatformTypes[platformType']? :=
            TreeMap.getElem?_insert.trans (if_neg hcompare)
          rw [TreeMap.getD_eq_getD_getElem?, TreeMap.getD_eq_getD_getElem?, hget]
          exact if_congr (List.mem_cons.trans (or_iff_right heq)).symm rfl rfl
      · have hinsert : platformType' ∈ (d.addEntry platformType entry).platformsByType ↔
            platformType = platformType' ∨ platformType' ∈ d.platformsByType :=
          TreeMap.mem_insert.trans (or_congr_left compare_eq_iff_eq)
        rw [hbyType, hinsert, List.map_cons, List.mem_cons]
        tauto

/-- A copy finds the same platforms. -/
theorem checkTypes_same (hgraph : SameGraph d.platformGraph d₀.platformGraph) (hready : d.Ready)
    (hready₀ : d₀.Ready) (hdeclared : d.platformDeclaration = d₀.platformDeclaration)
    (hbyType : d.platformsByType = d₀.platformsByType)
    (hmem : ∀ p ∈ types, platformTypeItem p.1 ∈ d.platformGraph.dependencies)
    (h : checkTypes selectors types d unusedSelectors = some (d', unusedSelectors', none)) :
    ∃ d₀', checkTypes selectors types d₀ unusedSelectors = some (d₀', unusedSelectors', none) ∧
      d'.platformsByType = d₀'.platformsByType := by
  induction types generalizing d d₀ unusedSelectors with
  | nil =>
    obtain ⟨rfl, hunused⟩ := Prod.mk.inj (Option.some_inj.mp h)
    obtain ⟨rfl, -⟩ := Prod.mk.inj hunused
    exact ⟨d₀, rfl, hbyType⟩
  | cons p types ih =>
    obtain ⟨platformType, targetType⟩ := p
    obtain ⟨hfirst, hrest⟩ := List.forall_mem_cons.mp hmem
    obtain ⟨result, hresult, h⟩ := Option.bind_eq_some_iff.mp h
    have hresult₀ := (checkType_same hgraph hready hready₀ hdeclared hfirst).symm.trans hresult
    cases result with
    | error message => cases h
    | ok entry =>
      have hnext : SameGraph (d.addEntry platformType entry).platformGraph
        (d₀.addEntry platformType entry).platformGraph := hgraph
      obtain ⟨d₀', hcheck₀, hsame⟩ := ih hnext ⟨hready.unspoiled, hready.state⟩
        ⟨hready₀.unspoiled, hready₀.state⟩ hdeclared
        (congrArg (·.insert platformType entry.platforms) hbyType) hrest h
      refine ⟨d₀', ?_, hsame⟩
      unfold checkTypes
      rw [hresult₀]
      exact hcheck₀

end CheckTypes

/-! ### The chain of parents -/

section Chain

variable {d : PlatformTables} (h : Sound d) (hacyclic : Acyclic d.platformGraph.dependencies)

include h

theorem Sound.hasParent_mem {platformType parent : String} (hp : d.HasParent platformType parent) :
    platformType ∈ d.targetTypes ∧ d.targetTypes[parent]? = some .objectCode := by
  obtain ⟨⟨platformType', hin, ha⟩, hb⟩ := h.dependsOn _ _ hp
  rcases hb with ⟨platform, hname, hb⟩ | ⟨parent', hparent, hb⟩
  · exact absurd hb.symm (platformItem_ne hname)
  · exact ⟨platformTypeItem_inj.mp ha ▸ hin, platformTypeItem_inj.mp hb ▸ hparent⟩

theorem Sound.mem_of_hasParent {platformType parent : String}
    (hp : d.HasParent platformType parent) : parent ∈ d.targetTypes := by
  rw [TreeMap.mem_iff_isSome_getElem?, (h.hasParent_mem hp).2]
  rfl

/-- What the item of a platform type leads to, other than platforms, are the items of the types
above it. -/
theorem Sound.reflTransGen_iff {platformType platformType' : String} :
    ReflTransGen (DependsOn d.platformGraph.dependencies) (platformTypeItem platformType)
        (platformTypeItem platformType') ↔
      ReflTransGen d.HasParent platformType platformType' := by
  constructor
  · intro hreach
    have hall : ∀ b, ReflTransGen (DependsOn d.platformGraph.dependencies)
        (platformTypeItem platformType) b →
          (∃ platform, IsName platform ∧ b = platformItem platform) ∨
          ∃ parent, b = platformTypeItem parent ∧ ReflTransGen d.HasParent platformType parent := by
      intro b hb
      induction hb with
      | refl => exact Or.inr ⟨platformType, rfl, ReflTransGen.refl⟩
      | tail _ hstep ih =>
        obtain ⟨⟨middle, -, rfl⟩, hb⟩ := h.dependsOn _ _ hstep
        refine hb.imp_right fun ⟨parent, _, hparent⟩ ↦ ⟨parent, hparent, ?_⟩
        subst hparent
        rcases ih with ⟨platform, hname, heq⟩ | ⟨parent', heq, hparent'⟩
        · exact absurd heq.symm (platformItem_ne hname)
        · obtain rfl := platformTypeItem_inj.mp heq
          exact hparent'.tail hstep
    rcases hall _ hreach with ⟨platform, hname, heq⟩ | ⟨parent, heq, hparent⟩
    · exact absurd heq.symm (platformItem_ne hname)
    · exact platformTypeItem_inj.mp heq ▸ hparent
  · exact fun hreach ↦ hreach.lift platformTypeItem fun _ _ hp ↦ hp

include hacyclic

omit h in
theorem not_transGen_hasParent (platformType : String) :
    ¬ TransGen d.HasParent platformType platformType := fun hcycle ↦
  hacyclic _ (hcycle.lift platformTypeItem fun _ _ hp ↦ hp)

/-- The types that a check finds above a platform type are the chain of its parents, the nearest
one first. -/
theorem Sound.isChain_parentsOf (hproper : Proper d.platformGraph.dependencies)
    {platformType : String} (hin : platformType ∈ d.targetTypes) :
    IsChain d.HasParent platformType (d.parentsOf platformType) := by
  have hsorted : SortedFrom d.platformGraph.dependencies (platformTypeItem platformType)
      (sortedOf d.platformGraph.dependencies (platformTypeItem platformType)) :=
    searched_addRoot hproper (h.mem platformType hin)
  have hordered := (hsorted.ordered fun b _ ↦ hacyclic b).transGen
  have hmemSorted := hsorted.mem_iff
  have hnodup := hsorted.nodup
  have hpairs := hordered.pairwise hnodup
  have hsplit := List.dropLast_append_getLast? (platformTypeItem platformType) hsorted.last
  unfold parentsOf
  generalize sortedOf d.platformGraph.dependencies (platformTypeItem platformType) = sorted
    at hsplit hmemSorted hnodup hpairs
  have hbefore := List.dropLast_sublist sorted
  have hlast : platformTypeItem platformType ∉ sorted.dropLast := fun hmem ↦ by
    rw [← hsplit] at hnodup
    exact List.disjoint_of_nodup_append hnodup hmem List.mem_cons_self
  have hreach : ∀ {parent}, platformTypeItem parent ∈ sorted.dropLast →
      ReflTransGen d.HasParent platformType parent := fun hmem ↦
    h.reflTransGen_iff.mp ((hmemSorted _).mp (hbefore.subset hmem)).2
  refine isChain_of_pairwise (not_transGen_hasParent hacyclic) (fun parent ↦ ?_) ?_
  · rw [List.mem_filterMap]
    constructor
    · rintro ⟨item, hmem, hitem⟩
      obtain ⟨rfl, -⟩ := matchPlatformType_eq_some_iff.mp hitem
      rw [List.mem_reverse] at hmem
      refine (reflTransGen_iff_eq_or_transGen.mp (hreach hmem)).resolve_left fun heq ↦ ?_
      exact hlast (heq ▸ hmem)
    · intro htrans
      have hparent : parent ∈ d.targetTypes := by
        obtain ⟨_, -, hstep⟩ := TransGen.tail'_iff.mp htrans
        exact h.mem_of_hasParent hstep
      have hmem := (hmemSorted _).mpr
        ⟨h.mem parent hparent, h.reflTransGen_iff.mpr htrans.to_reflTransGen⟩
      rw [← hsplit] at hmem
      refine ⟨platformTypeItem parent, List.mem_reverse.mpr ?_,
        matchPlatformType_eq_some_iff.mpr ⟨rfl, h.name parent hparent⟩⟩
      refine (List.mem_append.mp hmem).resolve_right fun hitem ↦ ?_
      obtain rfl := platformTypeItem_inj.mp (List.mem_singleton.mp hitem)
      exact not_transGen_hasParent hacyclic _ htrans
  · rw [List.pairwise_filterMap, List.pairwise_reverse]
    -- Of two types on the chain, the search finishes the one further up first.
    refine ((hpairs.sublist hbefore).and (hnodup.sublist hbefore)).imp_of_mem ?_
    rintro x y hx hy ⟨hnot, hne⟩ type hy' type' hx'
    obtain ⟨rfl, -⟩ := matchPlatformType_eq_some_iff.mp hx'
    obtain ⟨rfl, -⟩ := matchPlatformType_eq_some_iff.mp hy'
    refine (transGen_of_ne h.unique (hreach hy) (hreach hx)
      fun heq ↦ hne (by rw [heq])).resolve_right
      fun hup ↦ hnot ?_
    exact hup.lift platformTypeItem fun _ _ hp ↦ ⟨hp, h.mem _ (h.mem_of_hasParent hp)⟩

end Chain

end Abuild.PlatformTables
