import Abuild.Library.XmlElements
import Abuild.DumpData

/-!
What a document with the data of forests, trees and items tells, as `abuild_data.dtd` describes it:
records of the data, the elements that stand for them, and a reader that takes the records back from
the elements (`decode_toElement`).
-/

set_option autoImplicit false
set_option relaxedAutoImplicit false

namespace Abuild

namespace DumpData

open Xml (Element)

/-! ### Records -/

structure PlatformTypeRecord where
  name : String
  parent : String
  targetType : TargetType
  platforms : List (String × Bool)

structure DependencyRecord where
  name : String
  platformType : String
  flags : List String

structure TraitRecord where
  name : String
  referents : List String

structure ItemRecord where
  name : String
  description : String
  homeForest : ℕ
  absolutePath : String
  backingDepth : ℕ
  hasShadowedReferences : Bool
  visibleTo : String
  targetType : TargetType
  isPlugin : Bool
  serial : Bool
  buildAlsoTrees : List BuildAlso
  buildAlsoItems : List BuildAlso
  declaredDependencies : List DependencyRecord
  expandedDependencies : List String
  omittedDependencies : List String
  platformTypes : List String
  buildablePlatforms : List String
  supportedFlags : List String
  traits : List TraitRecord

structure TreeRecord where
  name : String
  absolutePath : String
  homeForest : ℕ
  backingDepth : ℕ
  platformData : List PlatformTypeRecord
  supportedTraits : List String
  plugins : List String
  declaredTreeDeps : List String
  expandedTreeDeps : List String
  omittedTreeDeps : List String
  items : List ItemRecord

structure ForestRecord where
  id : ℕ
  absolutePath : String
  backingAreas : List ℕ
  deletedTrees : List String
  deletedItems : List String
  globalPlugins : List String
  trees : List TreeRecord

structure DataRecord where
  errors : Bool
  platformData : List PlatformTypeRecord
  supportedTraits : List String
  forests : List ForestRecord

/-! ### Elements -/

/-- The attributes of the elements, in their order. -/
def attlist : String → List String
  | "abuild-data" => ["version", "errors"]
  | "platform-type" => ["name", "parent", "target-type"]
  | "platform" => ["name", "selected"]
  | "forest" => ["id", "absolute-path"]
  | "backing-area" => ["forest"]
  | "build-tree" => ["name", "absolute-path", "home-forest", "backing-depth"]
  | "build-item" =>
    ["name", "description", "home-forest", "absolute-path", "backing-depth",
      "has-shadowed-references", "visible-to", "target-type", "is-plugin", "serial"]
  | "build-also" => ["name", "is-tree", "desc", "with-tree-deps"]
  | "dependency" => ["name", "platform-type"]
  | "supported-trait" | "deleted-tree" | "deleted-item" | "plugin" | "tree-dependency" | "flag"
  | "supported-flag" | "trait" | "trait-referent" => ["name"]
  | _ => []

/-- The reference to a forest. -/
def forestId (id : ℕ) : String := "f-" ++ toString id

/-- An attribute that is left out when its value is empty. -/
def optionalText (key value : String) : List (String × String) :=
  if value.isEmpty then [] else [(key, value)]

/-- An attribute that is left out when it is false. -/
def optionalFlag (key : String) (b : Bool) : List (String × String) :=
  if b then [(key, "1")] else []

def boolean (b : Bool) : String := if b then "1" else "0"

def nameElement (child name : String) : Element := ⟨child, [("name", name)], []⟩

/-- Elements in an element of their own, which is left out when there are none. -/
def group (tag : String) (es : List Element) : List Element :=
  if es.isEmpty then [] else [⟨tag, [], es⟩]

def nameElements (tag child : String) (names : List String) : List Element :=
  group tag (names.map (nameElement child))

def platformElement (platform : String × Bool) : Element :=
  ⟨"platform", [("name", platform.1), ("selected", boolean platform.2)], []⟩

def PlatformTypeRecord.toElement (r : PlatformTypeRecord) : Element where
  name := "platform-type"
  attributes := [("name", r.name)] ++ optionalText "parent" r.parent ++
    [("target-type", r.targetType.getName)]
  children := r.platforms.map platformElement

def platformDataElement (types : List PlatformTypeRecord) : Element :=
  ⟨"platform-data", [], types.map PlatformTypeRecord.toElement⟩

def buildAlsoElement (b : BuildAlso) : Element where
  name := "build-also"
  attributes := [("name", b.name)] ++ optionalFlag "is-tree" b.isTree ++
    optionalFlag "desc" b.desc ++
    optionalFlag "with-tree-deps" b.withTreeDeps
  children := []

def DependencyRecord.toElement (r : DependencyRecord) : Element where
  name := "dependency"
  attributes := [("name", r.name)] ++ optionalText "platform-type" r.platformType
  children := r.flags.map (nameElement "flag")

def TraitRecord.toElement (r : TraitRecord) : Element where
  name := "trait"
  attributes := [("name", r.name)]
  children := r.referents.map (nameElement "trait-referent")

def ItemRecord.toElement (r : ItemRecord) : Element where
  name := "build-item"
  attributes := [("name", r.name)] ++ optionalText "description" r.description ++
    [("home-forest", forestId r.homeForest), ("absolute-path", r.absolutePath),
      ("backing-depth", toString r.backingDepth)] ++
    optionalFlag "has-shadowed-references" r.hasShadowedReferences ++
    optionalText "visible-to" r.visibleTo ++
    [("target-type", r.targetType.getName), ("is-plugin", boolean r.isPlugin)] ++
    optionalFlag "serial" r.serial
  children := group "build-also-trees" (r.buildAlsoTrees.map buildAlsoElement) ++
    group "build-also-items" (r.buildAlsoItems.map buildAlsoElement) ++
    group "declared-dependencies" (r.declaredDependencies.map DependencyRecord.toElement) ++
    nameElements "expanded-dependencies" "dependency" r.expandedDependencies ++
    nameElements "omitted-dependencies" "dependency" r.omittedDependencies ++
    nameElements "platform-types" "platform-type" r.platformTypes ++
    nameElements "buildable-platforms" "platform" r.buildablePlatforms ++
    nameElements "supported-flags" "supported-flag" r.supportedFlags ++
    group "traits" (r.traits.map TraitRecord.toElement)

def TreeRecord.toElement (r : TreeRecord) : Element where
  name := "build-tree"
  attributes := [("name", r.name), ("absolute-path", r.absolutePath),
    ("home-forest", forestId r.homeForest), ("backing-depth", toString r.backingDepth)]
  children := [platformDataElement r.platformData] ++
    nameElements "supported-traits" "supported-trait" r.supportedTraits ++
    nameElements "plugins" "plugin" r.plugins ++
    nameElements "declared-tree-dependencies" "tree-dependency" r.declaredTreeDeps ++
    nameElements "expanded-tree-dependencies" "tree-dependency" r.expandedTreeDeps ++
    nameElements "omitted-tree-dependencies" "tree-dependency" r.omittedTreeDeps ++
    r.items.map ItemRecord.toElement

def backingAreaElement (id : ℕ) : Element := ⟨"backing-area", [("forest", forestId id)], []⟩

def ForestRecord.toElement (r : ForestRecord) : Element where
  name := "forest"
  attributes := [("id", forestId r.id), ("absolute-path", r.absolutePath)]
  children := r.backingAreas.map backingAreaElement ++
    nameElements "deleted-trees" "deleted-tree" r.deletedTrees ++
    nameElements "deleted-items" "deleted-item" r.deletedItems ++
    nameElements "global-plugins" "plugin" r.globalPlugins ++
    r.trees.map TreeRecord.toElement

def DataRecord.toElement (r : DataRecord) : Element where
  name := "abuild-data"
  attributes := [("version", "2")] ++ optionalFlag "errors" r.errors
  children := [platformDataElement r.platformData] ++
    nameElements "supported-traits" "supported-trait" r.supportedTraits ++
    r.forests.map ForestRecord.toElement

/-! ### The reader -/

def valueOf (key : String) (e : Element) : Option String := e.attributes.lookup key

def isSet (key : String) (e : Element) : Bool := valueOf key e = some "1"

/-- The elements of a name. -/
def named (tag : String) (es : List Element) : List Element := es.filter (·.name = tag)

/-- What is in the elements of a name. -/
def inside (tag : String) (es : List Element) : List Element :=
  (named tag es).flatMap Element.children

def readNames (tag : String) (es : List Element) : Option (List String) :=
  (inside tag es).mapM (valueOf "name")

def readForestId (text : String) : Option ℕ :=
  ((text.toList.dropPrefix? "f-".toList).map String.ofList).bind String.toNat?

def readPlatform (e : Element) : Option (String × Bool) :=
  (valueOf "name" e).map fun name ↦ (name, isSet "selected" e)

def readPlatformType (e : Element) : Option PlatformTypeRecord := do
  let name ← valueOf "name" e
  let targetType ← TargetType.getID (← valueOf "target-type" e)
  let platforms ← (named "platform" e.children).mapM readPlatform
  some { name, parent := (valueOf "parent" e).getD "", targetType, platforms }

def readBuildAlso (e : Element) : Option BuildAlso :=
  (valueOf "name" e).map fun name ↦
    { name, isTree := isSet "is-tree" e, desc := isSet "desc" e,
      withTreeDeps := isSet "with-tree-deps" e }

def readDependency (e : Element) : Option DependencyRecord := do
  let name ← valueOf "name" e
  let flags ← (named "flag" e.children).mapM (valueOf "name")
  some { name, platformType := (valueOf "platform-type" e).getD "", flags }

def readTrait (e : Element) : Option TraitRecord := do
  let name ← valueOf "name" e
  let referents ← (named "trait-referent" e.children).mapM (valueOf "name")
  some { name, referents }

def readItem (e : Element) : Option ItemRecord := do
  let name ← valueOf "name" e
  let homeForest ← readForestId (← valueOf "home-forest" e)
  let absolutePath ← valueOf "absolute-path" e
  let backingDepth ← (← valueOf "backing-depth" e).toNat?
  let targetType ← TargetType.getID (← valueOf "target-type" e)
  let buildAlsoTrees ← (inside "build-also-trees" e.children).mapM readBuildAlso
  let buildAlsoItems ← (inside "build-also-items" e.children).mapM readBuildAlso
  let declaredDependencies ← (inside "declared-dependencies" e.children).mapM readDependency
  let expandedDependencies ← readNames "expanded-dependencies" e.children
  let omittedDependencies ← readNames "omitted-dependencies" e.children
  let platformTypes ← readNames "platform-types" e.children
  let buildablePlatforms ← readNames "buildable-platforms" e.children
  let supportedFlags ← readNames "supported-flags" e.children
  let traits ← (inside "traits" e.children).mapM readTrait
  some { name, description := (valueOf "description" e).getD "", homeForest, absolutePath,
         backingDepth, hasShadowedReferences := isSet "has-shadowed-references" e,
         visibleTo := (valueOf "visible-to" e).getD "", targetType,
         isPlugin := isSet "is-plugin" e, serial := isSet "serial" e, buildAlsoTrees,
         buildAlsoItems, declaredDependencies, expandedDependencies, omittedDependencies,
         platformTypes, buildablePlatforms, supportedFlags, traits }

def readPlatformData (es : List Element) : Option (List PlatformTypeRecord) :=
  (inside "platform-data" es).mapM readPlatformType

def readTree (e : Element) : Option TreeRecord := do
  let name ← valueOf "name" e
  let absolutePath ← valueOf "absolute-path" e
  let homeForest ← readForestId (← valueOf "home-forest" e)
  let backingDepth ← (← valueOf "backing-depth" e).toNat?
  let platformData ← readPlatformData e.children
  let supportedTraits ← readNames "supported-traits" e.children
  let plugins ← readNames "plugins" e.children
  let declaredTreeDeps ← readNames "declared-tree-dependencies" e.children
  let expandedTreeDeps ← readNames "expanded-tree-dependencies" e.children
  let omittedTreeDeps ← readNames "omitted-tree-dependencies" e.children
  let items ← (named "build-item" e.children).mapM readItem
  some { name, absolutePath, homeForest, backingDepth, platformData, supportedTraits, plugins,
         declaredTreeDeps, expandedTreeDeps, omittedTreeDeps, items }

def readForest (e : Element) : Option ForestRecord := do
  let id ← readForestId (← valueOf "id" e)
  let absolutePath ← valueOf "absolute-path" e
  let backingAreas ← (named "backing-area" e.children).mapM fun e ↦
    (valueOf "forest" e).bind readForestId
  let deletedTrees ← readNames "deleted-trees" e.children
  let deletedItems ← readNames "deleted-items" e.children
  let globalPlugins ← readNames "global-plugins" e.children
  let trees ← (named "build-tree" e.children).mapM readTree
  some { id, absolutePath, backingAreas, deletedTrees, deletedItems, globalPlugins, trees }

/-- What the root of a document tells. -/
def decode (e : Element) : Option DataRecord := do
  let platformData ← readPlatformData e.children
  let supportedTraits ← readNames "supported-traits" e.children
  let forests ← (named "forest" e.children).mapM readForest
  some { errors := isSet "errors" e, platformData, supportedTraits, forests }

/-! ### Records can be read back -/

section Lists

variable {α β : Type}

theorem mapM_map_eq_some {read : β → Option α} (write : α → β)
    (h : ∀ a, read (write a) = some a) (l : List α) : (l.map write).mapM read = some l := by
  induction l with
  | nil => rfl
  | cons a l ih =>
    rw [List.map_cons, List.mapM_cons, h, ih]
    rfl

variable {tag : String} {es es' : List Element}

@[simp] theorem named_append : named tag (es ++ es') = named tag es ++ named tag es' :=
  List.filter_append ..

theorem named_map (write : α → Element) (h : ∀ a, (write a).name = tag) (l : List α) :
    named tag (l.map write) = l.map write := by
  refine List.filter_eq_self.mpr fun e he ↦ ?_
  obtain ⟨a, -, rfl⟩ := List.mem_map.mp he
  exact decide_eq_true (h a)

theorem named_map_of_ne (write : α → Element) (h : ∀ a, (write a).name ≠ tag) (l : List α) :
    named tag (l.map write) = [] := by
  refine List.filter_eq_nil_iff.mpr fun e he ↦ ?_
  obtain ⟨a, -, rfl⟩ := List.mem_map.mp he
  rw [decide_eq_true_eq]
  exact h a

@[simp] theorem inside_append : inside tag (es ++ es') = inside tag es ++ inside tag es' := by
  unfold inside
  rw [named_append, List.flatMap_append]

@[simp] theorem named_group_of_ne {tag' : String} (h : tag' ≠ tag) :
    named tag (group tag' es) = [] := by
  unfold named group
  split_ifs
  · rfl
  · simp [h]

@[simp] theorem inside_group : inside tag (group tag es) = es := by
  unfold inside named group
  split_ifs with hes
  · rw [List.isEmpty_iff.mp hes]
    rfl
  · simp

theorem inside_group_of_ne {tag' : String} (h : tag' ≠ tag) : inside tag (group tag' es) = [] := by
  unfold inside
  rw [named_group_of_ne h]
  rfl

theorem inside_map_of_ne (write : α → Element) (h : ∀ a, (write a).name ≠ tag) (l : List α) :
    inside tag (l.map write) = [] := by
  unfold inside
  rw [named_map_of_ne write h]
  rfl

theorem mapM_named_map {read : Element → Option α} (write : α → Element)
    (h : ∀ a, (write a).name = tag) (hread : ∀ a, read (write a) = some a) (l : List α) :
    (named tag (l.map write)).mapM read = some l := by
  rw [named_map write h]
  exact mapM_map_eq_some write hread l

end Lists

@[simp] theorem valueOf_mk (key name : String) (attributes : List (String × String))
    (children : List Element) :
    valueOf key ⟨name, attributes, children⟩ = attributes.lookup key := rfl

theorem lookup_cons (key key' value : String) (l : List (String × String)) :
    ((key', value) :: l).lookup key = if key = key' then some value else l.lookup key := by
  by_cases hkey : key = key'
  · simp [hkey]
  · have hbeq : (key == key') = false := beq_false_of_ne hkey
    simp [List.lookup, hkey, hbeq]

theorem lookup_optionalText (key key' value : String) :
    (optionalText key' value).lookup key =
      if key = key' then if value = "" then none else some value else none := by
  unfold optionalText
  by_cases hvalue : value = ""
  · simp [hvalue]
  · by_cases hkey : key = key' <;> simp [hvalue, hkey]

theorem lookup_optionalFlag (key key' : String) (b : Bool) :
    (optionalFlag key' b).lookup key =
      if key = key' then if b then some "1" else none else none := by
  unfold optionalFlag
  by_cases hkey : key = key' <;> cases b <;> simp [hkey]

/-- A text that has been left out because it is empty. -/
theorem getD_ite (value : String) : (if value = "" then none else some value).getD "" = value := by
  split_ifs with h
  · exact h.symm
  · rfl

theorem boolean_eq_one (b : Bool) : decide (boolean b = "1") = b := by
  cases b <;> rfl

theorem readForestId_forestId (id : ℕ) : readForestId (forestId id) = some id := by
  have hdrop : (forestId id).toList.dropPrefix? "f-".toList = some (toString id).toList := by
    rw [List.dropPrefix?_eq_some_iff]
    exact ⟨"f-".toList, String.toList_append, beq_self_eq_true _⟩
  unfold readForestId
  rw [hdrop, Option.map_some, String.ofList_toList]
  exact Nat.toNat?_repr id

theorem readPlatform_platformElement (platform : String × Bool) :
    readPlatform (platformElement platform) = some platform := by
  obtain ⟨name, selected⟩ := platform
  cases selected <;> rfl

theorem valueOf_nameElement (child name : String) :
    valueOf "name" (nameElement child name) = some name :=
  rfl

theorem mapM_nameElement (child : String) (names : List String) :
    (names.map (nameElement child)).mapM (valueOf "name") = some names :=
  mapM_map_eq_some (nameElement child) (valueOf_nameElement child) names

theorem readPlatformType_toElement (r : PlatformTypeRecord) :
    readPlatformType r.toElement = some r := by
  have hplatforms : (named "platform" (r.platforms.map platformElement)).mapM readPlatform =
      some r.platforms :=
    mapM_named_map platformElement (fun _ ↦ rfl) readPlatform_platformElement r.platforms
  simp [readPlatformType, PlatformTypeRecord.toElement, hplatforms, List.lookup_append, lookup_cons,
    lookup_optionalText, Interface.getID_getName, getD_ite]

theorem readPlatformData_append (types : List PlatformTypeRecord) {es : List Element}
    (h : inside "platform-data" es = []) :
    readPlatformData ([platformDataElement types] ++ es) = some types := by
  have hinside : inside "platform-data" [platformDataElement types] =
      types.map PlatformTypeRecord.toElement := by
    simp [inside, named, platformDataElement]
  unfold readPlatformData
  rw [inside_append, hinside, h, List.append_nil]
  exact mapM_map_eq_some PlatformTypeRecord.toElement readPlatformType_toElement types

theorem readBuildAlso_buildAlsoElement (b : BuildAlso) :
    readBuildAlso (buildAlsoElement b) = some b := by
  simp [readBuildAlso, buildAlsoElement, isSet, List.lookup_append, lookup_cons,
    lookup_optionalFlag]

theorem readDependency_toElement (r : DependencyRecord) : readDependency r.toElement = some r := by
  have hflags : (named "flag" (r.flags.map (nameElement "flag"))).mapM (valueOf "name") =
      some r.flags :=
    mapM_named_map (nameElement "flag") (fun _ ↦ rfl) (valueOf_nameElement "flag") r.flags
  simp [readDependency, DependencyRecord.toElement, hflags, lookup_cons, lookup_optionalText,
    getD_ite]

theorem readTrait_toElement (r : TraitRecord) : readTrait r.toElement = some r := by
  have hreferents : (named "trait-referent" (r.referents.map (nameElement "trait-referent"))).mapM
      (valueOf "name") = some r.referents :=
    mapM_named_map (nameElement "trait-referent") (fun _ ↦ rfl)
      (valueOf_nameElement "trait-referent") r.referents
  simp [readTrait, TraitRecord.toElement, hreferents]

theorem readItem_toElement (r : ItemRecord) : readItem r.toElement = some r := by
  have htrees := mapM_map_eq_some buildAlsoElement readBuildAlso_buildAlsoElement r.buildAlsoTrees
  have hitems := mapM_map_eq_some buildAlsoElement readBuildAlso_buildAlsoElement r.buildAlsoItems
  have hdeclared := mapM_map_eq_some DependencyRecord.toElement readDependency_toElement
    r.declaredDependencies
  have htraits := mapM_map_eq_some TraitRecord.toElement readTrait_toElement r.traits
  simp [readItem, ItemRecord.toElement, readNames, nameElements, inside_group_of_ne, isSet,
    List.lookup_append, lookup_cons, lookup_optionalText, lookup_optionalFlag,
    Interface.getID_getName, getD_ite, boolean_eq_one, readForestId_forestId, mapM_nameElement,
    htrees, hitems, hdeclared, htraits, -List.mapM_map]

theorem named_platformDataElement {tag : String} (h : tag ≠ "platform-data")
    (types : List PlatformTypeRecord) (es : List Element) :
    named tag (platformDataElement types :: es) = named tag es :=
  List.filter_cons_of_neg (by simp [platformDataElement, h.symm])

theorem inside_platformDataElement {tag : String} (h : tag ≠ "platform-data")
    (types : List PlatformTypeRecord) (es : List Element) :
    inside tag (platformDataElement types :: es) = inside tag es := by
  unfold inside
  rw [named_platformDataElement h]

theorem readTree_toElement (r : TreeRecord) : readTree r.toElement = some r := by
  have hinside : ∀ tag, tag ≠ "build-item" → inside tag (r.items.map ItemRecord.toElement) = [] :=
    fun tag htag ↦ inside_map_of_ne ItemRecord.toElement (fun _ ↦ htag.symm) r.items
  have hplatforms : readPlatformData r.toElement.children = some r.platformData := by
    unfold TreeRecord.toElement
    dsimp only
    simp only [List.append_assoc]
    refine readPlatformData_append r.platformData ?_
    simp [nameElements, inside_group_of_ne, hinside]
  have hitems : (named "build-item" r.toElement.children).mapM readItem = some r.items := by
    have hnamed : named "build-item" r.toElement.children = r.items.map ItemRecord.toElement := by
      unfold TreeRecord.toElement
      simp [nameElements, named_platformDataElement, named_map ItemRecord.toElement fun _ ↦ rfl,
        -List.singleton_append, -List.cons_append]
    rw [hnamed]
    exact mapM_map_eq_some ItemRecord.toElement readItem_toElement r.items
  unfold readTree
  rw [hplatforms, hitems]
  simp [TreeRecord.toElement, readNames, nameElements, inside_group_of_ne,
    inside_platformDataElement, hinside, lookup_cons, readForestId_forestId, mapM_nameElement,
    -List.mapM_map]

theorem readForest_toElement (r : ForestRecord) : readForest r.toElement = some r := by
  have hareas : (r.backingAreas.map backingAreaElement).mapM
      (fun e ↦ (valueOf "forest" e).bind readForestId) = some r.backingAreas :=
    mapM_map_eq_some backingAreaElement readForestId_forestId r.backingAreas
  have htrees := mapM_map_eq_some TreeRecord.toElement readTree_toElement r.trees
  have hareasInside : ∀ tag, tag ≠ "backing-area" →
      inside tag (r.backingAreas.map backingAreaElement) = [] :=
    fun tag htag ↦ inside_map_of_ne backingAreaElement (fun _ ↦ htag.symm) r.backingAreas
  have htreesInside : ∀ tag, tag ≠ "build-tree" →
      inside tag (r.trees.map TreeRecord.toElement) = [] :=
    fun tag htag ↦ inside_map_of_ne TreeRecord.toElement (fun _ ↦ htag.symm) r.trees
  have hareasNamed : ∀ tag, tag ≠ "backing-area" →
      named tag (r.backingAreas.map backingAreaElement) = [] :=
    fun tag htag ↦ named_map_of_ne backingAreaElement (fun _ ↦ htag.symm) r.backingAreas
  have htreesNamed : ∀ tag, tag ≠ "build-tree" →
      named tag (r.trees.map TreeRecord.toElement) = [] :=
    fun tag htag ↦ named_map_of_ne TreeRecord.toElement (fun _ ↦ htag.symm) r.trees
  unfold readForest
  simp [ForestRecord.toElement, readNames, nameElements, inside_group_of_ne, hareasInside,
    htreesInside, hareasNamed, htreesNamed, named_map backingAreaElement fun _ ↦ rfl,
    named_map TreeRecord.toElement fun _ ↦ rfl, lookup_cons, readForestId_forestId,
    mapM_nameElement, hareas, htrees, -List.mapM_map]

/-- What a record says can be read back from the element that stands for it. -/
theorem decode_toElement (r : DataRecord) : decode r.toElement = some r := by
  have hinside : ∀ tag, tag ≠ "forest" → inside tag (r.forests.map ForestRecord.toElement) = [] :=
    fun tag htag ↦ inside_map_of_ne ForestRecord.toElement (fun _ ↦ htag.symm) r.forests
  have hplatforms : readPlatformData r.toElement.children = some r.platformData := by
    unfold DataRecord.toElement
    dsimp only
    simp only [List.append_assoc]
    refine readPlatformData_append r.platformData ?_
    simp [nameElements, inside_group_of_ne, hinside]
  have hforests : (named "forest" r.toElement.children).mapM readForest = some r.forests := by
    have hnamed : named "forest" r.toElement.children = r.forests.map ForestRecord.toElement := by
      unfold DataRecord.toElement
      simp [nameElements, named_platformDataElement,
        named_map ForestRecord.toElement fun _ ↦ rfl]
    rw [hnamed]
    exact mapM_map_eq_some ForestRecord.toElement readForest_toElement r.forests
  unfold decode
  rw [hplatforms, hforests]
  simp [DataRecord.toElement, readNames, nameElements, inside_platformDataElement,
    hinside, isSet, lookup_cons, lookup_optionalFlag,
    mapM_nameElement, -List.mapM_map]

end DumpData

end Abuild
