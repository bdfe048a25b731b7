import Abuild.PlatformTables.Additions
import Abuild.PlatformTypes.Checked

/-!
How platforms and their types are read, from `Abuild-init.cc`. `loadPlatformData` takes them from
the file `platform-types` and from what the program `list_platforms` prints; for a native compiler
it puts together a platform with what the program `get_native_platform_data` has printed, which is
not compared with a pattern. The text of a program has bytes as its characters.
-/

set_option autoImplicit false
set_option relaxedAutoImplicit false

namespace Abuild

open Std (TreeMap)

/-! ### The native platform -/

structure NativeData where
  os : String
  cpu : String
  toolset : String
deriving DecidableEq, Repr

namespace NativeData

def cleanChar (c : Char) : Char :=
  let c := c.toLower
  if c.isLower || c.isDigit || c = '_' || c = '-' then c else '_'

/-- `clean_component` of `get_native_platform_data`. -/
def cleanComponent (text : String) : String := String.ofList (text.toList.map cleanChar)

/-- What `get_native_platform_data` prints of the components that it has found. -/
def printed (os cpu toolset : String) : String :=
  cleanComponent os ++ " " ++ cleanComponent cpu ++ " " ++ cleanComponent toolset ++ "\n"

/-- `initializePlatforms` needs three words. -/
def ofOutput (nativePlatformData : String) : Option NativeData :=
  match Util.splitBySpace nativePlatformData with
  | [os, cpu, toolset] => some ⟨os, cpu, toolset⟩
  | _ => none

end NativeData

namespace PlatformTables

open PlatformSelector (isName isComponentChar)

/-! ### The lines -/

/-- `\s*(?:#.*)?` -/
def isIgnored (line : String) : Bool :=
  let rest := line.toList.dropWhile KeyVal.isSpace
  rest.isEmpty || rest.head? = some '#'

/-- Some `[a-zA-Z0-9_-]+` with dots between them. -/
def areNames (least most : ℕ) (text : String) : Bool :=
  let components := Util.split '.' text
  least ≤ components.length && components.length ≤ most && components.all isName

/-- `platform-type (component)(?: -parent (component))?` -/
def matchTypeLine (line : String) : Option Call :=
  match Util.split ' ' line with
  | ["platform-type", platformType] =>
    if isName platformType then some (.addPlatformType platformType .objectCode "") else none
  | ["platform-type", platformType, "-parent", parentType] =>
    if isName platformType && isName parentType then
      some (.addPlatformType platformType .objectCode parentType)
    else none
  | _ => none

def platformCall (lowpri : Bool) (platform type : String) : Option Call :=
  if areNames 4 5 platform && isName type then some (.addPlatform platform type lowpri) else none

def nativeCall (data : NativeData) (lowpri : Bool) (compiler : String) : Option Call :=
  if areNames 1 2 compiler then
    some (.addPlatform (data.os ++ "." ++ data.cpu ++ "." ++ data.toolset ++ "." ++ compiler)
      ptNative lowpri)
  else none

/-- `platform (-lowpri )?(component4or5) -type (component)` and
`native-compiler (-lowpri )?(component1or2)`. -/
def matchPlatformLine (data : NativeData) (line : String) : Option Call :=
  match Util.split ' ' line with
  | ["platform", platform, "-type", type] => platformCall false platform type
  | ["platform", "-lowpri", platform, "-type", type] => platformCall true platform type
  | ["native-compiler", compiler] => nativeCall data false compiler
  | ["native-compiler", "-lowpri", compiler] => nativeCall data true compiler
  | _ => none

/-- The message of an exception is reported with the place of the line. -/
def loadLine (readCall : String → Option Call) (message : String) (d : PlatformTables)
    (line : FileLocation × String) : Option (PlatformTables × List ErrorMessage) :=
  if isIgnored line.2 then some (d, [])
  else
    match readCall line.2 with
    | some c => (d.attempt c).map fun r ↦ (r.1, r.2.toList.map fun text ↦ (line.1, text))
    | none => some (d, [(line.1, message)])

def loadLines (readCall : String → Option Call) (message : String) :
    List (FileLocation × String) → PlatformTables → Option (PlatformTables × List ErrorMessage)
  | [], d => some (d, [])
  | line :: lines, d => do
    let (d, errors) ← loadLine readCall message d line
    let (d, errors') ← loadLines readCall message lines d
    some (d, errors ++ errors')

/-- A directory with platform data: the lines of its two sources, of which a missing one has
none. -/
structure PlatformSource where
  dir : String
  typeLines : List String
  platformLines : List String

/-- The tables with the selectors that have not been used so far, and the errors. After an exception
of `check` the program ends. -/
def loadPlatformData (data : NativeData) (selectors : TreeMap String PlatformSelector)
    (d : PlatformTables) (unusedSelectors : TreeMap String String) (source : PlatformSource) :
    Option (PlatformTables × TreeMap String String × List ErrorMessage) := do
  let typeLines := source.typeLines.mapIdx fun i line ↦
    (FileLocation.new (source.dir ++ "/platform-types") (i + 1) 0, line)
  let platformLines := source.platformLines.map fun line ↦
    (FileLocation.new (source.dir ++ "/list_platforms") 0 0, line)
  let (d, errors) ← loadLines matchTypeLine "invalid platform type specification" typeLines d
  let (d, errors') ← loadLines (matchPlatformLine data) "invalid syntax in list_platforms output"
    platformLines d
  match ← d.check selectors unusedSelectors with
  | (d, unusedSelectors, none) => some (d, unusedSelectors, errors ++ errors')
  | _ => none

/-- The platform data of several directories, one after the other. -/
def loadAll (data : NativeData) (selectors : TreeMap String PlatformSelector) :
    List PlatformSource → PlatformTables → TreeMap String String → Option PlatformTables
  | [], d, _ => some d
  | source :: sources, d, unusedSelectors => do
    let (d, unusedSelectors, _) ← loadPlatformData data selectors d unusedSelectors source
    loadAll data selectors sources d unusedSelectors

end PlatformTables

/-! ### The components that are read -/

open PlatformSelector (isName isComponentChar)

/-- What the names of platforms consist of. -/
structure IsPlatformText (platform : String) : Prop where
  nonempty : platform ≠ ""
  chars : ∀ c ∈ platform.toList, isComponentChar c = true ∨ c = '.'

theorem IsPlatformText.append {front back : String} (hfront : IsPlatformText front)
    (hback : IsPlatformText back) : IsPlatformText (front ++ "." ++ back) where
  nonempty h :=
    hfront.nonempty (String.append_eq_empty_iff.mp (String.append_eq_empty_iff.mp h).1).1
  chars := by
    rw [String.toList_append, String.toList_append, List.append_assoc]
    refine List.forall_mem_append.mpr ⟨hfront.chars, List.forall_mem_cons.mpr ⟨Or.inr rfl, ?_⟩⟩
    exact hback.chars

theorem isPlatformText_of_isName {name : String} (h : isName name = true) :
    IsPlatformText name := by
  obtain ⟨hnonempty, hchars⟩ := Bool.and_eq_true_iff.mp h
  refine ⟨?_, fun c hc ↦ Or.inl (List.all_eq_true.mp hchars c hc)⟩
  rintro rfl
  cases hnonempty

/-- Names with dots between them. -/
theorem isPlatformText_of_split {text : String} (h : (Util.split '.' text).all isName = true) :
    IsPlatformText text := by
  rw [List.all_eq_true] at h
  constructor
  · rintro rfl
    exact absurd (h "" (by decide)) (by decide)
  · intro c hc
    have hjoin : ".".intercalate (Util.split '.' text) = text := Util.join_split rfl text
    rw [← hjoin] at hc
    rcases Util.mem_join rfl hc with hdot | ⟨part, hpart, hc⟩
    · exact Or.inr hdot
    · exact (isPlatformText_of_isName (h part hpart)).chars c hc

namespace NativeData

theorem isComponentChar_cleanChar (c : Char) : isComponentChar (cleanChar c) = true := by
  unfold cleanChar isComponentChar Char.isAlphanum Char.isAlpha
  dsimp only
  split_ifs with h
  · simp only [Bool.or_eq_true] at h ⊢
    tauto
  · rfl

/-- The words that are read consist of characters that have been cleaned. -/
theorem chars_printed (os cpu toolset : String) :
    ∀ c ∈ (printed os cpu toolset).toList, isComponentChar c = true ∨ KeyVal.isSpace c = true := by
  have hclean : ∀ text : String, ∀ c ∈ (cleanComponent text).toList,
      isComponentChar c = true ∨ KeyVal.isSpace c = true := by
    intro text c hc
    unfold cleanComponent at hc
    rw [String.toList_ofList] at hc
    obtain ⟨c', -, rfl⟩ := List.mem_map.mp hc
    exact Or.inl (isComponentChar_cleanChar c')
  have hspace : ∀ c ∈ [' '], isComponentChar c = true ∨ KeyVal.isSpace c = true :=
    List.forall_mem_singleton.mpr (Or.inr rfl)
  have hnewline : ∀ c ∈ ['\n'], isComponentChar c = true ∨ KeyVal.isSpace c = true :=
    List.forall_mem_singleton.mpr (Or.inr rfl)
  unfold printed
  simp only [String.toList_append, List.forall_mem_append]
  exact ⟨⟨⟨⟨⟨hclean os, hspace⟩, hclean cpu⟩, hspace⟩, hclean toolset⟩, hnewline⟩

/-- The components of the native platform are names. -/
theorem isName_of_ofOutput {os cpu toolset : String} {data : NativeData}
    (h : ofOutput (printed os cpu toolset) = some data) :
    isName data.os = true ∧ isName data.cpu = true ∧ isName data.toolset = true := by
  have hword : ∀ word ∈ Util.splitBySpace (printed os cpu toolset), isName word = true := by
    intro word hword
    obtain ⟨hnonempty, hchars⟩ := PlatformTypes.of_mem_splitBySpace hword
    refine Bool.and_eq_true_iff.mpr ⟨?_, List.all_eq_true.mpr fun c hc ↦ ?_⟩
    · rw [Bool.not_eq_true', ← Bool.not_eq_true, String.isEmpty_iff]
      exact hnonempty
    · obtain ⟨hin, hspace⟩ := hchars c hc
      refine (chars_printed os cpu toolset c hin).resolve_right ?_
      rw [hspace]
      exact Bool.false_ne_true
  unfold ofOutput at h
  split at h
  · rename_i hwords
    rw [hwords] at hword
    obtain rfl := Option.some_inj.mp h
    exact ⟨hword _ (by simp), hword _ (by simp), hword _ (by simp)⟩
  · cases h

end NativeData

namespace PlatformTables

variable {data : NativeData} {d d' : PlatformTables} {c : Call}

/-- A call that a line may ask for: it declares a platform with such a name, or a type. -/
def Call.IsRead : Call → Prop
  | .addPlatformType _ _ _ => True
  | .addPlatform platform _ _ => IsPlatformText platform
  | .check _ _ => False

theorem isRead_of_platformCall {lowpri : Bool} {platform type : String}
    (h : platformCall lowpri platform type = some c) : c.IsRead := by
  unfold platformCall at h
  split_ifs at h with hnames
  obtain rfl := Option.some_inj.mp h
  have hplatform := (Bool.and_eq_true_iff.mp hnames).1
  exact isPlatformText_of_split (Bool.and_eq_true_iff.mp hplatform).2

theorem isRead_of_nativeCall (hos : isName data.os = true) (hcpu : isName data.cpu = true)
    (htoolset : isName data.toolset = true) {lowpri : Bool} {compiler : String}
    (h : nativeCall data lowpri compiler = some c) : c.IsRead := by
  unfold nativeCall at h
  split_ifs at h with hnames
  obtain rfl := Option.some_inj.mp h
  have hcompiler := isPlatformText_of_split (Bool.and_eq_true_iff.mp hnames).2
  exact (((isPlatformText_of_isName hos).append (isPlatformText_of_isName hcpu)).append
    (isPlatformText_of_isName htoolset)).append hcompiler

theorem isRead_of_matchPlatformLine (hos : isName data.os = true) (hcpu : isName data.cpu = true)
    (htoolset : isName data.toolset = true) (line : String)
    (h : matchPlatformLine data line = some c) : c.IsRead := by
  unfold matchPlatformLine at h
  split at h
  · exact isRead_of_platformCall h
  · exact isRead_of_platformCall h
  · exact isRead_of_nativeCall hos hcpu htoolset h
  · exact isRead_of_nativeCall hos hcpu htoolset h
  · cases h

theorem isRead_of_matchTypeLine (line : String) (h : matchTypeLine line = some c) : c.IsRead := by
  unfold matchTypeLine at h
  split at h
  · split_ifs at h
    obtain rfl := Option.some_inj.mp h
    trivial
  · split_ifs at h
    obtain rfl := Option.some_inj.mp h
    trivial
  · cases h

/-! ### The tables that are loaded -/

/-- Every platform of the tables has a name of the kind that is read. -/
def Readable (d : PlatformTables) : Prop :=
  ∀ platform ∈ d.platformDeclaration, IsPlatformText platform

theorem Readable.insert {platform : String} (h : Readable d) (hplatform : IsPlatformText platform)
    {n : ℤ} (hd : d'.platformDeclaration = d.platformDeclaration.insert platform n) :
    Readable d' := by
  intro p hp
  rw [hd] at hp
  rcases TreeMap.mem_insert.mp hp with heq | hp
  · exact compare_eq_iff_eq.mp heq ▸ hplatform
  · exact h p hp

theorem platformDeclaration_addPlatformType {platformType parentType : String}
    {targetType : TargetType} {message : Option String}
    (h : d.addPlatformType platformType targetType parentType = some (d', message)) :
    d'.platformDeclaration = d.platformDeclaration := by
  rcases addPlatformType_spec h with ⟨-, -, rfl⟩ | ⟨-, g, -, hrest⟩
  · rfl
  · rcases hrest with ⟨-, -, rfl⟩ | ⟨-, ⟨-, -, rfl⟩ | ⟨-, -, g', -, rfl⟩⟩ <;> rfl

theorem Readable.attempt {message : Option String} (h : Readable d) (hc : c.IsRead)
    (hattempt : d.attempt c = some (d', message)) : Readable d' := by
  cases c with
  | addPlatformType platformType targetType parentType =>
    unfold Readable
    rw [platformDeclaration_addPlatformType hattempt]
    exact h
  | addPlatform platform platformType lowpri =>
    rcases addPlatform_spec hattempt with ⟨-, -, rfl⟩ | ⟨-, g, -, hrest⟩
    · exact h
    · rcases hrest with ⟨-, -, rfl⟩ | ⟨-, -, g', -, rfl⟩ <;> exact h.insert hc rfl
  | check selectors unusedSelectors => exact hc.elim

theorem platformDeclaration_checkTypes {selectors : TreeMap String PlatformSelector}
    {types : List (String × TargetType)} {unusedSelectors unusedSelectors' : TreeMap String String}
    {message : Option String}
    (h : checkTypes selectors types d unusedSelectors = some (d', unusedSelectors', message)) :
    d'.platformDeclaration = d.platformDeclaration := by
  induction types generalizing d unusedSelectors with
  | nil =>
    obtain ⟨rfl, -⟩ := Prod.mk.inj (Option.some_inj.mp h)
    rfl
  | cons p types ih =>
    obtain ⟨result, -, h⟩ := Option.bind_eq_some_iff.mp h
    cases result with
    | error message =>
      obtain ⟨rfl, -⟩ := Prod.mk.inj (Option.some_inj.mp h)
      rfl
    | ok entry =>
      have hrest := ih (d := d.addEntry p.1 entry) h
      exact hrest

theorem Readable.check {selectors : TreeMap String PlatformSelector}
    {unusedSelectors unusedSelectors' : TreeMap String String} {message : Option String}
    (h : Readable d)
    (hcheck : d.check selectors unusedSelectors = some (d', unusedSelectors', message)) :
    Readable d' := by
  unfold PlatformTables.check at hcheck
  obtain ⟨⟨result, g⟩, -, hcheck⟩ := Option.bind_eq_some_iff.mp hcheck
  dsimp only at hcheck
  unfold Readable
  split_ifs at hcheck
  · rw [platformDeclaration_checkTypes hcheck]
    exact h
  · obtain ⟨errors, -, hcheck⟩ := Option.bind_eq_some_iff.mp hcheck
    obtain ⟨rfl, -⟩ := Prod.mk.inj (Option.some_inj.mp hcheck)
    exact h

theorem Readable.loadLines {readCall : String → Option Call} {message : String}
    {lines : List (FileLocation × String)} {errors : List ErrorMessage}
    (hread : ∀ {c : Call} (line : String), readCall line = some c → c.IsRead) (h : Readable d)
    (hload : loadLines readCall message lines d = some (d', errors)) : Readable d' := by
  induction lines generalizing d errors with
  | nil =>
    obtain ⟨rfl, -⟩ := Prod.mk.inj (Option.some_inj.mp hload)
    exact h
  | cons line lines ih =>
    obtain ⟨⟨d₁, errors₁⟩, hline, hload⟩ := Option.bind_eq_some_iff.mp hload
    obtain ⟨⟨d₂, errors₂⟩, hlines, hload⟩ := Option.bind_eq_some_iff.mp hload
    obtain ⟨rfl, -⟩ := Prod.mk.inj (Option.some_inj.mp hload)
    refine ih ?_ hlines
    unfold loadLine at hline
    split_ifs at hline
    · obtain ⟨rfl, -⟩ := Prod.mk.inj (Option.some_inj.mp hline)
      exact h
    · split at hline
      · rename_i c hcall
        obtain ⟨⟨d₃, message₃⟩, hattempt, hline⟩ := Option.map_eq_some_iff.mp hline
        obtain ⟨rfl, -⟩ := Prod.mk.inj hline
        exact h.attempt (hread line.2 hcall) hattempt
      · obtain ⟨rfl, -⟩ := Prod.mk.inj (Option.some_inj.mp hline)
        exact h

theorem Readable.loadPlatformData {os cpu toolset : String} {source : PlatformSource}
    {selectors : TreeMap String PlatformSelector}
    {unusedSelectors unusedSelectors' : TreeMap String String} {errors : List ErrorMessage}
    (hdata : NativeData.ofOutput (NativeData.printed os cpu toolset) = some data) (h : Readable d)
    (hload : loadPlatformData data selectors d unusedSelectors source =
      some (d', unusedSelectors', errors)) : Readable d' := by
  obtain ⟨hos, hcpu, htoolset⟩ := NativeData.isName_of_ofOutput hdata
  obtain ⟨⟨d₁, errors₁⟩, htypes, hload⟩ := Option.bind_eq_some_iff.mp hload
  obtain ⟨⟨d₂, errors₂⟩, hplatforms, hload⟩ := Option.bind_eq_some_iff.mp hload
  obtain ⟨⟨d₃, unusedSelectors₃, message⟩, hcheck, hload⟩ := Option.bind_eq_some_iff.mp hload
  have hread₁ := h.loadLines isRead_of_matchTypeLine htypes
  have hread₂ := hread₁.loadLines (isRead_of_matchPlatformLine hos hcpu htoolset) hplatforms
  cases message with
  | some message => cases hload
  | none =>
    obtain ⟨rfl, -⟩ := Prod.mk.inj (Option.some_inj.mp hload)
    exact hread₂.check hcheck

theorem readable_new (h : new = some d) : Readable d := by
  have hnames : new.map (fun d ↦ d.platformDeclaration.keys) = some ["indep", "java"] := by
    decide +kernel
  rw [h] at hnames
  have hkeys : d.platformDeclaration.keys = ["indep", "java"] := Option.some_inj.mp hnames
  intro platform hplatform
  rw [← TreeMap.mem_keys, hkeys] at hplatform
  have hname : isName platform = true := by
    rcases List.mem_pair.mp hplatform with rfl | rfl <;> decide
  exact isPlatformText_of_isName hname

/-- The platforms of tables that have been loaded have names of the kind that is read. -/
theorem readable_of_loadAll {os cpu toolset : String} {sources : List PlatformSource}
    {selectors : TreeMap String PlatformSelector} {unusedSelectors : TreeMap String String}
    (hdata : NativeData.ofOutput (NativeData.printed os cpu toolset) = some data) (h : Readable d)
    (hload : loadAll data selectors sources d unusedSelectors = some d') : Readable d' := by
  induction sources generalizing d unusedSelectors with
  | nil => exact Option.some_inj.mp hload ▸ h
  | cons source sources ih =>
    obtain ⟨⟨d₁, unusedSelectors₁, errors⟩, hfirst, hload⟩ := Option.bind_eq_some_iff.mp hload
    exact ih (h.loadPlatformData hdata hfirst) hload

end PlatformTables

end Abuild
