import Mathlib.Data.List.Basic

/-!
A reader of XML texts: elements with attributes, the references to the five predefined entities,
and character data. Comments, processing instructions, sections and document types are not read,
and `>` in character data is taken for an error. The reader goes through the text once, character
by character, with a stack of the elements that are open. What it does with a text that is put
together from attributes, tags and contents is put together from what it does with these.
-/

set_option autoImplicit false
set_option relaxedAutoImplicit false

namespace Xml

/-- Character data comes one character at a time. -/
inductive Node
  | char (c : Char)
  | element (name : String) (attributes : List (String × String)) (children : List Node)

structure Tag where
  name : String
  attributes : List (String × String)

/-- What has been read of the part of the text that the next character belongs to. -/
inductive Mode
  | text
  | textReference (name : List Char)
  | tagOpen
  | tagName (name : List Char)
  | tagSpace (tag : Tag)
  | tagValue (tag : Tag)
  | key (tag : Tag) (key : List Char)
  | keySpace (tag : Tag) (key : String)
  | quote (tag : Tag) (key : String)
  | value (tag : Tag) (key : String) (mark : Char) (value : List Char)
  | valueReference (tag : Tag) (key : String) (mark : Char) (value name : List Char)
  | emptyTag (tag : Tag)
  | endTagOpen
  | endTagName (name : List Char)
  | endTagSpace (name : String)

structure OpenElement where
  tag : Tag
  children : List Node

structure State where
  mode : Mode
  stack : List OpenElement
  root : Option Node

/-! ### Characters -/

def isSpace (c : Char) : Bool := c = ' ' || c = '\t' || c = '\n' || c = '\r'

def isChar (c : Char) : Bool :=
  isSpace c || (0x20 ≤ c.val && c.val ≠ 0xFFFE && c.val ≠ 0xFFFF)

def isNameStart (c : Char) : Bool := c.isAlpha || c = '_' || c = ':'

def isNameChar (c : Char) : Bool := isNameStart c || c.isDigit || c = '-' || c = '.'

def reference : List Char → Option Char
  | ['l', 't'] => some '<'
  | ['g', 't'] => some '>'
  | ['a', 'm', 'p'] => some '&'
  | ['a', 'p', 'o', 's'] => some '\''
  | ['q', 'u', 'o', 't'] => some '"'
  | _ => none

/-! ### The reader -/

namespace State

/-- A node goes to the innermost element that is open; outside the root there is only white
space. -/
def add (s : State) (node : Node) : Option State :=
  match s.stack, node with
  | top :: stack, node =>
    some ⟨.text, ⟨top.tag, top.children ++ [node]⟩ :: stack, s.root⟩
  | [], .char c => if isSpace c then some ⟨.text, [], s.root⟩ else none
  | [], .element name attributes children =>
    if s.root.isNone then some ⟨.text, [], some (.element name attributes children)⟩ else none

def close (s : State) (name : String) : Option State :=
  match s.stack with
  | top :: stack =>
    if top.tag.name = name then
      add ⟨.text, stack, s.root⟩ (.element top.tag.name top.tag.attributes top.children)
    else none
  | [] => none

/-- A character after the name, an attribute or white space in a tag. -/
def inTag (s : State) (tag : Tag) (c : Char) : Option State :=
  if isSpace c then some { s with mode := .tagSpace tag }
  else if c = '/' then some { s with mode := .emptyTag tag }
  else if c = '>' then some ⟨.text, ⟨tag, []⟩ :: s.stack, s.root⟩
  else none

def afterKey (s : State) (tag : Tag) (key : String) (c : Char) : Option State :=
  if isSpace c then some { s with mode := .keySpace tag key }
  else if c = '=' then some { s with mode := .quote tag key }
  else none

def inEndTag (s : State) (name : String) (c : Char) : Option State :=
  if isSpace c then some { s with mode := .endTagSpace name }
  else if c = '>' then s.close name
  else none

end State

def step (s : State) (c : Char) : Option State :=
  match s.mode with
  | .text =>
    if c = '<' then some { s with mode := .tagOpen }
    else if c = '&' then some { s with mode := .textReference [] }
    else if c = '>' ∨ isChar c = false then none
    else s.add (.char c)
  | .textReference name =>
    if c = ';' then (reference name).bind fun c ↦ s.add (.char c)
    else if isNameChar c then some { s with mode := .textReference (name ++ [c]) }
    else none
  | .tagOpen =>
    if c = '/' then some { s with mode := .endTagOpen }
    else if isNameStart c then some { s with mode := .tagName [c] }
    else none
  | .tagName name =>
    if isNameChar c then some { s with mode := .tagName (name ++ [c]) }
    else s.inTag ⟨String.ofList name, []⟩ c
  | .tagSpace tag =>
    if isNameStart c then some { s with mode := .key tag [c] } else s.inTag tag c
  | .tagValue tag => s.inTag tag c
  | .key tag key =>
    if isNameChar c then some { s with mode := .key tag (key ++ [c]) }
    else s.afterKey tag (String.ofList key) c
  | .keySpace tag key => s.afterKey tag key c
  | .quote tag key =>
    if isSpace c then some s
    else if c = '"' ∨ c = '\'' then some { s with mode := .value tag key c [] }
    else none
  | .value tag key mark value =>
    if c = mark then
      if key ∈ tag.attributes.map Prod.fst then none
      else some { s with
        mode := .tagValue ⟨tag.name, tag.attributes ++ [(key, String.ofList value)]⟩ }
    else if c = '&' then some { s with mode := .valueReference tag key mark value [] }
    else if c = '<' ∨ isChar c = false then none
    else some { s with mode := .value tag key mark (value ++ [if isSpace c then ' ' else c]) }
  | .valueReference tag key mark value name =>
    if c = ';' then
      (reference name).map fun c ↦ { s with mode := .value tag key mark (value ++ [c]) }
    else if isNameChar c then
      some { s with mode := .valueReference tag key mark value (name ++ [c]) }
    else none
  | .emptyTag tag => if c = '>' then s.add (.element tag.name tag.attributes []) else none
  | .endTagOpen => if isNameStart c then some { s with mode := .endTagName [c] } else none
  | .endTagName name =>
    if isNameChar c then some { s with mode := .endTagName (name ++ [c]) }
    else s.inEndTag (String.ofList name) c
  | .endTagSpace name => s.inEndTag name c

def declaration : List Char := "<?xml version=\"1.0\"?>".toList

/-- At the end no element is open. -/
def finish : Option State → Option Node
  | some ⟨.text, [], root⟩ => root
  | _ => none

/-- The root element of a well-formed text. -/
def read (text : List Char) : Option Node :=
  let body := if declaration <+: text then text.drop declaration.length else text
  finish (body.foldlM step ⟨.text, [], none⟩)

/-! ### Values -/

/-- The text stands for the value in an attribute. -/
def ValueText (text : List Char) (value : String) : Prop :=
  ∀ (tag : Tag) (key : String) (before : List Char) (stack : List OpenElement) (root : Option Node),
    text.foldlM step ⟨.value tag key '"' before, stack, root⟩ =
      some ⟨.value tag key '"' (before ++ value.toList), stack, root⟩

theorem valueText_nil : ValueText [] "" := by
  intro tag key before stack root
  simp

theorem ValueText.append {text text' : List Char} {value value' : String}
    (h : ValueText text value) (h' : ValueText text' value') :
    ValueText (text ++ text') (value ++ value') := by
  intro tag key before stack root
  rw [List.foldlM_append, h]
  exact (h' tag key _ stack root).trans (by rw [String.toList_append, List.append_assoc])

theorem valueText_char {c : Char} (hmark : c ≠ '"') (hreference : c ≠ '&') (htag : c ≠ '<')
    (hspace : isSpace c = true → c = ' ') (hchar : isChar c = true) :
    ValueText [c] (String.singleton c) := by
  intro tag key before stack root
  have hsame : (if isSpace c = true then ' ' else c) = c := by
    split_ifs with h
    · exact (hspace h).symm
    · rfl
  simp [step, hmark, hreference, htag, hchar, hsame]

theorem valueText_reference (name : List Char) {c : Char} (hname : name.all isNameChar = true)
    (hc : reference name = some c) : ValueText ('&' :: name ++ [';']) (String.singleton c) := by
  intro tag key before stack root
  have hrun : ∀ name', name.foldlM step ⟨.valueReference tag key '"' before name', stack, root⟩ =
      some ⟨.valueReference tag key '"' before (name' ++ name), stack, root⟩ := by
    clear hc
    induction name with
    | nil => simp
    | cons x name ih =>
      intro name'
      obtain ⟨hx, hrest⟩ := Bool.and_eq_true_iff.mp hname
      have hne : x ≠ ';' := by
        rintro rfl
        cases hx
      have hstep : step ⟨.valueReference tag key '"' before name', stack, root⟩ x =
          some ⟨.valueReference tag key '"' before (name' ++ [x]), stack, root⟩ := by
        simp [step, hne, hx]
      rw [List.foldlM_cons, hstep]
      exact (ih hrest _).trans (by rw [List.append_assoc, List.singleton_append])
  have hstart : step ⟨.value tag key '"' before, stack, root⟩ '&' =
      some ⟨.valueReference tag key '"' before [], stack, root⟩ := rfl
  have hend : step ⟨.valueReference tag key '"' before name, stack, root⟩ ';' =
      some ⟨.value tag key '"' (before ++ [c]), stack, root⟩ := by
    simp [step, hc]
  rw [List.cons_append, List.foldlM_cons, hstart]
  show ((name ++ [';']).foldlM step _) = _
  rw [List.foldlM_append, hrun, List.nil_append]
  show ([';'].foldlM step _) = _
  rw [List.foldlM_cons, hend]
  simp

/-! ### Tags -/

def isName : List Char → Bool
  | [] => false
  | c :: name => isNameStart c && name.all isNameChar

/-- An attribute as it is written, in quotation marks. -/
structure Written where
  key : String
  value : String
  text : List Char
  isName : isName key.toList = true
  valueText : ValueText text value

namespace Written

def pair (a : Written) : String × String := (a.key, a.value)

/-- The attribute up to the quotation mark at its end. -/
def unclosed (a : Written) : List Char := ' ' :: a.key.toList ++ '=' :: '"' :: a.text

def toList (a : Written) : List Char := a.unclosed ++ ['"']

end Written

/-- A tag with its attributes, without the bracket at its end. -/
def openText (name : String) (written : List Written) : List Char :=
  '<' :: name.toList ++ written.flatMap Written.toList

/-- What has been read is a tag that an attribute may follow. -/
inductive InTag : Mode → Tag → Prop
  | tagName (name : List Char) : InTag (.tagName name) ⟨String.ofList name, []⟩
  | tagValue (tag : Tag) : InTag (.tagValue tag) tag

section Tags

variable {mode : Mode} {tag : Tag} (stack : List OpenElement) (root : Option Node) {name : String}

theorem InTag.step_eq (h : InTag mode tag) {c : Char} (hc : isNameChar c = false) :
    step ⟨mode, stack, root⟩ c = State.inTag ⟨mode, stack, root⟩ tag c := by
  cases h with
  | tagName name => simp [step, hc]
  | tagValue tag => rfl

theorem run_name {name : List Char} (hname : name.all isNameChar = true) (mode : List Char → Mode)
    (hmode : ∀ before c, isNameChar c = true →
      step ⟨mode before, stack, root⟩ c = some ⟨mode (before ++ [c]), stack, root⟩)
    (before : List Char) :
    name.foldlM step ⟨mode before, stack, root⟩ = some ⟨mode (before ++ name), stack, root⟩ := by
  induction name generalizing before with
  | nil => simp
  | cons c name ih =>
    obtain ⟨hc, hrest⟩ := Bool.and_eq_true_iff.mp hname
    rw [List.foldlM_cons, hmode before c hc]
    exact (ih hrest _).trans (by rw [List.append_assoc, List.singleton_append])

/-- An attribute from its key to the quotation mark before its value. -/
theorem run_key {key : String} (hname : isName key.toList = true) :
    (key.toList ++ ['=', '"']).foldlM step ⟨.tagSpace tag, stack, root⟩ =
      some ⟨.value tag key '"' [], stack, root⟩ := by
  cases hkey : key.toList with
  | nil =>
    rw [hkey] at hname
    cases hname
  | cons c rest =>
    rw [hkey] at hname
    obtain ⟨hc, hrest⟩ := Bool.and_eq_true_iff.mp hname
    have hfirst : step ⟨.tagSpace tag, stack, root⟩ c = some ⟨.key tag [c], stack, root⟩ := by
      simp [step, hc]
    have hkeys := run_name stack root hrest (fun k ↦ .key tag k)
      (fun before x hx ↦ by simp [step, hx]) [c]
    have hequals : step ⟨.key tag (c :: rest), stack, root⟩ '=' =
        some ⟨.quote tag (String.ofList (c :: rest)), stack, root⟩ := rfl
    have hquote : step ⟨.quote tag (String.ofList (c :: rest)), stack, root⟩ '"' =
        some ⟨.value tag (String.ofList (c :: rest)) '"' [], stack, root⟩ := rfl
    simp only [List.cons_append, List.foldlM_cons, List.foldlM_append, hfirst, Option.bind_eq_bind,
      Option.bind_some, hkeys, List.nil_append, hequals, hquote, List.foldlM_nil]
    rw [← hkey, String.ofList_toList]
    rfl

theorem run_unclosed (h : InTag mode tag) (a : Written) :
    a.unclosed.foldlM step ⟨mode, stack, root⟩ =
      some ⟨.value tag a.key '"' a.value.toList, stack, root⟩ := by
  have hspace : step ⟨mode, stack, root⟩ ' ' = some ⟨.tagSpace tag, stack, root⟩ :=
    h.step_eq stack root rfl
  have hunclosed : a.unclosed = ' ' :: ((a.key.toList ++ ['=', '"']) ++ a.text) := by
    simp [Written.unclosed]
  rw [hunclosed, List.foldlM_cons, hspace]
  show ((a.key.toList ++ ['=', '"']) ++ a.text).foldlM step _ = _
  rw [List.foldlM_append, run_key stack root a.isName]
  exact a.valueText tag a.key [] stack root

theorem run_attribute (h : InTag mode tag) (a : Written)
    (hnew : a.key ∉ tag.attributes.map Prod.fst) :
    a.toList.foldlM step ⟨mode, stack, root⟩ =
      some ⟨.tagValue ⟨tag.name, tag.attributes ++ [a.pair]⟩, stack, root⟩ := by
  unfold Written.toList
  rw [List.foldlM_append, run_unclosed stack root h]
  simp [step, hnew, Written.pair]

theorem run_attributes {written : List Written} (h : InTag mode tag)
    (hkeys : (tag.attributes.map Prod.fst ++ written.map Written.key).Nodup) :
    ∃ mode', (written.flatMap Written.toList).foldlM step ⟨mode, stack, root⟩ =
        some ⟨mode', stack, root⟩ ∧
      InTag mode' ⟨tag.name, tag.attributes ++ written.map Written.pair⟩ := by
  induction written generalizing mode tag with
  | nil =>
    rw [List.map_nil, List.append_nil]
    exact ⟨mode, rfl, h⟩
  | cons a written ih =>
    have hnew : a.key ∉ tag.attributes.map Prod.fst := fun hmem ↦
      (List.nodup_append.mp hkeys).2.2 _ hmem _ List.mem_cons_self rfl
    have hrest : ((tag.attributes ++ [a.pair]).map Prod.fst ++
        written.map Written.key).Nodup := by
      rw [List.map_append, List.append_assoc]
      exact hkeys
    obtain ⟨mode', hrun, htag⟩ := ih (.tagValue ⟨tag.name, tag.attributes ++ [a.pair]⟩) hrest
    refine ⟨mode', ?_, ?_⟩
    · rw [List.flatMap_cons, List.foldlM_append, run_attribute stack root h a hnew]
      exact hrun
    · rw [List.append_assoc] at htag
      exact htag

/-- The bracket and the name of a tag. -/
theorem run_tagName (hname : isName name.toList = true) :
    ('<' :: name.toList).foldlM step ⟨.text, stack, root⟩ =
      some ⟨.tagName name.toList, stack, root⟩ := by
  cases hlist : name.toList with
  | nil =>
    rw [hlist] at hname
    cases hname
  | cons c rest =>
    rw [hlist] at hname
    obtain ⟨hc, hrest⟩ := Bool.and_eq_true_iff.mp hname
    have hbracket : step ⟨.text, stack, root⟩ '<' = some ⟨.tagOpen, stack, root⟩ := rfl
    have hslash : c ≠ '/' := by
      rintro rfl
      cases hc
    have hfirst : step ⟨.tagOpen, stack, root⟩ c = some ⟨.tagName [c], stack, root⟩ := by
      simp [step, hslash, hc]
    rw [List.foldlM_cons, hbracket]
    show (c :: rest).foldlM step _ = _
    rw [List.foldlM_cons, hfirst]
    exact run_name stack root hrest .tagName (fun before x hx ↦ by simp [step, hx]) [c]

theorem run_openText {written : List Written} (hname : isName name.toList = true)
    (hkeys : (written.map Written.key).Nodup) :
    ∃ mode', (openText name written).foldlM step ⟨.text, stack, root⟩ =
        some ⟨mode', stack, root⟩ ∧ InTag mode' ⟨name, written.map Written.pair⟩ := by
  have htag := InTag.tagName name.toList
  rw [String.ofList_toList] at htag
  obtain ⟨mode', hrun, hin⟩ := run_attributes stack root htag hkeys
  refine ⟨mode', ?_, hin⟩
  unfold openText
  rw [List.foldlM_append, run_tagName stack root hname]
  exact hrun

end Tags

/-! ### Contents -/

/-- The text stands for the nodes inside an element. -/
def Content (text : List Char) (nodes : List Node) : Prop :=
  ∀ (top : OpenElement) (stack : List OpenElement) (root : Option Node),
    text.foldlM step ⟨.text, top :: stack, root⟩ =
      some ⟨.text, ⟨top.tag, top.children ++ nodes⟩ :: stack, root⟩

section Content

variable {text text' : List Char} {nodes nodes' : List Node} {name : String}
  {written : List Written} {stack : List OpenElement} {root : Option Node}

theorem content_nil : Content [] [] := by
  intro top stack root
  simp

theorem Content.append (h : Content text nodes) (h' : Content text' nodes') :
    Content (text ++ text') (nodes ++ nodes') := by
  intro top stack root
  rw [List.foldlM_append, h]
  exact (h' _ stack root).trans (by rw [List.append_assoc])

theorem Content.flatMap {α : Type} {l : List α} {texts : α → List Char} {nodes : α → List Node}
    (h : ∀ a ∈ l, Content (texts a) (nodes a)) : Content (l.flatMap texts) (l.flatMap nodes) := by
  induction l with
  | nil => exact content_nil
  | cons a l ih =>
    obtain ⟨ha, hl⟩ := List.forall_mem_cons.mp h
    exact ha.append (ih hl)

theorem content_space (h : text.all isSpace = true) : Content text (text.map .char) := by
  intro top stack root
  induction text generalizing top with
  | nil => simp
  | cons c text ih =>
    obtain ⟨hc, hrest⟩ := Bool.and_eq_true_iff.mp h
    have hne : c ≠ '<' ∧ c ≠ '&' ∧ c ≠ '>' := by
      refine ⟨?_, ?_, ?_⟩ <;> rintro rfl <;> cases hc
    have hstep : step ⟨.text, top :: stack, root⟩ c =
        some ⟨.text, ⟨top.tag, top.children ++ [.char c]⟩ :: stack, root⟩ := by
      simp [step, hne, isChar, hc, State.add]
    rw [List.foldlM_cons, hstep]
    exact (ih hrest _).trans (by rw [List.append_assoc, List.map_cons, List.singleton_append])

/-- The start of an element. -/
theorem run_startTag (hname : isName name.toList = true) (hkeys : (written.map Written.key).Nodup) :
    (openText name written ++ ['>']).foldlM step ⟨.text, stack, root⟩ =
      some ⟨.text, ⟨⟨name, written.map Written.pair⟩, []⟩ :: stack, root⟩ := by
  obtain ⟨mode, hrun, htag⟩ := run_openText stack root hname hkeys
  rw [List.foldlM_append, hrun]
  show ['>'].foldlM step _ = _
  rw [List.foldlM_cons, htag.step_eq _ root rfl]
  rfl

/-- The end of an element. -/
theorem run_endTag (hname : isName name.toList = true) (top : OpenElement)
    (htop : top.tag.name = name) :
    ('<' :: '/' :: name.toList ++ ['>']).foldlM step ⟨.text, top :: stack, root⟩ =
      State.add ⟨.text, stack, root⟩ (.element name top.tag.attributes top.children) := by
  cases hlist : name.toList with
  | nil =>
    rw [hlist] at hname
    cases hname
  | cons c rest =>
    rw [hlist] at hname
    obtain ⟨hc, hrest⟩ := Bool.and_eq_true_iff.mp hname
    have hbracket : step ⟨.text, top :: stack, root⟩ '<' = some ⟨.tagOpen, top :: stack, root⟩ :=
      rfl
    have hslash : step ⟨.tagOpen, top :: stack, root⟩ '/' =
        some ⟨.endTagOpen, top :: stack, root⟩ := rfl
    have hfirst : step ⟨.endTagOpen, top :: stack, root⟩ c =
        some ⟨.endTagName [c], top :: stack, root⟩ := by
      simp [step, hc]
    have hnames := run_name (top :: stack) root hrest .endTagName
      (fun before x hx ↦ by simp [step, hx]) [c]
    have hend : step ⟨.endTagName (c :: rest), top :: stack, root⟩ '>' =
        State.add ⟨.text, stack, root⟩ (.element name top.tag.attributes top.children) := by
      rw [← hlist]
      show (if top.tag.name = String.ofList name.toList then _ else none) = _
      rw [String.ofList_toList, if_pos htop, htop]
    simp only [List.cons_append, List.foldlM_cons, List.foldlM_append, hbracket, hslash, hfirst,
      Option.bind_eq_bind, Option.bind_some, hnames, List.nil_append, hend, List.foldlM_nil]
    exact Option.bind_fun_some _

theorem content_emptyTag (hname : isName name.toList = true)
    (hkeys : (written.map Written.key).Nodup) :
    Content (openText name written ++ ['/', '>'])
      [.element name (written.map Written.pair) []] := by
  intro top stack root
  obtain ⟨mode, hrun, htag⟩ := run_openText (top :: stack) root hname hkeys
  rw [List.foldlM_append, hrun]
  show ['/', '>'].foldlM step _ = _
  rw [List.foldlM_cons, htag.step_eq _ root rfl]
  rfl

theorem content_element (hname : isName name.toList = true)
    (hkeys : (written.map Written.key).Nodup) (h : Content text nodes) :
    Content (openText name written ++ ['>'] ++ text ++ ('<' :: '/' :: name.toList ++ ['>']))
      [.element name (written.map Written.pair) nodes] := by
  intro top stack root
  rw [List.foldlM_append, List.foldlM_append, run_startTag hname hkeys]
  show (text.foldlM step _ >>= _) = _
  rw [h]
  exact run_endTag hname ⟨⟨name, written.map Written.pair⟩, nodes⟩ rfl

/-- Outside the root element there is white space. -/
theorem run_space (h : text.all isSpace = true) :
    text.foldlM step ⟨.text, [], root⟩ = some ⟨.text, [], root⟩ := by
  induction text with
  | nil => rfl
  | cons c text ih =>
    obtain ⟨hc, hrest⟩ := Bool.and_eq_true_iff.mp h
    have hne : c ≠ '<' ∧ c ≠ '&' ∧ c ≠ '>' := by
      refine ⟨?_, ?_, ?_⟩ <;> rintro rfl <;> cases hc
    have hstep : step ⟨.text, [], root⟩ c = some ⟨.text, [], root⟩ := by
      simp [step, hne, isChar, hc, State.add]
    rw [List.foldlM_cons, hstep]
    exact ih hrest

theorem read_declared (body : List Char) :
    read (declaration ++ body) = finish (body.foldlM step ⟨.text, [], none⟩) := by
  unfold read
  rw [if_pos (List.prefix_append _ _), List.drop_left]

/-- A text that consists of one element and white space around it. -/
theorem read_document {before after : List Char} (hbefore : before.all isSpace = true)
    (hafter : after.all isSpace = true) (hname : isName name.toList = true)
    (hkeys : (written.map Written.key).Nodup) (h : Content text nodes) :
    read (declaration ++ (before ++ ((openText name written ++ ['>'] ++ text ++
      ('<' :: '/' :: name.toList ++ ['>'])) ++ after))) =
        some (.element name (written.map Written.pair) nodes) := by
  have helement : (openText name written ++ ['>'] ++ text ++
      ('<' :: '/' :: name.toList ++ ['>'])).foldlM step ⟨.text, [], none⟩ =
        some ⟨.text, [], some (.element name (written.map Written.pair) nodes)⟩ := by
    rw [List.foldlM_append, List.foldlM_append, run_startTag hname hkeys]
    show (text.foldlM step _ >>= _) = _
    rw [h]
    exact run_endTag hname ⟨⟨name, written.map Written.pair⟩, nodes⟩ rfl
  have hrun : (before ++ ((openText name written ++ ['>'] ++ text ++
      ('<' :: '/' :: name.toList ++ ['>'])) ++ after)).foldlM step ⟨.text, [], none⟩ =
        some ⟨.text, [], some (.element name (written.map Written.pair) nodes)⟩ := by
    rw [List.foldlM_append, run_space hbefore]
    show List.foldlM step _ _ = _
    rw [List.foldlM_append, helement]
    exact run_space hafter
  rw [read_declared, hrun]
  rfl

/-! ### Texts that are not well-formed -/

/-- The reader does not get through the text inside an element, whatever follows. -/
def Stuck (text : List Char) : Prop :=
  ∀ (top : OpenElement) (stack : List OpenElement) (root : Option Node) (after : List Char),
    (text ++ after).foldlM step ⟨.text, top :: stack, root⟩ = none

theorem Content.stuck (h : Content text nodes) (h' : Stuck text') : Stuck (text ++ text') := by
  intro top stack root after
  rw [List.append_assoc, List.foldlM_append, h]
  exact h' _ stack root after

theorem Stuck.append (h : Stuck text) (text' : List Char) : Stuck (text ++ text') := by
  intro top stack root after
  rw [List.append_assoc]
  exact h top stack root _

theorem Stuck.startTag (h : Stuck text) (hname : isName name.toList = true)
    (hkeys : (written.map Written.key).Nodup) : Stuck (openText name written ++ ['>'] ++ text) := by
  intro top stack root after
  rw [List.append_assoc, List.foldlM_append, run_startTag hname hkeys]
  exact h _ _ root after

/-- A value does not go on across a bracket that opens a tag. -/
theorem run_value_eq_none {tag : Tag} {key : String} {gap : List Char}
    (hgap : ∀ c ∈ gap, c ≠ '"' ∧ c ≠ '&' ∧ c ≠ '<') (before after : List Char) :
    (gap ++ '<' :: after).foldlM step ⟨.value tag key '"' before, stack, root⟩ = none := by
  induction gap generalizing before with
  | nil => rfl
  | cons c gap ih =>
    obtain ⟨⟨hmark, hreference, htag⟩, hrest⟩ := List.forall_mem_cons.mp hgap
    rw [List.cons_append, List.foldlM_cons]
    cases hstep : step ⟨.value tag key '"' before, stack, root⟩ c with
    | none => rfl
    | some s =>
      by_cases hchar : isChar c = true
      · simp only [step, if_neg hmark, if_neg hreference, htag, hchar, false_or,
          Bool.true_eq_false, if_false, Option.some_inj] at hstep
        rw [← hstep]
        exact ih hrest _
      · simp [step, hmark, hreference, hchar] at hstep

/-- The quotation mark at the end of an attribute is missing. -/
theorem stuck_unclosed (hname : isName name.toList = true) (hkeys : (written.map Written.key).Nodup)
    (a : Written) {gap : List Char} (hgap : ∀ c ∈ gap, c ≠ '"' ∧ c ≠ '&' ∧ c ≠ '<') :
    Stuck (openText name written ++ a.unclosed ++ gap ++ ['<']) := by
  intro top stack root after
  obtain ⟨mode, hrun, htag⟩ := run_openText (top :: stack) root hname hkeys
  rw [List.append_assoc, List.append_assoc, List.append_assoc, List.foldlM_append, hrun]
  show List.foldlM step _ _ = _
  rw [List.foldlM_append, run_unclosed _ root htag]
  exact run_value_eq_none hgap _ _

theorem read_eq_none {before : List Char} (hbefore : before.all isSpace = true)
    (hname : isName name.toList = true) (hkeys : (written.map Written.key).Nodup)
    (h : Stuck text) (after : List Char) :
    read (declaration ++ (before ++ (openText name written ++ ['>'] ++ (text ++ after)))) =
      none := by
  have hrun : (before ++ (openText name written ++ ['>'] ++ (text ++ after))).foldlM step
      ⟨.text, [], none⟩ = none := by
    rw [List.foldlM_append, run_space hbefore]
    show List.foldlM step _ _ = _
    rw [List.foldlM_append, run_startTag hname hkeys]
    exact h _ _ none after
  rw [read_declared, hrun]
  rfl

end Content

end Xml
