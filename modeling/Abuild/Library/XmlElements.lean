import Abuild.Library.Xml

/-!
Texts of XML whose attributes may have been written without the escapes that they need. Where an
element is to have an attribute of some value, the text of the value either stands for it, or the
reader stops at it or takes it for another value. What has been read of a document is in every
document that it can be completed to (`completes_of_step`). So a document with the elements that are
expected is read exactly if the texts of all its values stand for them (`read_iff`).
-/

set_option autoImplicit false
set_option relaxedAutoImplicit false

namespace Xml

/-! ### Elements without character data -/

structure Element where
  name : String
  attributes : List (String × String)
  children : List Element

mutual

/-- The element that a node is, if it is one. Of its attributes, those that
are declared for its name are kept. -/
def Node.elements (attlist : String → List String) : Node → List Element
  | .char _ => []
  | .element name attributes children =>
    [⟨name, attributes.filter fun pair ↦ pair.1 ∈ attlist name, elementsOf attlist children⟩]

def elementsOf (attlist : String → List String) : List Node → List Element
  | [] => []
  | node :: nodes => node.elements attlist ++ elementsOf attlist nodes

end

section Elements

variable {attlist : String → List String}

theorem elementsOf_append (nodes nodes' : List Node) :
    elementsOf attlist (nodes ++ nodes') =
      elementsOf attlist nodes ++ elementsOf attlist nodes' := by
  induction nodes with
  | nil => rfl
  | cons node nodes ih =>
    rw [List.cons_append, elementsOf, elementsOf, ih, List.append_assoc]

theorem elementsOf_char (text : List Char) : elementsOf attlist (text.map .char) = [] := by
  induction text with
  | nil => rfl
  | cons c text ih =>
    rw [List.map_cons, elementsOf, ih]
    rfl

theorem elementsOf_element (name : String) (attributes : List (String × String))
    (children nodes : List Node) :
    elementsOf attlist (.element name attributes children :: nodes) =
      ⟨name, attributes.filter fun pair ↦ pair.1 ∈ attlist name, elementsOf attlist children⟩ ::
        elementsOf attlist nodes := by
  rw [elementsOf, Node.elements, List.singleton_append]

end Elements

/-! ### What has been read stays -/

/-- The tag that is being read, when its name has been read. -/
def Mode.tag : Mode → Option Tag
  | .tagSpace tag | .tagValue tag | .key tag _ | .keySpace tag _ | .quote tag _ | .value tag _ _ _
  | .valueReference tag _ _ _ _ | .emptyTag tag => some tag
  | _ => none

/-- In the finished document, the innermost of the open elements has these children. -/
inductive Grows (document : Node) : List OpenElement → List Node → Prop
  | root {e : OpenElement} {children : List Node}
      (hdocument : document = .element e.tag.name e.tag.attributes children)
      (hread : e.children <+: children) : Grows document [e] children
  | inner {e top : OpenElement} {stack : List OpenElement} {outer children rest : List Node}
      (houter : Grows document (top :: stack) outer)
      (heq : outer = top.children ++ .element e.tag.name e.tag.attributes children :: rest)
      (hread : e.children <+: children) : Grows document (e :: top :: stack) children

/-- The tag becomes an element, perhaps with more attributes. -/
def BecomesIn (tag : Tag) (document : Node) : List OpenElement → Prop
  | [] => ∃ more children, document = .element tag.name (tag.attributes ++ more) children
  | top :: stack => ∃ outer more children rest, Grows document (top :: stack) outer ∧
      outer = top.children ++ .element tag.name (tag.attributes ++ more) children :: rest

/-- A document that begins with what has been read. -/
structure Completes (s : State) (document : Node) : Prop where
  root : ∀ node, s.root = some node → s.mode.tag = none ∧ s.stack = [] ∧ document = node
  grows : s.stack ≠ [] → ∃ children, Grows document s.stack children
  becomes : ∀ tag, s.mode.tag = some tag → BecomesIn tag document s.stack

theorem Grows.shrink {document : Node} {tag : Tag} {nodes nodes' : List Node}
    {stack : List OpenElement} {children : List Node}
    (h : Grows document (⟨tag, nodes ++ nodes'⟩ :: stack) children) :
    Grows document (⟨tag, nodes⟩ :: stack) children := by
  cases h with
  | root hdocument hread => exact .root hdocument ((List.prefix_append _ _).trans hread)
  | inner houter heq hread => exact .inner houter heq ((List.prefix_append _ _).trans hread)

section Step

variable {s s' : State} {document : Node} {mode mode' : Mode} {stack : List OpenElement}
  {root : Option Node} {tag : Tag}

theorem completes_of_root (hroot : s.root = none)
    (hgrows : s.stack ≠ [] → ∃ children, Grows document s.stack children)
    (hbecomes : ∀ tag, s.mode.tag = some tag → BecomesIn tag document s.stack) :
    Completes s document where
  root node hnode := by
    rw [hroot] at hnode
    cases hnode
  grows := hgrows
  becomes := hbecomes

/-- Nothing is finished while an element is open. -/
theorem Completes.root_eq_none (h : Completes s document) (hstack : s.stack ≠ []) :
    s.root = none := by
  by_contra hne
  obtain ⟨node, hnode⟩ := Option.ne_none_iff_exists'.mp hne
  exact hstack (h.root node hnode).2.1

/-- A step that changes no more than what has been read of a value or of a name. -/
theorem Completes.of_same (h : Completes ⟨mode', stack, root⟩ document)
    (htag : mode'.tag = mode.tag) : Completes ⟨mode, stack, root⟩ document where
  root node hnode := by
    obtain ⟨hmode, hrest⟩ := h.root node hnode
    exact ⟨htag ▸ hmode, hrest⟩
  grows := h.grows
  becomes tag hmode := h.becomes tag (htag.trans hmode)

/-- The name of a tag has been read. -/
theorem Completes.of_tag (h : Completes ⟨mode', stack, root⟩ document) (hmode : mode.tag = none)
    (htag : mode'.tag = some tag) : Completes ⟨mode, stack, root⟩ document where
  root node hnode := by
    obtain ⟨hnone, -⟩ := h.root node hnode
    cases htag.symm.trans hnone
  grows := h.grows
  becomes tag' htag' := by cases hmode.symm.trans htag'

/-- An attribute has been read. -/
theorem BecomesIn.of_attribute {pair : String × String}
    (h : BecomesIn ⟨tag.name, tag.attributes ++ [pair]⟩ document stack) :
    BecomesIn tag document stack := by
  cases stack with
  | nil =>
    obtain ⟨more, children, rfl⟩ := h
    exact ⟨pair :: more, children, by rw [List.append_assoc, List.singleton_append]⟩
  | cons top stack =>
    obtain ⟨outer, more, children, rest, hgrows, heq⟩ := h
    refine ⟨outer, pair :: more, children, rest, hgrows, ?_⟩
    rw [heq, List.append_assoc, List.singleton_append]

theorem Completes.of_attribute {pair : String × String}
    (h : Completes ⟨.tagValue ⟨tag.name, tag.attributes ++ [pair]⟩, stack, root⟩ document)
    (htag : mode.tag = some tag) : Completes ⟨mode, stack, root⟩ document where
  root node hnode := by cases (h.root node hnode).1
  grows := h.grows
  becomes tag' htag' := by
    obtain rfl := Option.some_inj.mp (htag.symm.trans htag')
    exact (h.becomes _ rfl).of_attribute

/-- The end of a tag has been read. -/
theorem Completes.of_push (h : Completes ⟨.text, ⟨tag, []⟩ :: stack, root⟩ document)
    (htag : mode.tag = some tag) : Completes ⟨mode, stack, root⟩ document := by
  have hnone : root = none := h.root_eq_none (List.cons_ne_nil _ _)
  obtain ⟨children, hgrows⟩ := h.grows (List.cons_ne_nil _ _)
  cases hgrows with
  | root hdocument _ =>
    refine completes_of_root hnone (fun hne ↦ absurd rfl hne) fun tag' htag' ↦ ?_
    obtain rfl := Option.some_inj.mp (htag.symm.trans htag')
    refine ⟨[], children, ?_⟩
    rw [List.append_nil]
    exact hdocument
  | @inner _ _ _ outer _ rest houter heq _ =>
    refine completes_of_root hnone (fun _ ↦ ⟨outer, houter⟩) fun tag' htag' ↦ ?_
    obtain rfl := Option.some_inj.mp (htag.symm.trans htag')
    refine ⟨outer, [], children, rest, houter, ?_⟩
    rw [List.append_nil]
    exact heq

theorem completes_of_addChar {c : Char} (hadd : State.add ⟨mode, stack, root⟩ (.char c) = some s')
    (htag : mode.tag = none) (h : Completes s' document) :
    Completes ⟨mode, stack, root⟩ document := by
  cases stack with
  | nil =>
    unfold State.add at hadd
    dsimp only at hadd
    split_ifs at hadd
    obtain rfl := Option.some_inj.mp hadd
    exact h.of_same htag.symm
  | cons top stack =>
    obtain rfl := Option.some_inj.mp hadd
    have hnone : root = none := h.root_eq_none (List.cons_ne_nil _ _)
    obtain ⟨children, hgrows⟩ := h.grows (List.cons_ne_nil _ _)
    refine completes_of_root hnone (fun _ ↦ ⟨children, hgrows.shrink⟩) fun tag' htag' ↦ ?_
    cases htag.symm.trans htag'

/-- An element is closed. -/
theorem completes_of_addElement {nodes : List Node}
    (hadd : State.add ⟨mode, stack, root⟩ (.element tag.name tag.attributes nodes) = some s')
    (h : Completes s' document) : Completes ⟨.text, ⟨tag, nodes⟩ :: stack, root⟩ document := by
  have hgrown : root = none ∧ Grows document (⟨tag, nodes⟩ :: stack) nodes := by
    cases stack with
    | nil =>
      unfold State.add at hadd
      dsimp only at hadd
      split_ifs at hadd with hnone
      obtain rfl := Option.some_inj.mp hadd
      exact ⟨Option.isNone_iff_eq_none.mp hnone, .root (h.root _ rfl).2.2 (List.prefix_refl _)⟩
    | cons top stack =>
      obtain rfl := Option.some_inj.mp hadd
      obtain ⟨outer, hgrows⟩ := h.grows (List.cons_ne_nil _ _)
      refine ⟨h.root_eq_none (List.cons_ne_nil _ _), ?_⟩
      obtain ⟨rest, hrest⟩ :
          top.children ++ [.element tag.name tag.attributes nodes] <+: outer := by
        cases hgrows with
        | root _ hread => exact hread
        | inner _ _ hread => exact hread
      have heq : outer = top.children ++ .element tag.name tag.attributes nodes :: rest := by
        rw [← hrest, List.append_assoc, List.singleton_append]
      exact .inner hgrows.shrink heq (List.prefix_refl _)
  refine completes_of_root hgrown.1 (fun _ ↦ ⟨nodes, hgrown.2⟩) fun tag' htag' ↦ ?_
  cases htag'

theorem completes_of_close {name : String} (hclose : State.close ⟨mode, stack, root⟩ name = some s')
    (h : Completes s' document) (htag : mode.tag = none) :
    Completes ⟨mode, stack, root⟩ document := by
  unfold State.close at hclose
  cases stack with
  | nil => cases hclose
  | cons top stack =>
    dsimp only at hclose
    split_ifs at hclose
    exact (completes_of_addElement hclose h).of_same htag.symm

theorem completes_of_inTag {c : Char} (hin : State.inTag ⟨mode, stack, root⟩ tag c = some s')
    (h : Completes s' document) (htag : mode.tag = none ∨ mode.tag = some tag) :
    Completes ⟨mode, stack, root⟩ document := by
  have hmode : ∀ {mode' : Mode}, mode'.tag = some tag → Completes ⟨mode', stack, root⟩ document →
      Completes ⟨mode, stack, root⟩ document := by
    intro mode' hmode' h'
    rcases htag with htag | htag
    · exact h'.of_tag htag hmode'
    · exact h'.of_same (hmode'.trans htag.symm)
  unfold State.inTag at hin
  split_ifs at hin
  · obtain rfl := Option.some_inj.mp hin
    exact hmode rfl h
  · obtain rfl := Option.some_inj.mp hin
    exact hmode rfl h
  · obtain rfl := Option.some_inj.mp hin
    have hpush : Completes ⟨.tagValue tag, stack, root⟩ document := h.of_push rfl
    exact hmode rfl hpush

theorem completes_of_afterKey {key : String} {c : Char}
    (hafter : State.afterKey ⟨mode, stack, root⟩ tag key c = some s')
    (h : Completes s' document) (htag : mode.tag = some tag) :
    Completes ⟨mode, stack, root⟩ document := by
  unfold State.afterKey at hafter
  split_ifs at hafter <;> obtain rfl := Option.some_inj.mp hafter <;> exact h.of_same htag.symm

theorem completes_of_inEndTag {name : String} {c : Char}
    (hin : State.inEndTag ⟨mode, stack, root⟩ name c = some s') (h : Completes s' document)
    (htag : mode.tag = none) : Completes ⟨mode, stack, root⟩ document := by
  unfold State.inEndTag at hin
  split_ifs at hin
  · obtain rfl := Option.some_inj.mp hin
    exact h.of_same htag.symm
  · exact completes_of_close hin h htag

/-- A document that begins with what has been read begins with what had been read before. -/
theorem completes_of_step {c : Char} (hstep : step s c = some s') (h : Completes s' document) :
    Completes s document := by
  obtain ⟨mode, stack, root⟩ := s
  unfold step at hstep
  cases mode with
  | text =>
    dsimp only at hstep
    split_ifs at hstep
    · obtain rfl := Option.some_inj.mp hstep
      exact h.of_same rfl
    · obtain rfl := Option.some_inj.mp hstep
      exact h.of_same rfl
    · exact completes_of_addChar hstep rfl h
  | textReference name =>
    dsimp only at hstep
    split_ifs at hstep
    · obtain ⟨c', -, hadd⟩ := Option.bind_eq_some_iff.mp hstep
      exact completes_of_addChar hadd rfl h
    · obtain rfl := Option.some_inj.mp hstep
      exact h.of_same rfl
  | tagOpen =>
    dsimp only at hstep
    split_ifs at hstep <;> obtain rfl := Option.some_inj.mp hstep <;> exact h.of_same rfl
  | tagName name =>
    dsimp only at hstep
    split_ifs at hstep
    · obtain rfl := Option.some_inj.mp hstep
      exact h.of_same rfl
    · exact completes_of_inTag hstep h (Or.inl rfl)
  | tagSpace tag =>
    dsimp only at hstep
    split_ifs at hstep
    · obtain rfl := Option.some_inj.mp hstep
      exact h.of_same rfl
    · exact completes_of_inTag hstep h (Or.inr rfl)
  | tagValue tag => exact completes_of_inTag hstep h (Or.inr rfl)
  | key tag key =>
    dsimp only at hstep
    split_ifs at hstep
    · obtain rfl := Option.some_inj.mp hstep
      exact h.of_same rfl
    · exact completes_of_afterKey hstep h rfl
  | keySpace tag key => exact completes_of_afterKey hstep h rfl
  | quote tag key =>
    dsimp only at hstep
    split_ifs at hstep <;> obtain rfl := Option.some_inj.mp hstep <;> exact h.of_same rfl
  | value tag key mark value =>
    dsimp only at hstep
    split_ifs at hstep
    · obtain rfl := Option.some_inj.mp hstep
      exact h.of_attribute rfl
    all_goals
      obtain rfl := Option.some_inj.mp hstep
      exact h.of_same rfl
  | valueReference tag key mark value name =>
    dsimp only at hstep
    split_ifs at hstep
    · obtain ⟨c', -, rfl⟩ := Option.map_eq_some_iff.mp hstep
      exact h.of_same rfl
    · obtain rfl := Option.some_inj.mp hstep
      exact h.of_same rfl
  | emptyTag tag =>
    dsimp only at hstep
    split_ifs at hstep
    have hopen : Completes ⟨.text, ⟨tag, []⟩ :: stack, root⟩ document :=
      completes_of_addElement hstep h
    exact hopen.of_push rfl
  | endTagOpen =>
    dsimp only at hstep
    split_ifs at hstep
    obtain rfl := Option.some_inj.mp hstep
    exact h.of_same rfl
  | endTagName name =>
    dsimp only at hstep
    split_ifs at hstep
    · obtain rfl := Option.some_inj.mp hstep
      exact h.of_same rfl
    · exact completes_of_inEndTag hstep h rfl
  | endTagSpace name => exact completes_of_inEndTag hstep h rfl

theorem finish_eq_some {r : Option State} (h : finish r = some document) :
    r = some ⟨.text, [], some document⟩ := by
  unfold finish at h
  split at h
  · rw [h]
  · cases h

/-- The document that has been read at the end. -/
theorem completes_of_finish {text : List Char} (h : finish (text.foldlM step s) = some document) :
    Completes s document := by
  have hfinish := finish_eq_some h
  clear h
  induction text generalizing s with
  | nil =>
    obtain rfl := Option.some_inj.mp hfinish
    refine ⟨fun node hnode ↦ ⟨rfl, rfl, Option.some_inj.mp hnode⟩, fun hne ↦ absurd rfl hne, ?_⟩
    intro tag htag
    cases htag
  | cons c text ih =>
    rw [List.foldlM_cons] at hfinish
    obtain ⟨s', hstep, hrest⟩ := Option.bind_eq_some_iff.mp hfinish
    exact completes_of_step hstep (ih hrest)

end Step

/-! ### Values that are not escaped -/

/-- In place of the text and the quotation mark after it, the reader takes some characters for the
value, if it does not stop. -/
def Takes (text : List Char) (P : List Char → Prop) : Prop :=
  ∀ (tag : Tag) (key : String) (before : List Char) (stack : List OpenElement) (root : Option Node)
    (after : List Char),
    (text ++ '"' :: after).foldlM step ⟨.value tag key '"' before, stack, root⟩ = none ∨
      ∃ value after' : List Char, P value ∧
        (text ++ '"' :: after).foldlM step ⟨.value tag key '"' before, stack, root⟩ =
          after'.foldlM step ⟨.tagValue ⟨tag.name,
            tag.attributes ++ [(key, String.ofList (before ++ value))]⟩, stack, root⟩

section Values

variable {text text' : List Char} {P Q : List Char → Prop}

theorem Takes.imp (h : Takes text P) (himp : ∀ value, P value → Q value) : Takes text Q := by
  intro tag key before stack root after
  refine (h tag key before stack root after).imp_right ?_
  rintro ⟨value, after', hvalue, hrun⟩
  exact ⟨value, after', himp value hvalue, hrun⟩

/-- The mark ends the value. -/
theorem takes_mark (text : List Char) : Takes ('"' :: text) (· = []) := by
  intro tag key before stack root after
  rw [List.cons_append, List.foldlM_cons]
  by_cases hkey : key ∈ tag.attributes.map Prod.fst
  · left
    simp [step, hkey]
  · right
    refine ⟨[], text ++ '"' :: after, rfl, ?_⟩
    simp [step, hkey]

theorem takes_nil : Takes [] (· = []) := by
  intro tag key before stack root after
  by_cases hkey : key ∈ tag.attributes.map Prod.fst
  · left
    simp [step, hkey]
  · right
    refine ⟨[], after, rfl, ?_⟩
    simp [step, hkey]

theorem takes_none {c : Char} (hc : c = '<' ∨ isChar c = false) (hmark : c ≠ '"')
    (hreference : c ≠ '&') (text : List Char) (P : List Char → Prop) : Takes (c :: text) P := by
  intro tag key before stack root after
  left
  rw [List.cons_append, List.foldlM_cons]
  simp [step, hmark, hreference, hc]

/-- A character that the reader takes for one. -/
theorem Takes.cons {c c' : Char} (h : Takes text P)
    (hstep : ∀ (tag : Tag) (key : String) (before : List Char) (stack : List OpenElement)
      (root : Option Node), step ⟨.value tag key '"' before, stack, root⟩ c =
        some ⟨.value tag key '"' (before ++ [c']), stack, root⟩) :
    Takes (c :: text) fun value ↦ ∃ rest, value = c' :: rest ∧ P rest := by
  intro tag key before stack root after
  rw [List.cons_append, List.foldlM_cons, hstep]
  refine (h tag key (before ++ [c']) stack root after).imp_right ?_
  rintro ⟨value, after', hvalue, hrun⟩
  refine ⟨c' :: value, after', ⟨value, rfl, hvalue⟩, hrun.trans ?_⟩
  rw [List.append_assoc, List.singleton_append]

/-- A text that stands for a value, before another one. -/
theorem ValueText.takes {value : String} (h : ValueText text value) (h' : Takes text' P) :
    Takes (text ++ text') fun v ↦ ∃ rest, v = value.toList ++ rest ∧ P rest := by
  intro tag key before stack root after
  rw [List.append_assoc, List.foldlM_append, h]
  refine (h' tag key (before ++ value.toList) stack root after).imp_right ?_
  rintro ⟨rest, after', hrest, hrun⟩
  refine ⟨value.toList ++ rest, after', ⟨rest, rfl, hrest⟩, hrun.trans ?_⟩
  rw [List.append_assoc]

/-- A reference ends inside the text, or the reader stops. -/
theorem run_reference {tag : Tag} {key : String} {before : List Char} {stack : List OpenElement}
    {root : Option Node} (text name after : List Char) :
    (text ++ '"' :: after).foldlM step ⟨.valueReference tag key '"' before name, stack, root⟩ =
        none ∨
      ∃ c rest, rest.length < text.length ∧
        (text ++ '"' :: after).foldlM step ⟨.valueReference tag key '"' before name, stack, root⟩ =
          (rest ++ '"' :: after).foldlM step ⟨.value tag key '"' (before ++ [c]), stack, root⟩ := by
  induction text generalizing name with
  | nil => exact Or.inl rfl
  | cons c text ih =>
    rw [List.cons_append, List.foldlM_cons]
    by_cases hend : c = ';'
    · cases hreference : reference name with
      | none =>
        left
        simp [step, hend, hreference]
      | some c' =>
        right
        refine ⟨c', text, Nat.lt_succ_self _, ?_⟩
        simp [step, hend, hreference]
    · by_cases hname : isNameChar c = true
      · have hstep : step ⟨.valueReference tag key '"' before name, stack, root⟩ c =
            some ⟨.valueReference tag key '"' before (name ++ [c]), stack, root⟩ := by
          simp [step, hend, hname]
        rw [hstep]
        refine (ih (name ++ [c])).imp_right ?_
        rintro ⟨c', rest, hlength, hrun⟩
        exact ⟨c', rest, Nat.lt_succ_of_lt hlength, hrun⟩
      · left
        simp [step, hend, hname]

theorem takes_reference (h : ∀ rest : List Char, rest.length < text.length →
    Takes rest (·.length ≤ rest.length)) : Takes ('&' :: text) (·.length ≤ text.length) := by
  intro tag key before stack root after
  have hstart : ('&' :: text ++ '"' :: after).foldlM step ⟨.value tag key '"' before, stack, root⟩ =
      (text ++ '"' :: after).foldlM step ⟨.valueReference tag key '"' before [], stack, root⟩ := rfl
  rw [hstart]
  rcases @run_reference tag key before stack root text [] after with hnone |
      ⟨c, rest, hlength, hrun⟩
  · exact Or.inl hnone
  · rw [hrun]
    refine (h rest hlength tag key (before ++ [c]) stack root after).imp_right ?_
    rintro ⟨value, after', hvalue, hrest⟩
    refine ⟨c :: value, after', Nat.le_trans (Nat.succ_le_succ hvalue) hlength, hrest.trans ?_⟩
    rw [List.append_assoc, List.singleton_append]

/-- A value that is read has no more characters than its text. -/
theorem takes_length (text : List Char) : Takes text (·.length ≤ text.length) := by
  obtain ⟨n, hn⟩ : ∃ n, text.length ≤ n := ⟨text.length, Nat.le_refl _⟩
  induction n generalizing text with
  | zero =>
    obtain rfl := List.length_eq_zero_iff.mp (Nat.le_zero.mp hn)
    exact takes_nil.imp fun value hvalue ↦ by simp [hvalue]
  | succ n ih =>
    cases text with
    | nil => exact takes_nil.imp fun value hvalue ↦ by simp [hvalue]
    | cons c text =>
      have hlength : text.length ≤ n := Nat.le_of_succ_le_succ hn
      by_cases hmark : c = '"'
      · subst hmark
        exact (takes_mark text).imp fun value hvalue ↦ by simp [hvalue]
      by_cases hreference : c = '&'
      · subst hreference
        refine Takes.imp (takes_reference fun rest hrest ↦ ?_) fun value ↦ Nat.le_succ_of_le
        exact ih rest (Nat.le_trans (Nat.le_of_lt hrest) hlength)
      by_cases hother : c = '<' ∨ isChar c = false
      · exact takes_none hother hmark hreference text _
      · have hstep : ∀ (tag : Tag) (key : String) (before : List Char) (stack : List OpenElement)
            (root : Option Node), step ⟨.value tag key '"' before, stack, root⟩ c =
              some ⟨.value tag key '"' (before ++ [if isSpace c then ' ' else c]), stack,
                root⟩ := by
          intro tag key before stack root
          simp [step, hmark, hreference, hother]
        refine ((ih text hlength).cons hstep).imp ?_
        rintro value ⟨rest, rfl, hrest⟩
        exact Nat.succ_le_succ hrest

/-- Characters that stand for themselves in a value. -/
def isPlain (c : Char) : Bool :=
  isChar c && (c ≠ '<' && c ≠ '&' && c ≠ '"' && (c = ' ' || !isSpace c))

theorem valueText_plain {c : Char} (h : isPlain c = true) : ValueText [c] (String.singleton c) := by
  unfold isPlain at h
  simp only [Bool.and_eq_true, decide_eq_true_eq, Bool.or_eq_true, Bool.not_eq_true'] at h
  obtain ⟨hchar, ⟨⟨htag, hreference⟩, hmark⟩, hspace⟩ := h
  refine valueText_char hmark hreference htag (fun hc ↦ ?_) hchar
  rcases hspace with hspace | hspace
  · exact hspace
  · cases hspace.symm.trans hc

/-- A value that begins with another character than its text. -/
theorem takes_other {c : Char} (h : isPlain c = false) (text : List Char) :
    Takes (c :: text) (· ≠ c :: text) := by
  by_cases hmark : c = '"'
  · subst hmark
    refine (takes_mark text).imp ?_
    rintro value rfl
    exact (List.cons_ne_nil _ _).symm
  by_cases hreference : c = '&'
  · subst hreference
    refine Takes.imp (takes_reference fun rest _ ↦ takes_length rest) fun value hvalue heq ↦ ?_
    rw [heq] at hvalue
    exact absurd hvalue (Nat.not_succ_le_self _)
  by_cases hother : c = '<' ∨ isChar c = false
  · exact takes_none hother hmark hreference text _
  · obtain ⟨htag, hchar⟩ := not_or.mp hother
    rw [Bool.not_eq_false] at hchar
    have hspace : isSpace c = true ∧ c ≠ ' ' := by
      unfold isPlain at h
      simpa [hchar, htag, hreference, hmark, and_comm] using h
    have hstep : ∀ (tag : Tag) (key : String) (before : List Char) (stack : List OpenElement)
        (root : Option Node), step ⟨.value tag key '"' before, stack, root⟩ c =
          some ⟨.value tag key '"' (before ++ [' ']), stack, root⟩ := by
      intro tag key before stack root
      simp [step, hmark, hreference, htag, hchar, hspace.1]
    refine ((takes_length text).cons hstep).imp ?_
    rintro value ⟨rest, rfl, -⟩ heq
    exact hspace.2 (List.cons.inj heq).1.symm

/-- What a text is taken for after a part of it that stands for a value. -/
theorem ValueText.takes_ne {value value' : List Char} (h : ValueText text (String.ofList value))
    (h' : Takes text' (· ≠ value')) : Takes (text ++ text') (· ≠ value ++ value') := by
  refine (h.takes h').imp ?_
  rintro v ⟨rest, rfl, hrest⟩ heq
  rw [String.toList_ofList] at heq
  exact hrest (List.append_cancel_left heq)

/-- A text of pieces stands for the values of the pieces, or it is taken for another value. -/
theorem valueText_or_takes {α : Type} {piece value : α → List Char} {good : α → Bool}
    (hgood : ∀ a, good a = true → ValueText (piece a) (String.ofList (value a)))
    (hbad : ∀ a (l : List α), good a = false →
      Takes (piece a ++ l.flatMap piece) (· ≠ value a ++ l.flatMap value)) (l : List α) :
    (l.all good = true → ValueText (l.flatMap piece) (String.ofList (l.flatMap value))) ∧
      (l.all good = false → Takes (l.flatMap piece) (· ≠ l.flatMap value)) := by
  induction l with
  | nil =>
    refine ⟨fun _ ↦ valueText_nil, fun h ↦ ?_⟩
    cases h
  | cons a l ih =>
    rw [List.flatMap_cons, List.flatMap_cons, List.all_cons]
    by_cases ha : good a = true
    · rw [ha, Bool.true_and]
      refine ⟨fun hl ↦ ?_, fun hl ↦ (hgood a ha).takes_ne (ih.2 hl)⟩
      rw [String.ofList_append]
      exact (hgood a ha).append (ih.1 hl)
    · rw [Bool.not_eq_true] at ha
      rw [ha, Bool.false_and]
      refine ⟨fun hl ↦ ?_, fun _ ↦ hbad a l ha⟩
      cases hl

/-- A value that is written as it is. -/
theorem valueText_or_takes_self (l : List Char) :
    (l.all isPlain = true → ValueText l (String.ofList l)) ∧
      (l.all isPlain = false → Takes l (· ≠ l)) := by
  have hself : l.flatMap (fun c ↦ [c]) = l := List.flatMap_singleton' l
  have hpieces := @valueText_or_takes Char (fun c ↦ [c]) (fun c ↦ [c]) isPlain
    (fun c hc ↦ valueText_plain hc) (fun c l hc ↦ ?_) l
  · rwa [hself] at hpieces
  · rw [List.flatMap_singleton', List.singleton_append]
    exact takes_other hc l

end Values

/-! ### Attributes -/

/-- Some white space. -/
structure Gap where
  toList : List Char
  ne_nil : toList ≠ []
  isSpace : toList.all isSpace = true

/-- A blank. -/
def Gap.blank : Gap := ⟨[' '], List.cons_ne_nil _ _, rfl⟩

/-- The end of a line and the indentation of the next one. -/
def Gap.line (indent : ℕ) : Gap where
  toList := '\n' :: List.replicate indent ' '
  ne_nil := List.cons_ne_nil _ _
  isSpace := by
    rw [List.all_cons, List.all_replicate]
    split_ifs <;> rfl

/-- An attribute as it is written, with the white space before it. Its text is good if it stands for
the value. -/
structure Attribute where
  gap : Gap
  key : String
  text : List Char
  value : String
  good : Prop
  isName : isName key.toList = true
  reads : good → ValueText text value
  misreads : ¬ good → Takes text (· ≠ value.toList)

namespace Attribute

def pair (a : Attribute) : String × String := (a.key, a.value)

def toList (a : Attribute) : List Char :=
  a.gap.toList ++ ((a.key.toList ++ ['=', '"']) ++ (a.text ++ ['"']))

/-- A value that is written as it is. -/
def raw (gap : Gap) (key value : String) (hkey : Xml.isName key.toList = true) : Attribute where
  gap := gap
  key := key
  text := value.toList
  value := value
  good := value.toList.all isPlain = true
  isName := hkey
  reads hgood := by
    have htext := (valueText_or_takes_self value.toList).1 hgood
    rwa [String.ofList_toList] at htext
  misreads hbad := (valueText_or_takes_self value.toList).2 (Bool.not_eq_true _ ▸ hbad)

theorem toList_raw (gap : Gap) (key value : String) (hkey : Xml.isName key.toList = true) :
    (raw gap key value hkey).toList =
      gap.toList ++ (key.toList ++ '=' :: '"' :: (value.toList ++ ['"'])) := by
  simp [toList, raw]

end Attribute

section Attributes

variable {mode : Mode} {tag : Tag} (stack : List OpenElement) (root : Option Node)

theorem isNameChar_of_isSpace {c : Char} (h : isSpace c = true) : isNameChar c = false := by
  unfold isSpace at h
  simp only [Bool.or_eq_true, decide_eq_true_eq] at h
  rcases h with ((rfl | rfl) | rfl) | rfl <;> rfl

theorem run_tagSpace {gap : List Char} (hgap : gap.all isSpace = true) :
    gap.foldlM step ⟨.tagSpace tag, stack, root⟩ = some ⟨.tagSpace tag, stack, root⟩ := by
  induction gap with
  | nil => rfl
  | cons c gap ih =>
    obtain ⟨hc, hrest⟩ := Bool.and_eq_true_iff.mp hgap
    have hstart : isNameStart c = false := by
      have hname := isNameChar_of_isSpace hc
      unfold isNameChar at hname
      simp only [Bool.or_eq_false_iff] at hname
      exact hname.1.1.1
    have hstep : step ⟨.tagSpace tag, stack, root⟩ c = some ⟨.tagSpace tag, stack, root⟩ := by
      simp [step, State.inTag, hstart, hc]
    rw [List.foldlM_cons, hstep]
    exact ih hrest

/-- White space in a tag. -/
theorem InTag.run_gap (h : InTag mode tag) {gap : List Char} (hne : gap ≠ [])
    (hgap : gap.all isSpace = true) :
    gap.foldlM step ⟨mode, stack, root⟩ = some ⟨.tagSpace tag, stack, root⟩ := by
  cases gap with
  | nil => exact absurd rfl hne
  | cons c gap =>
    obtain ⟨hc, hrest⟩ := Bool.and_eq_true_iff.mp hgap
    have hstep : step ⟨mode, stack, root⟩ c = some ⟨.tagSpace tag, stack, root⟩ := by
      rw [h.step_eq stack root (isNameChar_of_isSpace hc)]
      exact if_pos hc
    rw [List.foldlM_cons, hstep]
    exact run_tagSpace stack root hrest

/-- An attribute up to its value. -/
theorem InTag.run_start (h : InTag mode tag) (a : Attribute) (text : List Char) :
    (a.gap.toList ++ ((a.key.toList ++ ['=', '"']) ++ text)).foldlM step ⟨mode, stack, root⟩ =
      text.foldlM step ⟨.value tag a.key '"' [], stack, root⟩ := by
  rw [List.foldlM_append, h.run_gap stack root a.gap.ne_nil a.gap.isSpace]
  show List.foldlM step _ _ = _
  rw [List.foldlM_append, run_key stack root a.isName]
  rfl

theorem InTag.run_good (h : InTag mode tag) (a : Attribute) (hgood : a.good)
    (hnew : a.key ∉ tag.attributes.map Prod.fst) :
    a.toList.foldlM step ⟨mode, stack, root⟩ =
      some ⟨.tagValue ⟨tag.name, tag.attributes ++ [a.pair]⟩, stack, root⟩ := by
  unfold Attribute.toList
  rw [h.run_start stack root a, List.foldlM_append, a.reads hgood]
  simp [step, hnew, Attribute.pair]

/-- The names of the attributes after those of a tag are new and differ. -/
theorem nodup_keys {attributes : List (String × String)} {a : Attribute} {rest : List Attribute}
    (h : (attributes.map Prod.fst ++ (a :: rest).map Attribute.key).Nodup) :
    a.key ∉ attributes.map Prod.fst ∧
      ((attributes ++ [a.pair]).map Prod.fst ++ rest.map Attribute.key).Nodup := by
  refine ⟨fun hmem ↦ (List.nodup_append.mp h).2.2 _ hmem _ List.mem_cons_self rfl, ?_⟩
  rw [List.map_append, List.append_assoc]
  exact h

theorem InTag.run_all (h : InTag mode tag) {written : List Attribute}
    (hgood : ∀ a ∈ written, a.good)
    (hkeys : (tag.attributes.map Prod.fst ++ written.map Attribute.key).Nodup) :
    ∃ mode', (written.flatMap Attribute.toList).foldlM step ⟨mode, stack, root⟩ =
        some ⟨mode', stack, root⟩ ∧
      InTag mode' ⟨tag.name, tag.attributes ++ written.map Attribute.pair⟩ := by
  induction written generalizing mode tag with
  | nil =>
    rw [List.map_nil, List.append_nil]
    exact ⟨mode, rfl, h⟩
  | cons a written ih =>
    obtain ⟨ha, hrest⟩ := List.forall_mem_cons.mp hgood
    obtain ⟨hnew, hkeys'⟩ := nodup_keys hkeys
    obtain ⟨mode', hrun, htag⟩ := ih (.tagValue ⟨tag.name, tag.attributes ++ [a.pair]⟩) hrest hkeys'
    refine ⟨mode', ?_, ?_⟩
    · rw [List.flatMap_cons, List.foldlM_append, h.run_good stack root a ha hnew]
      exact hrun
    · rw [List.append_assoc] at htag
      exact htag

/-- The first attribute whose text is not good has another value in the document. -/
theorem InTag.becomes_of_bad (h : InTag mode tag) {written : List Attribute}
    (hbad : ¬ ∀ a ∈ written, a.good)
    (hkeys : (tag.attributes.map Prod.fst ++ written.map Attribute.key).Nodup)
    {after : List Char} {document : Node}
    (hfinish : finish ((written.flatMap Attribute.toList ++ after).foldlM step
      ⟨mode, stack, root⟩) = some document) :
    ∃ front a back value, written = front ++ a :: back ∧ value ≠ a.value ∧
      BecomesIn ⟨tag.name, tag.attributes ++ front.map Attribute.pair ++ [(a.key, value)]⟩ document
        stack := by
  induction written generalizing mode tag with
  | nil => exact absurd (fun _ hmem ↦ absurd hmem List.not_mem_nil) hbad
  | cons a written ih =>
    obtain ⟨hnew, hkeys'⟩ := nodup_keys hkeys
    rw [List.flatMap_cons, List.append_assoc] at hfinish
    by_cases ha : a.good
    · have hrest : ¬ ∀ b ∈ written, b.good := fun hall ↦ hbad (List.forall_mem_cons.mpr ⟨ha, hall⟩)
      rw [List.foldlM_append, h.run_good stack root a ha hnew] at hfinish
      obtain ⟨front, b, back, value, rfl, hvalue, hbecomes⟩ :=
        ih (.tagValue ⟨tag.name, tag.attributes ++ [a.pair]⟩) hrest hkeys' hfinish
      refine ⟨a :: front, b, back, value, rfl, hvalue, ?_⟩
      rw [List.append_assoc tag.attributes] at hbecomes
      exact hbecomes
    · have htoList : a.toList ++ (written.flatMap Attribute.toList ++ after) =
          a.gap.toList ++ ((a.key.toList ++ ['=', '"']) ++
            (a.text ++ '"' :: (written.flatMap Attribute.toList ++ after))) := by
        simp [Attribute.toList]
      rw [htoList, h.run_start stack root a] at hfinish
      rcases a.misreads ha tag a.key [] stack root (written.flatMap Attribute.toList ++ after) with
        hnone | ⟨value, after', hvalue, hrun⟩
      · rw [hnone] at hfinish
        cases hfinish
      · rw [hrun] at hfinish
        refine ⟨[], a, written, String.ofList value, rfl, fun heq ↦ hvalue ?_, ?_⟩
        · rw [← heq, String.toList_ofList]
        · rw [List.map_nil, List.append_nil]
          exact (completes_of_finish hfinish).becomes _ rfl

end Attributes

/-! ### Elements and their attributes -/

/-- The start of an element, without the bracket at its end. -/
def startText (name : String) (written : List Attribute) (gap : List Char) : List Char :=
  '<' :: name.toList ++ (written.flatMap Attribute.toList ++ gap)

/-- The names in the start of an element are names, and the attributes are in the order in which
they are declared. -/
structure Declared (attlist : String → List String) (name : String) (written : List Attribute) :
    Prop where
  isName : isName name.toList = true
  nodup : (attlist name).Nodup
  sublist : (written.map Attribute.key).Sublist (attlist name)

section Start

variable {attlist : String → List String} {name : String} {written : List Attribute}
  {gap : List Char}

theorem Declared.filter_eq (h : Declared attlist name written) {front : List Attribute}
    (hfront : ∀ a ∈ front, a ∈ written) :
    (front.map Attribute.pair).filter (fun pair ↦ pair.1 ∈ attlist name) =
      front.map Attribute.pair := by
  refine List.filter_eq_self.mpr fun pair hpair ↦ ?_
  obtain ⟨a, ha, rfl⟩ := List.mem_map.mp hpair
  exact decide_eq_true (h.sublist.subset (List.mem_map_of_mem (hfront a ha)))

theorem Declared.run (h : Declared attlist name written) (hgap : gap.all isSpace = true)
    (hgood : ∀ a ∈ written, a.good) (stack : List OpenElement) (root : Option Node) :
    ∃ mode, (startText name written gap).foldlM step ⟨.text, stack, root⟩ =
        some ⟨mode, stack, root⟩ ∧
      ∀ c, isNameChar c = false → step ⟨mode, stack, root⟩ c =
        State.inTag ⟨mode, stack, root⟩ ⟨name, written.map Attribute.pair⟩ c := by
  have htag := InTag.tagName name.toList
  rw [String.ofList_toList] at htag
  obtain ⟨mode, hrun, hin⟩ := htag.run_all stack root hgood (h.sublist.nodup h.nodup)
  have hstart : (startText name written gap).foldlM step ⟨.text, stack, root⟩ =
      gap.foldlM step ⟨mode, stack, root⟩ := by
    unfold startText
    rw [List.foldlM_append, run_tagName stack root h.isName]
    show List.foldlM step _ _ = _
    rw [List.foldlM_append, hrun]
    rfl
  rw [hstart]
  by_cases hne : gap = []
  · rw [hne]
    exact ⟨mode, rfl, fun c hc ↦ hin.step_eq stack root hc⟩
  · refine ⟨.tagSpace ⟨name, written.map Attribute.pair⟩, hin.run_gap stack root hne hgap, ?_⟩
    intro c hc
    have hstart' : isNameStart c = false := by
      unfold isNameChar at hc
      simp only [Bool.or_eq_false_iff] at hc
      exact hc.1.1.1
    simp [step, hstart']

/-- After the start of an element, its contents follow. -/
theorem Declared.run_open (h : Declared attlist name written) (hgap : gap.all isSpace = true)
    (hgood : ∀ a ∈ written, a.good) (stack : List OpenElement) (root : Option Node) :
    (startText name written gap ++ ['>']).foldlM step ⟨.text, stack, root⟩ =
      some ⟨.text, ⟨⟨name, written.map Attribute.pair⟩, []⟩ :: stack, root⟩ := by
  obtain ⟨mode, hrun, hstep⟩ := h.run hgap hgood stack root
  rw [List.foldlM_append, hrun]
  show ['>'].foldlM step _ = _
  rw [List.foldlM_cons, hstep _ rfl]
  rfl

/-- The start of an element with a text that is not good. -/
theorem Declared.becomes (h : Declared attlist name written)
    (hbad : ¬ ∀ a ∈ written, a.good) {stack : List OpenElement} {root : Option Node}
    {after : List Char} {document : Node}
    (hfinish : finish ((startText name written gap ++ after).foldlM step ⟨.text, stack, root⟩) =
      some document) :
    ∃ front a back value, written = front ++ a :: back ∧ value ≠ a.value ∧
      BecomesIn ⟨name, front.map Attribute.pair ++ [(a.key, value)]⟩ document stack := by
  have htag := InTag.tagName name.toList
  rw [String.ofList_toList] at htag
  unfold startText at hfinish
  rw [List.append_assoc, List.foldlM_append, run_tagName stack root h.isName, List.append_assoc]
    at hfinish
  exact htag.becomes_of_bad stack root hbad (h.sublist.nodup h.nodup) hfinish

/-- An element with another value of an attribute is another element. -/
theorem Declared.element_ne (h : Declared attlist name written) {front back : List Attribute}
    {a : Attribute} {value : String} (heq : written = front ++ a :: back) (hvalue : value ≠ a.value)
    (more : List (String × String)) (children es : List Element) :
    (⟨name, written.map Attribute.pair, es⟩ : Element) ≠
      ⟨name, (front.map Attribute.pair ++ [(a.key, value)] ++ more).filter
        fun pair ↦ pair.1 ∈ attlist name, children⟩ := by
  have hfront : ∀ b ∈ front, b ∈ written := by
    rw [heq]
    exact fun b ↦ List.mem_append_left _
  have hkey : a.key ∈ attlist name := by
    refine h.sublist.subset (List.mem_map_of_mem ?_)
    rw [heq]
    exact List.mem_append_right _ List.mem_cons_self
  intro hsame
  obtain ⟨-, hattributes, -⟩ := Element.mk.inj hsame
  rw [List.append_assoc, List.filter_append, h.filter_eq hfront, heq,
    List.map_append] at hattributes
  have hrest := List.append_cancel_left hattributes
  rw [List.singleton_append, List.filter_cons_of_pos (by simp [hkey]), List.map_cons] at hrest
  exact hvalue (Prod.mk.inj (List.cons.inj hrest).1).2.symm

end Start

/-! ### Contents with all their values -/

/-- Whatever follows the text, the elements of the document are not those that it is to stand
for. -/
def Misreads (attlist : String → List String) (text : List Char) (es : List Element) : Prop :=
  ∀ (top : OpenElement) (stack : List OpenElement) (root : Option Node) (after : List Char)
    (document : Node),
    finish ((text ++ after).foldlM step ⟨.text, top :: stack, root⟩) = some document →
      ∃ children, Grows document (top :: stack) children ∧
        ¬ elementsOf attlist top.children ++ es <+: elementsOf attlist children

/-- The text stands for the elements exactly if it is good. -/
structure Stands (attlist : String → List String) (text : List Char) (es : List Element)
    (good : Prop) : Prop where
  reads : good → ∃ nodes, elementsOf attlist nodes = es ∧ Content text nodes
  misreads : ¬ good → Misreads attlist text es

namespace Stands

variable {attlist : String → List String} {text text' : List Char} {es es' : List Element}
  {good good' : Prop} {name : String} {written : List Attribute} {gap : List Char}

theorem of_iff (h : Stands attlist text es good) (hiff : good ↔ good') :
    Stands attlist text es good' where
  reads hgood := h.reads (hiff.mpr hgood)
  misreads hbad := h.misreads fun hgood ↦ hbad (hiff.mp hgood)

theorem congr (h : Stands attlist text es good) (htext : text' = text) (hes : es' = es)
    (hiff : good ↔ good') : Stands attlist text' es' good' := by
  rw [htext, hes]
  exact h.of_iff hiff

theorem space (h : text.all isSpace = true) : Stands attlist text [] True where
  reads _ := ⟨text.map .char, elementsOf_char text, content_space h⟩
  misreads hbad := absurd trivial hbad

theorem nil : Stands attlist [] [] True := space rfl

theorem append (h : Stands attlist text es good) (h' : Stands attlist text' es' good') :
    Stands attlist (text ++ text') (es ++ es') (good ∧ good') where
  reads hgood := by
    obtain ⟨nodes, rfl, hcontent⟩ := h.reads hgood.1
    obtain ⟨nodes', rfl, hcontent'⟩ := h'.reads hgood.2
    exact ⟨nodes ++ nodes', elementsOf_append nodes nodes', hcontent.append hcontent'⟩
  misreads hbad top stack root after document hfinish := by
    rw [List.append_assoc] at hfinish
    by_cases hgood : good
    · have hbad' : ¬ good' := fun hgood' ↦ hbad ⟨hgood, hgood'⟩
      obtain ⟨nodes, rfl, hcontent⟩ := h.reads hgood
      rw [List.foldlM_append, hcontent] at hfinish
      obtain ⟨children, hgrows, hne⟩ := h'.misreads hbad' _ stack root after document hfinish
      refine ⟨children, hgrows.shrink, ?_⟩
      rw [elementsOf_append, List.append_assoc] at hne
      exact hne
    · obtain ⟨children, hgrows, hne⟩ := h.misreads hgood top stack root _ document hfinish
      refine ⟨children, hgrows, fun hfront ↦ hne ?_⟩
      rw [← List.append_assoc] at hfront
      exact (List.prefix_append _ _).trans hfront

theorem flatMap {α : Type} {l : List α} {texts : α → List Char} {es : α → List Element}
    {good : α → Prop} (h : ∀ a ∈ l, Stands attlist (texts a) (es a) (good a)) :
    Stands attlist (l.flatMap texts) (l.flatMap es) (∀ a ∈ l, good a) := by
  induction l with
  | nil => exact nil.of_iff (by simp)
  | cons a l ih =>
    obtain ⟨ha, hl⟩ := List.forall_mem_cons.mp h
    rw [List.flatMap_cons, List.flatMap_cons]
    exact (ha.append (ih hl)).of_iff List.forall_mem_cons.symm

/-- The start of an element that is to have some contents, when a text in it is not good. -/
theorem misreads_start (h : Declared attlist name written) (hbad : ¬ ∀ a ∈ written, a.good)
    (text : List Char) :
    Misreads attlist (startText name written gap ++ text)
      [⟨name, written.map Attribute.pair, es⟩] := by
  intro top stack root after document hfinish
  rw [List.append_assoc] at hfinish
  obtain ⟨front, a, back, value, heq, hvalue, outer, more, children, rest, hgrows, houter⟩ :=
    h.becomes hbad hfinish
  refine ⟨outer, hgrows, ?_⟩
  rw [houter, elementsOf_append, elementsOf_element, List.prefix_append_right_inj,
    List.cons_prefix_cons]
  rintro ⟨hsame, -⟩
  exact h.element_ne heq hvalue more _ es hsame

theorem emptyTag (h : Declared attlist name written) (hgap : gap.all isSpace = true) :
    Stands attlist (startText name written gap ++ ['/', '>'])
      [⟨name, written.map Attribute.pair, []⟩] (∀ a ∈ written, a.good) where
  reads hgood := by
    refine ⟨[.element name (written.map Attribute.pair) []], ?_, fun top stack root ↦ ?_⟩
    · rw [elementsOf_element, h.filter_eq fun _ ↦ id]
      rfl
    · obtain ⟨mode, hrun, hstep⟩ := h.run hgap hgood (top :: stack) root
      rw [List.foldlM_append, hrun]
      show ['/', '>'].foldlM step _ = _
      rw [List.foldlM_cons, hstep _ rfl]
      rfl
  misreads hbad := misreads_start h hbad _

theorem element (h : Declared attlist name written) (hgap : gap.all isSpace = true)
    (hinner : Stands attlist text es good) :
    Stands attlist
      (startText name written gap ++ ['>'] ++ text ++ ('<' :: '/' :: name.toList ++ ['>']))
      [⟨name, written.map Attribute.pair, es⟩] ((∀ a ∈ written, a.good) ∧ good) where
  reads hgood := by
    obtain ⟨nodes, rfl, hcontent⟩ := hinner.reads hgood.2
    refine ⟨[.element name (written.map Attribute.pair) nodes], ?_, fun top stack root ↦ ?_⟩
    · rw [elementsOf_element, h.filter_eq fun _ ↦ id]
      rfl
    · rw [List.foldlM_append, List.foldlM_append, h.run_open hgap hgood.1]
      show (text.foldlM step _ >>= _) = _
      rw [hcontent]
      exact run_endTag h.isName ⟨⟨name, written.map Attribute.pair⟩, nodes⟩ rfl
  misreads hbad := by
    by_cases hgood : ∀ a ∈ written, a.good
    · have hbad' : ¬ good := fun hgood' ↦ hbad ⟨hgood, hgood'⟩
      intro top stack root after document hfinish
      rw [List.append_assoc, List.append_assoc, List.foldlM_append, h.run_open hgap hgood]
        at hfinish
      obtain ⟨children, hgrows, hne⟩ :=
        hinner.misreads hbad' _ (top :: stack) root _ document hfinish
      cases hgrows with
      | @inner _ _ _ outer _ rest houter heq hread =>
        refine ⟨outer, houter, ?_⟩
        rw [heq, elementsOf_append, elementsOf_element, List.prefix_append_right_inj,
          List.cons_prefix_cons]
        rintro ⟨hsame, -⟩
        obtain ⟨-, -, hchildren⟩ := Element.mk.inj hsame
        exact hne (hchildren ▸ List.prefix_refl _)
    · rw [List.append_assoc, List.append_assoc]
      exact misreads_start h hgood _

/-- A text between white space. -/
theorem between {front back : List Char} (hfront : front.all isSpace = true)
    (hback : back.all isSpace = true) (h : Stands attlist text es good) :
    Stands attlist (front ++ text ++ back) es good := by
  have hwhole := ((space hfront).append h).append (space hback)
  rw [List.nil_append, List.append_nil] at hwhole
  exact hwhole.of_iff (by simp)

end Stands

/-- A document with one element is read, with the elements that are in it, exactly if the texts of
its contents are good. -/
theorem read_iff {attlist : String → List String} {name : String} {written : List Attribute}
    {gap before text after : List Char} {es : List Element} {good : Prop}
    (h : Declared attlist name written) (hgap : gap.all isSpace = true)
    (hgood : ∀ a ∈ written, a.good) (hbefore : before.all isSpace = true)
    (hafter : after.all isSpace = true) (hinner : Stands attlist text es good) :
    (∃ document, read (declaration ++ (before ++ (startText name written gap ++ ['>'] ++ (text ++
        ('<' :: '/' :: name.toList ++ '>' :: after))))) = some document ∧
      document.elements attlist = [⟨name, written.map Attribute.pair, es⟩]) ↔ good := by
  have hopen : ∀ text : List Char,
      (before ++ (startText name written gap ++ ['>'] ++ text)).foldlM step ⟨.text, [], none⟩ =
        text.foldlM step ⟨.text, [⟨⟨name, written.map Attribute.pair⟩, []⟩], none⟩ := by
    intro text
    rw [List.foldlM_append, run_space hbefore]
    show List.foldlM step _ _ = _
    rw [List.foldlM_append, h.run_open hgap hgood]
    rfl
  rw [read_declared, hopen]
  constructor
  · rintro ⟨document, hread, helements⟩
    by_contra hbad
    obtain ⟨children, hgrows, hne⟩ := hinner.misreads hbad _ [] none _ document hread
    cases hgrows with
    | root hdocument _ =>
      rw [hdocument, Node.elements] at helements
      obtain ⟨-, -, hchildren⟩ := Element.mk.inj (List.cons.inj helements).1
      exact hne (hchildren ▸ List.prefix_refl _)
  · intro hgood'
    obtain ⟨nodes, rfl, hcontent⟩ := hinner.reads hgood'
    let top : OpenElement := ⟨⟨name, written.map Attribute.pair⟩, nodes⟩
    have hend : ('<' :: '/' :: name.toList ++ ['>']).foldlM step ⟨.text, [top], none⟩ =
        State.add ⟨.text, [], none⟩ (.element name top.tag.attributes top.children) :=
      run_endTag h.isName top rfl
    have hclose : ('<' :: '/' :: name.toList ++ '>' :: after) =
        ('<' :: '/' :: name.toList ++ ['>']) ++ after := by simp
    refine ⟨.element name (written.map Attribute.pair) nodes, ?_, ?_⟩
    · rw [List.foldlM_append, hcontent, hclose]
      show finish (List.foldlM step _ _) = _
      rw [List.foldlM_append]
      show finish (List.foldlM step ⟨.text, [top], none⟩ _ >>= _) = _
      rw [hend]
      show finish (after.foldlM step _) = _
      rw [run_space hafter]
      rfl
    · rw [Node.elements, h.filter_eq fun _ ↦ id]

end Xml
