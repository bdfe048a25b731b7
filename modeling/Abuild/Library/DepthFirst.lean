import Abuild.Library.Precedence
import Mathlib.Data.List.Chain
import Mathlib.Data.List.Nodup
import Mathlib.Data.List.Perm.Subperm

/-!
Depth-first search of a graph given by its neighbor lists, on a graph that may
have cycles and edges to nodes that do not exist. `visit` threads the path of
nodes being visited, the list of finished nodes and a log of the edges it did
not follow: edges to unknown nodes and edges back into the path. It never runs
out of depth when the depth exceeds the number of nodes (`visit_spec`), and the
search from one node (`search_spec`) finishes exactly the nodes reachable from
it, each once and the start last. Every edge out of a finished node either
leads to a node finished earlier or is in the log, and every logged edge is an
edge of the graph that ends at an unknown node or closes a cycle. So a search
that logs no back edge lists the nodes in dependency order, and one that finds
no reachable cycle logs none.
-/

set_option autoImplicit false
set_option relaxedAutoImplicit false

namespace DepthFirst

open Relation Precedence

variable {α : Type*}

/-- An edge the search does not follow: its last element, and the path that led
to it. -/
inductive Event (α : Type*)
  | unknown (path : List α) (item : α)
  | back (path : List α) (item : α)
deriving DecidableEq

/-- The nodes being visited in the order they were entered, the finished nodes
in the order they were left, and the edges not followed. -/
structure Search (α : Type*) where
  path : List α
  result : List α
  events : List (Event α)

namespace Search

def start : Search α := ⟨[], [], []⟩

def log (s : Search α) (event : Event α) : Search α :=
  { s with events := s.events ++ [event] }

def enter (s : Search α) (item : α) : Search α := { s with path := s.path ++ [item] }

def leave (s : Search α) (item : α) : Search α :=
  { s with path := s.path.dropLast, result := s.result ++ [item] }

end Search

/-- Depth-first search from one node. No value means that the search went
deeper than allowed. -/
def visit [DecidableEq α] (next : α → Option (List α)) : ℕ → α → Search α → Option (Search α)
  | 0, _, _ => none
  | depth + 1, item, s =>
    match next item with
    | none => some (s.log (.unknown s.path item))
    | some neighbors =>
      if item ∈ s.result then some s
      else if item ∈ s.path then some (s.log (.back s.path item))
      else do
        let t ← neighbors.foldlM (fun s neighbor ↦ visit next depth neighbor s) (s.enter item)
        some (t.leave item)

theorem foldlM_visit_path [DecidableEq α] {next : α → Option (List α)} {depth : ℕ}
    (hvisit : ∀ item (s t : Search α), visit next depth item s = some t → t.path = s.path)
    (neighbors : List α) {s t : Search α}
    (h : neighbors.foldlM (fun s neighbor ↦ visit next depth neighbor s) s = some t) :
    t.path = s.path := by
  induction neighbors generalizing s with
  | nil =>
    obtain rfl : s = t := by simpa using h
    rfl
  | cons b neighbors ih =>
    rw [List.foldlM_cons] at h
    obtain ⟨u, hu, hrest⟩ := Option.bind_eq_some_iff.mp h
    exact (ih hrest).trans (hvisit b s u hu)

/-- A visit restores the path. -/
theorem visit_path [DecidableEq α] {next : α → Option (List α)} (depth : ℕ) (item : α)
    (s t : Search α) (h : visit next depth item s = some t) : t.path = s.path := by
  induction depth generalizing item s t with
  | zero => simp [visit] at h
  | succ depth ih =>
    rw [visit] at h
    split at h
    · cases h
      rfl
    · split_ifs at h
      · cases h
        rfl
      · cases h
        rfl
      · obtain ⟨u, hu, hleave⟩ := Option.bind_eq_some_iff.mp h
        cases hleave
        simp [Search.leave, foldlM_visit_path ih _ hu, Search.enter]

/-! ### The graph and the invariant of the search -/

section Graph

variable (next : α → Option (List α))

def Known (a : α) : Prop := (next a).isSome

def Edge (a b : α) : Prop := ∃ neighbors, next a = some neighbors ∧ b ∈ neighbors

/-- What a logged edge says about the graph. -/
def Event.Real : Event α → Prop
  | .unknown path item =>
    ¬ Known next item ∧ path ≠ [] ∧ (path ++ [item]).IsChain (Edge next)
  | .back path item => item ∈ path ∧ path.Nodup ∧ (path ++ [item]).IsChain (Edge next)

/-- An edge from the last node of `path` to `b` has been dealt with: `b` was
finished, or the edge is in the log. -/
def Answered (events : List (Event α)) (finished path : List α) (b : α) : Prop :=
  (Known next b → b ∈ finished ∨ .back path b ∈ events) ∧
  (¬ Known next b → .unknown path b ∈ events)

/-- The invariant of the search. -/
structure Valid (s : Search α) : Prop where
  path_nodup : s.path.Nodup
  result_nodup : s.result.Nodup
  disjoint : ∀ a ∈ s.path, a ∉ s.result
  path_known : ∀ a ∈ s.path, Known next a
  result_known : ∀ a ∈ s.result, Known next a
  path_chain : s.path.IsChain (Edge next)
  explored : ∀ before a after, s.result = before ++ a :: after → ∀ b, Edge next a b →
    ∃ path, Answered next s.events before (path ++ [a]) b
  events_real : ∀ event ∈ s.events, event.Real next
  back_seen : ∀ path b, .back path b ∈ s.events → ∀ c ∈ path, c ∈ s.result ∨ c ∈ s.path

end Graph

variable {next : α → Option (List α)}

theorem Edge.known {a b : α} (h : Edge next a b) : Known next a := by
  obtain ⟨neighbors, hnext, -⟩ := h
  simp [Known, hnext]

theorem Answered.mono {events events' : List (Event α)} {finished finished' path : List α} {b : α}
    (h : Answered next events finished path b) (hevents : events ⊆ events')
    (hfinished : finished ⊆ finished') : Answered next events' finished' path b :=
  ⟨fun hb ↦ (h.1 hb).imp (fun h ↦ hfinished h) (fun h ↦ hevents h), fun hb ↦ hevents (h.2 hb)⟩

theorem valid_start : Valid next Search.start where
  path_nodup := List.nodup_nil
  result_nodup := List.nodup_nil
  disjoint := by simp [Search.start]
  path_known := by simp [Search.start]
  result_known := by simp [Search.start]
  path_chain := List.isChain_nil
  explored := by simp [Search.start]
  events_real := by simp [Search.start]
  back_seen := by simp [Search.start]

/-- A real edge may be logged at any time, if its path has been visited. -/
theorem Valid.log {s : Search α} (h : Valid next s) {event : Event α} (hreal : event.Real next)
    (hseen : ∀ path b, event = .back path b → ∀ c ∈ path, c ∈ s.result ∨ c ∈ s.path) :
    Valid next (s.log event) where
  path_nodup := h.path_nodup
  result_nodup := h.result_nodup
  disjoint := h.disjoint
  path_known := h.path_known
  result_known := h.result_known
  path_chain := h.path_chain
  explored := fun before a after hsplit b hb ↦ by
    obtain ⟨path, hanswered⟩ := h.explored before a after hsplit b hb
    exact ⟨path, hanswered.mono (by simp [Search.log]) (List.Subset.refl _)⟩
  events_real := by
    intro e he
    rcases List.mem_append.mp he with he | he
    · exact h.events_real e he
    · rw [List.mem_singleton.mp he]
      exact hreal
  back_seen := by
    intro path b he
    rcases List.mem_append.mp he with he | he
    · exact h.back_seen path b he
    · exact hseen path b (List.mem_singleton.mp he).symm

theorem Valid.enter {s : Search α} (h : Valid next s) {item : α} (hknown : Known next item)
    (hresult : item ∉ s.result) (hpath : item ∉ s.path)
    (hchain : (s.path ++ [item]).IsChain (Edge next)) : Valid next (s.enter item) where
  path_nodup := by
    refine List.nodup_append.mpr ⟨h.path_nodup, List.nodup_singleton item, ?_⟩
    rintro a ha b hb rfl
    exact hpath (List.mem_singleton.mp hb ▸ ha)
  result_nodup := h.result_nodup
  disjoint := by
    intro a ha
    rcases List.mem_append.mp ha with ha | ha
    · exact h.disjoint a ha
    · rwa [List.mem_singleton.mp ha]
  path_known := by
    intro a ha
    rcases List.mem_append.mp ha with ha | ha
    · exact h.path_known a ha
    · rwa [List.mem_singleton.mp ha]
  result_known := h.result_known
  path_chain := hchain
  explored := h.explored
  events_real := h.events_real
  back_seen := fun path b he c hc ↦
    (h.back_seen path b he c hc).imp id fun hp ↦ List.mem_append_left _ hp

/-- The last node of the path may be left when all its edges are answered. -/
theorem Valid.leave {s : Search α} (h : Valid next s) {rest : List α} {item : α}
    (hpath : s.path = rest ++ [item])
    (hanswered : ∀ b, Edge next item b → Answered next s.events s.result s.path b) :
    Valid next (s.leave item) := by
  have hitem : item ∈ s.path := by simp [hpath]
  have hleave : (s.leave item).path = rest := by simp [Search.leave, hpath]
  have hnodup : (rest ++ [item]).Nodup := hpath ▸ h.path_nodup
  have hchain : (rest ++ [item]).IsChain (Edge next) := hpath ▸ h.path_chain
  constructor
  · rw [hleave]
    exact hnodup.of_append_left
  · refine List.nodup_append.mpr ⟨h.result_nodup, List.nodup_singleton item, ?_⟩
    rintro a ha b hb rfl
    exact h.disjoint item hitem (List.mem_singleton.mp hb ▸ ha)
  · intro a ha
    have harest : a ∈ rest := hleave ▸ ha
    have hamem : a ∈ s.path := by simp [hpath, harest]
    intro haresult
    rcases List.mem_append.mp haresult with hr | hr
    · exact h.disjoint a hamem hr
    · rw [List.mem_singleton.mp hr] at harest
      exact (List.nodup_append.mp hnodup).2.2 item harest item (by simp) rfl
  · intro a ha
    rw [hleave] at ha
    exact h.path_known a (by simp [hpath, ha])
  · intro a ha
    rcases List.mem_append.mp ha with ha | ha
    · exact h.result_known a ha
    · exact List.mem_singleton.mp ha ▸ h.path_known item hitem
  · rw [hleave]
    exact hchain.left_of_append
  · intro before a after hsplit b hb
    rcases append_singleton_eq_split hsplit with ⟨rfl, rfl, -⟩ | ⟨tail, -, htail⟩
    · exact ⟨rest, hpath ▸ hanswered b hb⟩
    · exact h.explored before a tail htail b hb
  · exact h.events_real
  · intro path b he c hc
    rcases h.back_seen path b he c hc with hr | hp
    · exact Or.inl (List.mem_append_left _ hr)
    · rcases List.mem_append.mp (hpath ▸ hp) with hp | hp
      · exact Or.inr (hleave ▸ hp)
      · exact Or.inl (List.mem_append_right _ hp)

/-! ### One visit and a run over neighbors -/

/-- What a visit does to the search: the path is restored, the finished nodes
and the log only grow, by nodes reachable from where the visit began. -/
structure Extends (next : α → Option (List α)) (roots : α → Prop) (s t : Search α) : Prop where
  valid : Valid next t
  path_eq : t.path = s.path
  result_grows : ∃ new, t.result = s.result ++ new ∧
    ∀ a ∈ new, ∃ root, roots root ∧ ReflTransGen (Edge next) root a
  events_grow : s.events <+: t.events

theorem Extends.refl {roots : α → Prop} {s : Search α} (h : Valid next s) :
    Extends next roots s s :=
  ⟨h, rfl, ⟨[], by simp, by simp⟩, List.prefix_refl _⟩

theorem Extends.trans {roots roots' roots'' : α → Prop} {s t u : Search α}
    (hst : Extends next roots s t) (htu : Extends next roots' t u)
    (hroots : ∀ a, roots a → roots'' a) (hroots' : ∀ a, roots' a → roots'' a) :
    Extends next roots'' s u := by
  obtain ⟨new, hnew, hreach⟩ := hst.result_grows
  obtain ⟨new', hnew', hreach'⟩ := htu.result_grows
  refine ⟨htu.valid, htu.path_eq.trans hst.path_eq, ⟨new ++ new', ?_, ?_⟩,
    hst.events_grow.trans htu.events_grow⟩
  · rw [hnew', hnew, List.append_assoc]
  · intro a ha
    rcases List.mem_append.mp ha with ha | ha
    · obtain ⟨root, hroot, hpath⟩ := hreach a ha
      exact ⟨root, hroots root hroot, hpath⟩
    · obtain ⟨root, hroot, hpath⟩ := hreach' a ha
      exact ⟨root, hroots' root hroot, hpath⟩

theorem Extends.result_subset {roots : α → Prop} {s t : Search α} (h : Extends next roots s t) :
    s.result ⊆ t.result := by
  obtain ⟨new, hnew, -⟩ := h.result_grows
  exact fun a ha ↦ hnew ▸ List.mem_append_left _ ha

/-- The outcome of visiting `item`. -/
structure Visited (next : α → Option (List α)) (item : α) (s t : Search α) : Prop where
  extends_ : Extends next (· = item) s t
  answered : Answered next t.events t.result s.path item
  last : Known next item → item ∉ s.result → item ∉ s.path → t.result.getLast? = some item

variable [DecidableEq α]

/-- The specification of `visit` at one depth, over a graph whose nodes are in
`nodes`: an allowed visit returns, with the outcome of `Visited`. A search does
not begin at an unknown node. -/
def VisitSpec (next : α → Option (List α)) (nodes : List α) (depth : ℕ) : Prop :=
  ∀ item s, Valid next s → (Known next item ∨ s.path ≠ []) →
    (s.path ++ [item]).IsChain (Edge next) →
    nodes.length + 1 ≤ depth + s.path.length →
    ∃ t, visit next depth item s = some t ∧ Visited next item s t

/-- A run over neighbors of the last node of the path. -/
theorem foldlM_visit {nodes : List α} {depth : ℕ} (hvisit : VisitSpec next nodes depth)
    (neighbors : List α) (s : Search α) (hs : Valid next s) (hne : s.path ≠ [])
    (hchain : ∀ b ∈ neighbors, (s.path ++ [b]).IsChain (Edge next))
    (hdepth : nodes.length + 1 ≤ depth + s.path.length) :
    ∃ t, neighbors.foldlM (fun s neighbor ↦ visit next depth neighbor s) s = some t ∧
      Extends next (· ∈ neighbors) s t ∧
      ∀ b ∈ neighbors, Answered next t.events t.result s.path b := by
  induction neighbors generalizing s with
  | nil => exact ⟨s, rfl, Extends.refl hs, by simp⟩
  | cons b neighbors ih =>
    obtain ⟨t, ht, hvisited⟩ := hvisit b s hs (Or.inr hne) (hchain b (by simp)) hdepth
    have hpath := hvisited.extends_.path_eq
    obtain ⟨u, hu, hext, hanswered⟩ := ih t hvisited.extends_.valid (hpath ▸ hne)
      (fun c hc ↦ hpath ▸ hchain c (List.mem_cons_of_mem _ hc)) (hpath ▸ hdepth)
    refine ⟨u, by simp [List.foldlM_cons, ht, hu], ?_, ?_⟩
    · exact hvisited.extends_.trans hext (by rintro a rfl; simp)
        fun a ha ↦ List.mem_cons_of_mem _ ha
    · intro c hc
      rcases List.mem_cons.mp hc with rfl | hc
      · exact hvisited.answered.mono hext.events_grow.subset hext.result_subset
      · exact hpath ▸ hanswered c hc

omit [DecidableEq α] in
theorem path_length_lt {nodes : List α} (hnodes : ∀ a, Known next a → a ∈ nodes) {s : Search α}
    (hs : Valid next s) {item : α} (hknown : Known next item) (hpath : item ∉ s.path) :
    s.path.length < nodes.length := by
  have hnodup : (item :: s.path).Nodup := List.nodup_cons.mpr ⟨hpath, hs.path_nodup⟩
  have hsub : item :: s.path ⊆ nodes := by
    intro a ha
    rcases List.mem_cons.mp ha with rfl | ha
    · exact hnodes _ hknown
    · exact hnodes a (hs.path_known a ha)
  have hle := (hnodup.subperm hsub).length_le
  simp only [List.length_cons] at hle
  omega

/-- A visit that is allowed to go deeper than the number of nodes not yet on
the path returns. The induction is on the depth; inside it `foldlM_visit` runs
over the neighbors. -/
theorem visit_spec {nodes : List α} (hnodes : ∀ a, Known next a → a ∈ nodes) (depth : ℕ) :
    VisitSpec next nodes depth := by
  induction depth with
  | zero =>
    intro item s hs _ _ hdepth
    have hsub : s.path ⊆ nodes := fun a ha ↦ hnodes a (hs.path_known a ha)
    have hle := (hs.path_nodup.subperm hsub).length_le
    omega
  | succ depth ih =>
    intro item s hs hroot hchain hdepth
    cases hnext : next item with
    | none =>
      have hunknown : ¬ Known next item := by simp [Known, hnext]
      refine ⟨s.log (.unknown s.path item), by simp [visit, hnext], ⟨?_, rfl, ⟨[], ?_, ?_⟩, ?_⟩,
        ⟨fun h ↦ absurd h hunknown, fun _ ↦ ?_⟩, fun h ↦ absurd h hunknown⟩
      · exact hs.log ⟨hunknown, hroot.resolve_left hunknown, hchain⟩ (by simp)
      · simp [Search.log]
      · simp
      · exact List.prefix_append _ _
      · simp [Search.log]
    | some neighbors =>
      have hknown : Known next item := by simp [Known, hnext]
      by_cases hresult : item ∈ s.result
      · exact ⟨s, by simp [visit, hnext, hresult], Extends.refl hs,
          ⟨fun _ ↦ Or.inl hresult, fun h ↦ absurd hknown h⟩, fun _ h ↦ absurd hresult h⟩
      by_cases hpath : item ∈ s.path
      · refine ⟨s.log (.back s.path item), by simp [visit, hnext, hresult, hpath],
          ⟨?_, rfl, ⟨[], ?_, ?_⟩, ?_⟩, ⟨fun _ ↦ Or.inr ?_, fun h ↦ absurd hknown h⟩,
          fun _ _ h ↦ absurd hpath h⟩
        · refine hs.log ⟨hpath, hs.path_nodup, hchain⟩ ?_
          rintro path b heq c hc
          obtain ⟨rfl, rfl⟩ := Event.back.inj heq
          exact Or.inr hc
        · simp [Search.log]
        · simp
        · exact List.prefix_append _ _
        · simp [Search.log]
      -- The node is entered: its neighbors are visited with one step less.
      have henter := hs.enter hknown hresult hpath hchain
      have hedges : ∀ b ∈ neighbors, ((s.enter item).path ++ [b]).IsChain (Edge next) := by
        intro b hb
        refine List.isChain_append.mpr ⟨hchain, List.isChain_singleton b, ?_⟩
        intro a ha c hc
        obtain rfl : item = a := by simpa [Search.enter] using ha
        obtain rfl : b = c := by simpa using hc
        exact ⟨neighbors, hnext, hb⟩
      have hlength := path_length_lt hnodes hs hknown hpath
      obtain ⟨t, ht, hext, hanswered⟩ := foldlM_visit ih neighbors (s.enter item) henter
        (by simp [Search.enter]) hedges (by simp [Search.enter]; omega)
      have htpath : t.path = s.path ++ [item] := hext.path_eq
      have hleave : Valid next (t.leave item) := by
        refine hext.valid.leave htpath fun b ⟨found, hfound, hb⟩ ↦ ?_
        obtain rfl : neighbors = found := by simpa [hnext] using hfound
        exact htpath ▸ hanswered b hb
      obtain ⟨new, hnew, hreach⟩ := hext.result_grows
      refine ⟨t.leave item, by simp [visit, hnext, hresult, hpath, ht],
        ⟨hleave, by simp [Search.leave, htpath], ⟨new ++ [item], ?_, ?_⟩, hext.events_grow⟩,
        ⟨fun _ ↦ Or.inl (by simp [Search.leave]), fun h ↦ absurd hknown h⟩,
        fun _ _ _ ↦ by simp [Search.leave]⟩
      · simp [Search.leave, hnew, Search.enter]
      · intro a ha
        refine ⟨item, rfl, ?_⟩
        rcases List.mem_append.mp ha with ha | ha
        · obtain ⟨root, hroot, htail⟩ := hreach a ha
          exact ReflTransGen.head ⟨neighbors, hnext, hroot⟩ htail
        · rw [List.mem_singleton.mp ha]

/-! ### The search from one node -/

omit [DecidableEq α] in
/-- Nodes on a chain reach its last element. -/
theorem transGen_of_isChain {r : α → α → Prop} {path : List α} {a b : α}
    (h : (path ++ [b]).IsChain r) (ha : a ∈ path) : TransGen r a b := by
  have hpairwise : (path ++ [b]).Pairwise (TransGen r) :=
    List.isChain_iff_pairwise.mp (h.imp fun _ _ ↦ TransGen.single)
  exact (List.pairwise_append.mp hpairwise).2.2 a ha b (by simp)

omit [DecidableEq α] in
/-- A logged back edge closes a cycle. -/
theorem Event.Real.cycle {path : List α} {b : α} (h : (Event.back path b).Real next) :
    TransGen (Edge next) b b := transGen_of_isChain h.2.2 h.1

def search (next : α → Option (List α)) (depth : ℕ) (item : α) : Option (Search α) :=
  visit next depth item Search.start

/-- The edges between nodes of the graph. -/
def Needs (next : α → Option (List α)) (a b : α) : Prop := Edge next a b ∧ Known next b

/-- The outcome of the search from `item`. -/
structure Searched (next : α → Option (List α)) (item : α) (t : Search α) : Prop where
  valid : Valid next t
  path_eq : t.path = []
  mem_result : ∀ a, a ∈ t.result ↔ Known next a ∧ ReflTransGen (Edge next) item a
  last : t.result.getLast? = some item

omit [DecidableEq α] in
/-- When the path is empty again, the finished nodes are closed under the edges
of the graph: the end of a back edge was on the path and is finished by now. -/
theorem Valid.closed {t : Search α} (h : Valid next t) (hpath : t.path = []) {a b : α}
    (ha : a ∈ t.result) (hab : Needs next a b) : b ∈ t.result := by
  obtain ⟨before, after, hsplit⟩ := List.append_of_mem ha
  obtain ⟨path, hanswered⟩ := h.explored before a after hsplit b hab.1
  rcases hanswered.1 hab.2 with hb | hback
  · exact hsplit ▸ List.mem_append_left _ hb
  · rcases h.back_seen _ b hback b (h.events_real _ hback).1 with hb | hb
    · exact hb
    · simp [hpath] at hb

/-- The search from a node of the graph returns, whatever cycles and unknown
nodes the graph has. -/
theorem search_spec {nodes : List α} (hnodes : ∀ a, Known next a → a ∈ nodes) {depth : ℕ}
    (hdepth : nodes.length + 1 ≤ depth) {item : α} (hknown : Known next item) :
    ∃ t, search next depth item = some t ∧ Searched next item t := by
  obtain ⟨t, ht, hext, hanswered, hlast⟩ := visit_spec hnodes depth item Search.start valid_start
    (Or.inl hknown) (List.isChain_singleton item) (by simpa [Search.start] using hdepth)
  have hpath : t.path = [] := hext.path_eq
  have hgetLast := hlast hknown (by simp [Search.start]) (by simp [Search.start])
  obtain ⟨new, hnew, hreach⟩ := hext.result_grows
  refine ⟨t, ht, hext.valid, hpath, fun a ↦ ⟨fun ha ↦ ?_, fun ⟨hak, ha⟩ ↦ ?_⟩, hgetLast⟩
  · have hmem : a ∈ new := by simpa [hnew, Search.start] using ha
    obtain ⟨root, rfl, hpath⟩ := hreach a hmem
    exact ⟨hext.valid.result_known a ha, hpath⟩
  · induction ha with
    | refl => exact List.mem_of_getLast? hgetLast
    | tail hprefix hedge ih =>
        exact hext.valid.closed hpath (ih ⟨hedge.known, hprefix⟩ hedge.known) ⟨hedge, hak⟩

omit [DecidableEq α] in
/-- Where no cycle is reachable, the search logs no back edge. -/
theorem Searched.ordered_of_acyclic {item : α} {t : Search α} (h : Searched next item t)
    (hacyclic : ∀ a, ReflTransGen (Edge next) item a → ¬ TransGen (Edge next) a a) :
    Ordered (Needs next) t.result := by
  intro before a after hsplit b hb
  obtain ⟨path, hanswered⟩ := h.valid.explored before a after hsplit b hb.1
  have ha : ReflTransGen (Edge next) item a := ((h.mem_result a).mp (by simp [hsplit])).2
  exact (hanswered.1 hb.2).resolve_right fun hback ↦
    hacyclic b (ha.tail hb.1) (h.valid.events_real _ hback).cycle

end DepthFirst
