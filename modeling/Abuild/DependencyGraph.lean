import Mathlib

/-!
The dependency graph of `DependencyGraph.cc`: a map from items to the items they
depend on, whose `check` sorts the graph topologically, looks for dependencies
on unknown items and for cycles, and fills the tables that the queries read.
Maps and sets of strings are ordered trees, as in the source. An assertion of
the source that fails, a query made before `check`, and an access past the end
of a list are all the absence of a value.
-/

set_option autoImplicit false
set_option relaxedAutoImplicit false

namespace Abuild

open Std (TreeMap TreeSet)

abbrev ItemType := String
abbrev ItemList := List ItemType
abbrev ItemMap := TreeMap ItemType ItemList

inductive GraphState
  | init
  | error
  | ready
deriving DecidableEq, Repr

structure DependencyGraph where
  graphState : GraphState
  dependencies : ItemMap
  sortedDependencies : ItemMap
  reverseDependencies : ItemMap
  inOrder : ItemList
  itemOrder : TreeMap ItemType ℕ
  independentSets : List ItemList
  unknowns : ItemMap
  cycles : List ItemList

namespace DependencyGraph

def new : DependencyGraph where
  graphState := .init
  dependencies := ∅
  sortedDependencies := ∅
  reverseDependencies := ∅
  inOrder := []
  itemOrder := ∅
  independentSets := []
  unknowns := ∅
  cycles := []

def addItem (g : DependencyGraph) (item : ItemType) : Option DependencyGraph :=
  if g.dependencies.contains item then none
  else if item.isEmpty then none
  else some { g with
    graphState := .init
    dependencies := g.dependencies.insert item []
    reverseDependencies := g.reverseDependencies.insert item [] }

def addDependency (g : DependencyGraph) (item dep : ItemType) : Option DependencyGraph :=
  if ¬ g.dependencies.contains item then none
  else if dep.isEmpty then none
  else some { g with
    graphState := .init
    dependencies := g.dependencies.insert item (g.dependencies.getD item [] ++ [dep]) }

/-! ### Queries -/

def assertChecked (g : DependencyGraph) (val : Bool) : Option Unit :=
  if val = decide (g.graphState ≠ .init) then some () else none

def getDirectDependencies (g : DependencyGraph) (item : ItemType) : Option ItemList := do
  g.assertChecked true
  g.dependencies[item]?

def getSortedDependencies (g : DependencyGraph) (item : ItemType) : Option ItemList := do
  g.assertChecked true
  g.sortedDependencies[item]?

def getReverseDependencies (g : DependencyGraph) (item : ItemType) : Option ItemList := do
  g.assertChecked true
  g.reverseDependencies[item]?

def compareItems (g : DependencyGraph) (i1 i2 : ItemType) : Option ℤ := do
  g.assertChecked true
  let i1n ← g.itemOrder[i1]?
  let i2n ← g.itemOrder[i2]?
  if i1n < i2n then some (-1)
  else if i1n > i2n then some 1
  else some 0

def getSortedGraph (g : DependencyGraph) : Option ItemList := do
  g.assertChecked true
  some g.inOrder

def getErrors (g : DependencyGraph) : Option (ItemMap × List ItemList) := do
  g.assertChecked true
  some (g.unknowns, g.cycles)

/-- The `const` overload of `check`. -/
def checked (g : DependencyGraph) : Option Bool := do
  g.assertChecked true
  some (g.graphState = .ready)

/-! ### The traversal -/

/-- The errors found so far: the graph's own records, and the strings by which a
traversal of the whole graph knows that an error has been recorded. -/
structure Report where
  unknownsSeen : TreeSet String
  cyclesSeen : TreeSet String
  unknowns : ItemMap
  cycles : List ItemList

/-- A dependency of the last item of `path` that does not exist. -/
def Report.addUnknown (r : Report) (path : ItemList) (item : ItemType) : Option Report := do
  let back ← path.getLast?
  let unknown := "(" ++ back ++ ") -> (" ++ item ++ ")"
  if r.unknownsSeen.contains unknown then some r
  else some { r with
    unknownsSeen := r.unknownsSeen.insert unknown
    unknowns := r.unknowns.insert back (r.unknowns.getD back [] ++ [item]) }

/-- The lexically least element of a list that begins with `front`. -/
def minItem (front : ItemType) (cycle : ItemList) : ItemType :=
  cycle.foldl (fun min item ↦ if item < min then item else min) front

/-- Moves elements from the front of a list to its end until `front` is first. -/
def rotateTo (front : ItemType) (cycle : ItemList) : ItemList :=
  cycle.dropWhile (· ≠ front) ++ cycle.takeWhile (· ≠ front)

def cycleString (cycle : ItemList) : String :=
  cycle.foldl (fun s item ↦ s ++ ("(" ++ item ++ ") -> ")) ""

/-- A dependency on `item`, which is on the path. The cycle is listed from its
least item, so that it is recorded once. -/
def Report.addCycle (r : Report) (path : ItemList) (item : ItemType) : Option Report := do
  let cycle := path.dropWhile (· ≠ item)
  let front ← cycle.head?
  let cycle := rotateTo (minItem front cycle) cycle
  if r.cyclesSeen.contains (cycleString cycle) then some r
  else some { r with
    cyclesSeen := r.cyclesSeen.insert (cycleString cycle)
    cycles := r.cycles ++ [cycle] }

structure Traversal where
  visited : TreeSet ItemType
  visiting : TreeSet ItemType
  path : ItemList
  report : Report
  result : ItemList

def Traversal.enter (s : Traversal) (item : ItemType) : Traversal :=
  { s with visiting := s.visiting.insert item, path := s.path ++ [item] }

def Traversal.leave (s : Traversal) (item : ItemType) : Traversal :=
  { s with
    visiting := s.visiting.erase item
    path := s.path.dropLast
    visited := s.visited.insert item
    result := s.result ++ [item] }

/-- The first argument bounds the depth of the recursion, which the source
leaves to the stack. -/
def traverseInternal (dependencies : ItemMap) : ℕ → ItemType → Traversal → Option Traversal
  | 0, _, _ => none
  | depth + 1, item, s =>
    if ¬ dependencies.contains item then do
      let report ← s.report.addUnknown s.path item
      some { s with report }
    else if s.visited.contains item then some s
    else if s.visiting.contains item then do
      let report ← s.report.addCycle s.path item
      some { s with report }
    else do
      let s' ← (dependencies.getD item []).foldlM
        (fun s neighbor ↦ traverseInternal dependencies depth neighbor s) (s.enter item)
      some (s'.leave item)

/-- A path has no repetitions, so that it is never longer than the number of
items. -/
def traverse (dependencies : ItemMap) (item : ItemType) (report : Report) : Option Traversal :=
  traverseInternal dependencies (dependencies.size + 1) item
    { visited := ∅, visiting := ∅, path := [], report, result := [] }

/-- One round of the loop of `topologicalSort`: the traversal from one item. -/
def sortFrom (dependencies : ItemMap) (tables : ItemMap × Report) (item : ItemType) :
    Option (ItemMap × Report) := do
  let s ← traverse dependencies item tables.2
  some (tables.1.insert item s.result, s.report)

def topologicalSort (g : DependencyGraph) : Option DependencyGraph := do
  let (sortedDependencies, report) ← g.dependencies.keys.foldlM (sortFrom g.dependencies)
    (g.sortedDependencies,
      { unknownsSeen := ∅, cyclesSeen := ∅, unknowns := g.unknowns, cycles := g.cycles })
  some { g with sortedDependencies, unknowns := report.unknowns, cycles := report.cycles }

/-! ### `check` -/

/-- The graph with an item whose name is the empty string and which depends on
all the others. -/
def addRoot (dependencies : ItemMap) : ItemMap :=
  let dependencies := dependencies.insert "" []
  dependencies.insert "" (dependencies.keys.filter (· ≠ ""))

def orderItems (itemOrder : TreeMap ItemType ℕ) (inOrder : ItemList) : TreeMap ItemType ℕ :=
  (inOrder.foldl (fun (order, pos) item ↦ (order.insert item (pos + 1), pos + 1))
    (itemOrder, 0)).1

def reverseItem (reverse : ItemMap) (item : ItemType) (deps : ItemList) : ItemMap :=
  deps.foldl (fun reverse dep ↦ reverse.insert dep (reverse.getD dep [] ++ [item])) reverse

def check (g : DependencyGraph) : Option (Bool × DependencyGraph) :=
  if g.graphState ≠ .init then some (g.graphState = .ready, g)
  else if g.dependencies.contains "" then none
  else do
    let g ← topologicalSort { g with dependencies := addRoot g.dependencies }
    let inOrder := g.sortedDependencies.getD "" []
    let back ← inOrder.getLast?
    if back ≠ "" then none
    else
      let inOrder := inOrder.dropLast
      let dependencies := g.dependencies.erase ""
      let graphState := if g.unknowns.isEmpty ∧ g.cycles.isEmpty then .ready else .error
      some (graphState = .ready, { g with
        graphState
        dependencies
        sortedDependencies := g.sortedDependencies.erase ""
        inOrder
        itemOrder := orderItems g.itemOrder inOrder
        reverseDependencies := dependencies.toList.foldl
          (fun reverse (item, deps) ↦ reverseItem reverse item deps) g.reverseDependencies })

/-! ### Sequences of calls -/

/-- A call that adds to a graph. -/
inductive Addition
  | addItem (item : ItemType)
  | addDependency (item dep : ItemType)
deriving DecidableEq, Repr

def add (g : DependencyGraph) : Addition → Option DependencyGraph
  | .addItem item => g.addItem item
  | .addDependency item dep => g.addDependency item dep

/-- The graph after a sequence of additions, when each of them is legal. -/
def build (additions : List Addition) : Option DependencyGraph := additions.foldlM add new

/-- The additions by which a table of items and their dependencies becomes a graph. -/
def additionsOf (table : List (ItemType × ItemList)) : List Addition :=
  table.flatMap fun (item, deps) ↦ .addItem item :: deps.map (.addDependency item)

/-- The graphs that legal calls lead to, in any order of additions and checks. -/
inductive Reachable : DependencyGraph → Prop
  | new : Reachable new
  | add {g g' : DependencyGraph} (addition : Addition) :
      Reachable g → g.add addition = some g' → Reachable g'
  | check {g g' : DependencyGraph} {result : Bool} :
      Reachable g → g.check = some (result, g') → Reachable g'

/-- A graph that has been checked and found to have no errors. -/
def ErrorFree (g : DependencyGraph) : Prop := Reachable g ∧ g.graphState = .ready

end DependencyGraph

end Abuild
