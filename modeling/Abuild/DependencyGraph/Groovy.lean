import Abuild.DependencyGraph
import Abuild.Library.LinkedHashMap

/-!
The dependency graph of `DependencyGraph.groovy`, the port of the C++ one. Its maps list their
keys in the order in which they were added, so that keys are sorted where the order matters.
Strings are compared as Java compares them. An assertion that fails, and a removal from an
empty list, are the absence of a value.
-/

set_option autoImplicit false
set_option relaxedAutoImplicit false

namespace Abuild

/-! ### Java strings -/

/-- The units of a character in UTF-16. -/
def codeUnits (c : Char) : List ℕ :=
  if c.toNat < 0x10000 then [c.toNat]
  else [0xD800 + (c.toNat - 0x10000) / 0x400, 0xDC00 + (c.toNat - 0x10000) % 0x400]

def compareUnits : List ℕ → List ℕ → ℤ
  | x :: xs, y :: ys => if x = y then compareUnits xs ys else (x : ℤ) - y
  | xs, ys => (xs.length : ℤ) - ys.length

/-- `String.compareTo`. -/
def compareTo (a b : String) : ℤ :=
  compareUnits (a.toList.flatMap codeUnits) (b.toList.flatMap codeUnits)

structure GroovyDependencyGraph where
  graphState : GraphState
  dependencies : LinkedHashMap String (List String)
  sortedDependencies : LinkedHashMap String (List String)
  reverseDependencies : LinkedHashMap String (List String)
  sortedGraph : List String
  itemOrder : LinkedHashMap String ℕ
  unknowns : LinkedHashMap String (List String)
  cycles : List (List String)

namespace GroovyDependencyGraph

def new : GroovyDependencyGraph where
  graphState := .init
  dependencies := .empty
  sortedDependencies := .empty
  reverseDependencies := .empty
  sortedGraph := []
  itemOrder := .empty
  unknowns := .empty
  cycles := []

def addItem (g : GroovyDependencyGraph) (item : String) : Option GroovyDependencyGraph :=
  if g.dependencies.containsKey item then none
  else if item = "" then none
  else some { g with
    graphState := .init
    dependencies := g.dependencies.put item []
    reverseDependencies := g.reverseDependencies.put item [] }

def addDependency (g : GroovyDependencyGraph) (item dep : String) :
    Option GroovyDependencyGraph :=
  if ¬ g.dependencies.containsKey item then none
  else if dep = "" then none
  else some { g with
    graphState := .init
    dependencies := g.dependencies.put item (g.dependencies.getD item [] ++ [dep]) }

/-! ### Queries -/

def assertChecked (g : GroovyDependencyGraph) (val : Bool) : Option Unit :=
  if decide (g.graphState ≠ .init) = val then some () else none

def getDirectDependencies (g : GroovyDependencyGraph) (item : String) : Option (List String) := do
  g.assertChecked true
  g.dependencies.get? item

def getReverseDependencies (g : GroovyDependencyGraph) (item : String) :
    Option (List String) := do
  g.assertChecked true
  g.reverseDependencies.get? item

def getSortedDependencies (g : GroovyDependencyGraph) (item : String) : Option (List String) := do
  g.assertChecked true
  g.sortedDependencies.get? item

def compareItems (g : GroovyDependencyGraph) (i1 i2 : String) : Option ℤ := do
  g.assertChecked true
  let pos1 ← g.itemOrder.get? i1
  let pos2 ← g.itemOrder.get? i2
  some ((pos1 : ℤ) - pos2).sign

/-! ### The traversal -/

structure Report where
  unknownsSeen : LinkedHashMap String ℕ
  cyclesSeen : LinkedHashMap String ℕ
  unknowns : LinkedHashMap String (List String)
  cycles : List (List String)

def Report.addUnknown (r : Report) (path : List String) (item : String) : Option Report := do
  let back ← path.getLast?
  let unknown := "(" ++ back ++ ") -> (" ++ item ++ ")"
  if r.unknownsSeen.containsKey unknown then some r
  else some { r with
    unknownsSeen := r.unknownsSeen.put unknown 1
    unknowns := r.unknowns.put back (r.unknowns.getD back [] ++ [item]) }

/-- `min` of a list that begins with `front`. -/
def minItem (front : String) (cycle : List String) : String :=
  cycle.foldl (fun answer value ↦ if compareTo value answer < 0 then value else answer) front

/-- The loops that rotate a cycle and describe it are those of the C++ source. -/
def Report.addCycle (r : Report) (path : List String) (item : String) : Option Report := do
  let cycle := path.dropWhile (· ≠ item)
  let front ← cycle.head?
  let cycle := DependencyGraph.rotateTo (minItem front cycle) cycle
  let cycleStr := DependencyGraph.cycleString cycle
  if r.cyclesSeen.containsKey cycleStr then some r
  else some { r with
    cyclesSeen := r.cyclesSeen.put cycleStr 1
    cycles := r.cycles ++ [cycle] }

structure Traversal where
  visited : LinkedHashMap String ℕ
  visiting : LinkedHashMap String ℕ
  path : List String
  report : Report
  result : List String

def Traversal.enter (s : Traversal) (item : String) : Traversal :=
  { s with visiting := s.visiting.put item 1, path := s.path ++ [item] }

def Traversal.leave (s : Traversal) (item : String) : Traversal :=
  { s with
    visiting := s.visiting.remove item
    path := s.path.dropLast
    visited := s.visited.put item 1
    result := s.result ++ [item] }

/-- The first argument bounds the depth of the recursion. -/
def traverseInternal (dependencies : LinkedHashMap String (List String)) :
    ℕ → String → Traversal → Option Traversal
  | 0, _, _ => none
  | depth + 1, item, s =>
    if ¬ dependencies.containsKey item then do
      let report ← s.report.addUnknown s.path item
      some { s with report }
    else if s.visited.containsKey item then some s
    else if s.visiting.containsKey item then do
      let report ← s.report.addCycle s.path item
      some { s with report }
    else do
      let s' ← (dependencies.getD item []).foldlM
        (fun s neighbor ↦ traverseInternal dependencies depth neighbor s) (s.enter item)
      some (s'.leave item)

def traverse (dependencies : LinkedHashMap String (List String)) (item : String) (report : Report) :
    Option Traversal :=
  traverseInternal dependencies (dependencies.keySet.length + 1) item
    { visited := .empty, visiting := .empty, path := [], report, result := [] }

/-- `sort` of the keys of a map. -/
def sortKeys (keys : List String) : List String := keys.insertionSort fun a b ↦ compareTo a b ≤ 0

def sortFrom (dependencies : LinkedHashMap String (List String))
    (tables : LinkedHashMap String (List String) × Report) (item : String) :
    Option (LinkedHashMap String (List String) × Report) := do
  let s ← traverse dependencies item tables.2
  some (tables.1.put item s.result, s.report)

def topologicalSort (g : GroovyDependencyGraph) : Option GroovyDependencyGraph := do
  let (sortedDependencies, report) ← (sortKeys g.dependencies.keySet).foldlM
    (sortFrom g.dependencies)
    (g.sortedDependencies,
      { unknownsSeen := .empty, cyclesSeen := .empty, unknowns := g.unknowns, cycles := g.cycles })
  some { g with sortedDependencies, unknowns := report.unknowns, cycles := report.cycles }

/-! ### `check` -/

/-- The tables of previous checks are cleared first. -/
def clear (g : GroovyDependencyGraph) : GroovyDependencyGraph :=
  { g with
    sortedDependencies := g.sortedDependencies.mapValues fun _ ↦ []
    reverseDependencies := g.reverseDependencies.mapValues fun _ ↦ []
    unknowns := .empty
    cycles := []
    itemOrder := .empty }

def addRoot (dependencies : LinkedHashMap String (List String)) :
    LinkedHashMap String (List String) :=
  dependencies.put "" ((sortKeys dependencies.keySet).filter (· ≠ ""))

def orderItems (itemOrder : LinkedHashMap String ℕ) (sortedGraph : List String) :
    LinkedHashMap String ℕ :=
  (sortedGraph.foldl (fun (order, pos) item ↦ (order.put item pos, pos + 1)) (itemOrder, 0)).1

def reverseItem (reverse : LinkedHashMap String (List String)) (item : String)
    (deps : List String) : LinkedHashMap String (List String) :=
  deps.foldl (fun reverse dep ↦ reverse.put dep (reverse.getD dep [] ++ [item])) reverse

def check (g : GroovyDependencyGraph) : Option (Bool × GroovyDependencyGraph) :=
  if g.graphState ≠ .init then some (g.graphState = .ready, g)
  else
    let g := g.clear
    if g.dependencies.containsKey "" then none
    else do
      let g ← topologicalSort { g with dependencies := addRoot g.dependencies }
      let sortedGraph := g.sortedDependencies.getD "" []
      let last ← sortedGraph.getLast?
      if "" ≠ last then none
      else
        let sortedGraph := sortedGraph.dropLast
        let dependencies := g.dependencies.remove ""
        let graphState := if g.unknowns.isEmpty ∧ g.cycles.isEmpty then .ready else .error
        some (graphState = .ready, { g with
          graphState
          dependencies
          sortedDependencies := g.sortedDependencies.remove ""
          sortedGraph
          itemOrder := orderItems g.itemOrder sortedGraph
          reverseDependencies := dependencies.keySet.foldl
            (fun reverse item ↦ reverseItem reverse item (dependencies.getD item []))
            g.reverseDependencies })

def add (g : GroovyDependencyGraph) : DependencyGraph.Addition → Option GroovyDependencyGraph
  | .addItem item => g.addItem item
  | .addDependency item dep => g.addDependency item dep

/-- The graph after a sequence of additions, when each of them is legal. -/
def build (additions : List DependencyGraph.Addition) : Option GroovyDependencyGraph :=
  additions.foldlM add new

end GroovyDependencyGraph

end Abuild
