import Abuild.DependencyGraph

/-!
`getIndependentSets`, which the source computes when it is first asked for. A node that has no
set yet is the start of a new one, and the loop over the nodes of a set follows the
dependencies in both directions.
-/

set_option autoImplicit false
set_option relaxedAutoImplicit false

namespace Abuild.DependencyGraph

open Std (TreeMap)

/-- The nodes that a node has edges to, in both directions. -/
def adjacentNodes (g : DependencyGraph) (node : ItemType) : Option ItemList := do
  let deps ← g.getDirectDependencies node
  let rdeps ← g.getReverseDependencies node
  some (deps ++ rdeps)

/-- The loop over the nodes of a set. Every turn takes a node off the list, and every node is
given a set, and its neighbors added to the list, only once. -/
def assignSet (g : DependencyGraph) (set : ℕ) :
    ℕ → ItemList → TreeMap ItemType ℕ → Option (TreeMap ItemType ℕ)
  | _, [], setNumbers => some setNumbers
  | 0, _ :: _, _ => none
  | turns + 1, node :: nodes, setNumbers =>
    if setNumbers.contains node then assignSet g set turns nodes setNumbers
    else do
      let adjacent ← g.adjacentNodes node
      assignSet g set turns (nodes ++ adjacent) (setNumbers.insert node set)

/-- No more nodes are ever added to the list of one set. -/
def turnLimit (g : DependencyGraph) : ℕ :=
  1 + (g.inOrder.map fun node ↦ ((g.adjacentNodes node).getD []).length).sum

def assignSets (g : DependencyGraph) : Option (TreeMap ItemType ℕ × ℕ) :=
  g.inOrder.foldlM (fun (setNumbers, nextSet) node ↦
    if setNumbers.contains node then some (setNumbers, nextSet)
    else do
      let setNumbers ← assignSet g nextSet g.turnLimit [node] setNumbers
      some (setNumbers, nextSet + 1)) (∅, 0)

/-- The nodes in groups, by the numbers of their sets. -/
def gatherSets (setNumbers : TreeMap ItemType ℕ) : TreeMap ℕ ItemList :=
  setNumbers.toList.foldl (fun sets (node, set) ↦ sets.insert set (sets.getD set [] ++ [node])) ∅

def itemLess (g : DependencyGraph) (i1 i2 : ItemType) : Bool := g.compareItems i1 i2 = some (-1)

def computeIndependentSets (g : DependencyGraph) : Option (List ItemList) := do
  let (setNumbers, _) ← g.assignSets
  some ((gatherSets setNumbers).toList.map fun (_, nodes) ↦
    nodes.insertionSort fun i1 i2 ↦ ¬ g.itemLess i2 i1)

def getIndependentSets (g : DependencyGraph) : Option (List ItemList × DependencyGraph) :=
  if g.graphState ≠ .ready then none
  else if !g.independentSets.isEmpty then some (g.independentSets, g)
  else do
    let independentSets ← g.computeIndependentSets
    some (independentSets, { g with independentSets })

end Abuild.DependencyGraph
