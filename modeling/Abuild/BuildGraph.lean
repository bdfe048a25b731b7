import Abuild.Buildset
import Abuild.Util.Digits

/-!
The nodes of the build graph, from `Abuild-build.cc`, and the prefixes of trees that they begin
with, from `Abuild-traverse.cc`. The pattern of `parseBuildGraphNode` asks for three parts that are
not empty, with exclamation points between them.
-/

set_option autoImplicit false
set_option relaxedAutoImplicit false

namespace Abuild

open Std (TreeMap)

/-- `++` of an `int`, which has no meaning at the largest one. -/
def increment (count : ℤ) : Option ℤ := if count < 2147483647 then some (count + 1) else none

/-- The loop of `computeTreePrefixes`. -/
def assignTreePrefixes (ndigits : ℕ) : List String → ℤ → TreeMap String String →
    Option (TreeMap String String)
  | [], _, prefixes => some prefixes
  | treeName :: treeNames, count, prefixes => do
    let count ← increment count
    assignTreePrefixes ndigits treeNames count
      (prefixes.insert treeName (Util.intToString count ndigits))

def computeTreePrefixes (fuel : ℕ) (treeNames : List String)
    (buildgraphTreePrefixes : TreeMap String String) : Option (TreeMap String String) := do
  let ndigits ← Util.digitsIn (UInt32.ofNat treeNames.length) fuel
  assignTreePrefixes ndigits.toNat treeNames 0 buildgraphTreePrefixes

/-- Two assertions stand before the use of the maps. -/
def createBuildGraphNode (buildset : Buildset) (buildgraphTreePrefixes : TreeMap String String)
    (itemName platform : String) : Option String := do
  let item ← (← buildset[itemName]?)
  let treePrefix ← buildgraphTreePrefixes[item.treeName]?
  some (treePrefix ++ "!" ++ itemName ++ "!" ++ platform)

/-- `[^!]+!([^!]+)!([^!]+)` -/
def parseBuildGraphNode (node : String) : Option (String × String) :=
  match Util.split '!' node with
  | [treePrefix, itemName, platform] =>
    if treePrefix.isEmpty || itemName.isEmpty || platform.isEmpty then none
    else some (itemName, platform)
  | _ => none

end Abuild
