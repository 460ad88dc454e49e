/-!
# Strongly connected components

The nodes of a graph are the numbers below its size, and each node has a list of successors.  The
search visits the nodes in order and follows the successors depth first.  Every visited node has a
low number: at first the count of the nodes visited before it, later the least low number among the
successors that are not yet in a finished component.  A node whose low number was never lowered
closes a component, which holds the nodes left since then and not yet in another component.

Components come in the order in which they are finished.  Inside a component the node that closed
it is the last one, and before it stand the others in the order in which the search left them.
-/

namespace SchemaDesign.Graph

structure Search where
  /-- The number of nodes visited. -/
  visited : Nat
  low : Nat → Option Nat
  /-- The nodes left that are in no finished component, the last one first. -/
  left : List Nat
  /-- The finished components, the last one first. -/
  finished : List (List Nat)

namespace Search

def start : Search := ⟨0, fun _ => none, [], []⟩

def isFinished (search : Search) (node : Nat) : Bool :=
  search.finished.any (·.contains node)

def setLow (search : Search) (node low : Nat) : Search :=
  { search with low := fun other => if other = node then some low else search.low other }

def enter (search : Search) (node : Nat) : Search :=
  { search.setLow node search.visited with visited := search.visited + 1 }

/-- Lowers the number of a node to that of a successor, unless the successor is finished. -/
def lowerTo (search : Search) (node successor : Nat) : Search :=
  match search.low node, search.low successor with
  | some low, some other =>
    if !search.isFinished successor && other < low then search.setLow node other else search
  | _, _ => search

/-- Leaves a node that was the `entry`-th to be visited.  If its number was never lowered, the nodes
left with at least this number and the node itself are a component. -/
def leave (search : Search) (node entry : Nat) : Search :=
  if search.low node = some entry then
    let inComponent (other : Nat) : Bool :=
      match search.low other with
      | some low => entry ≤ low
      | none => false
    { search with
      left := search.left.dropWhile inComponent
      finished := ((search.left.takeWhile inComponent).reverse ++ [node]) :: search.finished }
  else { search with left := node :: search.left }

end Search

/-- Visits a node.  The depth bounds the nesting of visits; a visit never nests deeper than there
are nodes. -/
def visit (successors : Nat → List Nat) : Nat → Search → Nat → Search
  | 0, search, _ => search
  | depth + 1, search, node =>
    let entered := search.enter node
    let followed := (successors node).foldl
      (fun search successor =>
        let search :=
          if (search.low successor).isSome then search
          else visit successors depth search successor
        search.lowerTo node successor)
      entered
    followed.leave node search.visited

def components (size : Nat) (successors : Nat → List Nat) : List (List Nat) :=
  let search := (List.range size).foldl
    (fun search node =>
      if (search.low node).isSome then search else visit successors size search node)
    .start
  search.finished.reverse

end SchemaDesign.Graph
