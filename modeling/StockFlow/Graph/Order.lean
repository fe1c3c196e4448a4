import StockFlow.Graph.Path

/-!
# Putting nodes behind what they depend on

The nodes of a list are put into an order in which each stands behind those it depends on. They are
taken in the order of the list, and each is placed behind what it depends on and is not placed yet,
which is taken in the order that `deps` gives. So of two nodes that do not depend on one another the
one comes first that is met sooner on this way; that can be the later one of the list, where a node
before both of them depends on it. What is not in the list is left out, also where a node depends on
it.

* `place` — puts a node behind what it depends on
* `order` — the order, or a node that depends on itself

## Termination

Placing a node first places what it depends on, with the node on the path. The path only takes nodes
of the list that it does not hold yet (`unvisited_cons_lt`).
-/

namespace StockFlow.Graph

/-- Puts a node behind the nodes `out` that are placed already and behind what it depends on. The
nodes of `path` wait for it. -/
def place (deps : String → List String) (members path out : List String) (n : String) :
    Except String (List String) :=
  if _hskip : n ∉ members ∨ n ∈ out then .ok out
  else if _hpath : n ∈ path then .error n
  else do
    let placed ← (deps n).foldlM (place deps members (n :: path)) out
    return placed ++ [n]
termination_by unvisited members path
decreasing_by exact unvisited_cons_lt (Decidable.not_not.1 fun h => _hskip (Or.inl h)) _hpath

/-- The nodes of `list`, each behind those it depends on, or a node that depends on itself. -/
def order (deps : String → List String) (list : List String) : Except String (List String) :=
  list.foldlM (place deps list []) []

end StockFlow.Graph
