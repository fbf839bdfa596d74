import OperatorScaffold.Graph.Basic
/-!
Depth-first search for a cycle. The search takes up every place in the order of the keys and reports
the first cycle it closes, from the place where it closes and back to it.
-/

namespace OperatorScaffold.ResourceGraph

/-- The part of a path, nearest place first, from `i` on, and back to `i`. -/
def closing (i : Nat) (path : List Nat) : List Nat :=
  i :: (path.takeWhile (· ≠ i)).reverse ++ [i]

/-- The trail leads to where the search stands, nearest place first, and holds for each place the
targets that are not looked at yet. The roots are still to be taken up, and what is done was left. -/
structure Search where
  roots : List Nat
  trail : List (Nat × List Nat)
  done : List Nat

namespace Search

def start (g : ResourceGraph) : Search := ⟨g.sortByKey (List.range g.size), [], []⟩

def path (s : Search) : List Nat := s.trail.map (·.1)

/-- Goes on at a place, unless it was left before. -/
def visit (g : ResourceGraph) (s : Search) (i : Nat) : Search :=
  if i ∈ s.done then s else { s with trail := (i, g.targetsOf i) :: s.trail }

/-- Looks at the next target of the nearest place, or leaves that place when there is none; where the
trail is empty, takes up the next root. -/
def step (g : ResourceGraph) (s : Search) : Except (List Nat) Search :=
  match s.trail, s.roots with
  | [], [] => .ok s
  | [], i :: roots => .ok ({ s with roots }.visit g i)
  | (i, []) :: trail, _ => .ok { s with trail, done := i :: s.done }
  | (i, j :: js) :: trail, _ =>
    if j ∈ s.path then .error (closing j s.path)
    else .ok ({ s with trail := (i, js) :: trail }.visit g j)

def run (g : ResourceGraph) (s : Search) : Nat → Except (List Nat) Search
  | 0 => .ok s
  | n + 1 => do (← s.step g).run g n

end Search

/-- The steps of a search that closes no cycle: each place is taken up as a root and left, and each of
its targets is looked at. -/
def effort (g : ResourceGraph) : Nat :=
  2 * g.size + ((List.range g.size).flatMap g.targetsOf).length

def cycle? (g : ResourceGraph) : Option (List String) :=
  match (Search.start g).run g g.effort with
  | .error places => some (places.map g.nameOf)
  | .ok _ => none

end OperatorScaffold.ResourceGraph
