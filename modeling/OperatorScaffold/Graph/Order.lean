import OperatorScaffold.Graph.Basic
/-!
The order of generation. A resource is emitted when all it depends on has been, and of those that
are ready the one with the least key comes first.
-/

namespace OperatorScaffold.ResourceGraph

/-- `waiting` counts for each place the targets that are not emitted yet, and `ready` holds the
places whose count is zero, in the order of their keys. -/
structure Progress where
  waiting : List Nat
  ready : List Nat
  emitted : List Nat

def dependentsOf (g : ResourceGraph) (j : Nat) : List Nat :=
  (List.range g.size).filter fun i => j ∈ g.targetsOf i

def Progress.start (g : ResourceGraph) : Progress :=
  let waiting := g.targets.map (·.length)
  ⟨waiting, g.sortByKey ((List.range g.size).filter fun i => waiting[i]? = some 0), []⟩

/-- One target of `i` less to wait for. -/
def Progress.release (g : ResourceGraph) (p : Progress) (i : Nat) : Progress :=
  let left := p.waiting.getD i 0 - 1
  { p with
    waiting := p.waiting.set i left
    ready := if left = 0 then g.insertByKey i p.ready else p.ready }

def Progress.step (g : ResourceGraph) (p : Progress) : Progress :=
  match p.ready with
  | [] => p
  | i :: rest =>
    (g.dependentsOf i).foldl (release g) { p with ready := rest, emitted := p.emitted ++ [i] }

def Progress.run (g : ResourceGraph) (p : Progress) : Nat → Progress
  | 0 => p
  | n + 1 => (p.step g).run g n

/-- The places in the order of generation; those that a cycle holds up are left out. -/
def orderedPlaces (g : ResourceGraph) : List Nat := ((Progress.start g).run g g.size).emitted

def ordered (g : ResourceGraph) : List Resource := g.orderedPlaces.filterMap (g.resources[·]?)

end OperatorScaffold.ResourceGraph
