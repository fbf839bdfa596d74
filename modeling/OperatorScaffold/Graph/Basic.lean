import OperatorScaffold.Workload.Basic
/-!
The dependency graph of a workload. Nodes are the places of the resources in the workload, and
`targets` gives for each the places it depends on, ascending and each once.
-/

namespace OperatorScaffold

structure ResourceGraph where
  resources : List Resource
  targets : List (List Nat)

namespace ResourceGraph

def size (g : ResourceGraph) : Nat := g.resources.length

def targetsOf (g : ResourceGraph) (i : Nat) : List Nat := g.targets.getD i []

/-- `i` directly depends on `j`. -/
def DependsOn (g : ResourceGraph) (i j : Nat) : Prop := j ∈ g.targetsOf i

def nameOf (g : ResourceGraph) (i : Nat) : String := (g.resources[i]?.map (·.name)).getD ""

def targetPlaces (w : Workload) (dependent : String) : List Nat :=
  (List.range w.resources.length).filter fun j =>
    w.resources[j]?.any fun r => w.dependencies.any fun d => d.dependent = dependent && d.target = r.name

def ofWorkload (w : Workload) : ResourceGraph :=
  ⟨w.resources, w.resources.map fun r => targetPlaces w r.name⟩

def dependsOn (g : ResourceGraph) (name : String) : List String :=
  match g.resources.findIdx? (·.name = name) with
  | some i => (g.targetsOf i).map g.nameOf
  | none => []

structure Key where
  kind : String
  group : String
  version : String
  place : Nat
  deriving DecidableEq

def Key.before (a b : Key) : Bool :=
  if a.kind ≠ b.kind then a.kind < b.kind
  else if a.group ≠ b.group then a.group < b.group
  else if a.version ≠ b.version then a.version < b.version
  else a.place < b.place

def key (g : ResourceGraph) (i : Nat) : Key :=
  match g.resources[i]? with
  | some r => ⟨r.kind, r.group, r.version, i⟩
  | none => ⟨"", "", "", i⟩

/-- Puts a place in front of the first one that its key is before. -/
def insertByKey (g : ResourceGraph) (i : Nat) : List Nat → List Nat
  | [] => [i]
  | j :: js => if (g.key i).before (g.key j) then i :: j :: js else j :: g.insertByKey i js

def sortByKey (g : ResourceGraph) : List Nat → List Nat
  | [] => []
  | i :: is => g.insertByKey i (g.sortByKey is)

end ResourceGraph

end OperatorScaffold
