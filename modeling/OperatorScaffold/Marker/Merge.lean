import OperatorScaffold.Marker.Document
/-!
Merging a fresh document with the one on disk. The fresh document gives the skeleton, the one on
disk the bodies of the regions both have.
-/

namespace OperatorScaffold.Marker

open Text

/-- The lines of `fresh` that are not blank and are not among the `present` ones, each once, up to
blanks around them. -/
def newLines (present : List String) : List String → List String
  | [] => []
  | l :: ls =>
    if trim l = "" || trim l ∈ present then newLines present ls
    else l :: newLines (trim l :: present) ls

/-- The existing lines, and behind them the fresh ones they lack; where there are any, every line gets
its line feed. -/
def unionLines (existing fresh : List String) : List String :=
  match newLines (existing.map trim) fresh with
  | [] => existing
  | added => (existing ++ added).map closeLine

def mergeRegion (existing : Document) (r : Region) : Region :=
  match existing.region? r.name with
  | none => r
  | some prev => match r.scope with
    | .static => { r with body := prev.body }
    | .dynamic => { r with body := unionLines prev.body r.body }

def mergeSegment (existing : Document) : Segment → Segment
  | .text ls => .text ls
  | .region r => .region (mergeRegion existing r)

def merge (fresh existing : Document) : Document := fresh.map (mergeSegment existing)

/-- Names of regions on disk that the fresh document no longer has. -/
def dropped (fresh existing : Document) : List String :=
  (existing.regions.filter fun r => (fresh.region? r.name).isNone).map (·.name)

end OperatorScaffold.Marker
