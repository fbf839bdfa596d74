import OperatorScaffold.Proofs.Graph.Rule
import OperatorScaffold.Proofs.Schema.Quiet
import OperatorScaffold.Proofs.Template.Line
import OperatorScaffold.Template.Context
/-!
What is known of the texts that templates fill in.
-/

namespace OperatorScaffold

open Marker Text Naming

theorem IsGroup.oneLine {s : String} (h : IsGroup s) : OneLine s := fun hfeed =>
  absurd (h.2 _ hfeed) (by decide)

theorem IsPlural.oneLine {s : String} (h : IsPlural s) : OneLine s := fun hfeed =>
  absurd (h.2 _ hfeed) (by decide)

/-- What a resource is called is of one line, but for the group, which has the domain behind it. -/
structure Identity.Quiet (i : Identity) : Prop where
  kind : UpperCamel i.kind
  plural : OneLine i.plural
  group : OneLine i.group
  version : KubeVersion i.version
  fullGroup : Unmarked i.fullGroup.toList

namespace Identity

variable {i : Identity}

theorem oneLine_package (i : Identity) : OneLine i.package := by
  rw [package, Text.lowerAscii, oneLine_ofList, String.toList_ofList]
  intro hfeed
  obtain ⟨c, hc, he⟩ := List.mem_map.1 hfeed
  obtain rfl : c = '\n' := by
    by_contra hne
    exact toLower_ne (by decide) hne he
  exact absurd (List.mem_filter.1 hc).2 (by decide)

theorem Quiet.oneLine_apiAlias (h : i.Quiet) : OneLine i.apiAlias :=
  oneLine_append.2 ⟨oneLine_package i, h.version.oneLine⟩

theorem Quiet.oneLine_singular (h : i.Quiet) : OneLine i.singular := oneLine_toLower h.kind.oneLine

theorem oneLine_scope (i : Identity) : OneLine i.scope := by
  unfold scope
  split
  · exact oneLine_fixed rfl
  · exact oneLine_fixed rfl

end Identity

namespace Template

structure Awaited.Quiet (a : Awaited) : Prop where
  kind : OneLine a.kind
  plural : OneLine a.plural
  readiness : OneLine a.readiness
  fullGroup : Unmarked a.fullGroup.toList

/-- Nothing of what a template puts into a line by itself is a marker line there. -/
structure Context.Quiet (c : Context) : Prop where
  boilerplate : Unmarked c.boilerplate.toList
  repository : Unmarked c.repository.toList
  resource : c.resource.Quiet
  fields : ∀ g : Field, g.Inside c.fields → g.Quiet
  dependencies : ∀ a ∈ c.dependencies, a.Quiet
  predicates : ∀ p ∈ c.predicates, UpperCamel p
  markers : ∀ m ∈ c.markers, isName m.name ∧ Unmarked m.default.toList
  names : (generatedMarkers ++ c.markers.map (·.name)).Nodup

end Template

end OperatorScaffold
