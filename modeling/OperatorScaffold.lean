import OperatorScaffold.Main
import OperatorScaffold.Proofs.Marker.Regeneration
import OperatorScaffold.Proofs.Graph.Cycle
import OperatorScaffold.Proofs.Graph.Clash
import OperatorScaffold.Proofs.Graph.Rule
import OperatorScaffold.Proofs.Graph.Validation
import OperatorScaffold.Proofs.Graph.Order
import OperatorScaffold.Proofs.Files.Path
import OperatorScaffold.Proofs.Files.Growth
import OperatorScaffold.Proofs.Files.Writing
import OperatorScaffold.Proofs.Files.Leading
import OperatorScaffold.Proofs.Files.Action
import OperatorScaffold.Proofs.Scaffold.Artifact
import OperatorScaffold.Proofs.Scaffold.Pointwise
import OperatorScaffold.Proofs.Scaffold.Separation
import OperatorScaffold.Proofs.Scaffold.Plan
import OperatorScaffold.Proofs.Scaffold.Run
import OperatorScaffold.Proofs.Graph.Agreement
import OperatorScaffold.Proofs.Graph.Least
import OperatorScaffold.Proofs.CreateApi.Calls
import OperatorScaffold.Proofs.Project.Recording
import OperatorScaffold.Proofs.Scaffold.Rerun
import OperatorScaffold.Proofs.Project.Reload
import OperatorScaffold.Proofs.Scaffold.Again
import OperatorScaffold.Proofs.Template
import OperatorScaffold.Proofs.Scaffold.Verdict
import OperatorScaffold.Proofs.Scaffold.Rehearsal
import OperatorScaffold.Proofs.CreateApi.Refusal
import OperatorScaffold.Proofs.Schema.Members
import OperatorScaffold.Proofs.Schema.Validity
import OperatorScaffold.Proofs.Schema.Built
import OperatorScaffold.Proofs.Schema.Defaults
import OperatorScaffold.Proofs.Marker.Delimiter
import OperatorScaffold.Proofs.Marker.Unmarked
import OperatorScaffold.Proofs.Text.Case
import OperatorScaffold.Proofs.Text.OneLine
import OperatorScaffold.Proofs.Yaml.Pen
import OperatorScaffold.Proofs.Yaml.Rendering
import OperatorScaffold.Proofs.Marker.Account
import OperatorScaffold.Proofs.Schema.Quiet
import OperatorScaffold.Proofs.Template.Go
import OperatorScaffold.Proofs.Template.Manifests
import OperatorScaffold.Proofs.Template.Readiness
import OperatorScaffold.Proofs.Template.Types
import OperatorScaffold.Proofs.Template.Regions
import OperatorScaffold.Proofs.Project.Keeping
import OperatorScaffold.Proofs.Project.Ordered
import OperatorScaffold.Proofs.Scaffold.Repair
import OperatorScaffold.Proofs.Workload.Inclusion
import OperatorScaffold.Proofs.Marker.Canonical
import OperatorScaffold.Proofs.Files.Parts
import OperatorScaffold.Proofs.Graph.Arrangement
import OperatorScaffold.Proofs.Scaffold.Distinct
import OperatorScaffold.Proofs.Scaffold.Sequence
import OperatorScaffold.Proofs.Workload.Linking
import OperatorScaffold.Proofs.Scaffold.History
import OperatorScaffold.Proofs.Schema.Normal
import OperatorScaffold.Proofs.Schema.Agreement
import OperatorScaffold.Proofs.Lint
import OperatorScaffold.Proofs.Template.Objects
import OperatorScaffold.Proofs.Template.GoNames
import OperatorScaffold.Proofs.Yaml.Grammar
import OperatorScaffold.Proofs.Yaml.Scan
import OperatorScaffold.Proofs.Yaml.Word
import OperatorScaffold.Proofs.Yaml.Quoted
import OperatorScaffold.Proofs.Yaml.Literal
import OperatorScaffold.Proofs.Yaml.Ink
import OperatorScaffold.Proofs.Yaml.Layout
import OperatorScaffold.Proofs.Yaml.Margin
import OperatorScaffold.Proofs.Yaml.Block
import OperatorScaffold.Proofs.Yaml.Reading
import OperatorScaffold.Proofs.Yaml.Scalar
import OperatorScaffold.Proofs.Yaml.Ending
import OperatorScaffold.Proofs.Template.Words
import OperatorScaffold.Proofs.Template.Entries
import OperatorScaffold.Proofs.Template.Sample
import OperatorScaffold.Proofs.Template.Definition
import OperatorScaffold.Proofs.Scaffold.Collision
import OperatorScaffold.Proofs.Scaffold.Telling
