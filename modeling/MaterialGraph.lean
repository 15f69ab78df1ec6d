import MaterialGraph.Document.Json
import MaterialGraph.FileTree
import MaterialGraph.LoadOptions
import MaterialGraph.Renderer.Faulty
import MaterialGraph.Renderer.Recorder
import MaterialGraph.Proofs.Build.After
import MaterialGraph.Proofs.Build.Leaf
import MaterialGraph.Proofs.Build.Edits
import MaterialGraph.Proofs.Build.Run
import MaterialGraph.Proofs.Build.Steps
import MaterialGraph.Proofs.Build.Calm
import MaterialGraph.Proofs.Build.Binding
import MaterialGraph.Proofs.Build.Graphs
import MaterialGraph.Proofs.Build.Inputs
import MaterialGraph.Proofs.Build.Children
import MaterialGraph.Proofs.Build.Groups
import MaterialGraph.Proofs.Journal
import MaterialGraph.Proofs.Ownership
import MaterialGraph.Proofs.Recorder
import MaterialGraph.Proofs.Walk
import MaterialGraph.Proofs.Handover
import MaterialGraph.Proofs.Failure
import MaterialGraph.Proofs.Replay
import MaterialGraph.Proofs.Once
import MaterialGraph.Proofs.Reach
import MaterialGraph.Proofs.Build.Returns
import MaterialGraph.Proofs.Placement
import MaterialGraph.Proofs.Forest
import MaterialGraph.Proofs.Reordering
import MaterialGraph.Proofs.Shifting
import MaterialGraph.Proofs.Signature
import MaterialGraph.Proofs.Borrowing
import MaterialGraph.Proofs.Ending
import MaterialGraph.Proofs.Trimming
import MaterialGraph.Proofs.Targets
import MaterialGraph.Proofs.Overrides
import MaterialGraph.Proofs.Roots
import MaterialGraph.Proofs.Sockets
import MaterialGraph.Proofs.Frame
import MaterialGraph.Proofs.Course.Basic
import MaterialGraph.Proofs.Course.Graphs
import MaterialGraph.Proofs.Wiring
import MaterialGraph.Proofs.Spelling
import MaterialGraph.Proofs.Course.Errors
import MaterialGraph.Proofs.Course.Inputs
import MaterialGraph.Proofs.Course.Children
import MaterialGraph.Proofs.Caches
import MaterialGraph.Proofs.Cycles
import MaterialGraph.Proofs.Demand
import MaterialGraph.Proofs.Spreading
import MaterialGraph.Proofs.Governing
import MaterialGraph.Proofs.Tending
import MaterialGraph.Proofs.Fostering
import MaterialGraph.Proofs.Settling
import MaterialGraph.Proofs.Draining
import MaterialGraph.Proofs.Pervading
import MaterialGraph.Proofs.Logging
import MaterialGraph.Proofs.Json.Documents
import MaterialGraph.Proofs.Collection
import MaterialGraph.Proofs.Refusals
import MaterialGraph.Proofs.FanOut
import MaterialGraph.Proofs.Ledger.Children
import MaterialGraph.Proofs.Paths
import MaterialGraph.Proofs.Definitions
import MaterialGraph.Proofs.Literals
import MaterialGraph.Proofs.Misfits
import MaterialGraph.Proofs.Seniority
import MaterialGraph.Proofs.Seclusion
import MaterialGraph.Proofs.Guarding
import MaterialGraph.Proofs.Coercion
import MaterialGraph.Proofs.Connections
import MaterialGraph.Proofs.Transcripts
import MaterialGraph.Proofs.Prefixes
import MaterialGraph.Proofs.Changes
import MaterialGraph.Proofs.Ranks
import MaterialGraph.Proofs.Grading
import MaterialGraph.Proofs.Acyclicity
import MaterialGraph.Proofs.Grafting
import MaterialGraph.Proofs.Granting
import MaterialGraph.Proofs.Build.Halfway
import MaterialGraph.Proofs.Traces
import MaterialGraph.Proofs.Calmness
import MaterialGraph.Proofs.Linking
import MaterialGraph.Proofs.Permuting
import MaterialGraph.Proofs.Permuting
