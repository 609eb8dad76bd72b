import DeferredInit.Data.Table
import DeferredInit.Lowering.Fault
import DeferredInit.Lowering.Guard
import DeferredInit.Lowering.Rules
import DeferredInit.Lowering.Traversal
import DeferredInit.Machine.Eval
import DeferredInit.Machine.Fault
import DeferredInit.Machine.Run
import DeferredInit.Machine.State
import DeferredInit.Machine.Value
import DeferredInit.Number.Double
import DeferredInit.Number.Shortest
import DeferredInit.Program.Basic
import DeferredInit.Program.Build
import DeferredInit.Program.Decl
import DeferredInit.Program.Declare
import DeferredInit.Program.Expr
import DeferredInit.Program.Id
import DeferredInit.Program.Listing
import DeferredInit.Program.Modifiers
import DeferredInit.Program.NodeSet
import DeferredInit.Program.Ownership
import DeferredInit.Program.Span
import DeferredInit.Program.Ty
import DeferredInit.Proofs.Deferral.AssignedFirst
import DeferredInit.Proofs.Deferral.CellCalls
import DeferredInit.Proofs.Deferral.Cells
import DeferredInit.Proofs.Deferral.DefaultGetter
import DeferredInit.Proofs.Deferral.Guards
import DeferredInit.Proofs.Deferral.Kept
import DeferredInit.Proofs.Deferral.Named
import DeferredInit.Proofs.Deferral.Reference
import DeferredInit.Proofs.Deferral.Reports
import DeferredInit.Proofs.Deferral.Sentinel
import DeferredInit.Proofs.Deferral.Simulation
import DeferredInit.Proofs.Deferral.Watched
import DeferredInit.Proofs.Deferral.WriteBeforeRead
import DeferredInit.Proofs.Lowering.Acceptable
import DeferredInit.Proofs.Lowering.Again
import DeferredInit.Proofs.Lowering.Building
import DeferredInit.Proofs.Lowering.Failure
import DeferredInit.Proofs.Lowering.Forest
import DeferredInit.Proofs.Lowering.Guards
import DeferredInit.Proofs.Lowering.Lowered
import DeferredInit.Proofs.Lowering.Named
import DeferredInit.Proofs.Lowering.Nodes
import DeferredInit.Proofs.Lowering.Numbered
import DeferredInit.Proofs.Lowering.Order
import DeferredInit.Proofs.Lowering.Origin
import DeferredInit.Proofs.Lowering.Patch
import DeferredInit.Proofs.Lowering.Permuted
import DeferredInit.Proofs.Lowering.Sites
import DeferredInit.Proofs.Lowering.Steps
import DeferredInit.Proofs.Lowering.Violations
import DeferredInit.Proofs.Machine.Calls
import DeferredInit.Proofs.Machine.Comparison
import DeferredInit.Proofs.Machine.Compositional
import DeferredInit.Proofs.Machine.Construction
import DeferredInit.Proofs.Machine.DepthLimit
import DeferredInit.Proofs.Machine.Equality
import DeferredInit.Proofs.Machine.Isolation
import DeferredInit.Proofs.Machine.Lockstep
import DeferredInit.Proofs.Machine.Logged
import DeferredInit.Proofs.Machine.Memory
import DeferredInit.Proofs.Machine.OperandOrder
import DeferredInit.Proofs.Machine.Operations
import DeferredInit.Proofs.Machine.Recorded
import DeferredInit.Proofs.Machine.Reflexive
import DeferredInit.Proofs.Machine.Renamed
import DeferredInit.Proofs.Machine.Resemblance
import DeferredInit.Proofs.Machine.Returns
import DeferredInit.Proofs.Machine.Semantics
import DeferredInit.Proofs.Machine.StaticFields
import DeferredInit.Proofs.Machine.Stepwise
import DeferredInit.Proofs.Machine.Termination
import DeferredInit.Proofs.Program.Alike
import DeferredInit.Proofs.Program.Closed
import DeferredInit.Proofs.Program.Declared
import DeferredInit.Proofs.Program.Edges
import DeferredInit.Proofs.Program.Emitted
import DeferredInit.Proofs.Program.Followed
import DeferredInit.Proofs.Program.Forest
import DeferredInit.Proofs.Program.Growth
import DeferredInit.Proofs.Program.Hierarchy
import DeferredInit.Proofs.Program.Initialization
import DeferredInit.Proofs.Program.Listed
import DeferredInit.Proofs.Program.Modifiers
import DeferredInit.Proofs.Program.Relocated
import DeferredInit.Proofs.Program.Renaming
import DeferredInit.Proofs.Program.Sample
import DeferredInit.Proofs.Safety
import DeferredInit.Proofs.Symbol.Ledger
import DeferredInit.Proofs.Symbol.Resolution
import DeferredInit.Proofs.Symbol.Signatures
import DeferredInit.Proofs.Symbol.Spelling
import DeferredInit.Session
import DeferredInit.Symbol.Digest
import DeferredInit.Symbol.Entry
import DeferredInit.Symbol.Hash
import DeferredInit.Symbol.Intrinsics
import DeferredInit.Symbol.Library
import DeferredInit.Symbol.Name
import DeferredInit.Symbol.Standard
import DeferredInit.Text.Quoted
import DeferredInit.Text.Shapeless
