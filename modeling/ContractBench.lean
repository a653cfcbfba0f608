import ContractBench.Address
import ContractBench.Artifact.Config
import ContractBench.Artifact.Storage
import ContractBench.Artifact.Store
import ContractBench.Assembly.Assemble
import ContractBench.Assembly.Assembler
import ContractBench.Assembly.Line
import ContractBench.Assembly.Source
import ContractBench.Bytes
import ContractBench.Code.Compile
import ContractBench.Code.Depth
import ContractBench.Code.Document
import ContractBench.Code.Item
import ContractBench.Code.Lowering
import ContractBench.Code.Naming
import ContractBench.Command.Basic
import ContractBench.Command.Option
import ContractBench.Command.Report
import ContractBench.Command.Run
import ContractBench.Expr.Basic
import ContractBench.Expr.Keys
import ContractBench.Expr.Path
import ContractBench.Expr.Typing
import ContractBench.File.Path
import ContractBench.File.System
import ContractBench.File.Tree
import ContractBench.File.Tree.Lemmas
import ContractBench.Json.Decimal
import ContractBench.Json.Reader
import ContractBench.Json.Value
import ContractBench.Machine.Document
import ContractBench.Machine.Environment
import ContractBench.Machine.Fault
import ContractBench.Machine.Run
import ContractBench.Machine.Stack
import ContractBench.Machine.Step
import ContractBench.Main
import ContractBench.Program.Field
import ContractBench.Program.Instruction
import ContractBench.Program.Listing
import ContractBench.Program.Operator
import ContractBench.Proofs.Artifact.Storage
import ContractBench.Proofs.Artifact.Store
import ContractBench.Proofs.Artifact.Version
import ContractBench.Proofs.Assembly.Assemble
import ContractBench.Proofs.Assembly.Contents
import ContractBench.Proofs.Assembly.Errors
import ContractBench.Proofs.Assembly.FirstLines
import ContractBench.Proofs.Assembly.Immediate
import ContractBench.Proofs.Assembly.Line
import ContractBench.Proofs.Assembly.LineNumbers
import ContractBench.Proofs.Assembly.ReadBack
import ContractBench.Proofs.Assembly.Relaid
import ContractBench.Proofs.Assembly.Source
import ContractBench.Proofs.Assembly.Tables
import ContractBench.Proofs.Assembly.WellFormed
import ContractBench.Proofs.Bytes.Value
import ContractBench.Proofs.Code.Behind
import ContractBench.Proofs.Code.Compile
import ContractBench.Proofs.Code.Correct
import ContractBench.Proofs.Code.DeadCode
import ContractBench.Proofs.Code.Depth
import ContractBench.Proofs.Code.Labels
import ContractBench.Proofs.Code.Layout
import ContractBench.Proofs.Code.Listing
import ContractBench.Proofs.Code.Naming
import ContractBench.Proofs.Code.Pair
import ContractBench.Proofs.Code.Paths
import ContractBench.Proofs.Code.Placed
import ContractBench.Proofs.Code.Simulation
import ContractBench.Proofs.Code.Sound
import ContractBench.Proofs.Code.VersionChange
import ContractBench.Proofs.Code.Versions
import ContractBench.Proofs.Expr.Built
import ContractBench.Proofs.Expr.Eval
import ContractBench.Proofs.Expr.KeyUses
import ContractBench.Proofs.Expr.Nodes
import ContractBench.Proofs.Expr.Pruned
import ContractBench.Proofs.Expr.Typed
import ContractBench.Proofs.File.Names
import ContractBench.Proofs.File.Places
import ContractBench.Proofs.Machine.Accessible
import ContractBench.Proofs.Machine.Budget
import ContractBench.Proofs.Machine.Conversions
import ContractBench.Proofs.Machine.Exchange
import ContractBench.Proofs.Machine.Follows
import ContractBench.Proofs.Machine.Lengths
import ContractBench.Proofs.Machine.Metered
import ContractBench.Proofs.Machine.Operators
import ContractBench.Proofs.Machine.Paths
import ContractBench.Proofs.Machine.Ready
import ContractBench.Proofs.Machine.Reports
import ContractBench.Proofs.Machine.Run
import ContractBench.Proofs.Machine.StackEffect
import ContractBench.Proofs.Machine.Step
import ContractBench.Proofs.Machine.WellFormed
import ContractBench.Proofs.Machine.Writes
import ContractBench.Proofs.Registry.Atomic
import ContractBench.Proofs.Registry.Deployment
import ContractBench.Proofs.Registry.Entry
import ContractBench.Proofs.Registry.Evolution
import ContractBench.Proofs.Registry.History
import ContractBench.Proofs.Registry.Holders
import ContractBench.Proofs.Registry.Ids
import ContractBench.Proofs.Registry.Isolation
import ContractBench.Proofs.Registry.Scenario
import ContractBench.Proofs.Registry.Sound
import ContractBench.Proofs.Registry.Stores
import ContractBench.Proofs.State.Agrees
import ContractBench.Proofs.State.Collected
import ContractBench.Proofs.State.Commit
import ContractBench.Proofs.State.Entries
import ContractBench.Proofs.State.InPlace
import ContractBench.Proofs.State.Schemas
import ContractBench.Proofs.Text.Number
import ContractBench.Proofs.Transaction.Collision
import ContractBench.Proofs.Transaction.Document
import ContractBench.Proofs.Transaction.Encoding
import ContractBench.Proofs.Transaction.Spelling
import ContractBench.Registry
import ContractBench.Scenario
import ContractBench.Sha256
import ContractBench.SortedMap
import ContractBench.State.Document
import ContractBench.State.Store
import ContractBench.State.Value
import ContractBench.State.View
import ContractBench.Success
import ContractBench.Template
import ContractBench.Text.Blank
import ContractBench.Text.Escaped
import ContractBench.Text.Lines
import ContractBench.Text.Number
import ContractBench.Text.Readable
import ContractBench.Text.Unprintable
import ContractBench.Transaction.Basic
import ContractBench.Transaction.Document
import ContractBench.Transaction.Encoding
import ContractBench.Transaction.Error
import ContractBench.Transaction.Group
