import Deadwood.Analysis
import Deadwood.CommandLine.Batch
import Deadwood.CommandLine.Command
import Deadwood.CommandLine.Console
import Deadwood.CommandLine.Error
import Deadwood.CommandLine.Flag
import Deadwood.CommandLine.Options
import Deadwood.CommandLine.Run
import Deadwood.CommandLine.System
import Deadwood.Config.Basic
import Deadwood.Config.Layout
import Deadwood.Config.Load
import Deadwood.Config.LoadError
import Deadwood.Config.Slot
import Deadwood.Config.Tables
import Deadwood.Config.Toml.Document
import Deadwood.Config.Toml.Syntax
import Deadwood.Config.Yaml.Cursor
import Deadwood.Config.Yaml.Fault
import Deadwood.Config.Yaml.Node
import Deadwood.Config.Yaml.Plain
import Deadwood.Config.Yaml.Scalar
import Deadwood.Config.Yaml.Token
import Deadwood.Dataflow.Critical
import Deadwood.Dataflow.LineSet
import Deadwood.Dataflow.Reaching
import Deadwood.Dataflow.Uses
import Deadwood.Digest.Basic
import Deadwood.Digest.Keccak
import Deadwood.Disk.Basic
import Deadwood.Disk.Buffer
import Deadwood.Disk.Path
import Deadwood.Flow.Block
import Deadwood.Flow.Error
import Deadwood.Flow.Graph
import Deadwood.Flow.Walk
import Deadwood.Flow.Wiring
import Deadwood.Log.FileWriter
import Deadwood.Log.Filter
import Deadwood.Log.Level
import Deadwood.Log.Logger
import Deadwood.Log.Record
import Deadwood.Log.Structured
import Deadwood.Log.Terminal
import Deadwood.Main
import Deadwood.Metrics.Registry
import Deadwood.Number.Double
import Deadwood.Number.Integer
import Deadwood.Number.Literal
import Deadwood.Pool
import Deadwood.Program.Basic
import Deadwood.Program.Opcode
import Deadwood.Program.Printer
import Deadwood.Program.Reader
import Deadwood.Proofs.CommandLine.Batch
import Deadwood.Proofs.CommandLine.Logging
import Deadwood.Proofs.CommandLine.Optimizing
import Deadwood.Proofs.CommandLine.Settling
import Deadwood.Proofs.Config.Dump
import Deadwood.Proofs.Config.Escapes
import Deadwood.Proofs.Config.Numbers
import Deadwood.Proofs.Config.Placing
import Deadwood.Proofs.Config.Sections
import Deadwood.Proofs.Config.Sound
import Deadwood.Proofs.Config.Texts
import Deadwood.Proofs.Dataflow.Blurring
import Deadwood.Proofs.Dataflow.Closure
import Deadwood.Proofs.Dataflow.Convergence
import Deadwood.Proofs.Dataflow.Locals
import Deadwood.Proofs.Dataflow.Numbering
import Deadwood.Proofs.Dataflow.Paths
import Deadwood.Proofs.Dataflow.Remnant
import Deadwood.Proofs.Dataflow.Renaming
import Deadwood.Proofs.Dataflow.Reordering
import Deadwood.Proofs.Dataflow.Solution
import Deadwood.Proofs.Dataflow.Sweeps
import Deadwood.Proofs.Disk.Frame
import Deadwood.Proofs.Disk.Naming
import Deadwood.Proofs.Disk.Weaving
import Deadwood.Proofs.Execution.Acyclic
import Deadwood.Proofs.Execution.Basic
import Deadwood.Proofs.Execution.Elimination
import Deadwood.Proofs.Execution.Sources
import Deadwood.Proofs.Execution.Stack
import Deadwood.Proofs.Flow.Acceptance
import Deadwood.Proofs.Flow.Control
import Deadwood.Proofs.Flow.Edges
import Deadwood.Proofs.Flow.Handover
import Deadwood.Proofs.Flow.Leaders
import Deadwood.Proofs.Flow.Linking
import Deadwood.Proofs.Flow.Order
import Deadwood.Proofs.Flow.Partition
import Deadwood.Proofs.Flow.Placement
import Deadwood.Proofs.Flow.Preorder
import Deadwood.Proofs.Flow.Renaming
import Deadwood.Proofs.Flow.Repeats
import Deadwood.Proofs.Flow.Succession
import Deadwood.Proofs.Flow.TailCalls
import Deadwood.Proofs.Log.Delivery
import Deadwood.Proofs.Log.LifeCycle
import Deadwood.Proofs.Log.Sampling
import Deadwood.Proofs.Log.Terminal
import Deadwood.Proofs.Pool.Schedule
import Deadwood.Proofs.Program.Canonical
import Deadwood.Proofs.Program.Classification
import Deadwood.Proofs.Program.Grammar
import Deadwood.Proofs.Program.Heading
import Deadwood.Proofs.Program.Legible
import Deadwood.Proofs.Program.Numbering
import Deadwood.Proofs.Program.Reading
import Deadwood.Proofs.Program.Refusal
import Deadwood.Proofs.Program.RoundTrip
import Deadwood.Proofs.Program.Shape
import Deadwood.Proofs.Report.Drawing
import Deadwood.Proofs.Report.Lexing
import Deadwood.Proofs.Report.Totals
import Deadwood.Proofs.Session.Bookkeeping
import Deadwood.Proofs.Session.Caching
import Deadwood.Proofs.Session.Key
import Deadwood.Proofs.Session.Limit
import Deadwood.Proofs.Text.Blank
import Deadwood.Proofs.Text.Decimal
import Deadwood.Proofs.Text.Grammar
import Deadwood.Proofs.Text.Pieces
import Deadwood.Proofs.Text.Quoted
import Deadwood.Proofs.Text.Rune
import Deadwood.Report.Dot
import Deadwood.Report.Dump
import Deadwood.Report.GraphFormat
import Deadwood.Report.Summary
import Deadwood.Report.Table
import Deadwood.Session.Basic
import Deadwood.Session.Cache
import Deadwood.Session.Notice
import Deadwood.Text.Base64
import Deadwood.Text.Blank
import Deadwood.Text.Bytes
import Deadwood.Text.Cluster
import Deadwood.Text.CodeSet
import Deadwood.Text.Grammar
import Deadwood.Text.Joining
import Deadwood.Text.Printable
import Deadwood.Text.Quoted
import Deadwood.Text.Rune
import Deadwood.Text.Width
import Deadwood.Time.Duration
import Deadwood.Time.Instant
import Deadwood.Time.Stamp
