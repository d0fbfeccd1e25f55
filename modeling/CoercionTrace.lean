import CoercionTrace.Check.Config
import CoercionTrace.Check.Kind
import CoercionTrace.Check.Report
import CoercionTrace.Check.Template
import CoercionTrace.CommandLine.Arguments
import CoercionTrace.CommandLine.Run
import CoercionTrace.Diagnostic
import CoercionTrace.Document.Basic
import CoercionTrace.Document.Reading
import CoercionTrace.Document.Writing
import CoercionTrace.Files.Access
import CoercionTrace.Files.Tree
import CoercionTrace.HookMethod
import CoercionTrace.Host.Error
import CoercionTrace.Host.Heap
import CoercionTrace.Host.Object
import CoercionTrace.Host.Value
import CoercionTrace.Host.ValueClass
import CoercionTrace.Instrument.Options
import CoercionTrace.Instrument.Pass
import CoercionTrace.Instrument.Program
import CoercionTrace.Instrument.Rule
import CoercionTrace.Instrument.Rule.Body
import CoercionTrace.Instrument.Rule.Call
import CoercionTrace.Instrument.Rule.Expression
import CoercionTrace.Instrument.Rule.Statement
import CoercionTrace.Instrument.State
import CoercionTrace.Instrument.Stub
import CoercionTrace.Main
import CoercionTrace.Monitor.Check
import CoercionTrace.Monitor.Conversion
import CoercionTrace.Monitor.Hook
import CoercionTrace.Monitor.Identity
import CoercionTrace.Monitor.Key
import CoercionTrace.Monitor.Realm
import CoercionTrace.Monitor.World
import CoercionTrace.Names
import CoercionTrace.Number.Arithmetic
import CoercionTrace.Number.Basic
import CoercionTrace.Number.Format
import CoercionTrace.Number.Int32
import CoercionTrace.Number.Operator
import CoercionTrace.Number.Reading
import CoercionTrace.Number.Shortest
import CoercionTrace.Scope.Basic
import CoercionTrace.Scope.Collect
import CoercionTrace.Scope.Resolve
import CoercionTrace.Session.Answer
import CoercionTrace.Session.Monitors
import CoercionTrace.Session.Run
import CoercionTrace.Session.Script
import CoercionTrace.Session.State
import CoercionTrace.Session.Values
import CoercionTrace.Settings
import CoercionTrace.Settings.Loading
import CoercionTrace.Suppression
import CoercionTrace.Syntax.Code
import CoercionTrace.Syntax.Concrete
import CoercionTrace.Syntax.Kind
import CoercionTrace.Syntax.Render
import CoercionTrace.Syntax.Replacement
import CoercionTrace.Syntax.Rows
import CoercionTrace.Syntax.Shape
import CoercionTrace.Syntax.Traversal
import CoercionTrace.Syntax.Tree
import CoercionTrace.Syntax.Worklist
import CoercionTrace.Table
import CoercionTrace.Text.Blank
import CoercionTrace.Text.GraphemeExtend
import CoercionTrace.Text.Printable
import CoercionTrace.Text.Quoted
import CoercionTrace.Text.Ranges
import CoercionTrace.Text.Visible
import CoercionTrace.Text.Word
import CoercionTrace.Trace.Key
import CoercionTrace.Trace.Lines
import CoercionTrace.Trace.Stack
import CoercionTrace.Trace.Tracer
import CoercionTrace.Proofs.Computation
import CoercionTrace.Proofs.Instrument.Change
import CoercionTrace.Proofs.Instrument.Closed
import CoercionTrace.Proofs.Instrument.Current
import CoercionTrace.Proofs.Instrument.Declined
import CoercionTrace.Proofs.Instrument.Evaluation
import CoercionTrace.Proofs.Instrument.Finish
import CoercionTrace.Proofs.Instrument.Hosts
import CoercionTrace.Proofs.Instrument.Ledger
import CoercionTrace.Proofs.Instrument.Names
import CoercionTrace.Proofs.Instrument.Pass
import CoercionTrace.Proofs.Instrument.Progress
import CoercionTrace.Proofs.Instrument.Separate
import CoercionTrace.Proofs.Instrument.Stub
import CoercionTrace.Proofs.Instrument.Taken
import CoercionTrace.Proofs.Instrument.Visit
import CoercionTrace.Proofs.Names
import CoercionTrace.Proofs.Monitor.Reach
import CoercionTrace.Proofs.Monitor.Recording
import CoercionTrace.Proofs.Instrument.Execution
import CoercionTrace.Proofs.Instrument.Guarded
import CoercionTrace.Proofs.Monitor.Members
import CoercionTrace.Proofs.Scope.Analysis
import CoercionTrace.Proofs.Scope.Bindings
import CoercionTrace.Proofs.Scope.Collection
import CoercionTrace.Proofs.Scope.Lexical
import CoercionTrace.Proofs.Syntax.Output
import CoercionTrace.Proofs.Syntax.Parts
import CoercionTrace.Proofs.Syntax.Shown
import CoercionTrace.Proofs.Syntax.Text
import CoercionTrace.Proofs.Syntax.Traversal
import CoercionTrace.Proofs.Syntax.Update
import CoercionTrace.Proofs.Syntax.WellFormed
import CoercionTrace.Proofs.Trace.Invariant
import CoercionTrace.Proofs.Instrument.Suppressed
import CoercionTrace.Proofs.Monitor.Balanced
import CoercionTrace.Proofs.Trace.Chain
import CoercionTrace.Proofs.Trace.Listing
import CoercionTrace.Proofs.Instrument.Terminated
import CoercionTrace.Proofs.Instrument.Distinct
import CoercionTrace.Proofs.Instrument.Flow
import CoercionTrace.Proofs.Instrument.Returned
import CoercionTrace.Proofs.Trace.Steps
import CoercionTrace.Proofs.Trace.Stability
import CoercionTrace.Proofs.Monitor.Course
import CoercionTrace.Proofs.Monitor.Provenance
import CoercionTrace.Proofs.Monitor.Handover
import CoercionTrace.Proofs.Scope.Resolution
import CoercionTrace.Proofs.Text.Literal
import CoercionTrace.Proofs.Instrument.Inserted
import CoercionTrace.Proofs.Instrument.Keys
import CoercionTrace.Proofs.Instrument.Arguments
import CoercionTrace.Proofs.Instrument.Success
import CoercionTrace.Proofs.Syntax.Fragments
import CoercionTrace.Proofs.Syntax.Cuts
import CoercionTrace.Proofs.Syntax.Prologue
import CoercionTrace.Proofs.Syntax.Regions
import CoercionTrace.Proofs.Instrument.Passthrough
import CoercionTrace.Proofs.Instrument.HookName
import CoercionTrace.Proofs.Number.Whole
import CoercionTrace.Proofs.Monitor.Marks
import CoercionTrace.Proofs.Monitor.Identity
import CoercionTrace.Proofs.Monitor.Confusion
import CoercionTrace.Proofs.Monitor.Current
import CoercionTrace.Proofs.Monitor.Hidden
import CoercionTrace.Proofs.Monitor.Reversal
import CoercionTrace.Proofs.Instrument.Reached
import CoercionTrace.Proofs.Instrument.Wrapped
import CoercionTrace.Proofs.Instrument.Frame
import CoercionTrace.Proofs.Instrument.Covered
import CoercionTrace.Proofs.Instrument.Chains
import CoercionTrace.Proofs.Trace.Binding
import CoercionTrace.Proofs.Trace.Operations
import CoercionTrace.Proofs.Trace.Parameters
import CoercionTrace.Proofs.Host.Inheritance
import CoercionTrace.Proofs.Monitor.Detection
import CoercionTrace.Proofs.Suppression
import CoercionTrace.Proofs.Check.Wording
import CoercionTrace.Proofs.Syntax.Splicing
import CoercionTrace.Proofs.Syntax.Places
import CoercionTrace.Proofs.Syntax.Walks
import CoercionTrace.Proofs.Syntax.Arena
import CoercionTrace.Proofs.Syntax.Chains
import CoercionTrace.Proofs.Syntax.Faults
import CoercionTrace.Proofs.Monitor.Teardown
import CoercionTrace.Proofs.Host.Properties
import CoercionTrace.Proofs.Text.Scanning
import CoercionTrace.Proofs.Number.Nearest
import CoercionTrace.Proofs.Number.Numerals
import CoercionTrace.Proofs.Number.Reading
import CoercionTrace.Proofs.Host.Joining
import CoercionTrace.Proofs.Document.Literals
import CoercionTrace.Proofs.Text.ScriptLiteral
import CoercionTrace.Proofs.Number.Value
import CoercionTrace.Proofs.Number.Bitwise
import CoercionTrace.Proofs.Document.Layout
import CoercionTrace.Proofs.Settings.RoundTrip
import CoercionTrace.Proofs.Files.Tree
import CoercionTrace.Proofs.CommandLine.Arguments
import CoercionTrace.Proofs.CommandLine.Run
