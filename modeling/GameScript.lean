import GameScript.Analysis.Pass
import GameScript.Analysis.Call
import GameScript.Analysis.Complaint
import GameScript.Analysis.Declare
import GameScript.Analysis.Expr
import GameScript.Analysis.Findings
import GameScript.Analysis.Function
import GameScript.Analysis.Inheritance
import GameScript.Analysis.Interface
import GameScript.Analysis.Lookup
import GameScript.Analysis.Loop
import GameScript.Analysis.Monad
import GameScript.Analysis.Name
import GameScript.Analysis.Reduce
import GameScript.Analysis.Session
import GameScript.Analysis.Stmt
import GameScript.Analysis.TypeName
import GameScript.Analysis.Warning
import GameScript.Analysis.Workspace
import GameScript.Catalog.Basic
import GameScript.Catalog.Core
import GameScript.Code.Address
import GameScript.Code.Assembly
import GameScript.Code.Listing
import GameScript.Code.Opcode
import GameScript.Code.Program
import GameScript.Code.Wire.Read
import GameScript.Code.Wire.Write
import GameScript.Command.Build
import GameScript.Command.Disk
import GameScript.Command.Settings
import GameScript.Compiler
import GameScript.Lowering.Assign
import GameScript.Lowering.Body
import GameScript.Lowering.Context
import GameScript.Lowering.Flow
import GameScript.Lowering.Generator
import GameScript.Lowering.Value
import GameScript.Main
import GameScript.Number.Double
import GameScript.Number.Exponential
import GameScript.Number.Notation
import GameScript.Number.Power
import GameScript.Number.Reading
import GameScript.Number.Trigonometry
import GameScript.Project
import GameScript.Repl
import GameScript.Syntax.Dump
import GameScript.Syntax.Fault
import GameScript.Syntax.Token
import GameScript.Syntax.Outline
import GameScript.Syntax.Parse.Decl
import GameScript.Syntax.Parse.Expr
import GameScript.Syntax.Parse.State
import GameScript.Syntax.Parse.Stmt
import GameScript.Syntax.Position
import GameScript.Syntax.Scan
import GameScript.Syntax.Span
import GameScript.Syntax.Tree
import GameScript.Text.Basic
import GameScript.Text.Unicode
import GameScript.Text.Literal
import GameScript.Text.Spelling
import GameScript.Text.Utf8
import GameScript.Types.Relation
import GameScript.Types.StaticType
import GameScript.Value.Basic
import GameScript.Value.BuiltinType
import GameScript.Value.Convert
import GameScript.Value.Error
import GameScript.Value.Function
import GameScript.Value.Member
import GameScript.Value.Operator
import GameScript.Value.Shared
import GameScript.Value.Signature
import GameScript.Proofs.Code.Layout
import GameScript.Proofs.Code.Reading
import GameScript.Proofs.Code.Wire.Fields
import GameScript.Proofs.Code.Wire.Parts
import GameScript.Proofs.Code.Wire.Constants
import GameScript.Proofs.Code.Wire.Programs
import GameScript.Proofs.Lowering.Generator
import GameScript.Proofs.Lowering.Emission
import GameScript.Proofs.Temporaries.Operands
import GameScript.Proofs.Temporaries.Stack
import GameScript.Proofs.Temporaries.Parts
import GameScript.Proofs.Temporaries.Routes
import GameScript.Proofs.Temporaries.Flow
import GameScript.Proofs.Temporaries.Trees
import GameScript.Proofs.Ranges.Operands
import GameScript.Proofs.Ranges.Steps
import GameScript.Proofs.Ranges.Parts
import GameScript.Proofs.Ranges.Flow
import GameScript.Proofs.Ranges.Trees
import GameScript.Proofs.Ranges.Files
import GameScript.Proofs.Ranges.Projects
import GameScript.Proofs.Running.Machine
import GameScript.Proofs.Running.Source
import GameScript.Proofs.Running.Alike
import GameScript.Proofs.Running.Growth
import GameScript.Proofs.Running.Image
import GameScript.Proofs.Running.Values
import GameScript.Proofs.Running.Statements
import GameScript.Proofs.Running.Matches
import GameScript.Proofs.Running.Trees
import GameScript.Proofs.Running.Functions
import GameScript.Proofs.Running.Calls
import GameScript.Proofs.Running.Plain
import GameScript.Proofs.Running.Programs
import GameScript.Proofs.Running.Returns
import GameScript.Proofs.Lowering.Pools
import GameScript.Proofs.Construction.Steps
import GameScript.Proofs.Construction.Parts
import GameScript.Proofs.Construction.Flow
import GameScript.Proofs.Construction.Files
import GameScript.Proofs.Compilation.Cycles
import GameScript.Proofs.Inheritance.Reached
import GameScript.Proofs.Syntax.Cursors
import GameScript.Proofs.Syntax.Blocks
import GameScript.Proofs.Syntax.Steps
import GameScript.Proofs.Syntax.Progress
import GameScript.Proofs.Syntax.Statements
import GameScript.Proofs.Syntax.Endings
import GameScript.Proofs.Syntax.Extents
import GameScript.Proofs.Syntax.Termination
import GameScript.Proofs.Analysis.Progress
import GameScript.Proofs.Compilation.Outcomes
import GameScript.Proofs.Compilation.Runs
import GameScript.Proofs.Analysis.Captures
import GameScript.Proofs.Analysis.Callees
import GameScript.Proofs.Compilation.Calls
import GameScript.Proofs.Value.Types
import GameScript.Proofs.Analysis.Constants
import GameScript.Proofs.Compilation.Operations
import GameScript.Proofs.Syntax.Likeness
import GameScript.Proofs.Syntax.Respelling
import GameScript.Proofs.Syntax.LineBreaks
import GameScript.Proofs.Syntax.Spelling
import GameScript.Proofs.Syntax.Literals
import GameScript.Proofs.Syntax.Rendering
import GameScript.Proofs.Syntax.Levels
import GameScript.Proofs.Syntax.Operands
import GameScript.Proofs.Syntax.Parsing
import GameScript.Proofs.Value.Operators
import GameScript.Proofs.Code.Wire.Intake
import GameScript.Proofs.Code.Wire.Traversal
import GameScript.Proofs.Execution.Host
import GameScript.Proofs.Execution.Setup
import GameScript.Proofs.Execution.Patterns
import GameScript.Proofs.Execution.Tests
import GameScript.Proofs.Execution.Constants
import GameScript.Proofs.Execution.Probing
import GameScript.Proofs.Execution.Matching
import GameScript.Proofs.Execution.Addresses
import GameScript.Proofs.Execution.Keys
import GameScript.Proofs.Execution.Assignments
import GameScript.Proofs.Syntax.Quoting
import GameScript.Proofs.Syntax.Consumption
import GameScript.Proofs.Syntax.Scopes
import GameScript.Proofs.Syntax.Scoping
import GameScript.Proofs.Value.Ranges
import GameScript.Proofs.Value.Dictionaries
import GameScript.Proofs.Analysis.Faults
import GameScript.Proofs.Value.Integers
import GameScript.Proofs.Value.Order
import GameScript.Proofs.Value.Keys
import GameScript.Proofs.Analysis.Repetitions
import GameScript.Proofs.Types.Ancestors
import GameScript.Proofs.Text.Spelling
import GameScript.Proofs.Value.Conversions
import GameScript.Proofs.Value.Indexing
import GameScript.Proofs.Analysis.Enumerations
import GameScript.Proofs.Text.Paths
import GameScript.Proofs.Syntax.Numerals
import GameScript.Proofs.Syntax.Nesting
import GameScript.Proofs.Types.Declarers
