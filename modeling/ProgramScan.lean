import ProgramScan.Decimal.Shortest
import ProgramScan.Diagnostic
import ProgramScan.Digest.Md5
import ProgramScan.Error
import ProgramScan.Instruction.Basic
import ProgramScan.Instruction.Decode
import ProgramScan.Instruction.Intrinsic
import ProgramScan.Instruction.Stack
import ProgramScan.Label
import ProgramScan.Layout.Engine
import ProgramScan.Layout.FieldTable
import ProgramScan.Layout.Kinds
import ProgramScan.Opcode.Basic
import ProgramScan.Opcode.Forms
import ProgramScan.Plug.Index
import ProgramScan.Plug.Manager
import ProgramScan.Plug.Resolve
import ProgramScan.Plug.Validate
import ProgramScan.Program.Annotation
import ProgramScan.Program.Element
import ProgramScan.Program.Region
import ProgramScan.Reader
import ProgramScan.Registry.Basic
import ProgramScan.Registry.Core
import ProgramScan.Registry.Declare
import ProgramScan.Registry.Define
import ProgramScan.Registry.Describe
import ProgramScan.Registry.Hierarchy
import ProgramScan.Registry.Instantiate
import ProgramScan.Registry.NameUse
import ProgramScan.Registry.Names
import ProgramScan.Registry.Resolve
import ProgramScan.Scan.Assemble
import ProgramScan.Scan.Basic
import ProgramScan.Scan.Emission
import ProgramScan.Scan.Execute
import ProgramScan.Scan.Queue
import ProgramScan.Scan.Reach
import ProgramScan.Scan.Uid
import ProgramScan.Sorting
import ProgramScan.Table
import ProgramScan.Text.Blank
import ProgramScan.Text.Hex
import ProgramScan.Text.Quoted
import ProgramScan.Text.Search
import ProgramScan.Text.Visible
import ProgramScan.Token
import ProgramScan.Proofs.Registry.Growth
import ProgramScan.Proofs.Registry.Questions
import ProgramScan.Proofs.Registry.Slots
import ProgramScan.Proofs.Registry.Settled
import ProgramScan.Proofs.Registry.Additions
import ProgramScan.Proofs.Registry.Instances
import ProgramScan.Proofs.Registry.Members
import ProgramScan.Proofs.Registry.Orderly
import ProgramScan.Proofs.Registry.Populated
import ProgramScan.Proofs.Registry.Changes
import ProgramScan.Proofs.Registry.Ancestry
import ProgramScan.Proofs.Registry.Overriding
import ProgramScan.Proofs.Keeping
import ProgramScan.Proofs.Registry.Records
import ProgramScan.Proofs.Registry.Belonging
import ProgramScan.Proofs.Registry.MethodInstances
import ProgramScan.Proofs.Registry.Copies
import ProgramScan.Proofs.Instruction.Settled
import ProgramScan.Proofs.Plug.Settled
import ProgramScan.Proofs.Plug.Alignment
import ProgramScan.Proofs.Plug.Checking
import ProgramScan.Proofs.Scan.References
import ProgramScan.Proofs.Scan.Steps
import ProgramScan.Proofs.Scan.Operations
import ProgramScan.Proofs.Scan.Looking
import ProgramScan.Proofs.Scan.Draining
import ProgramScan.Proofs.Scan.Assembling
import ProgramScan.Proofs.Scan.Calls
import ProgramScan.Proofs.Scan.Closure
import ProgramScan.Proofs.Scan.Emitted
import ProgramScan.Proofs.Scan.Histories
import ProgramScan.Proofs.Scan.Repeating
import ProgramScan.Proofs.Scan.Rescanning
import ProgramScan.Proofs.Scan.Numbering
import ProgramScan.Proofs.Scan.InstanceNumbers
import ProgramScan.Proofs.Instruction.Segments
import ProgramScan.Proofs.Instruction.Decoding
import ProgramScan.Proofs.Instruction.Bodies
import ProgramScan.Proofs.Failures
import ProgramScan.Proofs.Scan.Frames
import ProgramScan.Proofs.Scan.Emitting
import ProgramScan.Proofs.Scan.Blocks
import ProgramScan.Proofs.Scan.Stages
import ProgramScan.Proofs.Scan.Confined
import ProgramScan.Proofs.Scan.Labels
import ProgramScan.Proofs.Scan.Sequence
import ProgramScan.Proofs.Scan.Native
import ProgramScan.Proofs.Scan.Forwards
import ProgramScan.Proofs.Registry.Making
import ProgramScan.Proofs.Registry.Instantiating
import ProgramScan.Proofs.Registry.Substituting
import ProgramScan.Proofs.Registry.Completeness
import ProgramScan.Proofs.Text.Brackets
import ProgramScan.Proofs.Registry.Identity
import ProgramScan.Proofs.Layout.Tables
import ProgramScan.Proofs.Layout.Asking
import ProgramScan.Proofs.Layout.Remembering
import ProgramScan.Proofs.Registry.Discernible
import ProgramScan.Proofs.Layout.Answering
import ProgramScan.Proofs.Layout.Transparent
import ProgramScan.Proofs.Layout.Queries
import ProgramScan.Proofs.Layout.Storage
import ProgramScan.Proofs.Layout.Cycles
import ProgramScan.Proofs.Layout.Inheritance
import ProgramScan.Proofs.Plug.Overlooked
import ProgramScan.Proofs.Plug.Reported
import ProgramScan.Proofs.Plug.Coherence
import ProgramScan.Proofs.Plug.Sources
import ProgramScan.Proofs.Plug.Filing
import ProgramScan.Proofs.Plug.Fields
import ProgramScan.Proofs.Plug.Stable
import ProgramScan.Proofs.Registry.Monomorphic
import ProgramScan.Proofs.Instruction.Monomorphic
import ProgramScan.Proofs.Scan.Monomorphic
import ProgramScan.Proofs.Scan.Termination
import ProgramScan.Proofs.Scan.Queueing
import ProgramScan.Proofs.Plug.Overloads
import ProgramScan.Proofs.Scan.Stamping
import ProgramScan.Proofs.Scan.Feeding
import ProgramScan.Proofs.Scan.Queued
import ProgramScan.Proofs.Scan.EarlyFields
import ProgramScan.Proofs.Scan.FieldTypes
import ProgramScan.Proofs.Instruction.Stable
import ProgramScan.Proofs.Instruction.Encodings
import ProgramScan.Proofs.Text.Angles
import ProgramScan.Proofs.Registry.Faithful
import ProgramScan.Proofs.Registry.Rehomed
import ProgramScan.Proofs.Registry.Composition
import ProgramScan.Proofs.Registry.Derived
import ProgramScan.Proofs.Registry.Contexts
import ProgramScan.Proofs.Registry.Scoped
import ProgramScan.Proofs.Program.Regions
import ProgramScan.Proofs.Instruction.Coherence
import ProgramScan.Proofs.Instruction.Instantiated
import ProgramScan.Proofs.Instruction.Pushed
import ProgramScan.Proofs.Instruction.Closed
import ProgramScan.Proofs.Registry.Signatures
import ProgramScan.Proofs.Registry.Nesting
import ProgramScan.Proofs.Registry.Unfolding
import ProgramScan.Proofs.Layout.Placement
import ProgramScan.Proofs.Layout.Statics
import ProgramScan.Proofs.Registry.Interfaces
import ProgramScan.Proofs.Text.Squares
import ProgramScan.Proofs.Scan.Spelling
import ProgramScan.Proofs.Text.Blanks
import ProgramScan.Proofs.Scan.Overloading
import ProgramScan.Proofs.Registry.Aside
import ProgramScan.Proofs.Registry.Catalogue
