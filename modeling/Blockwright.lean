import Blockwright.Auth.Claims
import Blockwright.Auth.Token
import Blockwright.Bus.Connection
import Blockwright.Bus.Event
import Blockwright.Cache.Basic
import Blockwright.Cache.KeyStore
import Blockwright.Digest
import Blockwright.Emit.Helpers
import Blockwright.Emit.Index
import Blockwright.Emit.Lists
import Blockwright.Emit.Logic
import Blockwright.Emit.Loops
import Blockwright.Emit.Math
import Blockwright.Emit.Pass
import Blockwright.Emit.Procedures
import Blockwright.Emit.Run
import Blockwright.Emit.Site
import Blockwright.Emit.Texts
import Blockwright.Emit.Variables
import Blockwright.Generator
import Blockwright.Http.Form
import Blockwright.Http.Gate
import Blockwright.Http.Redirect
import Blockwright.Http.Message
import Blockwright.Http.Route
import Blockwright.Http.Site
import Blockwright.Json.Basic
import Blockwright.Json.Printer
import Blockwright.Json.Parser
import Blockwright.Json.Reader
import Blockwright.Json.Slice
import Blockwright.Kind.Definition
import Blockwright.Kind.Registry
import Blockwright.Kind.Toolbox
import Blockwright.Live.Hub
import Blockwright.Live.Message
import Blockwright.Live.Processor
import Blockwright.Live.Session
import Blockwright.Log.Line
import Blockwright.Main
import Blockwright.Names.Registry
import Blockwright.Names.Reserved
import Blockwright.Number.Decimal
import Blockwright.Number.Double
import Blockwright.Number.Read
import Blockwright.Number.Shortest
import Blockwright.Number.Text
import Blockwright.Number.Whole
import Blockwright.Precedence
import Blockwright.Project.Document
import Blockwright.Project.Edit
import Blockwright.Project.Id
import Blockwright.Project.Run
import Blockwright.Project.Store
import Blockwright.Service.Generate
import Blockwright.Settings.Environment
import Blockwright.Settings.Start
import Blockwright.Text.Encoding
import Blockwright.Text.Blank
import Blockwright.Text.Chars
import Blockwright.Text.Raw
import Blockwright.Text.Lines
import Blockwright.Text.Printable
import Blockwright.Text.Quoted
import Blockwright.Text.Snake
import Blockwright.Text.Utf8
import Blockwright.Workspace.Basic
import Blockwright.Workspace.Block
import Blockwright.Workspace.Decode
import Blockwright.Workspace.ExtraState
import Blockwright.Workspace.Graph
import Blockwright.Xml.Basic
import Blockwright.Xml.Parser
import Blockwright.Proofs.Names.Identifiers
import Blockwright.Proofs.Names.Requests
import Blockwright.Proofs.Text.Utf8
import Blockwright.Proofs.Names.Slots
import Blockwright.Proofs.Emit.Ends
import Blockwright.Proofs.Text.Layout
import Blockwright.Proofs.Text.Sealed
import Blockwright.Proofs.Containment.Pass
import Blockwright.Proofs.Containment.Control
import Blockwright.Proofs.Containment.Values
import Blockwright.Proofs.Containment.Program
import Blockwright.Proofs.Operators.Grammar
import Blockwright.Proofs.Operators.Reading
import Blockwright.Proofs.Operators.Printing
import Blockwright.Proofs.Operators.Lexing
import Blockwright.Proofs.Operators.Expressions
import Blockwright.Proofs.Operators.Actions
import Blockwright.Proofs.Operators.Emission
import Blockwright.Proofs.Live.Interleaving
import Blockwright.Proofs.Live.Closing
import Blockwright.Proofs.Text.Indentation
import Blockwright.Proofs.Emit.Calls
import Blockwright.Proofs.Names.Unreserved
import Blockwright.Proofs.Emit.HelperPool
import Blockwright.Proofs.Json.Strings
import Blockwright.Proofs.Service.Transparency
import Blockwright.Proofs.Attempts
import Blockwright.Proofs.Project.Deeds
import Blockwright.Proofs.Http.Runs
import Blockwright.Proofs.Http.Ownership
import Blockwright.Proofs.Sockets.Emitters
import Blockwright.Proofs.Sockets.Kinds
import Blockwright.Proofs.Workspace.Decoded
import Blockwright.Proofs.Emit.Outcomes
import Blockwright.Proofs.Sockets.Probes
import Blockwright.Proofs.Sockets.Agreement
import Blockwright.Proofs.Program.Blame
import Blockwright.Proofs.Emit.Journal
import Blockwright.Proofs.Program.Aborted
import Blockwright.Proofs.Program.Declared
import Blockwright.Proofs.Http.StoredDocuments
import Blockwright.Proofs.Workspace.Forest
import Blockwright.Proofs.Workspace.Construction
import Blockwright.Proofs.Workspace.Shown
import Blockwright.Proofs.Workspace.Members
import Blockwright.Proofs.Workspace.Decoding
import Blockwright.Proofs.Text.Annotated
import Blockwright.Proofs.Text.CommentLines
import Blockwright.Proofs.Twins.Pass
import Blockwright.Proofs.Twins.Site
import Blockwright.Proofs.Twins.Control
import Blockwright.Proofs.Twins.Values
import Blockwright.Proofs.Workspace.Mapped
import Blockwright.Proofs.Twins.Program
import Blockwright.Proofs.Twins.Comments
import Blockwright.Proofs.Twins.Renaming
import Blockwright.Proofs.Project.Acceptance
import Blockwright.Proofs.Project.Overlap
import Blockwright.Proofs.Live.Desk
import Blockwright.Proofs.Live.Edits
import Blockwright.Proofs.Live.Events
import Blockwright.Proofs.Live.Announcements
import Blockwright.Proofs.Program.Strictness
import Blockwright.Proofs.Service.Visits
import Blockwright.Proofs.Service.Shared
import Blockwright.Proofs.Live.Identity
import Blockwright.Proofs.Text.Literals
import Blockwright.Proofs.Text.Sums
import Blockwright.Proofs.Operators.Shifts
import Blockwright.Proofs.Script.Syntax
import Blockwright.Proofs.Script.Accesses
import Blockwright.Proofs.Script.Bodies
import Blockwright.Proofs.Script.SamePosition
import Blockwright.Proofs.Script.SameSlice
import Blockwright.Proofs.Emit.Operands
import Blockwright.Proofs.Program.Parameters
import Blockwright.Proofs.Text.ScriptLines
import Blockwright.Proofs.Number.Arithmetic
import Blockwright.Proofs.Number.Numerals
import Blockwright.Proofs.Number.Wholes
import Blockwright.Proofs.Emit.Steps
import Blockwright.Proofs.Emit.Sequences
import Blockwright.Proofs.Sockets.Fillings
import Blockwright.Proofs.Sockets.Numbered
import Blockwright.Proofs.Sockets.Branches
import Blockwright.Proofs.Text.Tidiness
import Blockwright.Proofs.Text.Quotations
import Blockwright.Proofs.Program.Tidied
import Blockwright.Proofs.Loops.Headers
import Blockwright.Proofs.Loops.ReadBack
import Blockwright.Proofs.Loops.Runs
import Blockwright.Proofs.Loops.Counting
import Blockwright.Proofs.Loops.Sources
import Blockwright.Proofs.Loops.Emission
import Blockwright.Proofs.Loops.Folding
import Blockwright.Proofs.Bus.Subjects
import Blockwright.Proofs.Xml.Rendering
import Blockwright.Proofs.Kind.Toolboxes
import Blockwright.Proofs.Json.Scanning
import Blockwright.Proofs.Json.Slices
import Blockwright.Proofs.Http.Patches
import Blockwright.Proofs.Lexical.Tokens
import Blockwright.Proofs.Lexical.Operands
import Blockwright.Proofs.Lexical.Passes
import Blockwright.Proofs.Lexical.Values
import Blockwright.Proofs.Lexical.Blocks
import Blockwright.Proofs.Lexical.Readings
import Blockwright.Proofs.Lexical.Receivers
import Blockwright.Proofs.Text.Prefixes
import Blockwright.Proofs.Emit.Lined
import Blockwright.Proofs.Sockets.Nesting
