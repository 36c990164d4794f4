import CTree.Dialect
import CTree.Settings
import CTree.Text.Blank
import CTree.Text.Line
import CTree.Text.Position
import CTree.Text.WordChar
import CTree.Token.Basic
import CTree.Token.Kind
import CTree.Token.Reader
import CTree.Token.Rule
import CTree.Token.Scan
import CTree.Token.Stream
import CTree.Decimal.Binary64
import CTree.Decimal.Shortest
import CTree.Decimal.Layout
import CTree.Json.Basic
import CTree.Literal
import CTree.Failure
import CTree.Diagnostic
import CTree.KnownTypes
import CTree.TypeText
import CTree.Cursor.Basic
import CTree.Cursor.Script
import CTree.Ast.Operator
import CTree.Ast.Precedence
import CTree.Ast.Basic
import CTree.Ast.Node
import CTree.Ast.Traversal
import CTree.Ast.Document
import CTree.Ast.Label
import CTree.Outline
import CTree.Visit
import CTree.Parse.Basic
import CTree.Parse.Lookahead
import CTree.Parse.Recovery
import CTree.Parse.TypeName
import CTree.Parse.Grammar
import CTree.Parse.Parameter
import CTree.Parse.Block
import CTree.Parse.Expression
import CTree.Parse.Declarator
import CTree.Parse.TypeDefinition
import CTree.Parse.Synonym
import CTree.Parse.Assertion
import CTree.Parse.Directive
import CTree.Parse.Template
import CTree.Parse.Member
import CTree.Parse.Declaration
import CTree.Parse.Statement
import CTree.Parse.Session
import CTree.Outcome
import CTree.Proofs.Run
import CTree.Proofs.Frame
import CTree.Proofs.Account
import CTree.Proofs.Lockstep.Basic
import CTree.Proofs.Lockstep.Token
import CTree.CommandLine.FilePath
import CTree.CommandLine.Folder
import CTree.CommandLine.Options
import CTree.CommandLine.Reply
import CTree.Main
import CTree.Proofs.Lockstep.Recovery
import CTree.Proofs.Lockstep.Lookahead
import CTree.Proofs.Lockstep.TypeName
import CTree.Proofs.Lockstep.Grammar
import CTree.Proofs.Lockstep.Expression
import CTree.Proofs.Lockstep.Declarator
import CTree.Proofs.Lockstep.Template
import CTree.Proofs.Lockstep.Member
import CTree.Proofs.Lockstep.Declaration
import CTree.Proofs.Lockstep.Statement
import CTree.Proofs.Lockstep.Depth
import CTree.Proofs.Ceilings
import CTree.Proofs.Progress
import CTree.Proofs.Names
import CTree.Proofs.Exactness
import CTree.Proofs.Printing.Lexeme
import CTree.Proofs.Printing.Decimal
import CTree.Proofs.Printing.Scan
import CTree.Proofs.Printing.Heads
import CTree.Proofs.Printing.Reading
import CTree.Proofs.Printing.Levels
import CTree.Proofs.Printing.Forms
import CTree.Proofs.Printing.Roundtrip
import CTree.Proofs.Printing.StatementLexeme
import CTree.Proofs.Printing.StatementHeads
import CTree.Proofs.Printing.Value
import CTree.Proofs.Printing.Declaration
import CTree.Proofs.Printing.StatementForms
import CTree.Proofs.Printing.StatementRoundtrip
import CTree.Proofs.Tree.Sound
import CTree.Proofs.Words
import CTree.Proofs.Tree.Forms
import CTree.Proofs.Tree.Gives
import CTree.Proofs.Tree.Expression
import CTree.Proofs.Tree.Declarator
import CTree.Proofs.Tree.Definition
import CTree.Proofs.Tree.Declaration
import CTree.Proofs.Tree.Statement
import CTree.Proofs.Tree.Member
import CTree.Proofs.Tree.Program
import CTree.Proofs.Cut
import CTree.Proofs.Diagnostics
import CTree.Proofs.Passes
import CTree.Proofs.Documents.Double
import CTree.Proofs.Documents.Number
import CTree.Proofs.Documents.Text
import CTree.Proofs.Documents.Fields
import CTree.Proofs.Documents.Tree
import CTree.Proofs.Documents.Lossless
import CTree.Proofs.Visits.Parts
import CTree.Proofs.Visits.Addresses
import CTree.Proofs.Visits.Discriminators
import CTree.Proofs.Containment.Yields
import CTree.Proofs.Containment.Expression
import CTree.Proofs.Containment.Declaration
import CTree.Proofs.Containment.Program
import CTree.Proofs.Items
import CTree.Proofs.Resumption.Takes
import CTree.Proofs.Resumption.Assignment
import CTree.Proofs.Resumption.Body
import CTree.Proofs.Resumption.Function
import CTree.Proofs.Opaque.Window
import CTree.Proofs.Opaque.Confined
import CTree.Proofs.Opaque.TypeName
import CTree.Proofs.Opaque.Expression
import CTree.Proofs.Opaque.Parameter
import CTree.Proofs.Opaque.Head
import CTree.Proofs.Opaque.Template
import CTree.Proofs.Lexing.Lines
import CTree.Proofs.Lexing.Longest
import CTree.Proofs.TypeNames.Angles
import CTree.Proofs.TypeNames.Start
import CTree.Proofs.Declarators.Consumes
import CTree.Proofs.Declarators.Refuses
import CTree.Proofs.Declarators.Lists
import CTree.Proofs.Declarators.Joined
import CTree.Proofs.Declarators.Core
import CTree.Proofs.Declarators.Variables
import CTree.Proofs.Declarators.Values
import CTree.Proofs.Declarators.Ambiguity
import CTree.Proofs.Declarators.Parentheses
import CTree.Proofs.Rereading.Rules
import CTree.Proofs.Rereading.Lead
import CTree.Proofs.Rereading.Again
import CTree.Proofs.Rereading.Clings
import CTree.Proofs.Rereading.Texts
import CTree.Proofs.Rereading.Stored
import CTree.Proofs.Brackets.Stack
import CTree.Proofs.Brackets.Split
import CTree.Proofs.Brackets.Agrees
import CTree.Proofs.Brackets.Arguments
import CTree.Proofs.Brackets.TypeName
import CTree.Proofs.Brackets.Parameters
import CTree.Proofs.Boundaries
import CTree.Proofs.Directives
import CTree.Proofs.Classes.Learns
import CTree.Proofs.Classes.Fields
import CTree.Proofs.Classes.Heads
import CTree.Proofs.Classes.Access
import CTree.Proofs.Yields
import CTree.Proofs.Lexing.Quoted
import CTree.Proofs.Limits.Text
import CTree.Proofs.Limits.Aborts
import CTree.Proofs.Limits.Heads
import CTree.Proofs.Limits.Parentheses
import CTree.Proofs.Limits.Statements
import CTree.Proofs.Limits.Bodies
import CTree.Proofs.Extent.Lines
import CTree.Proofs.Extent.Texts
import CTree.Proofs.Extent.Nodes
import CTree.Proofs.Extent.Expression
import CTree.Proofs.Extent.Declaration
import CTree.Proofs.Extent.Member
import CTree.Proofs.Extent.Program
import CTree.Proofs.Outlines.Trees
import CTree.Proofs.Outlines.Programs
import CTree.Proofs.Groups
import CTree.Proofs.Places
import CTree.Proofs.Literals.Bodies
import CTree.Proofs.Literals.Integers
import CTree.Proofs.Scripts
