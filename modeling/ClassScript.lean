import ClassScript.Text.Span
import ClassScript.Text.Blank
import ClassScript.Text.Upper
import ClassScript.Text.Quoted
import ClassScript.CharStream
import ClassScript.Decimal.Layout
import ClassScript.Decimal.Numeral
import ClassScript.Token.Lexer
import ClassScript.Syntax.Program
import ClassScript.Syntax.Outline
import ClassScript.Diagnostic.Excerpt
import ClassScript.Scope.Analysis
import ClassScript.Machine.Evaluation
import ClassScript.Session
import ClassScript.Value.Frames
import ClassScript.Syntax.Dump
import ClassScript.Console.Command
import ClassScript.Main
import ClassScript.Proofs.Syntax.Grammar
import ClassScript.Proofs.Syntax.Identities
import ClassScript.Proofs.Syntax.Moves
import ClassScript.Proofs.Syntax.Forward
import ClassScript.Proofs.Syntax.Soundness
import ClassScript.Proofs.Syntax.Completeness
import ClassScript.Proofs.Syntax.StatementCompleteness
import ClassScript.Proofs.Syntax.Acceptance
import ClassScript.Proofs.Scope.Touch
import ClassScript.Proofs.Scope.Visit
import ClassScript.Proofs.Scope.Accepted
import ClassScript.Proofs.Lexical.Semantics
import ClassScript.Proofs.Lexical.World
import ClassScript.Proofs.Lexical.Match
import ClassScript.Proofs.Lexical.Agreement
import ClassScript.Proofs.Lexical.Expressions
import ClassScript.Proofs.Lexical.Calls
import ClassScript.Proofs.Lexical.Declarations
import ClassScript.Proofs.Lexical.Statements
import ClassScript.Proofs.Session.Tracking
import ClassScript.Proofs.Session.Reached
import ClassScript.Proofs.Machine.Below
import ClassScript.Proofs.Session.Refinement
import ClassScript.Proofs.Machine.Watch
import ClassScript.Proofs.Session.Mirror
import ClassScript.Proofs.Syntax.LexicalErrors
import ClassScript.Proofs.Session.Renaming
import ClassScript.Proofs.Machine.Steady
import ClassScript.Proofs.Session.Joined
import ClassScript.Proofs.Session.Pieces
import ClassScript.Proofs.Session.Rest
import ClassScript.Proofs.Machine.Limits
import ClassScript.Proofs.Session.Super
import ClassScript.Proofs.Diagnostic.Carets
import ClassScript.Proofs.Scope.Faults
import ClassScript.Proofs.Session.Identities
import ClassScript.Proofs.Syntax.Renumbering
import ClassScript.Proofs.Syntax.Later
import ClassScript.Proofs.Scope.Renumbering
import ClassScript.Proofs.Value.Renumbering
import ClassScript.Proofs.Machine.Renumbering
import ClassScript.Proofs.Session.FailedBuild
import ClassScript.Proofs.Diagnostic.Resolution
import ClassScript.Proofs.Syntax.Recovery
import ClassScript.Proofs.Syntax.Fuel
import ClassScript.Proofs.Syntax.Termination
import ClassScript.Proofs.Syntax.Viable
import ClassScript.Proofs.Syntax.Places
import ClassScript.Proofs.Console.Completable
import ClassScript.Proofs.Console.Incomplete
import ClassScript.Proofs.Session.Returns
import ClassScript.Proofs.Machine.Loopless
import ClassScript.Proofs.Session.Halting
import ClassScript.Proofs.Lexical.Fuel
import ClassScript.Proofs.Lexical.ForLoops
import ClassScript.Proofs.Session.ForLoops
import ClassScript.Proofs.Token.Display
import ClassScript.Proofs.Token.Truncation
import ClassScript.Proofs.Text.Files
import ClassScript.Proofs.Syntax.Coverage
import ClassScript.Proofs.Syntax.Situated
import ClassScript.Proofs.Syntax.Balance
import ClassScript.Proofs.Syntax.Placement
import ClassScript.Proofs.Value.Search
import ClassScript.Proofs.Token.Trimming
import ClassScript.Proofs.Console.Typed
import ClassScript.Proofs.Machine.Activations
import ClassScript.Proofs.Machine.Attribution
import ClassScript.Proofs.Machine.Culprit
import ClassScript.Proofs.Machine.Entry
import ClassScript.Proofs.Session.Arguments
import ClassScript.Proofs.Console.Interaction
import ClassScript.Proofs.Console.Quotation
