import ModuleSyntax.Diagnostic.Snippet
import ModuleSyntax.Operation
import ModuleSyntax.Proofs.Motion
import ModuleSyntax.Proofs.PairedRuns
import ModuleSyntax.Proofs.PairedExpression
import ModuleSyntax.Proofs.PairedStatement
import ModuleSyntax.Proofs.PairedModule
import ModuleSyntax.Proofs.Calls
import ModuleSyntax.Proofs.Answers
import ModuleSyntax.Proofs.AnswersExpression
import ModuleSyntax.Proofs.AnswersModule
import ModuleSyntax.Proofs.Symbols
import ModuleSyntax.Proofs.Steps
import ModuleSyntax.Proofs.Separation
import ModuleSyntax.Proofs.Levels
import ModuleSyntax.Proofs.Outcome
import ModuleSyntax.Proofs.OutcomeExpression
import ModuleSyntax.Proofs.OutcomeStatement
import ModuleSyntax.Proofs.OutcomeModule
import ModuleSyntax.Proofs.Running
import ModuleSyntax.Proofs.RunningExpression
import ModuleSyntax.Proofs.RunningStatement
import ModuleSyntax.Proofs.RunningModule
import ModuleSyntax.Proofs.Entry
import ModuleSyntax.Proofs.Acceptance
import ModuleSyntax.Proofs.WellFormed
import ModuleSyntax.Proofs.Printer
import ModuleSyntax.Proofs.Spacing
import ModuleSyntax.Proofs.RoundTrip
import ModuleSyntax.Proofs.Layered
import ModuleSyntax.Proofs.Refinement
import ModuleSyntax.Proofs.Chains
import ModuleSyntax.Proofs.Precedence
import ModuleSyntax.Proofs.Ascent
import ModuleSyntax.Proofs.Descent
import ModuleSyntax.Proofs.Agreement
import ModuleSyntax.Proofs.Refusals
import ModuleSyntax.Proofs.Skipping
import ModuleSyntax.Proofs.Showing
import ModuleSyntax.Proofs.Places
import ModuleSyntax.Proofs.Lossless
import ModuleSyntax.Proofs.Layout
import ModuleSyntax.Proofs.Supply
import ModuleSyntax.Proofs.Sessions
import ModuleSyntax.Proofs.PairedOperation
import ModuleSyntax.Proofs.Lifting
import ModuleSyntax.Proofs.Nodes
import ModuleSyntax.Proofs.Rows
import ModuleSyntax.Proofs.Extents
import ModuleSyntax.Proofs.Termination
import ModuleSyntax.Proofs.Spellings
import ModuleSyntax.Proofs.Requests
import ModuleSyntax.Proofs.LineBreaks
import ModuleSyntax.Proofs.Verdicts
import ModuleSyntax.Proofs.Readings
import ModuleSyntax.Proofs.Registrations
import ModuleSyntax.Proofs.Truncation
import ModuleSyntax.Proofs.LongestMatch
import ModuleSyntax.Proofs.SameTokens
import ModuleSyntax.Proofs.TextLines
import ModuleSyntax.Proofs.Pointer
import ModuleSyntax.Proofs.Blame
import ModuleSyntax.Proofs.Resumption
import ModuleSyntax.Proofs.TypeText
