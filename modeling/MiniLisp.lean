import MiniLisp.Session.Basic
import MiniLisp.Session.Setting
import MiniLisp.Proofs.Writable
import MiniLisp.Proofs.Depth
import MiniLisp.Proofs.Region
import MiniLisp.Proofs.Regime
import MiniLisp.Proofs.Invariant
import MiniLisp.Proofs.Confinement
import MiniLisp.Proofs.Matching
import MiniLisp.Proofs.Lockstep
import MiniLisp.Proofs.Links
import MiniLisp.Proofs.LexicalScope
import MiniLisp.Proofs.LetAsLambda
import MiniLisp.Proofs.Renaming
import MiniLisp.Proofs.RenamedRuns
import MiniLisp.Proofs.Traces
import MiniLisp.Proofs.Conversation
import MiniLisp.Proofs.Echo
import MiniLisp.Proofs.Isolation
import MiniLisp.Proofs.NumberWords
import MiniLisp.Proofs.Rounding
import MiniLisp.Proofs.WrittenNumbers
import MiniLisp.Proofs.Words
import MiniLisp.Proofs.ReadBack
import MiniLisp.Proofs.Lexing
import MiniLisp.Proofs.Grammar
import MiniLisp.Proofs.Nesting
import MiniLisp.Proofs.WholeText
import MiniLisp.Proofs.Joining
import MiniLisp.Proofs.InParts
import MiniLisp.Proofs.ReadAgain
import MiniLisp.Proofs.Inert
import MiniLisp.Proofs.PrintedData
import MiniLisp.Proofs.Literals
import MiniLisp.Proofs.FirstOrder
import MiniLisp.Proofs.ClosureTexts
import MiniLisp.Proofs.Cursor
import MiniLisp.Proofs.History
import MiniLisp.Proofs.Orderly
import MiniLisp.Proofs.Arguments
import MiniLisp.Proofs.Failures
import MiniLisp.Proofs.Lossless
import MiniLisp.Proofs.Cuts
import MiniLisp.Proofs.Lookahead
import MiniLisp.Proofs.Reordering
import MiniLisp.Proofs.DefinitionOrder
