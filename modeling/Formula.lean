import Formula.Main
import Formula.Registry.History
import Formula.Session
import Formula.Stages
import Formula.Proofs.Grammar.Language
import Formula.Proofs.Session.Machine
import Formula.Proofs.Safety
import Formula.Proofs.Optimization
import Formula.Proofs.Leftover
import Formula.Proofs.Lexer.Layout
import Formula.Proofs.Lexer.Pieces
import Formula.Proofs.RoundTrip
import Formula.Proofs.Lexer.Scanner
import Formula.Proofs.Blame
import Formula.Proofs.Modes
import Formula.Proofs.Registry.Ledger
import Formula.Proofs.Registry.Copies
import Formula.Proofs.Conversion.Flaws
import Formula.Proofs.Tree.Calculator
import Formula.Proofs.Tree.Moments
import Formula.Proofs.Tree.Normal
import Formula.Proofs.Tree.Places
import Formula.Proofs.Capacity
import Formula.Proofs.Lexer.Lossless
import Formula.Proofs.Conversion.Selection
import Formula.Proofs.Grammar.Viable
import Formula.Proofs.Relabelling
import Formula.Proofs.Spacing
import Formula.Proofs.Lexer.Rescoping
import Formula.Proofs.Exchange
import Formula.Proofs.Extension
import Formula.Proofs.Lexer.Alone
import Formula.Proofs.PostfixLine
import Formula.Proofs.Declarations
import Formula.Proofs.Conversion.Stacks
import Formula.Proofs.Number.Sign
import Formula.Proofs.Tree.Blocks
import Formula.Proofs.Lexer.Literal
