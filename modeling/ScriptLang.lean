import ScriptLang.Main
import ScriptLang.Proofs.Progress
import ScriptLang.Proofs.Probe
import ScriptLang.Proofs.Simulation
import ScriptLang.Proofs.Traces
import ScriptLang.Proofs.Pieces
import ScriptLang.Proofs.Invariant
import ScriptLang.Proofs.Scopes
import ScriptLang.Proofs.ScopeTree
import ScriptLang.Proofs.Isolation
import ScriptLang.Proofs.LexicalScope
import ScriptLang.Proofs.Cutoff
import ScriptLang.Proofs.Strictness
import ScriptLang.Proofs.RecursionLimit
import ScriptLang.Proofs.CallDepth
import ScriptLang.Proofs.Parallel
import ScriptLang.Proofs.Balance
import ScriptLang.Proofs.Moments
import ScriptLang.Proofs.Verbosity
import ScriptLang.Proofs.Termination
import ScriptLang.Proofs.Grammar
import ScriptLang.Proofs.Lexing
import ScriptLang.Proofs.Derivation
import ScriptLang.Proofs.Tokens
import ScriptLang.Proofs.Numerals
import ScriptLang.Proofs.Meaning
import ScriptLang.Proofs.Rounding
import ScriptLang.Proofs.Safety
import ScriptLang.Proofs.Printer
import ScriptLang.Proofs.Lines
import ScriptLang.Proofs.Lexemes
import ScriptLang.Proofs.Reading
import ScriptLang.Proofs.RoundTrip
import ScriptLang.Proofs.Command
import ScriptLang.Proofs.Refusal
import ScriptLang.Proofs.Words
import ScriptLang.Proofs.Scanning
import ScriptLang.Proofs.LineBoundaries
import ScriptLang.Proofs.Stretches
import ScriptLang.Proofs.Insertion
import ScriptLang.Proofs.LineNumbers
import ScriptLang.Proofs.Patterns
import ScriptLang.Proofs.Relocation
import ScriptLang.Proofs.Brackets
import ScriptLang.Proofs.LiteralEnds
import ScriptLang.Proofs.Concatenation
import ScriptLang.Proofs.Correspondence
import ScriptLang.Proofs.HostNames
import ScriptLang.Proofs.Dialogue
import ScriptLang.Proofs.Midpoints
import ScriptLang.Proofs.Nearest
import ScriptLang.Proofs.DoubleRounding
import ScriptLang.Proofs.ShortestDecimal
import ScriptLang.Proofs.Rereading
import ScriptLang.Proofs.DecimalText
import ScriptLang.Proofs.ShownFloats
import ScriptLang.Proofs.StatementLines
import ScriptLang.Proofs.WordArithmetic
import ScriptLang.Proofs.Widening
import ScriptLang.Proofs.CorrectRounding
import ScriptLang.Proofs.Comparison
import ScriptLang.Proofs.InnocuousRounding
import ScriptLang.Proofs.SingleArithmetic
import ScriptLang.Proofs.Negation
