import FunctionPlot.Text
import FunctionPlot.Text.Blank
import FunctionPlot.Number
import FunctionPlot.Number.Decimal
import FunctionPlot.Number.Shortest
import FunctionPlot.Number.Written
import FunctionPlot.Number.Numeral
import FunctionPlot.Text.Place
import FunctionPlot.Formula.Error
import FunctionPlot.Formula.Operator
import FunctionPlot.Formula.Token
import FunctionPlot.Formula.TokenStream
import FunctionPlot.Formula
import FunctionPlot.Formula.Parser
import FunctionPlot.Formula.Printer
import FunctionPlot.Symbols
import FunctionPlot.Formula.Checked
import FunctionPlot.Formula.Value
import FunctionPlot.Expression
import FunctionPlot.Interval
import FunctionPlot.Curve
import FunctionPlot.Expression.Sampling
import FunctionPlot.Settings.Input
import FunctionPlot.Settings
import FunctionPlot.Settings.Limits
import FunctionPlot.Plot
import FunctionPlot.CommandLine
import FunctionPlot.Main
import FunctionPlot.Proofs.Grammar
import FunctionPlot.Proofs.Grammar.Unambiguous
import FunctionPlot.Proofs.Parser.State
import FunctionPlot.Proofs.Grammar.Front
import FunctionPlot.Proofs.Parser.Outcome
import FunctionPlot.Proofs.Parser.Phrase
import FunctionPlot.Proofs.Parser.Verdict
import FunctionPlot.Proofs.Number.Nearest
import FunctionPlot.Proofs.Number.Packing
import FunctionPlot.Proofs.Number.Numeral
import FunctionPlot.Proofs.Number.RoundTrip
import FunctionPlot.Proofs.Formula.Normal
import FunctionPlot.Proofs.Formula.Lexing
import FunctionPlot.Proofs.Formula.Printed
import FunctionPlot.Proofs.Expression.Recompile
import FunctionPlot.Proofs.Expression.Finite
import FunctionPlot.Proofs.Formula.Tokenization
import FunctionPlot.Proofs.Formula.Safety
import FunctionPlot.Proofs.Expression.ErrorPlace
import FunctionPlot.Proofs.Plot
import FunctionPlot.Proofs.Formula.Dependence
import FunctionPlot.Proofs.Formula.Grouping
import FunctionPlot.Proofs.Formula.Parentheses
import FunctionPlot.Proofs.Parser.Calls
import FunctionPlot.Proofs.Settings.Limits
import FunctionPlot.Proofs.Plot.Typed
import FunctionPlot.Proofs.Curve.ReadBack
import FunctionPlot.Proofs.CommandLine
import FunctionPlot.Proofs.Formula.InOrder
import FunctionPlot.Proofs.Expression.Fault
import FunctionPlot.Proofs.Formula.Offence
import FunctionPlot.Proofs.Settings.Issues
import FunctionPlot.Proofs.Curve
import FunctionPlot.Proofs.Parser.Alike
import FunctionPlot.Proofs.Text.Place
import FunctionPlot.Proofs.Expression.Message
import FunctionPlot.Proofs.Formula.Spacing
import FunctionPlot.Proofs.Number.Error
import FunctionPlot.Proofs.Number.Interpolation
import FunctionPlot.Proofs.Expression.Grid
import FunctionPlot.Proofs.Curve.Segments
import FunctionPlot.Proofs.Formula.Interleaving
import FunctionPlot.Proofs.Parser.Source
import FunctionPlot.Proofs.Number.Absorption
import FunctionPlot.Proofs.Interval.Padding
