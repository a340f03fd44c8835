import ExprLang.Main
import ExprLang.Lowering
import ExprLang.Proofs.FirstFault
import ExprLang.Proofs.Concatenation
import ExprLang.Proofs.Rendering
import ExprLang.Proofs.Lookahead
import ExprLang.Proofs.Layout
import ExprLang.Proofs.Spans
import ExprLang.Proofs.JoinedLines
import ExprLang.Proofs.Runs
import ExprLang.Proofs.Legibility
import ExprLang.Proofs.Diagnostics
import ExprLang.Proofs.LongestMatch
import ExprLang.Proofs.Arrangement
import ExprLang.Proofs.Climbing
import ExprLang.Proofs.SelfEquality
import ExprLang.Proofs.LineMap
import ExprLang.Proofs.StrayCharacters
import ExprLang.Proofs.ProgramShape
import ExprLang.Proofs.FaultCauses
import ExprLang.Proofs.ScanLoop
import ExprLang.Proofs.TrailingCommas
import ExprLang.Proofs.CaretColumns
import ExprLang.Proofs.Balance
import ExprLang.Proofs.Descent
