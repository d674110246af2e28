import CellScript.Diagnostic
import CellScript.Json
import CellScript.Json.Document
import CellScript.Json.Field
import CellScript.Json.Lexeme
import CellScript.Json.Reader
import CellScript.Number.Decimal
import CellScript.Number.Elementary
import CellScript.Number.Fixed
import CellScript.Number.Single
import CellScript.Pipeline
import CellScript.Program
import CellScript.Program.Error
import CellScript.Program.Operator
import CellScript.Program.Parser
import CellScript.Program.Parser.Expression
import CellScript.Program.Parser.Statement
import CellScript.Proofs.ErrorLocation
import CellScript.Proofs.Likeness
import CellScript.Proofs.LiteralSafety
import CellScript.Proofs.Number.Order
import CellScript.Proofs.Number.Rounding
import CellScript.Proofs.Parser.AssignmentForms
import CellScript.Proofs.Parser.Derivation
import CellScript.Proofs.Parser.Expression
import CellScript.Proofs.Parser.Height
import CellScript.Proofs.Parser.Likeness
import CellScript.Proofs.Parser.Lookahead
import CellScript.Proofs.Parser.RoundTrip
import CellScript.Proofs.Parser.SlotLoop
import CellScript.Proofs.Parser.SlotOrder
import CellScript.Proofs.Parser.SlotTable
import CellScript.Proofs.Parser.Spelling
import CellScript.Proofs.Parser.TemplateLine
import CellScript.Proofs.Parser.Tokens
import CellScript.Proofs.Parser.Visits
import CellScript.Proofs.Pipeline.Likeness
import CellScript.Proofs.PrintedLiteral
import CellScript.Proofs.Program.Parts
import CellScript.Proofs.Run.Conduct
import CellScript.Proofs.Run.Confinement
import CellScript.Proofs.Run.Effects
import CellScript.Proofs.Run.Evaluation
import CellScript.Proofs.Run.Execution
import CellScript.Proofs.Run.GasLimit
import CellScript.Proofs.Run.Law
import CellScript.Proofs.Run.LoopCondition
import CellScript.Proofs.Run.Moments
import CellScript.Proofs.Run.Renaming
import CellScript.Proofs.Run.Rounds
import CellScript.Proofs.Run.ScopeFrame
import CellScript.Proofs.Run.StrayControl
import CellScript.Proofs.Run.StricterSettings
import CellScript.Proofs.Run.TextLength
import CellScript.Proofs.Scan.Calls
import CellScript.Proofs.Scan.Course
import CellScript.Proofs.Scan.CycleGuard
import CellScript.Proofs.Scan.DepthLimit
import CellScript.Proofs.Scan.Likeness
import CellScript.Proofs.Scan.Line
import CellScript.Proofs.Scan.PlacedLine
import CellScript.Proofs.Scan.Termination
import CellScript.Proofs.ScopeStack
import CellScript.Proofs.Space.Arithmetic
import CellScript.Proofs.StricterConfig
import CellScript.Proofs.Translation
import CellScript.Proofs.Typing
import CellScript.Proofs.Value.Comparison
import CellScript.Proofs.Value.Literal
import CellScript.Run.Error
import CellScript.Run.Eval
import CellScript.Run.Machine
import CellScript.Run.Scopes
import CellScript.Run.World
import CellScript.Scan
import CellScript.Scan.Walk
import CellScript.Space.Direction
import CellScript.Space.Grid
import CellScript.Space.Position
import CellScript.Text.Blank
import CellScript.Text.Integer
import CellScript.Token
import CellScript.Token.Kind
import CellScript.Token.Symbols
import CellScript.Value
import CellScript.Value.Literal
import CellScript.Value.Operation
import CellScript.Value.Type
import CellScript.Proofs.Run.DeadCode
import CellScript.Proofs.ErrorText
import CellScript.Proofs.Value.IntegerText
import CellScript.Proofs.Run.ExpressionCost
import CellScript.Proofs.Json.Spelling
import CellScript.Proofs.Json.Reading
import CellScript.Proofs.Json.Field
import CellScript.Proofs.Json.Configuration
import CellScript.Proofs.Json.Report
import CellScript.Proofs.Number.DecimalValue
import CellScript.Proofs.Number.DecimalText
import CellScript.Proofs.Value.FloatText
