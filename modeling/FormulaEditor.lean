import FormulaEditor.Session
import FormulaEditor.Settings.Reader
import FormulaEditor.Proofs.Formula.Placement
import FormulaEditor.Proofs.Box.Nearest
import FormulaEditor.Proofs.Formula.Operands
import FormulaEditor.Proofs.Formula.Deletion
import FormulaEditor.Proofs.Session.Invariant
import FormulaEditor.Proofs.Session.Operand
import FormulaEditor.Proofs.Binary64.Rounding
import FormulaEditor.Proofs.Binary64.Shortest
import FormulaEditor.Proofs.Json.Spelling
import FormulaEditor.Proofs.Json.Quoted
import FormulaEditor.Proofs.Json.Reader
import FormulaEditor.Proofs.Number.Json
import FormulaEditor.Proofs.Formula.Decode
import FormulaEditor.Proofs.Formula.Reader
import FormulaEditor.Proofs.Decimal.Spelling
import FormulaEditor.Proofs.Number.Spelling
import FormulaEditor.Proofs.Number.Display
import FormulaEditor.Proofs.Formula.Resemblance
import FormulaEditor.Proofs.Formula.OperatorTable
import FormulaEditor.Proofs.Formula.Acceptance
import FormulaEditor.Proofs.Session.Reload
import FormulaEditor.Proofs.Box.Path
import FormulaEditor.Proofs.Formula.Pruning
import FormulaEditor.Proofs.Session.Deletion
import FormulaEditor.Proofs.Session.Pruning
import FormulaEditor.Proofs.Session.Failure
import FormulaEditor.Proofs.Session.Selected
import FormulaEditor.Proofs.Formula.Replacement
import FormulaEditor.Proofs.Binary64.Bits
import FormulaEditor.Proofs.Formula.TextAround
import FormulaEditor.Proofs.Number.Reader
import FormulaEditor.Proofs.Box.Layout
import FormulaEditor.Proofs.Formula.Collapse
import FormulaEditor.Proofs.Session.Collapse
import FormulaEditor.Proofs.Binary64.Fewest
import FormulaEditor.Proofs.Decimal.Written
import FormulaEditor.Proofs.Json.DigitLimit
import FormulaEditor.Proofs.Number.Literal
import FormulaEditor.Proofs.Number.Texts
import FormulaEditor.Proofs.Formula.Focus
import FormulaEditor.Proofs.Formula.GroupShape
import FormulaEditor.Proofs.Formula.Renumbering
import FormulaEditor.Proofs.Line.Flat
import FormulaEditor.Proofs.Line.StrayClose
