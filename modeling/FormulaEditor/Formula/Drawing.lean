import FormulaEditor.Box.Basic
import FormulaEditor.Formula.Path
/-! How a formula is drawn. The box, the text and the table of operators are three readings of the
formula that go together: operators are numbered as they stand in the table, each after those of its
operands. -/
namespace FormulaEditor
namespace Formula

def minusSign : String := "-"

def powerSymbol : String := "^"

mutual

/-- Arguments are run together. -/
def text : Formula → String
  | number n => n.display
  | pi => Constant.pi.name
  | e => Constant.e.name
  | var name => name
  | negation a => minusSign ++ a.text
  | power a x => a.text ++ " " ++ powerSymbol ++ " " ++ x.text
  | binary o l r => l.text ++ " " ++ o.symbol ++ " " ++ r.text
  | call name as => name ++ "(" ++ texts as ++ ")"
  | paren a => "(" ++ a.text ++ ")"
  | unrecognized => ""

def texts : List Formula → String
  | [] => ""
  | a :: as => a.text ++ texts as

end

mutual

/-- The paths to what is drawn with an operator, an operation after its operands. -/
def operators : Formula → List Path
  | negation a | paren a => a.operators.map (.expression :: ·)
  | power a x =>
    a.operators.map (.expression :: ·) ++ x.operators.map (.power :: ·) ++ [[]]
  | binary _ l r => l.operators.map (.left :: ·) ++ r.operators.map (.right :: ·) ++ [[]]
  | call _ as => argumentOperators 0 as
  | _ => []

def argumentOperators (i : Nat) : List Formula → List Path
  | [] => []
  | a :: as => a.operators.map (.argument i :: ·) ++ argumentOperators (i + 1) as

end

mutual

def operatorCount : Formula → Nat
  | negation a | paren a => a.operatorCount
  | power a b | binary _ a b => a.operatorCount + b.operatorCount + 1
  | call _ as => argumentOperatorCount as
  | _ => 0

def argumentOperatorCount : List Formula → Nat
  | [] => 0
  | a :: as => a.operatorCount + argumentOperatorCount as

end

mutual

@[simp] theorem length_operators (t : Formula) : t.operators.length = t.operatorCount := by
  cases t <;>
    simp [operators, operatorCount, length_operators, length_argumentOperators, Nat.add_assoc]

@[simp] theorem length_argumentOperators (i : Nat) (as : List Formula) :
    (argumentOperators i as).length = argumentOperatorCount as := by
  cases as <;>
    simp [argumentOperators, argumentOperatorCount, length_operators, length_argumentOperators]

end

end Formula

namespace Box

def infixed (left : Box) (symbol : String) (id : Nat) (right : Box) : Box :=
  group [left, operator symbol id, right]

/-- What stands between parentheses: the members of a group, or else the box itself. -/
def spliced : Box → List Box
  | group bs => bs
  | b => [b]

def parenthesized (b : Box) : Box :=
  group (punctuation .opening :: b.spliced ++ [punctuation .closing])

def called (name : String) (arguments : List Box) : Box :=
  group (function name :: punctuation .opening :: arguments ++ [punctuation .closing])

end Box

namespace Formula

mutual

/-- The box of a formula whose operators are numbered from `first`. -/
def box (first : Nat) : Formula → Box
  | number n => .terminal n.display
  | pi => .constant .pi
  | e => .constant .e
  | var name => .terminal name
  | negation a => .group [.terminal minusSign, a.box first]
  | power a x =>
    let second := first + a.operatorCount
    .infixed (a.box first) powerSymbol (second + x.operatorCount) (x.box second)
  | binary o l r =>
    let second := first + l.operatorCount
    .infixed (l.box first) o.symbol (second + r.operatorCount) (r.box second)
  | call name as => .called name (argumentBoxes first as)
  | paren a => .parenthesized (a.box first)
  | unrecognized => .empty

def argumentBoxes (first : Nat) : List Formula → List Box
  | [] => []
  | a :: as => a.box first :: argumentBoxes (first + a.operatorCount) as

end

@[simp] theorem length_argumentBoxes (first : Nat) (as : List Formula) :
    (argumentBoxes first as).length = as.length := by
  induction as generalizing first with
  | nil => rfl
  | cons a as ih => simp [argumentBoxes, ih]

end Formula

/-- All that a drawing of a formula tells. The operator numbered `i` is that of the operation that
the `i`-th path leads to. -/
structure Drawing where
  box : Box
  text : String
  operators : List Formula.Path
  deriving DecidableEq

def Formula.drawing (t : Formula) : Drawing := ⟨t.box 0, t.text, t.operators⟩

end FormulaEditor
