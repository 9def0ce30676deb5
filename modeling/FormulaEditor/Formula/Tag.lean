import FormulaEditor.Formula.Basic
/-! The tags that tell the kinds of formulas apart in JSON. -/
namespace FormulaEditor

inductive Tag
  | number
  | pi
  | e
  | var
  | negation
  | power
  | binary (operator : Operator)
  | function
  | paren
  | unrecognized
  deriving DecidableEq

namespace Tag

def spelling : Tag → String
  | number => "NUMBER"
  | pi => "PI"
  | e => "E"
  | var => "VARIABLE"
  | negation => "NEGATION"
  | power => "POWER"
  | binary .addition => "ADDITION"
  | binary .subtraction => "SUBTRACTION"
  | binary .multiplication => "MULTIPLICATION"
  | binary .division => "DIVISION"
  | function => "FUNCTION"
  | paren => "PAREN"
  | unrecognized => "UNRECOGNIZED"

def name : Tag → String
  | number => "Number"
  | pi => "Pi"
  | e => "E"
  | var => "Variable"
  | negation => "Negation"
  | power => "Power"
  | binary .addition => "Addition"
  | binary .subtraction => "Subtraction"
  | binary .multiplication => "Multiplication"
  | binary .division => "Division"
  | function => "Function"
  | paren => "Paren"
  | unrecognized => "Unrecognized"

/-- The tags with a meaning, in the order of their numbers. -/
def known : List Tag :=
  [number, pi, e, var, negation, power, binary .addition, binary .subtraction,
    binary .multiplication, binary .division, function, paren]

/-- Any other text than a known spelling is the tag of something unrecognized. -/
def ofSpelling (s : String) : Tag := (known.find? fun t => t.spelling = s).getD unrecognized

/-- Tags may be given by number, and any further number is the tag of something unrecognized. -/
def ofIndex (n : Nat) : Tag := known[n]?.getD unrecognized

@[simp] theorem ofSpelling_spelling (t : Tag) : ofSpelling t.spelling = t := by
  rcases t with _ | _ | _ | _ | _ | _ | o | _ | _ | _
  case binary => cases o <;> decide
  all_goals decide

end Tag

def Formula.tag : Formula → Tag
  | number _ => .number
  | pi => .pi
  | e => .e
  | var _ => .var
  | negation _ => .negation
  | power .. => .power
  | binary o .. => .binary o
  | call .. => .function
  | paren _ => .paren
  | unrecognized => .unrecognized

end FormulaEditor
