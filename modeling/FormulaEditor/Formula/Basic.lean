import FormulaEditor.Number.Basic
/-! Formulas as a parser hands them over: trees of number literals, constants and variables under
signs, powers, the four binary operators, calls and explicit parentheses. -/
namespace FormulaEditor

/-- The binary operators, apart from the power. -/
inductive Operator
  | addition
  | subtraction
  | multiplication
  | division
  deriving DecidableEq

def Operator.symbol : Operator → String
  | addition => "+"
  | subtraction => "-"
  | multiplication => "*"
  | division => "/"

theorem Operator.symbol_injective {a b : Operator} (h : a.symbol = b.symbol) : a = b := by
  revert h
  cases a <;> cases b <;> decide

inductive Formula
  | number (value : Number)
  | pi
  | e
  | var (name : String)
  | negation (expression : Formula)
  | power (expression exponent : Formula)
  | binary (operator : Operator) (left right : Formula)
  | call (name : String) (arguments : List Formula)
  | paren (expression : Formula)
  /-- What a parser may emit beyond the other kinds. -/
  | unrecognized

namespace Formula

/-- Whether the formula is drawn with an operator between two operands. -/
def isOperation : Formula → Bool
  | power .. | binary .. => true
  | _ => false

mutual

def beq : Formula → Formula → Bool
  | number m, number n => m = n
  | pi, pi => true
  | e, e => true
  | var s, var t => s = t
  | negation a, negation b => beq a b
  | power a x, power b y => beq a b && beq x y
  | binary o a x, binary p b y => o = p && beq a b && beq x y
  | call s as, call t bs => s = t && beqList as bs
  | paren a, paren b => beq a b
  | unrecognized, unrecognized => true
  | _, _ => false

def beqList : List Formula → List Formula → Bool
  | [], [] => true
  | a :: as, b :: bs => beq a b && beqList as bs
  | _, _ => false

end

mutual

theorem beq_eq_true_iff (a b : Formula) : beq a b = true ↔ a = b := by
  cases a <;> cases b <;> simp [beq, beq_eq_true_iff, beqList_eq_true_iff, and_assoc]

theorem beqList_eq_true_iff (as bs : List Formula) : beqList as bs = true ↔ as = bs := by
  cases as <;> cases bs <;> simp [beqList, beq_eq_true_iff, beqList_eq_true_iff]

end

instance : DecidableEq Formula := fun a b => decidable_of_iff _ (beq_eq_true_iff a b)

/-- Induction over formulas, with one hypothesis for all arguments of a call. -/
@[elab_as_elim, induction_eliminator]
theorem induct {motive : Formula → Prop} (number : ∀ n, motive (number n)) (pi : motive pi)
    (e : motive e) (var : ∀ name, motive (var name))
    (negation : ∀ a, motive a → motive (negation a))
    (power : ∀ a x, motive a → motive x → motive (power a x))
    (binary : ∀ o l r, motive l → motive r → motive (binary o l r))
    (call : ∀ name as, (∀ a ∈ as, motive a) → motive (call name as))
    (paren : ∀ a, motive a → motive (paren a)) (unrecognized : motive unrecognized)
    (t : Formula) : motive t :=
  @Formula.rec motive (fun as => ∀ a ∈ as, motive a) number pi e var negation power binary call
    paren unrecognized (fun _ h => absurd h List.not_mem_nil)
    (fun _ _ ha has => List.forall_mem_cons.2 ⟨ha, has⟩) t

end Formula

end FormulaEditor
