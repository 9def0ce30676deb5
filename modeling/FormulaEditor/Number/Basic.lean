import FormulaEditor.Json.Value
/-! Number literals: doubles without the negative zero, so that two literals are equal exactly when
they are written the same, and how they are drawn and written. -/
namespace FormulaEditor

structure Number where
  value : Binary64
  value_ne : value ≠ .negativeZero
  deriving DecidableEq

namespace Number

def zero : Number := ⟨.zero, by decide⟩

/-- Negative zero becomes zero; every other double is kept. -/
def ofBinary64 (x : Binary64) : Number :=
  if h : x = .negativeZero then zero else ⟨x, h⟩

def ofInt (i : Int) : Number := ofBinary64 (.ofInt i)

@[simp] theorem ofBinary64_value (a : Number) : ofBinary64 a.value = a := by
  simp [ofBinary64, a.value_ne]

/-- Plain from `10 ^ -6` up to `10 ^ 21`, as in `0.000001` and `1e+21`. -/
def layout : Decimal.Layout where
  plainAbove := -6
  plainUpTo := 21
  wholeMark := []
  exponentMark := ['+']

def display (a : Number) : String :=
  match a.value with
  | .nan => "NaN"
  | .infinity negative => if negative then "-Infinity" else "Infinity"
  | .finite negative m =>
    String.ofList (Decimal.signed negative (layout.write (Binary64.shortest .up m)))

/-- Up to here integers are written as such: each of them is a double, and so is the next one. -/
def exactIntegers : Nat := Nat.pow 2 53 - 1

/-- What JSON has no number for is written as its display text between quotes. -/
def toValue (a : Number) : Json.Value :=
  match a.value with
  | .finite negative m =>
    match a.value.whole? with
    | some n =>
      if n ≤ exactIntegers then .number (.integer (if negative then -n else n))
      else .number (.float negative m)
    | none => .number (.float negative m)
  | _ => .string a.display

end Number

end FormulaEditor
