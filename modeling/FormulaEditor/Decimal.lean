/-! Nonnegative decimals `coefficient × 10 ^ exponent`, the layouts in which their digits are
written, and the decimals that are spelled by whole digits, a fraction and an exponent. A layout is
plain, with a point among the digits, as long as the point stands near them, and has an exponent
otherwise. -/
namespace FormulaEditor

structure Decimal where
  coefficient : Nat
  exponent : Int
  deriving DecidableEq

namespace Decimal

/-- Most significant first; zero has the one digit `0`. -/
def digits (d : Decimal) : List Char := Nat.toDigits 10 d.coefficient

/-- Where the point stands, counted from the first digit: the value is `0.d₁d₂… × 10 ^ point`. -/
def point (d : Decimal) : Int := d.digits.length + d.exponent

def signed (negative : Bool) (cs : List Char) : List Char := if negative then '-' :: cs else cs

structure Layout where
  /-- Plain notation is used for points above this one. -/
  plainAbove : Int
  /-- Plain notation is used for points up to this one. -/
  plainUpTo : Int
  /-- What follows a plain decimal without a fraction. -/
  wholeMark : List Char
  /-- What stands before an exponent that is not negative. -/
  exponentMark : List Char

namespace Layout

def plain (l : Layout) (digits : List Char) (point : Int) : List Char :=
  if point ≤ 0 then '0' :: '.' :: List.replicate (-point).toNat '0' ++ digits
  else if digits.length ≤ point then
    digits ++ List.replicate (point.toNat - digits.length) '0' ++ l.wholeMark
  else digits.take point.toNat ++ '.' :: digits.drop point.toNat

def exponent (l : Layout) (e : Int) : List Char :=
  'e' :: (if e < 0 then ['-'] else l.exponentMark) ++ Nat.toDigits 10 e.natAbs

def scientific (l : Layout) : List Char → Int → List Char
  | [], _ => []
  | [d], point => d :: l.exponent (point - 1)
  | d :: rest, point => d :: '.' :: rest ++ l.exponent (point - 1)

def write (l : Layout) (d : Decimal) : List Char :=
  if l.plainAbove < d.point ∧ d.point ≤ l.plainUpTo then l.plain d.digits d.point
  else l.scientific d.digits d.point

end Layout

def sign : List Char → Bool × List Char
  | '-' :: cs => (true, cs)
  | '+' :: cs => (false, cs)
  | cs => (false, cs)

def digitsValue (digits : List Char) : Nat := Nat.ofDigitChars 10 digits 0

/-- The exponent is spelled for the end of the whole digits. -/
def ofSpelling (whole fraction : List Char) (exponent : Int) : Decimal :=
  ⟨digitsValue (whole ++ fraction), exponent - fraction.length⟩

end Decimal

end FormulaEditor
