import FormulaEditor.Binary64.Basic
import FormulaEditor.Decimal
/-! The decimal with the fewest digits that reads back as a given double, and the reading itself.
Among the multiples of a power of ten the ones that read back lie around the double, so it is enough
to look at its two neighbours there, from the widest spacing down. -/
namespace FormulaEditor
namespace Binary64

def tens (q : Int) : Nat := Nat.pow 10 q.toNat

def nearestDecimal (d : Decimal) : Nat :=
  nearest (d.coefficient * tens d.exponent) (tens (-d.exponent))

/-- The double nearest to a decimal. Exponents that settle the answer by themselves do so before any
power of ten is formed. -/
def ofDecimal (negative : Bool) (d : Decimal) : Binary64 :=
  if d.coefficient = 0 then ofMagnitude negative 0
  else if 310 ≤ d.exponent then .infinity negative
  else if d.exponent + d.coefficient.log2 < -330 then ofMagnitude negative 0
  else ofMagnitude negative (nearestDecimal d)

/-- Which of two equally near decimals of the same length is written. -/
inductive Tie
  | up
  | even
  deriving DecidableEq

def floorMultiple (n : Nat) (q : Int) : Nat :=
  units n * tens (-q) / (unitsPerOne * tens q)

def Tie.prefersUpper (tie : Tie) (n c : Nat) (q : Int) : Bool :=
  let value := 2 * (units n * tens (-q))
  let middle := (2 * c + 1) * (unitsPerOne * tens q)
  match compare value middle, tie with
  | .lt, _ => false
  | .gt, _ => true
  | .eq, .up => true
  | .eq, .even => c % 2 == 1

/-- The multiple of `10 ^ q` nearest to the magnitude `n`, if it has one that reads back. -/
def onGrid? (tie : Tie) (n : Nat) (q : Int) : Option Decimal :=
  let c := floorMultiple n q
  let lower : Decimal := ⟨c, q⟩
  let upper : Decimal := ⟨c + 1, q⟩
  if nearestDecimal lower = n then
    some (if nearestDecimal upper = n ∧ tie.prefersUpper n c q then upper else lower)
  else if nearestDecimal upper = n then some upper
  else none

/-- The first grid with a decimal that reads back, from the multiples of `10 ^ q` down through
`fuel` finer ones. The finest is met with no fuel left, and there the magnitude is taken as it
stands. -/
def search (tie : Tie) (n : Nat) : Nat → Int → Decimal
  | 0, q => ⟨floorMultiple n q, q⟩
  | fuel + 1, q => (onGrid? tie n q).getD (search tie n fuel (q - 1))

/-- A power of ten above the magnitude. The ratio is a little above the decimal logarithm of two. -/
def widestGrid (n : Nat) : Int := (((units n).log2 : Int) - 1073) * 30103 / 100000 + 1

/-- The decimal with the fewest digits that reads back as the magnitude `n`, and of those the
nearest to it. Every magnitude is a multiple of `10 ^ -1074`, where the search ends. -/
def shortest (tie : Tie) (n : Nat) : Decimal :=
  if n = 0 then ⟨0, 0⟩
  else search tie n (widestGrid n + 1074).toNat (widestGrid n)

end Binary64

end FormulaEditor
