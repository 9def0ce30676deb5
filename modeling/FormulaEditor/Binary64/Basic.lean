/-! Double-precision numbers as data. The finite magnitudes are numbered from zero in increasing
order, so that the neighbour of a magnitude is the next number; the bits of a double are its sign
and that number. -/
namespace FormulaEditor
namespace Binary64

def binade : Nat := Nat.pow 2 52

/-- Magnitudes are measured in units of `2 ^ -1074`; so many of them make one. -/
def unitsPerOne : Nat := Nat.pow 2 1074

def magnitudeCount : Nat := 2047 * binade

/-- The value of the magnitude numbered `n`, in units. Numbers past the last finite magnitude go on
in the same way; the first of them stands for `2 ^ 1024`. -/
def units (n : Nat) : Nat :=
  if n < binade then n else (binade + n % binade) * Nat.pow 2 (n / binade - 1)

def floorOfUnits (u : Nat) : Nat :=
  (u.log2 - 52) * binade + u / Nat.pow 2 (u.log2 - 52)

/-- The magnitude nearest to the quotient `num / den`; a quotient halfway between two of them goes
to the one with the even number. -/
def nearest (num den : Nat) : Nat :=
  let u := num * unitsPerOne
  let n := floorOfUnits (u / den)
  let middle := (units n + units (n + 1)) * den
  if 2 * u < middle then n
  else if middle < 2 * u then n + 1
  else n + n % 2

end Binary64

inductive Binary64
  | nan
  | infinity (negative : Bool)
  | finite (negative : Bool) (magnitude : Fin Binary64.magnitudeCount)
  deriving DecidableEq

namespace Binary64

/-- Magnitudes past the last finite one are infinite. -/
def ofMagnitude (negative : Bool) (n : Nat) : Binary64 :=
  if h : n < magnitudeCount then .finite negative ⟨n, h⟩ else .infinity negative

def zero : Binary64 := ofMagnitude false 0

def negativeZero : Binary64 := ofMagnitude true 0

def ofInt (i : Int) : Binary64 := ofMagnitude (i < 0) (nearest i.natAbs 1)

/-- The magnitude when the double is finite and has no fraction, as a natural number. -/
def whole? : Binary64 → Option Nat
  | .finite _ m => if units m % unitsPerOne = 0 then some (units m / unitsPerOne) else none
  | _ => none

/-- Every bit pattern past the infinities is the one `nan`. -/
def ofBits (bits : UInt64) : Binary64 :=
  let negative := decide (Nat.pow 2 63 ≤ bits.toNat)
  let n := bits.toNat % Nat.pow 2 63
  if n ≤ magnitudeCount then ofMagnitude negative n else .nan

def toBits : Binary64 → UInt64
  | .nan => 0x7ff8000000000000
  | .infinity negative => signBit negative + UInt64.ofNat magnitudeCount
  | .finite negative m => signBit negative + UInt64.ofNat m
where
  signBit (negative : Bool) : UInt64 := if negative then 0x8000000000000000 else 0

end Binary64

end FormulaEditor
