import FormulaEditor.Number.Basic
/-! Number literals that are spelled out in a text. Digits may be missing before or after the point
but not both, and infinities and the value that is no number have words. -/
namespace FormulaEditor
namespace Number

def exponentText? : List Char → Option Int
  | [] => some 0
  | c :: cs =>
    if c = 'e' ∨ c = 'E' then
      let (negative, digits) := Decimal.sign cs
      if digits.isEmpty ∨ ¬ digits.all Char.isDigit then none
      else some (if negative then -Decimal.digitsValue digits else Decimal.digitsValue digits)
    else none

def fractionText : List Char → List Char × List Char
  | '.' :: cs => cs.span Char.isDigit
  | cs => ([], cs)

def decimalText? (cs : List Char) : Option Decimal := do
  let (whole, cs) := cs.span Char.isDigit
  let (fraction, cs) := fractionText cs
  if whole.isEmpty ∧ fraction.isEmpty then none
  else some (.ofSpelling whole fraction (← exponentText? cs))

def wordText? (negative : Bool) (cs : List Char) : Option Binary64 :=
  let word := String.ofList (cs.map Char.toLower)
  if word = "inf" ∨ word = "infinity" then some (.infinity negative)
  else if word = "nan" then some .nan
  else none

def ofText? (s : String) : Option Number :=
  let (negative, cs) := Decimal.sign s.toList
  match decimalText? cs with
  | some d => some (ofBinary64 (.ofDecimal negative d))
  | none => (wordText? negative cs).map ofBinary64

end Number

end FormulaEditor
