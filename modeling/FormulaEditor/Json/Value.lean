import FormulaEditor.Binary64.Shortest
/-! JSON values and their compact text. Members of an object are kept in order and may repeat a key,
as they may in a text. -/
namespace FormulaEditor
namespace Json

/-- A number is held as an integer or as a finite double, by how it was spelled. -/
inductive Numeral
  | integer (value : Int)
  | float (negative : Bool) (magnitude : Fin Binary64.magnitudeCount)
  deriving DecidableEq

inductive Value
  | null
  | bool (value : Bool)
  | number (value : Numeral)
  | string (value : String)
  | array (items : List Value)
  | object (members : List (String × Value))

namespace Numeral

/-- Plain from `10 ^ -5` up to `10 ^ 16`, always with a point, as in `0.00001`, `1.0` and `1e16`. -/
def layout : Decimal.Layout where
  plainAbove := -5
  plainUpTo := 16
  wholeMark := ['.', '0']
  exponentMark := []

def digits : Numeral → List Char
  | integer i => Decimal.signed (i < 0) (Nat.toDigits 10 i.natAbs)
  | float negative m => Decimal.signed negative (layout.write (Binary64.shortest .even m))

def print (n : Numeral) : String := String.ofList n.digits

def toBinary64 : Numeral → Binary64
  | integer i => .ofInt i
  | float negative m => .finite negative m

end Numeral

def escape (c : Char) : List Char :=
  match c with
  | '"' => ['\\', '"']
  | '\\' => ['\\', '\\']
  | '\x08' => ['\\', 'b']
  | '\t' => ['\\', 't']
  | '\n' => ['\\', 'n']
  | '\x0c' => ['\\', 'f']
  | '\r' => ['\\', 'r']
  | c =>
    if c.toNat < 32 then
      ['\\', 'u', '0', '0', Nat.digitChar (c.toNat / 16), Nat.digitChar (c.toNat % 16)]
    else [c]

def quote (s : String) : String := String.ofList ('"' :: s.toList.flatMap escape ++ ['"'])

namespace Value

mutual

/-- No blanks between the parts, members in order. -/
def print : Value → String
  | null => "null"
  | bool true => "true"
  | bool false => "false"
  | number n => n.print
  | string s => quote s
  | array items => "[" ++ printItems items ++ "]"
  | object members => "\x7b" ++ printMembers members ++ "\x7d"

def printItems : List Value → String
  | [] => ""
  | [v] => v.print
  | v :: w :: rest => v.print ++ "," ++ printItems (w :: rest)

def printMembers : List (String × Value) → String
  | [] => ""
  | [(key, v)] => quote key ++ ":" ++ v.print
  | (key, v) :: m :: rest => quote key ++ ":" ++ v.print ++ "," ++ printMembers (m :: rest)

end

end Value

end Json

end FormulaEditor
