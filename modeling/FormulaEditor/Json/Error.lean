import FormulaEditor.Json.Value
import FormulaEditor.Text
/-! Why a text is not accepted: it is no JSON, or it is JSON of another shape than what is read. -/
namespace FormulaEditor
namespace Json

/-- Faults of a text as JSON. The first four say in what the text ends too early. -/
inductive SyntaxError
  | endInValue
  | endInList
  | endInObject
  | endInString
  | expectedValue
  | expectedWord
  | expectedColon
  | expectedCommaOrBracket
  | expectedCommaOrBrace
  | trailingComma
  | keyNotString
  | trailingCharacters
  | invalidNumber
  | numberOutOfRange
  | controlCharacter
  | invalidEscape
  | loneSurrogate
  | endOfHexEscape
  | recursionLimit
  deriving DecidableEq

namespace SyntaxError

def message : SyntaxError → String
  | endInValue => "EOF while parsing a value"
  | endInList => "EOF while parsing a list"
  | endInObject => "EOF while parsing an object"
  | endInString => "EOF while parsing a string"
  | expectedValue => "expected value"
  | expectedWord => "expected ident"
  | expectedColon => "expected `:`"
  | expectedCommaOrBracket => "expected `,` or `]`"
  | expectedCommaOrBrace => "expected `,` or `\x7d`"
  | trailingComma => "trailing comma"
  | keyNotString => "key must be a string"
  | trailingCharacters => "trailing characters"
  | invalidNumber => "invalid number"
  | numberOutOfRange => "number out of range"
  | controlCharacter => "control character (\\u0000-\\u001F) found while parsing a string"
  | invalidEscape => "invalid escape"
  | loneSurrogate => "lone leading surrogate in hex escape"
  | endOfHexEscape => "unexpected end of hex escape"
  | recursionLimit => "recursion limit exceeded"

def atEnd : SyntaxError → Bool
  | endInValue | endInList | endInObject | endInString => true
  | _ => false

end SyntaxError

inductive Shape
  | null
  | bool (value : Bool)
  | number (value : Numeral)
  | string (value : String)
  | sequence
  | map
  deriving DecidableEq

def Value.shape : Value → Shape
  | .null => .null
  | .bool b => .bool b
  | .number n => .number n
  | .string s => .string s
  | .array _ => .sequence
  | .object _ => .map

def Shape.description : Shape → String
  | null => "null"
  | bool b => "boolean `" ++ (if b then "true" else "false") ++ "`"
  | number (.integer i) => "integer `" ++ (Numeral.integer i).print ++ "`"
  | number (.float negative m) => "floating point `" ++ (Numeral.float negative m).print ++ "`"
  | string s => "string " ++ Text.escaped s
  | sequence => "sequence"
  | map => "map"

inductive DataError
  | invalidType (found : Shape) (expected : String)
  | notANumber (text : String)
  | unknownName (name : String) (names : List String)
  | missingField (name : String)
  | duplicateField (name : String)
  /-- A sequence ends after `count` fields of a node that has `wanted`. -/
  | tooFewFields (count : Nat) (node : String) (wanted : Nat)
  /-- A sequence has `count` fields for a node that has `wanted`. -/
  | tooManyFields (count wanted : Nat)
  deriving DecidableEq

namespace DataError

def counted (n : Nat) : String :=
  Text.natural n ++ (if n = 1 then " element" else " elements")

def message : DataError → String
  | invalidType found expected => "invalid type: " ++ found.description ++ ", expected " ++ expected
  | notANumber text =>
    "invalid value: " ++ (Shape.string text).description ++ ", expected a number literal"
  | unknownName name names =>
    "unknown variant `" ++ name ++ "`, expected "
      ++ " or ".intercalate (names.map fun v => "`" ++ v ++ "`")
  | missingField name => "missing field `" ++ name ++ "`"
  | duplicateField name => "duplicate field `" ++ name ++ "`"
  | tooFewFields count node wanted =>
    "invalid length " ++ Text.natural count ++ ", expected struct variant NodeRepr::"
      ++ node ++ " with " ++ counted wanted
  | tooManyFields count wanted =>
    "invalid length " ++ Text.natural count ++ ", expected " ++ counted wanted
      ++ " in sequence"

end DataError

inductive Error
  | malformed (error : SyntaxError)
  | mismatch (error : DataError)
  deriving DecidableEq

/-- How an error is to be reported: as a fault of the text, an early end of it, or a wrong shape. -/
inductive Category
  | text
  | earlyEnd
  | data
  deriving DecidableEq

namespace Error

def message : Error → String
  | malformed e => e.message
  | mismatch e => e.message

def category : Error → Category
  | malformed e => if e.atEnd then .earlyEnd else .text
  | mismatch _ => .data

end Error

end Json

end FormulaEditor
