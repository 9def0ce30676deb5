import FormulaEditor.Decimal
import FormulaEditor.Json.Error
/-! The parts of a JSON text: blanks, words, numbers and strings. Each is read from the characters
that are left, and what is left of them is given back. In a string a character beyond the first
plane may be escaped by a pair of surrogates, and surrogates stand for nothing else. -/
namespace FormulaEditor

theorem bind_eq_ok_iff {ε α β : Type} {x : Except ε α} {f : α → Except ε β} {b : β} :
    x >>= f = .ok b ↔ ∃ a, x = .ok a ∧ f a = .ok b := by
  cases x with
  | error e => simp [bind, Except.bind]
  | ok a => simp [bind, Except.bind]

namespace Json

abbrev Reader (α : Type) := List Char → Except Error (α × List Char)

def isBlank (c : Char) : Bool := c == ' ' || c == '\t' || c == '\n' || c == '\r'

def skipBlanks (cs : List Char) : List Char := cs.dropWhile isBlank

def endOfText (cs : List Char) : Except Error Unit :=
  if (skipBlanks cs).isEmpty then .ok () else .error (.malformed .trailingCharacters)

def word : List Char → List Char → Except Error (List Char)
  | [], cs => .ok cs
  | _ :: _, [] => .error (.malformed .endInValue)
  | w :: ws, c :: cs => if w = c then word ws cs else .error (.malformed .expectedWord)

structure Spelling where
  negative : Bool
  whole : List Char
  fraction : List Char
  exponent : Option Int

/-- Digits, of which there is at least one. `early` is the fault if the text ends instead. -/
def someDigits (early : SyntaxError) (cs : List Char) : Except Error (List Char × List Char) :=
  match cs.span Char.isDigit with
  | ([], []) => .error (.malformed early)
  | ([], _ :: _) => .error (.malformed .invalidNumber)
  | found => .ok found

def wholeDigits (early : SyntaxError) (cs : List Char) : Except Error (List Char × List Char) := do
  let (digits, rest) ← someDigits early cs
  match digits with
  | '0' :: _ :: _ => .error (.malformed .invalidNumber)
  | _ => .ok (digits, rest)

def fractionDigits (early : SyntaxError) : List Char → Except Error (List Char × List Char)
  | '.' :: cs => someDigits early cs
  | cs => .ok ([], cs)

def exponentPart (early : SyntaxError) (cs : List Char) : Except Error (Option Int × List Char) :=
  match cs with
  | [] => .ok (none, [])
  | c :: cs =>
    if c = 'e' ∨ c = 'E' then do
      let (negative, cs) := Decimal.sign cs
      let (digits, cs) ← someDigits early cs
      let n := Decimal.digitsValue digits
      .ok (some (if negative then -n else n), cs)
    else .ok (none, c :: cs)

def minus : List Char → Bool × List Char
  | '-' :: cs => (true, cs)
  | cs => (false, cs)

def spelling (early : SyntaxError) : Reader Spelling := fun cs => do
  let (negative, cs) := minus cs
  let (whole, cs) ← wholeDigits early cs
  let (fraction, cs) ← fractionDigits early cs
  let (exponent, cs) ← exponentPart early cs
  .ok ({ negative, whole, fraction, exponent }, cs)

def Numeral.ofDecimal? (negative : Bool) (d : Decimal) : Option Numeral :=
  match Binary64.ofDecimal negative d with
  | .finite negative m => some (.float negative m)
  | _ => none

def Numeral.ofInteger? (negative : Bool) (n : Nat) : Option Numeral :=
  if negative then
    if 0 < n ∧ n ≤ Nat.pow 2 63 then some (.integer (-n)) else Numeral.ofDecimal? true ⟨n, 0⟩
  else if n < Nat.pow 2 64 then some (.integer n) else Numeral.ofDecimal? false ⟨n, 0⟩

/-- How many digits of a number are looked at one by one. A number halfway between two doubles never
has more. -/
def digitLimit : Nat := 768

def Spelling.significantFraction (s : Spelling) : List Char :=
  (s.fraction.reverse.dropWhile (· == '0')).reverse

/-- The digits that count: no zeros in front and none at the end of the fraction. -/
def Spelling.digits (s : Spelling) : List Char :=
  (s.whole ++ s.significantFraction).dropWhile (· == '0')

/-- The decimal that is read for a spelling. Whatever digits stand behind the limit, zeros or not,
are read as a single one, so that with them a number halfway between two doubles lies above it. -/
def Spelling.decimal (s : Spelling) : Decimal :=
  let exponent := s.exponent.getD 0 - s.significantFraction.length
  let surplus := s.digits.length - digitLimit
  if surplus = 0 then ⟨Decimal.digitsValue s.digits, exponent⟩
  else ⟨Decimal.digitsValue (s.digits.take digitLimit ++ ['1']), exponent + surplus - 1⟩

def Spelling.numeral? (s : Spelling) : Option Numeral :=
  match s.fraction, s.exponent with
  | [], none => Numeral.ofInteger? s.negative (Decimal.digitsValue s.whole)
  | _, _ => Numeral.ofDecimal? s.negative s.decimal

def number : Reader Numeral := fun cs => do
  let (s, cs) ← spelling .endInValue cs
  match s.numeral? with
  | some n => .ok (n, cs)
  | none => .error (.malformed .numberOutOfRange)

def hexDigit? (c : Char) : Option Nat :=
  if '0' ≤ c ∧ c ≤ '9' then some (c.toNat - '0'.toNat)
  else if 'a' ≤ c ∧ c ≤ 'f' then some (c.toNat - 'a'.toNat + 10)
  else if 'A' ≤ c ∧ c ≤ 'F' then some (c.toNat - 'A'.toNat + 10)
  else none

def hexValue? (a b c d : Char) : Option Nat := do
  .some (((← hexDigit? a) * 16 + (← hexDigit? b)) * 256 + ((← hexDigit? c) * 16 + (← hexDigit? d)))

/-- The fault of an escape by number that has fewer than four characters left: it ends in the string
only if it has fewer than four bytes left. -/
def shortEscape (cs : List Char) : Error :=
  .malformed (if (String.ofList cs).utf8ByteSize < 4 then .endInString else .invalidEscape)

def escaped? : Char → Option Char
  | '"' => some '"'
  | '\\' => some '\\'
  | '/' => some '/'
  | 'b' => some '\x08'
  | 'f' => some '\x0c'
  | 'n' => some '\n'
  | 'r' => some '\r'
  | 't' => some '\t'
  | _ => none

def isHighSurrogate (n : Nat) : Bool := 0xD800 ≤ n && n < 0xDC00

def isLowSurrogate (n : Nat) : Bool := 0xDC00 ≤ n && n < 0xE000

def paired (high low : Nat) : Char :=
  Char.ofNat (0x10000 + (high - 0xD800) * 0x400 + (low - 0xDC00))

def stringTail : Reader (List Char)
  | [] => .error (.malformed .endInString)
  | '"' :: cs => .ok ([], cs)
  | '\\' :: 'u' :: cs =>
    match cs with
    | a :: b :: c :: d :: cs =>
      match hexValue? a b c d with
      | none => .error (.malformed .invalidEscape)
      | some n =>
        if isLowSurrogate n then .error (.malformed .loneSurrogate)
        else if isHighSurrogate n then
          match cs with
          | [] | ['\\'] => .error (.malformed .endInString)
          | '\\' :: 'u' :: cs =>
            match cs with
            | a :: b :: c :: d :: cs =>
              match hexValue? a b c d with
              | none => .error (.malformed .invalidEscape)
              | some m =>
                if isLowSurrogate m then do
                  let (text, rest) ← stringTail cs
                  .ok (paired n m :: text, rest)
                else .error (.malformed .loneSurrogate)
            | cs => .error (shortEscape cs)
          | _ => .error (.malformed .endOfHexEscape)
        else do
          let (text, rest) ← stringTail cs
          .ok (Char.ofNat n :: text, rest)
    | cs => .error (shortEscape cs)
  | ['\\'] => .error (.malformed .endInString)
  | '\\' :: e :: cs =>
    match escaped? e with
    | some c => do
      let (text, rest) ← stringTail cs
      .ok (c :: text, rest)
    | none => .error (.malformed .invalidEscape)
  | c :: cs =>
    if c.toNat < 32 then .error (.malformed .controlCharacter)
    else do
      let (text, rest) ← stringTail cs
      .ok (c :: text, rest)

def string : Reader String := fun cs => do
  let (text, rest) ← stringTail cs
  .ok (String.ofList text, rest)

end Json

end FormulaEditor
