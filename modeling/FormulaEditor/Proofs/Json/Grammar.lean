import FormulaEditor.Json.Token
import FormulaEditor.Proofs.Binary64.Midpoint
import FormulaEditor.Proofs.Decimal.Order
import FormulaEditor.Proofs.Decimal.Spelling
/-! The texts of JSON values. A text is given by what stands in it, with no account of how it is
read: blanks between the parts, escapes between quotes, numbers by their values, and lists and
objects up to some depth. -/
namespace FormulaEditor
namespace Json

open Binary64 Decimal

def Blanks (cs : List Char) : Prop := ∀ c ∈ cs, c = ' ' ∨ c = '\t' ∨ c = '\n' ∨ c = '\r'

def letterEscapes : List (Char × Char) :=
  [('"', '"'), ('\\', '\\'), ('/', '/'), ('b', '\x08'), ('f', '\x0c'), ('n', '\n'), ('r', '\r'),
    ('t', '\t')]

def HexDigit (c : Char) (n : ℕ) : Prop :=
  n < 16 ∧ (c = Nat.digitChar n ∨ c = (Nat.digitChar n).toUpper)

inductive HexText : List Char → ℕ → Prop
  | mk {a b c d : Char} {w x y z : ℕ} (ha : HexDigit a w) (hb : HexDigit b x) (hc : HexDigit c y)
    (hd : HexDigit d z) : HexText [a, b, c, d] (w * 16 ^ 3 + x * 16 ^ 2 + y * 16 + z)

/-- What stands between quotes, and the characters it stands for. The number of a character may be
given, or that of two surrogates for a character beyond the first plane. -/
inductive StringText : List Char → List Char → Prop
  | nil : StringText [] []
  | plain {c : Char} {cs s : List Char} (hquote : c ≠ '"') (hslash : c ≠ '\\')
    (hcontrol : 32 ≤ c.toNat) (h : StringText cs s) : StringText (c :: cs) (c :: s)
  | letter {e c : Char} {cs s : List Char} (he : (e, c) ∈ letterEscapes) (h : StringText cs s) :
    StringText ('\\' :: e :: cs) (c :: s)
  | unit {c : Char} {hex cs s : List Char} (hhex : HexText hex c.toNat) (h : StringText cs s) :
    StringText ('\\' :: 'u' :: (hex ++ cs)) (c :: s)
  | pair {c : Char} {x y : ℕ} {high low cs s : List Char} (hx : x < 0x400) (hy : y < 0x400)
    (hc : c.toNat = 0x10000 + x * 0x400 + y) (hhigh : HexText high (0xD800 + x))
    (hlow : HexText low (0xDC00 + y)) (h : StringText cs s) :
    StringText ('\\' :: 'u' :: (high ++ '\\' :: 'u' :: (low ++ cs))) (c :: s)

inductive QuotedText : String → List Char → Prop
  | mk {cs s : List Char} (h : StringText cs s) : QuotedText (.ofList s) ('"' :: (cs ++ ['"']))

inductive FractionText : List Char → List Char → Prop
  | none : FractionText [] []
  | some {ds : List Char} (hne : ds ≠ []) (hd : AreDigits ds) : FractionText ('.' :: ds) ds

/-- How a number stands in a text: with a minus sign at most, and with no zeros in front. -/
inductive NumberText : Spelling → List Char → Prop
  | mk {s : Spelling} {fraction exponent : List Char} (hne : s.whole ≠ [])
    (hd : AreDigits s.whole) (hzero : ∀ c cs, s.whole ≠ '0' :: c :: cs)
    (hfraction : FractionText fraction s.fraction) (hexponent : ExponentText exponent s.exponent) :
    NumberText s (signed s.negative (s.whole ++ (fraction ++ exponent)))

namespace Spelling

def value (s : Spelling) : ℚ := spelledValue s.negative s.whole s.fraction s.exponent

/-- However many of the zeros at the end of the fraction are left out, the digits make up a number
of more than 768 digits. -/
def IsLong (s : Spelling) : Prop :=
  ∀ c k, k ≤ s.fraction.length → Nat.ofDigitChars 10 (s.whole ++ s.fraction) 0 = c * 10 ^ k →
    10 ^ 768 ≤ c

/-- Halfway between two doubles, of which the one nearer to zero is even, with digits behind the
limit. -/
def IsLongTie (s : Spelling) : Prop := s.IsLong ∧ ∃ n, n % 2 = 0 ∧ |s.value| = midpoint n

/-- Spelled without a fraction and an exponent, an integer of 64 bits, which has a minus sign only
below zero. -/
structure IsInteger (s : Spelling) (i : ℤ) : Prop where
  fraction : s.fraction = []
  exponent : s.exponent = none
  value : s.value = i
  lower : -2 ^ 63 ≤ i
  upper : i < 2 ^ 64
  sign : s.negative = true → i < 0

/-- The number lies in the range of doubles, and none is nearer to it. Of two that are as near as
each other it goes to the even one, but to the odd one if it is too long. -/
structure IsRoundedTo (s : Spelling) (m : Fin magnitudeCount) : Prop where
  inRange : |s.value| < roundingLimit
  nearest : ∀ k : Fin magnitudeCount, |(|s.value| - magnitude m)| ≤ |(|s.value| - magnitude k)|
  tie : ∀ k : Fin magnitudeCount, k ≠ m →
    |(|s.value| - magnitude k)| = |(|s.value| - magnitude m)| → ((m : ℕ) % 2 = 1 ↔ s.IsLongTie)

/-- The numeral for a number: itself if it is spelled like an integer and has at most 64 bits, and
otherwise the double it is rounded to. -/
inductive StandsFor (s : Spelling) : Numeral → Prop
  | integer {i : ℤ} (h : s.IsInteger i) : StandsFor s (.integer i)
  | float {m : Fin magnitudeCount} (hi : ∀ i, ¬ s.IsInteger i) (h : s.IsRoundedTo m) :
    StandsFor s (.float s.negative m)

end Spelling

/-- The texts of the values that hold no others. A number must be in the range of doubles. -/
inductive ScalarText : Value → List Char → Prop
  | null : ScalarText .null ['n', 'u', 'l', 'l']
  | true : ScalarText (.bool true) ['t', 'r', 'u', 'e']
  | false : ScalarText (.bool false) ['f', 'a', 'l', 's', 'e']
  | number {s : Spelling} {n : Numeral} {cs : List Char} (h : NumberText s cs)
    (hn : s.StandsFor n) : ScalarText (.number n) cs
  | string {s : String} {cs : List Char} (h : QuotedText s cs) : ScalarText (.string s) cs

/-- What stands in front of an item: blanks, with a comma among them unless it is the first. -/
inductive Separator : Bool → List Char → Prop
  | first {blanks : List Char} (h : Blanks blanks) : Separator true blanks
  | later {before after : List Char} (hbefore : Blanks before) (hafter : Blanks after) :
    Separator false (before ++ ',' :: after)

section Items

variable {α : Type} (text : α → List Char → Prop)

/-- Items and the bracket that closes them, where `text` tells the texts of an item. The first one
needs no comma if nothing stands in front of it. -/
inductive Items (closing : Char) : Bool → List α → List Char → Prop
  | closed {first : Bool} {blanks : List Char} (h : Blanks blanks) :
    Items closing first [] (blanks ++ [closing])
  | item {first : Bool} {x : α} {xs : List α} {separator cs rest : List Char}
    (hseparator : Separator first separator) (hx : text x cs) (h : Items closing false xs rest) :
    Items closing first (x :: xs) (separator ++ (cs ++ rest))

inductive MemberText : String × α → List Char → Prop
  | mk {key : String} {x : α} {ks before after cs : List Char} (hkey : QuotedText key ks)
    (hbefore : Blanks before) (hafter : Blanks after) (hx : text x cs) :
    MemberText (key, x) (ks ++ (before ++ ':' :: (after ++ cs)))

end Items

inductive ContainerText (text : Value → List Char → Prop) : Value → List Char → Prop
  | array {items : List Value} {cs : List Char} (h : Items text ']' true items cs) :
    ContainerText text (.array items) ('[' :: cs)
  | object {members : List (String × Value)} {cs : List Char}
    (h : Items (MemberText text) '}' true members cs) :
    ContainerText text (.object members) ('{' :: cs)

/-- The texts of a value in which at most so many lists and objects stand inside one another. -/
def ValueText : Nat → Value → List Char → Prop
  | 0 => ScalarText
  | depth + 1 => fun v cs => ScalarText v cs ∨ ContainerText (ValueText depth) v cs

inductive WholeText (depth : Nat) : Value → List Char → Prop
  | mk {v : Value} {before cs after : List Char} (hbefore : Blanks before)
    (h : ValueText depth v cs) (hafter : Blanks after) : WholeText depth v (before ++ (cs ++ after))

end Json

end FormulaEditor
