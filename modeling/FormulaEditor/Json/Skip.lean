import FormulaEditor.Json.Reader
/-! Passing over a value that does not matter. Only as much is checked as is needed to find its end:
numbers may have any size, surrogates any order, and values stand in one another as deep as they
like. -/
namespace FormulaEditor
namespace Json

/-- Without a rule of its own for a comma before the bracket. -/
def skippedElement (first : Bool) (cs : List Char) : Except Error Next :=
  match skipBlanks cs with
  | [] => .error (.malformed .endInList)
  | ']' :: cs => .ok (.closed cs)
  | c :: cs =>
    if first then .ok (.item (c :: cs))
    else if c = ',' then .ok (.item cs)
    else .error (.malformed .expectedCommaOrBracket)

def openSkippedKey (cs : List Char) : Except Error Next :=
  match skipBlanks cs with
  | [] => .error (.malformed .endInObject)
  | cs => openKey cs

def skippedKey (first : Bool) (cs : List Char) : Except Error Next :=
  match skipBlanks cs with
  | [] => .error (.malformed .endInObject)
  | '}' :: cs => .ok (.closed cs)
  | c :: cs =>
    if first then openSkippedKey (c :: cs)
    else if c = ',' then openSkippedKey cs
    else .error (.malformed .expectedCommaOrBrace)

def skippedString : Reader Unit
  | [] => .error (.malformed .endInString)
  | '"' :: cs => .ok ((), cs)
  | ['\\'] => .error (.malformed .endInString)
  | '\\' :: 'u' :: cs =>
    match cs with
    | a :: b :: c :: d :: cs =>
      if (hexValue? a b c d).isSome then skippedString cs else .error (.malformed .invalidEscape)
    | cs => .error (shortEscape cs)
  | '\\' :: e :: cs =>
    if (escaped? e).isSome then skippedString cs else .error (.malformed .invalidEscape)
  | c :: cs => if c.toNat < 32 then .error (.malformed .controlCharacter) else skippedString cs

def skippedScalar : Reader Unit
  | '"' :: cs => skippedString cs
  | [] => .error (.malformed .endInValue)
  | 'n' :: cs => do .ok ((), ← word ['u', 'l', 'l'] cs)
  | 't' :: cs => do .ok ((), ← word ['r', 'u', 'e'] cs)
  | 'f' :: cs => do .ok ((), ← word ['a', 'l', 's', 'e'] cs)
  | c :: cs => do
    if c = '-' ∨ c.isDigit then
      let (_, cs) ← spelling .invalidNumber (c :: cs)
      .ok ((), cs)
    else .error (.malformed .expectedValue)

/-- A value of at most `depth` lists and objects inside one another. Each takes a bracket, so the
length of the text is depth enough, and with none left the text has ended. -/
def skippedValue : Nat → Reader Unit
  | 0, _ => .error (.malformed .endInValue)
  | depth + 1, cs =>
    match skipBlanks cs with
    | '[' :: cs => do
      let (_, cs) ← elements skippedElement (skippedValue depth) cs.length true cs
      .ok ((), cs)
    | '{' :: cs => do
      let (_, cs) ← members skippedKey skippedString (skippedValue depth) cs.length true cs
      .ok ((), cs)
    | cs => skippedScalar cs

def skip (cs : List Char) : Except Error (List Char) := do
  let (_, cs) ← skippedValue cs.length cs
  .ok cs

end Json

end FormulaEditor
