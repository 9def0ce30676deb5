import FormulaEditor.Json.Token
/-! Reading JSON values. Lists and objects are read by loops over their items that take the reader
of an item; what an item is read into is up to that reader. -/
namespace FormulaEditor
namespace Json

inductive Next
  | item (rest : List Char)
  | closed (rest : List Char)

/-- In a list the first item follows the bracket and every other one a comma. -/
def nextElement (first : Bool) (cs : List Char) : Except Error Next :=
  match skipBlanks cs with
  | [] => .error (.malformed .endInList)
  | ']' :: cs => .ok (.closed cs)
  | c :: cs =>
    if first then .ok (.item (c :: cs))
    else if c = ',' then
      match skipBlanks cs with
      | [] => .error (.malformed .endInValue)
      | ']' :: _ => .error (.malformed .trailingComma)
      | cs => .ok (.item cs)
    else .error (.malformed .expectedCommaOrBracket)

def openKey : List Char → Except Error Next
  | '"' :: cs => .ok (.item cs)
  | _ => .error (.malformed .keyNotString)

def nextKey (first : Bool) (cs : List Char) : Except Error Next :=
  match skipBlanks cs with
  | [] => .error (.malformed .endInObject)
  | '}' :: cs => .ok (.closed cs)
  | c :: cs =>
    if first then openKey (c :: cs)
    else if c = ',' then
      match skipBlanks cs with
      | [] => .error (.malformed .endInValue)
      | '}' :: _ => .error (.malformed .trailingComma)
      | cs => openKey cs
    else .error (.malformed .expectedCommaOrBrace)

def colon (cs : List Char) : Except Error (List Char) :=
  match skipBlanks cs with
  | [] => .error (.malformed .endInObject)
  | ':' :: cs => .ok cs
  | _ => .error (.malformed .expectedColon)

/-- The items of a list, where `next` tells what comes next. Each takes at least one character, so
the length of the text is fuel enough, and with none left the text has ended. -/
def elements {α : Type} (next : Bool → List Char → Except Error Next) (item : Reader α) :
    Nat → Bool → Reader (List α)
  | 0, _, _ => .error (.malformed .endInList)
  | fuel + 1, first, cs => do
    match ← next first cs with
    | .closed cs => .ok ([], cs)
    | .item cs =>
      let (x, cs) ← item cs
      let (xs, cs) ← elements next item fuel false cs
      .ok (x :: xs, cs)

def members {κ α : Type} (next : Bool → List Char → Except Error Next) (key : Reader κ)
    (item : Reader α) : Nat → Bool → Reader (List (κ × α))
  | 0, _, _ => .error (.malformed .endInObject)
  | fuel + 1, first, cs => do
    match ← next first cs with
    | .closed cs => .ok ([], cs)
    | .item cs =>
      let (k, cs) ← key cs
      let (x, cs) ← item (← colon cs)
      let (xs, cs) ← members next key item fuel false cs
      .ok ((k, x) :: xs, cs)

def scalar : Reader Value
  | [] => .error (.malformed .endInValue)
  | 'n' :: cs => do .ok (.null, ← word ['u', 'l', 'l'] cs)
  | 't' :: cs => do .ok (.bool true, ← word ['r', 'u', 'e'] cs)
  | 'f' :: cs => do .ok (.bool false, ← word ['a', 'l', 's', 'e'] cs)
  | '"' :: cs => do
    let (s, cs) ← string cs
    .ok (.string s, cs)
  | c :: cs => do
    if c = '-' ∨ c.isDigit then
      let (n, cs) ← number (c :: cs)
      .ok (.number n, cs)
    else .error (.malformed .expectedValue)

/-- A value after blanks, with at most `depth` lists and objects inside one another. -/
def value : Nat → Reader Value
  | 0, cs =>
    match skipBlanks cs with
    | '[' :: _ | '{' :: _ => .error (.malformed .recursionLimit)
    | cs => scalar cs
  | depth + 1, cs =>
    match skipBlanks cs with
    | '[' :: cs => do
      let (items, cs) ← elements nextElement (value depth) cs.length true cs
      .ok (.array items, cs)
    | '{' :: cs => do
      let (entries, cs) ← members nextKey string (value depth) cs.length true cs
      .ok (.object entries, cs)
    | cs => scalar cs

/-- What the value is that stands next. Of a list or an object only the bracket is looked at. -/
def glance : Reader Shape := fun cs =>
  match skipBlanks cs with
  | '[' :: cs => .ok (.sequence, cs)
  | '{' :: cs => .ok (.map, cs)
  | cs => do
    let (v, cs) ← scalar cs
    .ok (v.shape, cs)

def depthLimit : Nat := 127

end Json

end FormulaEditor
