import FormulaEditor.Json.Skip
import FormulaEditor.Settings.Basic
/-! Reading settings. The text is read as it goes along, so the first fault in it is the one that is
told, whether it is one of the text or one of a value. -/
namespace FormulaEditor
namespace Settings

open Json

def collapseName : Reader Collapse := fun cs => do
  match ← glance cs with
  | (.string s, cs) =>
    match Collapse.ofName? s with
    | some c => .ok (c, cs)
    | none => .error (.mismatch (.unknownName s (Collapse.all.map Collapse.name)))
  | (shape, _) => .error (.mismatch (.invalidType shape "variant identifier"))

/-- The name by itself, or as the key of an object that holds `null` under it and nothing else. -/
def collapseValue : Reader Collapse := fun cs =>
  match skipBlanks cs with
  | [] => .error (.malformed .endInValue)
  | '"' :: cs => collapseName ('"' :: cs)
  | '{' :: cs => do
    let (c, cs) ← collapseName cs
    match ← glance (← colon cs) with
    | (.null, cs) =>
      match skipBlanks cs with
      | [] => .error (.malformed .endInObject)
      | '}' :: cs => .ok (c, cs)
      | _ => .error (.malformed .expectedValue)
    | (shape, _) => .error (.mismatch (.invalidType shape "unit"))
  | _ => .error (.malformed .expectedValue)

/-- What is left of an object; `found` is the setting if it was met before. -/
def entries : Nat → Bool → Option Collapse → Reader (Option Collapse)
  | 0, _, _, _ => .error (.malformed .endInObject)
  | fuel + 1, first, found, cs => do
    match ← nextKey first cs with
    | .closed cs => .ok (found, cs)
    | .item cs =>
      let (key, cs) ← string cs
      if key = collapseKey then
        if found.isSome then .error (.mismatch (.duplicateField collapseKey))
        else
          let (c, cs) ← collapseValue (← colon cs)
          entries fuel false (some c) cs
      else entries fuel false found (← skip (← colon cs))

def closeList (cs : List Char) : Except Error (List Char) :=
  match skipBlanks cs with
  | [] => .error (.malformed .endInList)
  | ']' :: cs => .ok cs
  | ',' :: cs =>
    match skipBlanks cs with
    | ']' :: _ => .error (.malformed .trailingComma)
    | _ => .error (.malformed .trailingCharacters)
  | _ => .error (.malformed .trailingCharacters)

/-- An object or a list of settings, of which any may be left out. -/
def reader : Reader Settings := fun cs =>
  match skipBlanks cs with
  | '{' :: cs => do
    let (found, cs) ← entries cs.length true none cs
    .ok ((found.map Settings.mk).getD {}, cs)
  | '[' :: cs => do
    match ← nextElement true cs with
    | .closed cs => .ok ({}, cs)
    | .item cs =>
      let (c, cs) ← collapseValue cs
      .ok ({ collapse := c }, ← closeList cs)
  | cs => do
    let (shape, _) ← glance cs
    .error (.mismatch (.invalidType shape "struct VisualizerSettings"))

def ofJson (text : String) : Except Error Settings := do
  let (s, cs) ← reader text.toList
  endOfText cs
  .ok s

end Settings

end FormulaEditor
