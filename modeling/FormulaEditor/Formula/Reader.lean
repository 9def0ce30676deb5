import FormulaEditor.Formula.Decode
/-! Reading a formula or a number literal from a text. The outermost value is read as it goes along,
so that a fault of its tag is found before any fault of the text behind it; all below it is read
into values first. A value is taken for a literal by itself as it is among the fields of a
formula. -/
namespace FormulaEditor
namespace Formula

open Json

/-- The tag of the outermost value, which must be a text. -/
def rootTag : Reader Tag := fun cs => do
  match ← glance cs with
  | (.string s, cs) => .ok (.ofSpelling s, cs)
  | (shape, _) => .error (.mismatch (.invalidType shape "variant identifier"))

def rootMembers : Nat → Bool → Option Tag → Reader (Option Tag × List (String × Value))
  | 0, _, _, _ => .error (.malformed .endInObject)
  | fuel + 1, first, t, cs => do
    match ← nextKey first cs with
    | .closed cs => .ok ((t, []), cs)
    | .item cs =>
      let (key, cs) ← string cs
      if key = "type" then
        if t.isSome then .error (.mismatch (.duplicateField "type"))
        else
          let (t, cs) ← rootTag (← colon cs)
          rootMembers fuel false (some t) cs
      else
        let (v, cs) ← value (depthLimit - 1) (← colon cs)
        let ((t, entries), cs) ← rootMembers fuel false t cs
        .ok ((t, (key, v) :: entries), cs)

def ofBody (t : Tag) (body : Body) : Except Error Formula := (ofTagged t body).mapError .mismatch

def root : Reader Formula := fun cs =>
  match skipBlanks cs with
  | '{' :: cs => do
    let ((t, entries), cs) ← rootMembers cs.length true none cs
    match t with
    | some t => .ok (← ofBody t (.members (Reading.ofEntries entries)), cs)
    | none => .error (.mismatch (.missingField "type"))
  | '[' :: cs => do
    match ← nextElement true cs with
    | .closed _ => .error (.mismatch (.missingField "type"))
    | .item cs =>
      let (t, cs) ← rootTag cs
      let (items, cs) ← elements nextElement (value (depthLimit - 1)) cs.length false cs
      .ok (← ofBody t (.items (Reading.ofValues items)), cs)
  | cs => do
    let (v, _) ← scalar cs
    .error (.mismatch (notAFormula v.shape))

def ofJson (text : String) : Except Error Formula := do
  let (t, cs) ← root text.toList
  endOfText cs
  .ok t

end Formula

namespace Number

open Json Formula

def ofJson (text : String) : Except Error Number := do
  let (shape, cs) ← glance text.toList
  let a ← (Field.value.read (Reading.ofValue.scalar shape)).mapError .mismatch
  endOfText cs
  .ok a

end Number

end FormulaEditor
