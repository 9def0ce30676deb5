import FormulaEditor.Formula.Tag
import FormulaEditor.Json.Reader
import FormulaEditor.Number.Spelling
/-! Which JSON values spell formulas. A formula is spelled by an object with a tag and the fields of
that tag in any order, among others that do not matter, or by a list of the tag and its fields. A
value is read bottom-up, into all that it could be where it stands; the first field that cannot be
what it should be decides the error. -/
namespace FormulaEditor
namespace Formula

open Json

structure Reading where
  shape : Shape
  formula : Except DataError Formula
  formulas : Except DataError (List Formula)

inductive Body
  | members (entries : List (String × Reading))
  | items (readings : List Reading)

structure Field (α : Type) where
  key : String
  read : Reading → Except DataError α

namespace Field

def child (key : String) : Field Formula := ⟨key, Reading.formula⟩

def arguments : Field (List Formula) := ⟨"arguments", Reading.formulas⟩

def name : Field String where
  key := "name"
  read r :=
    match r.shape with
    | .string s => .ok s
    | shape => .error (.invalidType shape "a string")

def value : Field Number where
  key := "value"
  read r :=
    match r.shape with
    | .number n => .ok (.ofBinary64 n.toBinary64)
    | .string s =>
      match Number.ofText? s with
      | some a => .ok a
      | none => .error (.notANumber s)
    | shape => .error (.invalidType shape "a number literal")

end Field

/-- Looks for one field among members; `a` is what was found of it so far. -/
def oneAmong {α : Type} (f : Field α) (a : Option α) : List (String × Reading) → Except DataError α
  | [] =>
    match a with
    | some a => .ok a
    | none => .error (.missingField f.key)
  | (key, r) :: rest =>
    if key = f.key then
      match a with
      | some _ => .error (.duplicateField f.key)
      | none => do oneAmong f (some (← f.read r)) rest
    else oneAmong f a rest

/-- Looks for two fields among members, in whatever order they come. -/
def twoAmong {α β : Type} (f : Field α) (g : Field β) (a : Option α) (b : Option β) :
    List (String × Reading) → Except DataError (α × β)
  | [] =>
    match a, b with
    | some a, some b => .ok (a, b)
    | none, _ => .error (.missingField f.key)
    | _, none => .error (.missingField g.key)
  | (key, r) :: rest =>
    if key = f.key then
      match a with
      | some _ => .error (.duplicateField f.key)
      | none => do twoAmong f g (some (← f.read r)) b rest
    else if key = g.key then
      match b with
      | some _ => .error (.duplicateField g.key)
      | none => do twoAmong f g a (some (← g.read r)) rest
    else twoAmong f g a b rest

namespace Body

/-- Members do not matter here; items would be too many. -/
def noFields {α : Type} (x : α) : Body → Except DataError α
  | .members _ => .ok x
  | .items [] => .ok x
  | .items readings => .error (.tooManyFields readings.length 0)

def oneField {α : Type} (t : Tag) (f : Field α) : Body → Except DataError α
  | .members entries => oneAmong f none entries
  | .items [] => .error (.tooFewFields 0 t.name 1)
  | .items (r :: rest) => do
    let a ← f.read r
    if rest.isEmpty then .ok a else .error (.tooManyFields (rest.length + 1) 1)

def twoFields {α β : Type} (t : Tag) (f : Field α) (g : Field β) : Body → Except DataError (α × β)
  | .members entries => twoAmong f g none none entries
  | .items [] => .error (.tooFewFields 0 t.name 2)
  | .items [r] => do
    let _ ← f.read r
    .error (.tooFewFields 1 t.name 2)
  | .items (r :: s :: rest) => do
    let a ← f.read r
    let b ← g.read s
    if rest.isEmpty then .ok (a, b) else .error (.tooManyFields (rest.length + 2) 2)

end Body

def ofTagged (t : Tag) (body : Body) : Except DataError Formula :=
  match t with
  | .number => number <$> body.oneField t .value
  | .pi => body.noFields pi
  | .e => body.noFields e
  | .var => var <$> body.oneField t .name
  | .negation => negation <$> body.oneField t (.child "expression")
  | .power => do
    let (a, x) ← body.twoFields t (.child "expression") (.child "power")
    .ok (power a x)
  | .binary o => do
    let (l, r) ← body.twoFields t (.child "left") (.child "right")
    .ok (binary o l r)
  | .function => do
    let (name, as) ← body.twoFields t .name .arguments
    .ok (call name as)
  | .paren => paren <$> body.oneField t (.child "expression")
  | .unrecognized => body.noFields unrecognized

/-- A tag inside a formula: a text or a number that is not negative. -/
def tagOfShape : Shape → Except DataError Tag
  | .string s => .ok (.ofSpelling s)
  | .number (.integer (.ofNat n)) => .ok (.ofIndex n)
  | shape => .error (.invalidType shape "variant identifier")

def splitTag (t : Option Tag) : List (String × Reading) →
    Except DataError (Option Tag × List (String × Reading))
  | [] => .ok (t, [])
  | (key, r) :: rest =>
    if key = "type" then
      if t.isSome then .error (.duplicateField "type")
      else do splitTag (some (← tagOfShape r.shape)) rest
    else do
      let (t, entries) ← splitTag t rest
      .ok (t, (key, r) :: entries)

def ofMembers (entries : List (String × Reading)) : Except DataError Formula := do
  match ← splitTag none entries with
  | (some t, entries) => ofTagged t (.members entries)
  | (none, _) => .error (.missingField "type")

def ofItems : List Reading → Except DataError Formula
  | [] => .error (.missingField "type")
  | r :: rest => do ofTagged (← tagOfShape r.shape) (.items rest)

def notAFormula (shape : Shape) : DataError :=
  .invalidType shape "internally tagged enum NodeRepr"

mutual

def Reading.ofValue : Value → Reading
  | .array items =>
    let readings := Reading.ofValues items
    { shape := .sequence, formula := ofItems readings, formulas := readings.mapM Reading.formula }
  | .object members =>
    { shape := .map, formula := ofMembers (Reading.ofEntries members),
      formulas := .error (.invalidType .map "a sequence") }
  | .null => scalar .null
  | .bool b => scalar (.bool b)
  | .number n => scalar (.number n)
  | .string s => scalar (.string s)
where
  scalar (shape : Shape) : Reading :=
    { shape, formula := .error (notAFormula shape),
      formulas := .error (.invalidType shape "a sequence") }

def Reading.ofValues : List Value → List Reading
  | [] => []
  | v :: rest => Reading.ofValue v :: Reading.ofValues rest

def Reading.ofEntries : List (String × Value) → List (String × Reading)
  | [] => []
  | (key, v) :: rest => (key, Reading.ofValue v) :: Reading.ofEntries rest

end

@[simp] theorem Reading.ofValues_eq_map (vs : List Value) :
    Reading.ofValues vs = vs.map Reading.ofValue := by
  induction vs with
  | nil => rfl
  | cons v vs ih => rw [Reading.ofValues, ih, List.map_cons]

@[simp] theorem Reading.ofEntries_eq_map (ms : List (String × Value)) :
    Reading.ofEntries ms = ms.map fun m => (m.1, Reading.ofValue m.2) := by
  induction ms with
  | nil => rfl
  | cons m ms ih => rw [Reading.ofEntries, ih, List.map_cons]

def ofValue (v : Value) : Except DataError Formula := (Reading.ofValue v).formula

end Formula

end FormulaEditor
