import FormulaEditor.Formula.Tag
/-! The canonical JSON of a formula: an object with the tag first and the fields in order. -/
namespace FormulaEditor
namespace Formula

open Json

def tagged (t : Tag) (fields : List (String × Value)) : Value :=
  .object (("type", .string t.spelling) :: fields)

mutual

def toValue : Formula → Value
  | number n => tagged .number [("value", n.toValue)]
  | pi => tagged .pi []
  | e => tagged .e []
  | var name => tagged .var [("name", .string name)]
  | negation a => tagged .negation [("expression", a.toValue)]
  | power a x => tagged .power [("expression", a.toValue), ("power", x.toValue)]
  | binary o l r => tagged (.binary o) [("left", l.toValue), ("right", r.toValue)]
  | call name as => tagged .function [("name", .string name), ("arguments", .array (toValues as))]
  | paren a => tagged .paren [("expression", a.toValue)]
  | unrecognized => tagged .unrecognized []

def toValues : List Formula → List Value
  | [] => []
  | a :: as => a.toValue :: toValues as

end

@[simp] theorem toValues_eq_map (as : List Formula) : toValues as = as.map toValue := by
  induction as with
  | nil => rfl
  | cons a as ih => rw [toValues, ih, List.map_cons]

/-- Two formulas are the same input exactly when these texts are equal. -/
def canonicalJson (t : Formula) : String := t.toValue.print

end Formula

end FormulaEditor
