import FormulaEditor.Formula.Tag
import FormulaEditor.Proofs.Number.Spelling
import Mathlib.Data.List.Forall2
/-! Which values spell a formula. An object has the tag and each field once, in any order and among
other members; a list has the tag and the fields in order and nothing else. -/
namespace FormulaEditor

open Json

/-- Exactly one member has the key, and what it holds is as it should be. -/
def Once {β : Type} (key : String) (holds : β → Prop) (members : List (String × β)) : Prop :=
  ∃ x, members.filter (·.1 = key) = [(key, x)] ∧ holds x

section Once

variable {β : Type}

theorem once_map {γ : Type} {key : String} {holds : γ → Prop} (f : β → γ)
    {members : List (String × β)} :
    Once key holds (members.map fun m => (m.1, f m.2)) ↔
      Once key (fun x => holds (f x)) members := by
  have hfilter : (members.map fun m => (m.1, f m.2)).filter (·.1 = key) =
      (members.filter (·.1 = key)).map fun m => (m.1, f m.2) := by
    rw [List.filter_map]
    rfl
  rw [Once, Once, hfilter]
  constructor
  · rintro ⟨y, h, hy⟩
    obtain ⟨⟨k, x⟩, hx, hm⟩ := List.map_eq_singleton_iff.1 h
    obtain ⟨rfl, rfl⟩ := Prod.mk.inj hm
    exact ⟨x, hx, hy⟩
  · rintro ⟨x, h, hx⟩
    exact ⟨f x, by rw [h]; rfl, hx⟩

theorem once_filter_ne {key other : String} (hne : key ≠ other) {holds : β → Prop}
    {members : List (String × β)} :
    Once key holds (members.filter (·.1 ≠ other)) ↔ Once key holds members := by
  have hfilter : (members.filter (·.1 ≠ other)).filter (·.1 = key) =
      members.filter (·.1 = key) := by
    rw [List.filter_filter]
    refine List.filter_congr fun m _ => ?_
    by_cases hm : m.1 = key <;> simp [hm, hne]
  rw [Once, Once, hfilter]

theorem once_cons_of_ne {key other : String} (h : other ≠ key) {holds : β → Prop}
    {members : List (String × β)} (y : β) :
    Once key holds ((other, y) :: members) ↔ Once key holds members := by
  simp [Once, h]

variable {α : Type} {key : String} {stands : α → β → Prop} {x : α} {members : List (String × β)}

/-- What members must still hold if `a` was found so far under the key and `x` is to be found. -/
def Completes (key : String) (stands : α → β → Prop) : Option α → α → List (String × β) → Prop
  | some a, x, members => a = x ∧ members.filter (·.1 = key) = []
  | none, x, members => Once key (stands x) members

theorem completes_cons_of_ne {other : String} (h : other ≠ key) (a : Option α) (y : β) :
    Completes key stands a x ((other, y) :: members) ↔ Completes key stands a x members := by
  cases a with
  | none => exact once_cons_of_ne h y
  | some a => simp [Completes, h]

theorem completes_cons_none {y : β} :
    Completes key stands none x ((key, y) :: members) ↔
      ∃ a, stands a y ∧ Completes key stands (some a) x members := by
  simp only [Completes, Once, decide_true, List.filter_cons_of_pos, List.cons.injEq, Prod.mk.injEq,
    true_and]
  constructor
  · rintro ⟨_, ⟨rfl, h⟩, hx⟩
    exact ⟨x, hx, rfl, h⟩
  · rintro ⟨_, hx, rfl, h⟩
    exact ⟨y, ⟨rfl, h⟩, hx⟩

theorem not_completes_cons_some {a : α} {y : β} :
    ¬ Completes key stands (some a) x ((key, y) :: members) := by
  simp [Completes]

end Once

/-- Whether a value has the fields, given by their keys and by what they should hold. -/
def HasFields (fields : List (String × (Value → Prop))) : Value → Prop
  | .object members => ∀ f ∈ fields, Once f.1 f.2 members
  | .array items => List.Forall₂ (fun f v => f.2 v) fields items
  | _ => False

def Tag.texts : List (Tag × String) :=
  [(number, "NUMBER"), (pi, "PI"), (e, "E"), (var, "VARIABLE"), (negation, "NEGATION"),
    (power, "POWER"), (binary .addition, "ADDITION"), (binary .subtraction, "SUBTRACTION"),
    (binary .multiplication, "MULTIPLICATION"), (binary .division, "DIVISION"),
    (function, "FUNCTION"), (paren, "PAREN")]

/-- The values for a tag: its text or its number, and for no tag in particular any others. -/
inductive Tag.IsNamedBy : Tag → Value → Prop
  | text {t : Tag} {s : String} (h : (t, s) ∈ Tag.texts) : IsNamedBy t (.string s)
  | otherText {s : String} (h : ∀ m ∈ Tag.texts, s ≠ m.2) : IsNamedBy unrecognized (.string s)
  | index {t : Tag} {s : String} {n : Nat} (h : Tag.texts[n]? = some (t, s)) :
    IsNamedBy t (.number (.integer (.ofNat n)))
  | otherIndex {n : Nat} (h : 12 ≤ n) : IsNamedBy unrecognized (.number (.integer (.ofNat n)))

def Tag.IsNamedByText (t : Tag) (v : Value) : Prop := t.IsNamedBy v ∧ ∃ s, v = .string s

/-- A number literal is spelled by a number or by the text of a literal. -/
def Number.IsSpelledBy (a : Number) : Value → Prop
  | .number n => a.Approximates n.rational
  | .string s => LiteralText s.toList a
  | _ => False

namespace Formula

mutual

def fieldSpellings : Formula → List (String × (Value → Prop))
  | number n => [("value", n.IsSpelledBy)]
  | var name => [("name", (· = .string name))]
  | negation a | paren a =>
    [("expression", HasFields (("type", a.tag.IsNamedBy) :: a.fieldSpellings))]
  | power a x =>
    [("expression", HasFields (("type", a.tag.IsNamedBy) :: a.fieldSpellings)),
      ("power", HasFields (("type", x.tag.IsNamedBy) :: x.fieldSpellings))]
  | binary _ l r =>
    [("left", HasFields (("type", l.tag.IsNamedBy) :: l.fieldSpellings)),
      ("right", HasFields (("type", r.tag.IsNamedBy) :: r.fieldSpellings))]
  | call name as =>
    [("name", (· = .string name)), ("arguments", fun v => ∃ vs, v = .array vs ∧ AreSpelledBy as vs)]
  | pi | e | unrecognized => []

def AreSpelledBy : List Formula → List Value → Prop
  | [], [] => True
  | a :: as, v :: vs =>
    HasFields (("type", a.tag.IsNamedBy) :: a.fieldSpellings) v ∧ AreSpelledBy as vs
  | _, _ => False

end

def IsSpelledBy (t : Formula) : Value → Prop :=
  HasFields (("type", t.tag.IsNamedBy) :: t.fieldSpellings)

/-- The same for the outermost value of a text, where the tag has no number. -/
def IsSpelledAtRootBy (t : Formula) : Value → Prop :=
  HasFields (("type", t.tag.IsNamedByText) :: t.fieldSpellings)

theorem key_ne_of_mem_fieldSpellings {t : Formula} {f : String × (Value → Prop)}
    (h : f ∈ t.fieldSpellings) : f.1 ≠ "type" := by
  have hkeys : ∀ key ∈ t.fieldSpellings.map Prod.fst, key ≠ "type" := by
    cases t <;> simp [fieldSpellings]
  exact hkeys f.1 (List.mem_map_of_mem h)

end Formula

end FormulaEditor
