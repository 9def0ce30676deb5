import FormulaEditor.Formula.Basic
import FormulaEditor.Text
/-! Addresses of the parts of a formula. A path lists the steps to go down from the root; what it
leads to can be read and can be replaced. -/
namespace FormulaEditor
namespace Formula

inductive Step
  | left
  | right
  /-- What stands under a sign or between parentheses, and the base of a power. -/
  | expression
  | power
  | argument (index : Nat)
  deriving DecidableEq

def Step.text : Step → String
  | left => "left"
  | right => "right"
  | expression => "expression"
  | power => "power"
  | argument i => "arguments[" ++ Text.natural i ++ "]"

/-- From the root down. The empty path leads to the root itself. -/
abbrev Path := List Step

namespace Path

def text (p : Path) : String := "root" ++ String.join (p.map fun s => "." ++ s.text)

def child (p : Path) (s : Step) : Path := p ++ [s]

def parent? (p : Path) : Option (Path × Step) := p.getLast?.map fun s => (p.dropLast, s)

@[simp] theorem parent?_child (p : Path) (s : Step) : parent? (p.child s) = some (p, s) := by
  simp [child, parent?]

theorem eq_child_of_parent? {p q : Path} {s : Step} (h : parent? p = some (q, s)) :
    p = q.child s := by
  obtain ⟨t, ht, he⟩ := Option.map_eq_some_iff.1 h
  obtain ⟨rfl, rfl⟩ := Prod.mk.inj he
  obtain ⟨r, rfl⟩ := List.getLast?_eq_some_iff.1 ht
  simp [child]

end Path

def child? : Formula → Step → Option Formula
  | binary _ l _, .left => some l
  | binary _ _ r, .right => some r
  | power a _, .expression => some a
  | power _ x, .power => some x
  | negation a, .expression => some a
  | paren a, .expression => some a
  | call _ as, .argument i => as[i]?
  | _, _ => none

/-- Induction over formulas from the children up, whatever steps lead to them. -/
theorem inductChildren {motive : Formula → Prop}
    (step : ∀ t, (∀ s c, t.child? s = some c → motive c) → motive t) (t : Formula) : motive t := by
  induction t with
  | call name as ih =>
    refine step _ fun s c h => ?_
    cases s with
    | argument i => exact ih c (List.mem_of_getElem? h)
    | _ => nomatch h
  | _ =>
    refine step _ fun s c h => ?_
    cases s <;> first
      | obtain rfl := Option.some.inj h
        assumption
      | nomatch h

def setChild? : Formula → Step → Formula → Option Formula
  | binary o _ r, .left, w => some (binary o w r)
  | binary o l _, .right, w => some (binary o l w)
  | power _ x, .expression, w => some (power w x)
  | power a _, .power, w => some (power a w)
  | negation _, .expression, w => some (negation w)
  | paren _, .expression, w => some (paren w)
  | call f as, .argument i, w => if i < as.length then some (call f (as.set i w)) else none
  | _, _, _ => none

def get? (t : Formula) : Path → Option Formula
  | [] => some t
  | s :: p => do (← t.child? s).get? p

def set? (t w : Formula) : Path → Option Formula
  | [] => some w
  | s :: p => do t.setChild? s (← (← t.child? s).set? w p)

@[simp] theorem get?_nil (t : Formula) : t.get? [] = some t := rfl

@[simp] theorem get?_cons (t : Formula) (s : Step) (p : Path) :
    t.get? (s :: p) = (t.child? s).bind (·.get? p) := rfl

theorem get?_append (t : Formula) (p q : Path) : t.get? (p ++ q) = (t.get? p).bind (·.get? q) := by
  induction p generalizing t with
  | nil => rfl
  | cons s p ih => simp [ih, Option.bind_assoc]

theorem get?_child (t : Formula) (q : Path) (s : Step) :
    t.get? (q.child s) = (t.get? q).bind (·.child? s) := by
  simp [Path.child, get?_append]

theorem get?_child_argument {t : Formula} {q : Path} {name : String} {as : List Formula}
    (h : t.get? q = some (call name as)) (i : Nat) : t.get? (q.child (.argument i)) = as[i]? := by
  rw [get?_child, h]
  rfl

theorem get?_child_paren {t a : Formula} {q : Path} (h : t.get? q = some (paren a)) :
    t.get? (q.child .expression) = some a := by
  rw [get?_child, h]
  rfl

@[simp] theorem set?_nil (t w : Formula) : t.set? w [] = some w := rfl

@[simp] theorem set?_cons (t w : Formula) (s : Step) (p : Path) :
    t.set? w (s :: p) = (t.child? s).bind fun a => (a.set? w p).bind (t.setChild? s) := rfl

theorem isSome_setChild? (t w : Formula) (s : Step) :
    (t.setChild? s w).isSome = (t.child? s).isSome := by
  cases t with
  | call f as =>
    cases s with
    | argument i => by_cases hi : i < as.length <;> simp [child?, setChild?, hi]
    | _ => rfl
  | _ => cases s <;> rfl

theorem child?_of_setChild? {t u w : Formula} {s : Step} (h : t.setChild? s w = some u) :
    u.child? s = some w := by
  cases t with
  | call f as =>
    cases s with
    | argument i =>
      by_cases hi : i < as.length
      · obtain rfl : call f (as.set i w) = u := by simpa [setChild?, hi] using h
        simp [child?, hi]
      · simp [setChild?, hi] at h
    | _ => nomatch h
  | _ =>
    cases s <;> first
      | obtain rfl := Option.some.inj h
        rfl
      | nomatch h

end Formula

end FormulaEditor
