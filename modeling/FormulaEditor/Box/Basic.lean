/-! The boxes a formula is drawn with: single tokens, and groups of boxes side by side. -/
namespace FormulaEditor

inductive Constant
  | pi
  | e
  deriving DecidableEq

def Constant.name : Constant → String
  | pi => "PI"
  | e => "E"

inductive Parenthesis
  | opening
  | closing
  deriving DecidableEq

def Parenthesis.text : Parenthesis → String
  | opening => "("
  | closing => ")"

inductive Box
  /-- A number literal, the name of a variable, or the sign of a negation. -/
  | terminal (text : String)
  | constant (value : Constant)
  /-- The number tells the operators of one drawing apart. -/
  | operator (symbol : String) (id : Nat)
  /-- The name of a called function. -/
  | function (name : String)
  | punctuation (value : Parenthesis)
  | group (members : List Box)

namespace Box

mutual

def beq : Box → Box → Bool
  | terminal s, terminal t => s = t
  | constant c, constant d => c = d
  | operator s i, operator t j => s = t && i = j
  | function s, function t => s = t
  | punctuation p, punctuation q => p = q
  | group bs, group cs => beqList bs cs
  | _, _ => false

def beqList : List Box → List Box → Bool
  | [], [] => true
  | b :: bs, c :: cs => beq b c && beqList bs cs
  | _, _ => false

end

mutual

theorem beq_eq_true_iff (b c : Box) : beq b c = true ↔ b = c := by
  cases b <;> cases c <;> simp [beq, beqList_eq_true_iff]

theorem beqList_eq_true_iff (bs cs : List Box) : beqList bs cs = true ↔ bs = cs := by
  cases bs <;> cases cs <;> simp [beqList, beq_eq_true_iff, beqList_eq_true_iff]

end

instance : DecidableEq Box := fun b c => decidable_of_iff _ (beq_eq_true_iff b c)

/-- What a formula is drawn as if nothing is known of it. -/
def empty : Box := group []

def members? : Box → Option (List Box)
  | group bs => some bs
  | _ => none

def operatorId? : Box → Option Nat
  | operator _ id => some id
  | _ => none

def text? : Box → Option String
  | terminal s => some s
  | constant c => some c.name
  | operator s _ => some s
  | function s => some s
  | punctuation p => some p.text
  | group _ => none

/-- Operators, names of functions and parentheses cannot be selected. -/
def isSelectable : Box → Bool
  | operator .. | function _ | punctuation _ => false
  | _ => true

theorem members?_eq_some_iff {b : Box} {bs : List Box} : b.members? = some bs ↔ b = group bs := by
  cases b <;> simp [members?]

mutual

def height : Box → Nat
  | group bs => heightOfMembers bs + 1
  | _ => 1

def heightOfMembers : List Box → Nat
  | [] => 0
  | b :: bs => max b.height (heightOfMembers bs)

end

theorem height_le_heightOfMembers {b : Box} {bs : List Box} (h : b ∈ bs) :
    b.height ≤ heightOfMembers bs := by
  induction bs with
  | nil => simp at h
  | cons c cs ih =>
    rw [heightOfMembers]
    rcases List.mem_cons.1 h with rfl | h
    · exact Nat.le_max_left _ _
    · exact Nat.le_trans (ih h) (Nat.le_max_right _ _)

end Box

end FormulaEditor
