import FormulaEditor.Formula.Drawing
import FormulaEditor.Proofs.Box.Order
/-! Reading a box aloud: its tokens in the order in which they are drawn, with room around the
operators. What is read off the box of a formula is the text of the formula. -/
namespace FormulaEditor

namespace Box

def inLine? : Box → Option String
  | operator symbol _ => some (" " ++ symbol ++ " ")
  | b => b.text?

def reading (b : Box) : String := String.join (b.boxes.filterMap fun x => x.2.inLine?)

@[simp] theorem reading_terminal (s : String) : (terminal s).reading = s := by
  simp [reading, boxes, inLine?, text?]

@[simp] theorem reading_constant (c : Constant) : (constant c).reading = c.name := by
  simp [reading, boxes, inLine?, text?]

@[simp] theorem reading_operator (symbol : String) (id : Nat) :
    (operator symbol id).reading = " " ++ symbol ++ " " := by
  simp [reading, boxes, inLine?]

@[simp] theorem reading_function (name : String) : (function name).reading = name := by
  simp [reading, boxes, inLine?, text?]

@[simp] theorem reading_punctuation (p : Parenthesis) : (punctuation p).reading = p.text := by
  simp [reading, boxes, inLine?, text?]

theorem join_boxesFrom (i : Nat) (bs : List Box) :
    String.join ((boxesFrom i bs).filterMap fun x => x.2.inLine?) =
      String.join (bs.map reading) := by
  induction bs generalizing i with
  | nil => rfl
  | cons b bs ih =>
    rw [boxesFrom, List.filterMap_append, List.filterMap_map, String.join_append, ih,
      List.map_cons, String.join_cons]
    rfl

@[simp] theorem reading_group (bs : List Box) :
    (group bs).reading = String.join (bs.map reading) := by
  rw [reading, boxes, List.filterMap_cons_none rfl, join_boxesFrom]

/-- Groups are not heard, so it is enough to go through the tokens. -/
theorem join_tokens (b : Box) :
    String.join (b.tokens.filterMap fun x => x.2.inLine?) = b.reading := by
  have hgroup (x : Path × Box) :
      (if x.2.members?.isNone then x.2.inLine? else none) = x.2.inLine? := by
    obtain ⟨p, c⟩ := x
    cases c <;> rfl
  rw [tokens, List.filterMap_filter, reading]
  simp only [hgroup]

theorem join_map_reading_spliced (b : Box) :
    String.join (b.spliced.map reading) = b.reading := by
  cases b <;> simp [spliced]

@[simp] theorem reading_parenthesized (b : Box) :
    b.parenthesized.reading = "(" ++ b.reading ++ ")" := by
  simp [parenthesized, join_map_reading_spliced, Parenthesis.text, String.append_assoc]

end Box

namespace Formula

mutual

/-- The box of a formula reads like the formula, whatever numbers the operators have. -/
@[simp] theorem reading_box (t : Formula) (first : Nat) : (t.box first).reading = t.text := by
  cases t <;>
    simp [box, text, Box.infixed, Box.called, Box.empty, Parenthesis.text, reading_box,
      reading_argumentBoxes, String.append_assoc]

theorem reading_argumentBoxes (as : List Formula) (first : Nat) :
    String.join ((argumentBoxes first as).map Box.reading) = texts as := by
  cases as <;> simp [argumentBoxes, texts, reading_box, reading_argumentBoxes]

end

/-- The text of a formula is read off its drawing: the tokens from first to last, each once and in
the order in which they are drawn, with a blank on either side of an operator and nothing between
other tokens. -/
theorem text_drawing (t : Formula) :
    let tokens := t.drawing.box.tokens
    tokens.Pairwise (fun x y => x.1 < y.1) ∧
    (∀ p b, (p, b) ∈ tokens ↔ t.drawing.box.get? p = some b ∧ ∀ ms, b ≠ .group ms) ∧
    t.drawing.text = String.join (tokens.filterMap fun x => x.2.inLine?) := by
  refine ⟨Box.pairwise_tokens _, fun p b => Box.mem_tokens_iff, ?_⟩
  rw [Box.join_tokens]
  exact (t.reading_box 0).symm

end Formula

end FormulaEditor
