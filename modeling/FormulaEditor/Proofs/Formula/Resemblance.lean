import FormulaEditor.Proofs.Formula.Operands
import FormulaEditor.Proofs.Number.Display
/-! What the box of a formula tells about it. Parentheses share a group with what stands between
them, and still every group can be read in one way only, because none has a single member and none
starts like another one. Only whether a text was a number or a name is lost. -/
namespace FormulaEditor

namespace Box

/-- A group that holds a single box looks the same between parentheses as that box. -/
theorem spliced_injective {b c : Box} (hb : ∀ ms, b = group ms → ms.length ≠ 1)
    (hc : ∀ ms, c = group ms → ms.length ≠ 1) (h : b.spliced = c.spliced) : b = c := by
  have hsingle {ms : List Box} {d : Box} (hms : ms.length ≠ 1) (he : ms = [d]) : False := by
    rw [he] at hms
    exact hms rfl
  cases b with
  | group bs =>
    cases c with
    | group cs => exact congrArg group h
    | _ => exact (hsingle (hb bs rfl) h).elim
  | _ =>
    cases c with
    | group cs => exact (hsingle (hc cs rfl) h.symm).elim
    | _ => exact List.singleton_inj.1 h

theorem spliced_of_parenthesized_eq {b c : Box} (h : b.parenthesized = c.parenthesized) :
    b.spliced = c.spliced := by
  have hcons := List.cons.inj (group.inj h)
  exact List.append_cancel_right hcons.2

end Box

namespace Formula

mutual

/-- Equal but for number literals that stand for variables with the same text. -/
def Resembles : Formula → Formula → Prop
  | number m, number n => m = n
  | number n, var name | var name, number n => name = n.display
  | pi, pi => True
  | e, e => True
  | var s, var t => s = t
  | negation a, negation b => Resembles a b
  | power a x, power b y => Resembles a b ∧ Resembles x y
  | binary o a x, binary p b y => o = p ∧ Resembles a b ∧ Resembles x y
  | call s as, call t bs => s = t ∧ AllResemble as bs
  | paren a, paren b => Resembles a b
  | unrecognized, unrecognized => True
  | _, _ => False

def AllResemble : List Formula → List Formula → Prop
  | [], [] => True
  | a :: as, b :: bs => Resembles a b ∧ AllResemble as bs
  | _, _ => False

end

theorem length_ne_one_of_box {t : Formula} {first : Nat} {ms : List Box}
    (h : t.box first = .group ms) : ms.length ≠ 1 := by
  cases t <;> simp only [box, Box.infixed, Box.called, Box.parenthesized, Box.empty, reduceCtorEq,
    Box.group.injEq] at h <;> subst h <;> simp

theorem box_eq_of_parenthesized {a b : Formula} {first first' : Nat}
    (h : (a.box first).parenthesized = (b.box first').parenthesized) :
    a.box first = b.box first' :=
  Box.spliced_injective (fun _ => length_ne_one_of_box) (fun _ => length_ne_one_of_box)
    (Box.spliced_of_parenthesized_eq h)

@[simp] theorem box_ne_punctuation (t : Formula) (first : Nat) (p : Parenthesis) :
    t.box first ≠ .punctuation p := by
  intro h
  simpa [h, Box.isSelectable] using t.isSelectable_box first

@[simp] theorem punctuation_ne_box (t : Formula) (first : Nat) (p : Parenthesis) :
    .punctuation p ≠ t.box first := (t.box_ne_punctuation first p).symm

theorem argumentBoxes_resemble {as bs : List Formula} {first first' : Nat}
    (ih : ∀ a ∈ as, ∀ b i j, box i a = box j b → Resembles a b)
    (h : argumentBoxes first as = argumentBoxes first' bs) : AllResemble as bs := by
  induction as generalizing bs first first' with
  | nil =>
    cases bs with
    | nil => trivial
    | cons b bs => nomatch h
  | cons a as iha =>
    cases bs with
    | nil => nomatch h
    | cons b bs =>
      obtain ⟨hhead, htail⟩ := List.cons.inj h
      have hrest := fun c hc => ih c (List.mem_cons_of_mem a hc)
      exact ⟨ih a List.mem_cons_self b _ _ hhead, iha hrest htail⟩

/-- The box tells the kind and the boxes of the children, whatever numbers the operators have. -/
theorem resembles_of_box_eq {a b : Formula} {first first' : Nat}
    (h : a.box first = b.box first') : Resembles a b := by
  induction a generalizing b first first' with
  | number n =>
    cases b with
    | number m => exact Number.display_injective (Box.terminal.inj h)
    | var name => exact (Box.terminal.inj h).symm
    | _ => nomatch h
  | var name =>
    cases b with
    | number m => exact Box.terminal.inj h
    | var name' => exact Box.terminal.inj h
    | _ => nomatch h
  | pi =>
    cases b with
    | pi => trivial
    | _ => nomatch h
  | e =>
    cases b with
    | e => trivial
    | _ => nomatch h
  | unrecognized =>
    cases b with
    | unrecognized => trivial
    | _ => nomatch h
  | negation a ih =>
    cases b with
    | negation b =>
      have hmembers := Box.group.inj h
      simp only [List.cons.injEq, and_true, true_and] at hmembers
      exact ih hmembers
    | _ => simp [box, Box.infixed, Box.called, Box.parenthesized, Box.empty] at h
  | power a x iha ihx =>
    cases b with
    | power b y =>
      have hmembers := Box.group.inj h
      simp only [List.cons.injEq, and_true] at hmembers
      exact ⟨iha hmembers.1, ihx hmembers.2.2⟩
    | binary o l r =>
      cases o <;> simp [box, Box.infixed, powerSymbol, Operator.symbol] at h
    | _ => simp [box, Box.infixed, Box.called, Box.parenthesized, Box.empty] at h
  | binary o l r ihl ihr =>
    cases b with
    | binary o' l' r' =>
      have hmembers := Box.group.inj h
      simp only [List.cons.injEq, Box.operator.injEq, and_true] at hmembers
      obtain ⟨hl, ⟨ho, _⟩, hr⟩ := hmembers
      exact ⟨Operator.symbol_injective ho, ihl hl, ihr hr⟩
    | power a x =>
      -- the groups have one shape, so only the symbols tell them apart
      cases o <;> simp [box, Box.infixed, powerSymbol, Operator.symbol] at h
    | _ => simp [box, Box.infixed, Box.called, Box.parenthesized, Box.empty] at h
  | call name as ih =>
    cases b with
    | call name' bs =>
      have hmembers := Box.group.inj h
      simp only [List.cons_append, List.cons.injEq, Box.function.injEq, true_and] at hmembers
      obtain ⟨rfl, harguments⟩ := hmembers
      exact ⟨rfl, argumentBoxes_resemble (fun a ha b i j => ih a ha)
        (List.append_cancel_right harguments)⟩
    | _ => simp [box, Box.infixed, Box.called, Box.parenthesized, Box.empty] at h
  | paren a ih =>
    cases b with
    | paren b => exact ih (box_eq_of_parenthesized h)
    | _ => simp [box, Box.infixed, Box.called, Box.parenthesized, Box.empty] at h

/-- Drawn the same from every number on, and with as many operators. -/
def DrawnAlike (a b : Formula) : Prop :=
  a.operatorCount = b.operatorCount ∧ ∀ first, a.box first = b.box first

theorem argumentBoxes_eq_of_drawnAlike {as bs : List Formula}
    (ih : ∀ a ∈ as, ∀ b, Resembles a b → DrawnAlike a b) (h : AllResemble as bs) :
    argumentOperatorCount as = argumentOperatorCount bs ∧
      ∀ first, argumentBoxes first as = argumentBoxes first bs := by
  induction as generalizing bs with
  | nil =>
    cases bs with
    | nil => exact ⟨rfl, fun _ => rfl⟩
    | cons b bs => simp [AllResemble] at h
  | cons a as iha =>
    cases bs with
    | nil => simp [AllResemble] at h
    | cons b bs =>
      obtain ⟨hcount, hbox⟩ := ih a List.mem_cons_self b h.1
      obtain ⟨hcounts, hboxes⟩ := iha (fun c hc => ih c (List.mem_cons_of_mem a hc)) h.2
      refine ⟨?_, fun first => ?_⟩
      · rw [argumentOperatorCount, argumentOperatorCount, hcount, hcounts]
      · rw [argumentBoxes, argumentBoxes, hbox, hcount, hboxes]

theorem drawnAlike_of_resembles {a b : Formula} (h : Resembles a b) : DrawnAlike a b := by
  induction a generalizing b with
  | number n =>
    cases b with
    | number m => exact ⟨rfl, fun _ => by rw [show n = m from h]⟩
    | var name => exact ⟨rfl, fun _ => by rw [show name = n.display from h, box, box]⟩
    | _ => simp [Resembles] at h
  | var name =>
    cases b with
    | number m => exact ⟨rfl, fun _ => by rw [show name = m.display from h, box, box]⟩
    | var name' => exact ⟨rfl, fun _ => by rw [show name = name' from h]⟩
    | _ => simp [Resembles] at h
  | pi =>
    cases b with
    | pi => exact ⟨rfl, fun _ => rfl⟩
    | _ => simp [Resembles] at h
  | e =>
    cases b with
    | e => exact ⟨rfl, fun _ => rfl⟩
    | _ => simp [Resembles] at h
  | unrecognized =>
    cases b with
    | unrecognized => exact ⟨rfl, fun _ => rfl⟩
    | _ => simp [Resembles] at h
  | negation a ih =>
    cases b with
    | negation b =>
      obtain ⟨hcount, hbox⟩ := ih h
      exact ⟨hcount, fun first => by rw [box, box, hbox]⟩
    | _ => simp [Resembles] at h
  | power a x iha ihx =>
    cases b with
    | power b y =>
      obtain ⟨hcount, hbox⟩ := iha h.1
      obtain ⟨hcount', hbox'⟩ := ihx h.2
      refine ⟨?_, fun first => ?_⟩
      · rw [operatorCount, operatorCount, hcount, hcount']
      · simp only [box, hcount, hcount', hbox, hbox']
    | _ => simp [Resembles] at h
  | binary o l r ihl ihr =>
    cases b with
    | binary o' l' r' =>
      obtain ⟨rfl, hl, hr⟩ := h
      obtain ⟨hcount, hbox⟩ := ihl hl
      obtain ⟨hcount', hbox'⟩ := ihr hr
      refine ⟨?_, fun first => ?_⟩
      · rw [operatorCount, operatorCount, hcount, hcount']
      · simp only [box, hcount, hcount', hbox, hbox']
    | _ => simp [Resembles] at h
  | call name as ih =>
    cases b with
    | call name' bs =>
      obtain ⟨rfl, has⟩ := h
      obtain ⟨hcount, hbox⟩ := argumentBoxes_eq_of_drawnAlike (fun a ha b => ih a ha) has
      exact ⟨hcount, fun first => by rw [box, box, hbox]⟩
    | _ => simp [Resembles] at h
  | paren a ih =>
    cases b with
    | paren b =>
      obtain ⟨hcount, hbox⟩ := ih h
      exact ⟨hcount, fun first => by rw [box, box, hbox]⟩
    | _ => simp [Resembles] at h

/-- Two formulas are drawn as the same box exactly when they are equal but for number literals and
variables with the same text. -/
theorem box_drawing_eq_iff (a b : Formula) : a.drawing.box = b.drawing.box ↔ Resembles a b := by
  constructor
  · exact resembles_of_box_eq
  · intro h
    exact (drawnAlike_of_resembles h).2 0

end Formula

end FormulaEditor
