import FormulaEditor.Proofs.Box.Path
import FormulaEditor.Proofs.Formula.Placement
/-! Operations, their operands and their operators. The table of operators lists the path of each
operation, and the operator with that number is drawn between the boxes of the operands, at the
place of the operation and in no other group. -/
namespace FormulaEditor

def Side.opposite : Side → Side
  | left => right
  | right => left

def Side.index : Side → Nat
  | left => 0
  | right => 2

namespace Formula

/-- The operand on a side of an operation. The base of a power is its left operand. -/
def operand? : Formula → Side → Option Formula
  | power a _, .left => some a
  | power _ x, .right => some x
  | binary _ l _, .left => some l
  | binary _ _ r, .right => some r
  | _, _ => none

theorem exists_operand?_iff {t : Formula} (side : Side) :
    (∃ x, t.operand? side = some x) ↔ t.isOperation = true := by
  cases t <;> cases side <;> simp [operand?, isOperation]

theorem kept?_eq_operand? (t : Formula) (side : Side) :
    t.kept? side = t.operand? side.opposite := by
  cases t <;> cases side <;> rfl

/-- How an operation is drawn and where it stands among its own operators. -/
theorem exists_operands {t : Formula} (ht : t.isOperation = true) :
    ∃ l r symbol before, t.operand? .left = some l ∧ t.operand? .right = some r ∧
      t.operators = before ++ [[]] ∧
      ∀ first, t.box first =
        .infixed (l.box first) symbol (first + before.length)
          (r.box (first + l.operatorCount)) := by
  cases t with
  | power a x =>
    refine ⟨a, x, powerSymbol, _, rfl, rfl, rfl, fun first => ?_⟩
    simp [box, Nat.add_assoc]
  | binary o l r =>
    refine ⟨l, r, o.symbol, _, rfl, rfl, rfl, fun first => ?_⟩
    simp [box, Nat.add_assoc]
  | _ => simp [isOperation] at ht

@[simp] theorem argumentOperators_append (i : Nat) (as bs : List Formula) :
    argumentOperators i (as ++ bs) =
      argumentOperators i as ++ argumentOperators (i + as.length) bs := by
  induction as generalizing i with
  | nil => simp [argumentOperators]
  | cons a as ih => simp [argumentOperators, ih, Nat.add_assoc, Nat.add_comm 1]

theorem operators_of_child? {t c : Formula} {s : Step} (h : t.child? s = some c) :
    ∃ before after, t.operators = before ++ c.operators.map (s :: ·) ++ after ∧
      before.length = t.operatorsBeforeChild s := by
  cases t <;> cases s <;> simp only [child?, reduceCtorEq, Option.some.injEq] at h
  case call.argument name as i =>
    obtain ⟨hi, rfl⟩ := List.getElem?_eq_some_iff.1 h
    have has : as = as.take i ++ as[i] :: as.drop (i + 1) := by simp
    refine ⟨argumentOperators 0 (as.take i), argumentOperators (i + 1) (as.drop (i + 1)), ?_, ?_⟩
    · calc
        operators (call name as) = argumentOperators 0 (as.take i ++ as[i] :: as.drop (i + 1)) := by
          rw [← has, operators]
        _ = _ := by
          rw [argumentOperators_append, argumentOperators, List.length_take,
            Nat.min_eq_left (Nat.le_of_lt hi), Nat.zero_add, List.append_assoc]
    · exact length_argumentOperators 0 _
  all_goals subst h
  case power.expression a x =>
    exact ⟨[], x.operators.map (.power :: ·) ++ [[]], by simp [operators], rfl⟩
  case power.power a x =>
    exact ⟨a.operators.map (.expression :: ·), [[]], rfl, by simp [operatorsBeforeChild]⟩
  case binary.left o l r =>
    exact ⟨[], r.operators.map (.right :: ·) ++ [[]], by simp [operators], rfl⟩
  case binary.right o l r =>
    exact ⟨l.operators.map (.left :: ·), [[]], rfl, by simp [operatorsBeforeChild]⟩
  all_goals exact ⟨[], [], by simp [operators], rfl⟩

/-- The operators of a part are a stretch of the table. -/
theorem operators_of_get? {t n : Formula} {p : Path} (h : t.get? p = some n) :
    ∃ before after, t.operators = before ++ n.operators.map (p ++ ·) ++ after ∧
      before.length = t.operatorsBefore p := by
  induction p generalizing t with
  | nil =>
    obtain rfl := Option.some.inj h
    exact ⟨[], [], by simp, rfl⟩
  | cons s p ih =>
    obtain ⟨c, hc, hn⟩ := Option.bind_eq_some_iff.1 h
    obtain ⟨before, after, ht, hlen⟩ := operators_of_child? hc
    obtain ⟨before', after', hc', hlen'⟩ := ih hn
    refine ⟨before ++ before'.map (s :: ·), after'.map (s :: ·) ++ after, ?_, ?_⟩
    · simp [ht, hc']
    · simp [operatorsBefore_cons hc, hlen, hlen']

@[simp] theorem isSelectable_box (t : Formula) (first : Nat) :
    (t.box first).isSelectable = true := by
  cases t <;> rfl

@[simp] theorem operatorId?_box (t : Formula) (first : Nat) : (t.box first).operatorId? = none := by
  cases t <;> rfl

/-- The group in which the operator of the operation `n` at `p` stands. It has the given number and
the given members: an operand on either side, and beyond these only parentheses. -/
structure IsOperatorGroup (t n : Formula) (p : Path) (id : Nat) (ms : List Box) : Prop where
  entry : t.operators[id]? = some p
  found : (t.box 0).get? (t.place p).path = some (.group ms)
  operator : ∃ symbol, ms[(t.place p).depth + 1]? = some (.operator symbol id)
  operand : ∀ side, ∃ x first, n.operand? side = some x ∧
    ms[(t.place p).depth + side.index]? = some (x.box first)
  rest : ∀ i b, ms[i]? = some b → i = (t.place p).depth + 1 ∨
    (∃ side : Side, i = (t.place p).depth + side.index) ∨ ∃ q, b = .punctuation q

theorem exists_isOperatorGroup {t n : Formula} {p : Path} (h : t.get? p = some n)
    (hn : n.isOperation = true) : ∃ id ms, IsOperatorGroup t n p id ms := by
  obtain ⟨l, r, symbol, before, hl, hr, hops, hbox⟩ := exists_operands hn
  obtain ⟨before', after, ht, hlen⟩ := operators_of_get? h
  have hg := get?_box_place 0 h
  rw [hbox, Box.infixed, Box.iterate_parenthesized_group, Nat.zero_add] at hg
  refine ⟨t.operatorsBefore p + before.length, _, ?_, hg, ⟨symbol, ?_⟩, fun side => ?_, ?_⟩
  · simp [ht, hops, ← hlen]
  · simp
  · cases side with
    | left => exact ⟨l, _, hl, Box.getElem?_wrapped_add _ (i := 0) (by simp)⟩
    | right => exact ⟨r, _, hr, Box.getElem?_wrapped_add _ (i := 2) (by simp)⟩
  · intro i b hi
    rcases Box.of_getElem?_wrapped hi with ⟨j, rfl, hj⟩ | hq
    · obtain rfl | rfl | rfl : j = 0 ∨ j = 1 ∨ j = 2 := by
        have hlen : j < 3 := (List.getElem?_eq_some_iff.1 hj).1
        omega
      · exact .inr (.inl ⟨.left, rfl⟩)
      · exact .inl rfl
      · exact .inr (.inl ⟨.right, rfl⟩)
    · exact .inr (.inr hq)

theorem isOperation_of_mem_spliced {t : Formula} {first id : Nat} {symbol : String}
    (ht : t.isParen = false) (h : .operator symbol id ∈ (t.box first).spliced) :
    t.isOperation = true := by
  have notBox (a : Formula) (first' : Nat) : .operator symbol id ≠ box first' a := by
    intro he
    simpa [← he, Box.operatorId?] using operatorId?_box a first'
  cases t with
  | power a x => rfl
  | binary o l r => rfl
  | negation a => simp [box, notBox] at h
  | call name as =>
    simp only [box, Box.called, Box.spliced_group, List.cons_append, List.mem_cons,
      List.mem_append, List.not_mem_nil, reduceCtorEq, or_false, false_or] at h
    obtain ⟨a, first', ha⟩ := exists_eq_box_of_mem_argumentBoxes h
    exact absurd ha (notBox a first')
  | paren a => simp [isParen] at ht
  | _ => simp [box, Box.spliced, Box.empty] at h

/-- A group with an operator is that of an operation. -/
theorem exists_isOperatorGroup_of_mem {t : Formula} {g : Box.Path} {ms : List Box}
    {symbol : String} {id : Nat} (hg : (t.box 0).get? g = some (.group ms))
    (hm : .operator symbol id ∈ ms) :
    ∃ p n id, t.get? p = some n ∧ n.isOperation = true ∧ (t.place p).path = g ∧
      IsOperatorGroup t n p id ms := by
  obtain ⟨p, n, hp, hn, rfl⟩ := exists_place_of_get?_box hg
  have hop : n.isOperation = true := by
    have hb := get?_box_place 0 hp
    rw [hg, Option.some.injEq] at hb
    exact isOperation_of_mem_spliced hn (Box.mem_spliced_of_mem_iterate hb.symm hm)
  obtain ⟨id, ms', h⟩ := exists_isOperatorGroup hp hop
  obtain rfl := Box.group.inj (Option.some.inj (h.found.symm.trans hg))
  exact ⟨p, n, id, hp, hop, rfl, h⟩

namespace IsOperatorGroup

variable {t n : Formula} {p : Path} {id : Nat} {ms : List Box}

theorem get?_child (h : IsOperatorGroup t n p id ms) {i : Nat} {b : Box} (hi : ms[i]? = some b) :
    (t.box 0).get? ((t.place p).path.child i) = some b := by
  rw [Box.get?_child h.found, hi]

theorem eq_of_operatorId? (h : IsOperatorGroup t n p id ms) {i : Nat} {b : Box}
    (hi : ms[i]? = some b) (hb : b.operatorId?.isSome) : i = (t.place p).depth + 1 := by
  rcases h.rest i b hi with hi' | ⟨side, rfl⟩ | ⟨q, rfl⟩
  · exact hi'
  · obtain ⟨x, first, _, hx⟩ := h.operand side
    obtain rfl := Option.some.inj (hx.symm.trans hi)
    simp at hb
  · simp [Box.operatorId?] at hb

/-- Only the operands can be selected. -/
theorem exists_side_of_isSelectable (h : IsOperatorGroup t n p id ms) {i : Nat} {b : Box}
    (hi : ms[i]? = some b) (hb : b.isSelectable = true) :
    ∃ side : Side, i = (t.place p).depth + side.index := by
  rcases h.rest i b hi with rfl | hside | ⟨q, rfl⟩
  · obtain ⟨symbol, hs⟩ := h.operator
    obtain rfl := Option.some.inj (hs.symm.trans hi)
    simp [Box.isSelectable] at hb
  · exact hside
  · simp [Box.isSelectable] at hb

end IsOperatorGroup

end Formula

end FormulaEditor
