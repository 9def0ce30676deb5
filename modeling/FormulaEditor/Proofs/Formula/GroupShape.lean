import FormulaEditor.Proofs.Formula.Operands
/-! The shape of the groups that formulas are drawn as. Between a number of parentheses that share
the group stands what one node of the formula is drawn with, and each operand or argument is a
single token or a group of its own. -/
namespace FormulaEditor

namespace Box

def isOperator : Box → Bool
  | operator .. => true
  | _ => false

def isFunction : Box → Bool
  | function _ => true
  | _ => false

@[simp] theorem isOperator_operator (symbol : String) (id : Nat) :
    (operator symbol id).isOperator = true := rfl

@[simp] theorem isOperator_terminal (s : String) : (terminal s).isOperator = false := rfl

@[simp] theorem isOperator_function (name : String) : (function name).isOperator = false := rfl

@[simp] theorem isOperator_punctuation (q : Parenthesis) :
    (punctuation q).isOperator = false := rfl

@[simp] theorem isFunction_operator (symbol : String) (id : Nat) :
    (operator symbol id).isFunction = false := rfl

@[simp] theorem isFunction_terminal (s : String) : (terminal s).isFunction = false := rfl

@[simp] theorem isFunction_function (name : String) : (function name).isFunction = true := rfl

@[simp] theorem isFunction_punctuation (q : Parenthesis) :
    (punctuation q).isFunction = false := rfl

/-- No parenthesis is closed that was not opened before, and none stays open. -/
structure IsBalanced (ms : List Box) : Prop where
  sane : ∀ p, p <+: ms → p.count (punctuation .closing) ≤ p.count (punctuation .opening)
  settled : ms.count (punctuation .opening) = ms.count (punctuation .closing)

theorem isBalanced_nil : IsBalanced [] where
  sane p hp := by simp [List.prefix_nil.1 hp]
  settled := rfl

theorem IsBalanced.cons {b : Box} {ms : List Box} (h : IsBalanced ms)
    (hb : ∀ q, b ≠ punctuation q) : IsBalanced (b :: ms) where
  sane p hp := by
    rcases List.prefix_cons_iff.1 hp with rfl | ⟨q, rfl, hq⟩
    · exact Nat.le_refl _
    · simpa [List.count_cons, hb] using h.sane q hq
  settled := by simpa [List.count_cons, hb] using h.settled

theorem isBalanced_of_forall_ne {ms : List Box} (h : ∀ b ∈ ms, ∀ q, b ≠ punctuation q) :
    IsBalanced ms := by
  induction ms with
  | nil => exact isBalanced_nil
  | cons b ms ih =>
    have hms : IsBalanced ms := ih fun c hc => h c (List.mem_cons_of_mem b hc)
    exact hms.cons (h b List.mem_cons_self)

theorem IsBalanced.parenthesized {ms : List Box} (h : IsBalanced ms) :
    IsBalanced (punctuation .opening :: ms ++ [punctuation .closing]) where
  sane p hp := by
    rw [List.cons_append] at hp
    rcases List.prefix_cons_iff.1 hp with rfl | ⟨q, rfl, hq⟩
    · exact Nat.le_refl _
    · rcases List.prefix_concat_iff.1 hq with rfl | hq
      · simp [h.settled]
      · have hle := h.sane q hq
        simp only [List.count_cons, beq_self_eq_true, if_true]
        rw [if_neg (by decide)]
        omega
  settled := by simp [h.settled]

theorem IsBalanced.wrapped {ms : List Box} (h : IsBalanced ms) (depth : Nat) :
    IsBalanced (wrapped depth ms) := by
  induction depth with
  | zero => simpa [Box.wrapped] using h
  | succ depth ih =>
    rw [wrapped_succ]
    exact ih.parenthesized

/-- What stands in a group between the parentheses that share it, `depth` on either side. Its parts
are terminals, constants and groups, that is boxes that can be selected. -/
inductive IsCore (depth : Nat) : List Box → Prop
  | empty : IsCore depth []
  | negation {b : Box} (hb : b.isSelectable = true) :
    IsCore depth [terminal Formula.minusSign, b]
  | operation {l r : Box} (symbol : String) (id : Nat) (hl : l.isSelectable = true)
    (hr : r.isSelectable = true) : IsCore depth [l, operator symbol id, r]
  | call {bs : List Box} (name : String) (hbs : ∀ b ∈ bs, b.isSelectable = true) :
    IsCore depth (function name :: punctuation .opening :: bs ++ [punctuation .closing])
  /-- A token alone is no group, so it only stands in one between parentheses. -/
  | token {b : Box} (hdepth : 0 < depth) (hb : b.isSelectable = true) (hmembers : b.members? = none) :
    IsCore depth [b]

theorem isOperator_of_isSelectable {b : Box} (h : b.isSelectable = true) : b.isOperator = false := by
  cases b <;> simp_all [isSelectable, isOperator]

theorem isFunction_of_isSelectable {b : Box} (h : b.isSelectable = true) : b.isFunction = false := by
  cases b <;> simp_all [isSelectable, isFunction]

theorem ne_punctuation_of_isSelectable {b : Box} (h : b.isSelectable = true) (q : Parenthesis) :
    b ≠ punctuation q := by
  rintro rfl
  simp [isSelectable] at h

theorem operator_between_of_forall {ms : List Box} (h : ∀ b ∈ ms, b.isOperator = false) :
    ms.countP isOperator ≤ 1 ∧
    ∀ j b, ms[j]? = some b → b.isOperator = true → 0 < j ∧ j + 1 < ms.length := by
  have hcount : ms.countP isOperator = 0 := List.countP_eq_zero.2 fun b hb => by simp [h b hb]
  refine ⟨by omega, fun j b hj hb => ?_⟩
  simp [h b (List.mem_of_getElem? hj)] at hb

namespace IsCore

variable {depth : Nat} {core : List Box}

theorem isBalanced (h : IsCore depth core) : IsBalanced core := by
  cases h with
  | empty => exact isBalanced_nil
  | negation hb =>
    exact (isBalanced_nil.cons (ne_punctuation_of_isSelectable hb)).cons (by simp)
  | operation symbol id hl hr =>
    have hright := isBalanced_nil.cons (ne_punctuation_of_isSelectable hr)
    exact (hright.cons (by simp)).cons (ne_punctuation_of_isSelectable hl)
  | call name hbs =>
    have hargs := isBalanced_of_forall_ne fun b hb => ne_punctuation_of_isSelectable (hbs b hb)
    exact hargs.parenthesized.cons (by simp)
  | token _ hb _ => exact isBalanced_nil.cons (ne_punctuation_of_isSelectable hb)

theorem operator_between (h : IsCore depth core) :
    core.countP isOperator ≤ 1 ∧
    ∀ j b, core[j]? = some b → b.isOperator = true → 0 < j ∧ j + 1 < core.length := by
  cases h with
  | empty => exact operator_between_of_forall (by simp)
  | negation hb => exact operator_between_of_forall (by simp [isOperator_of_isSelectable hb])
  | operation symbol id hl hr =>
    have hl := isOperator_of_isSelectable hl
    have hr := isOperator_of_isSelectable hr
    refine ⟨by simp [List.countP_cons, hl, hr], fun j b hj hb => ?_⟩
    match j, hj with
    | 0, hj =>
      obtain rfl := Option.some.inj hj
      simp [hl] at hb
    | 1, _ => exact ⟨Nat.one_pos, Nat.lt_succ_self 2⟩
    | 2, hj =>
      obtain rfl := Option.some.inj hj
      simp [hr] at hb
  | call name hbs =>
    have hbs := fun b hb => isOperator_of_isSelectable (hbs b hb)
    refine operator_between_of_forall fun b hb => ?_
    simp only [List.cons_append, List.mem_cons, List.mem_append, List.not_mem_nil, or_false] at hb
    rcases hb with rfl | rfl | hb | rfl
    · rfl
    · rfl
    · exact hbs b hb
    · rfl
  | token _ hb _ => exact operator_between_of_forall (by simp [isOperator_of_isSelectable hb])

theorem countP_isFunction_le (h : IsCore depth core) : core.countP isFunction ≤ 1 := by
  cases h with
  | empty => simp
  | negation hb => simp [isFunction_of_isSelectable hb]
  | operation symbol id hl hr =>
    simp [isFunction_of_isSelectable hl, isFunction_of_isSelectable hr]
  | call name hbs =>
    have hargs := List.countP_eq_zero.2 fun b hb =>
      Bool.eq_false_iff.1 (isFunction_of_isSelectable (hbs b hb))
    simp [List.countP_cons, hargs]
  | token _ hb _ => simp [isFunction_of_isSelectable hb]

/-- Only between parentheses a box stands alone. -/
theorem length_ne_one (h : IsCore depth core) (hdepth : depth = 0) : core.length ≠ 1 := by
  cases h with
  | token hpos => omega
  | _ => simp

end IsCore

@[simp] theorem length_wrapped (depth : Nat) (ms : List Box) :
    (wrapped depth ms).length = depth + ms.length + depth := by
  simp [wrapped, Nat.add_assoc]

theorem countP_wrapped {f : Box → Bool} (hf : ∀ q, f (punctuation q) = false) (depth : Nat)
    (ms : List Box) : (wrapped depth ms).countP f = ms.countP f := by
  simp [wrapped, List.countP_replicate, hf]

structure IsWellFormed (ms : List Box) : Prop where
  shape : ∃ depth core, IsCore depth core ∧ ms = wrapped depth core
  length_ne_one : ms.length ≠ 1
  operators : ms.countP isOperator ≤ 1
  operator_between :
    ∀ i b, ms[i]? = some b → b.isOperator = true → 0 < i ∧ i + 1 < ms.length
  functions : ms.countP isFunction ≤ 1
  balanced : IsBalanced ms

theorem IsCore.isWellFormed {depth : Nat} {core : List Box} (h : IsCore depth core) :
    IsWellFormed (wrapped depth core) where
  shape := ⟨depth, core, h, rfl⟩
  length_ne_one := by
    have hlength := h.length_ne_one
    rw [length_wrapped]
    omega
  operators := by
    rw [countP_wrapped isOperator_punctuation]
    exact h.operator_between.1
  operator_between i b hi hb := by
    rcases of_getElem?_wrapped hi with ⟨j, rfl, hj⟩ | ⟨q, rfl⟩
    · have hbetween := h.operator_between.2 j b hj hb
      rw [length_wrapped]
      omega
    · simp at hb
  functions := by
    rw [countP_wrapped isFunction_punctuation]
    exact h.countP_isFunction_le
  balanced := h.isBalanced.wrapped depth

/-- A token is a core if there are parentheses around it, and only a group can do without. -/
theorem isCore_spliced_token {b : Box} {depth : Nat} (hb : b.members? = none)
    (hselect : b.isSelectable = true) (hdepth : depth = 0 → ∃ ms, b = group ms) :
    IsCore depth b.spliced := by
  have hgroup : ∀ ms, b ≠ group ms := by
    rintro ms rfl
    simp [members?] at hb
  have hpos : 0 < depth := by
    refine Nat.pos_of_ne_zero fun h => ?_
    obtain ⟨ms, hms⟩ := hdepth h
    exact hgroup ms hms
  rw [spliced_of_ne_group hgroup]
  exact .token hpos hselect hb

theorem eq_wrapped_of_iterate_parenthesized {b : Box} {ms : List Box} {depth : Nat}
    (h : parenthesized^[depth] b = group ms) : ms = wrapped depth b.spliced := by
  cases depth with
  | zero =>
    obtain rfl : b = group ms := h
    simp [wrapped]
  | succ depth =>
    rw [iterate_parenthesized] at h
    exact (group.inj h).symm

end Box

namespace Formula

/-- A node that is no parenthesis is drawn with a core, where a token needs parentheses around it to
stand in a group. -/
theorem isCore_spliced_box {n : Formula} (hn : n.isParen = false) (first : Nat) {depth : Nat}
    (hdepth : depth = 0 → ∃ ms, n.box first = .group ms) :
    Box.IsCore depth (n.box first).spliced := by
  cases n with
  | number m => exact Box.isCore_spliced_token rfl rfl hdepth
  | pi => exact Box.isCore_spliced_token rfl rfl hdepth
  | e => exact Box.isCore_spliced_token rfl rfl hdepth
  | var name => exact Box.isCore_spliced_token rfl rfl hdepth
  | negation a => exact .negation (a.isSelectable_box first)
  | power a x => exact .operation _ _ (isSelectable_box _ _) (isSelectable_box _ _)
  | binary o l r => exact .operation _ _ (isSelectable_box _ _) (isSelectable_box _ _)
  | call name as =>
    refine .call name fun b hb => ?_
    obtain ⟨a, first', rfl⟩ := exists_eq_box_of_mem_argumentBoxes hb
    exact a.isSelectable_box first'
  | paren a => simp [isParen] at hn
  | unrecognized => exact .empty

theorem isWellFormed_of_get?_box {t : Formula} {g : Box.Path} {ms : List Box}
    (h : (t.box 0).get? g = some (.group ms)) : Box.IsWellFormed ms := by
  obtain ⟨p, n, hp, hn, rfl⟩ := exists_place_of_get?_box h
  have hplace := get?_box_place 0 hp
  rw [h, Option.some.injEq] at hplace
  obtain rfl := Box.eq_wrapped_of_iterate_parenthesized hplace.symm
  refine (isCore_spliced_box hn _ fun hdepth => ?_).isWellFormed
  rw [hdepth] at hplace
  exact ⟨_, hplace.symm⟩

theorem box_iterate_paren (n : Formula) (first k : Nat) :
    (paren^[k] n).box first = Box.parenthesized^[k] (n.box first) := by
  induction k with
  | zero => rfl
  | succ k ih => rw [Function.iterate_succ_apply', Function.iterate_succ_apply', box, ih]

/-- Parentheses around parentheses share one group with what stands between them, and with those
that stand around them all. -/
theorem get?_box_of_iterate_paren {t n : Formula} {p : Path} {k : Nat}
    (h : t.get? p = some (paren^[k + 1] n)) :
    ∃ first, (t.box 0).get? (t.place p).path =
      some (.group (Box.wrapped ((t.place p).depth + (k + 1)) (n.box first).spliced)) := by
  refine ⟨0 + t.operatorsBefore p, ?_⟩
  rw [get?_box_place 0 h, box_iterate_paren, ← Function.iterate_add_apply, ← Nat.add_assoc,
    Box.iterate_parenthesized]

/-- Every group of a drawing is made of parentheses, as many on either side, around what a single
node is drawn with. So it has never one member, at most one operator, which stands between other
members, at most one name of a function, and its parentheses are balanced. Parentheses around a part
never make groups inside one another: all of them stand in the one group that has the members of
the part between them. -/
theorem groups_isWellFormed (t : Formula) :
    (∀ g ms, t.drawing.box.get? g = some (.group ms) → Box.IsWellFormed ms) ∧
    ∀ p n k, t.get? p = some (paren^[k + 1] n) →
      ∃ g outer first, t.drawing.box.get? g =
          some (.group (Box.wrapped (outer + (k + 1)) (n.box first).spliced)) ∧
        (¬ t.IsBetweenParens p → outer = 0) := by
  refine ⟨fun g ms hg => isWellFormed_of_get?_box hg, fun p n k hp => ?_⟩
  obtain ⟨first, hg⟩ := get?_box_of_iterate_paren hp
  exact ⟨_, _, first, hg, depth_place_eq_zero hp⟩

end Formula

end FormulaEditor
