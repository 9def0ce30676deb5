import FormulaEditor.Proofs.Formula.TextAround
import Mathlib.Data.Set.Card
/-! The drawing of a part in the drawing of the whole. It is the drawing that the part has on its
own, with the operators numbered after those that come before, and between parentheses it shares
their group. -/
namespace FormulaEditor

namespace Box

mutual

def renumbered (c : Nat) : Box → Box
  | operator symbol id => operator symbol (id + c)
  | group bs => group (renumberedMembers c bs)
  | b => b

def renumberedMembers (c : Nat) : List Box → List Box
  | [] => []
  | b :: bs => b.renumbered c :: renumberedMembers c bs

end

@[simp] theorem renumberedMembers_append (c : Nat) (bs cs : List Box) :
    renumberedMembers c (bs ++ cs) = renumberedMembers c bs ++ renumberedMembers c cs := by
  induction bs with
  | nil => rfl
  | cons b bs ih => simp [renumberedMembers, ih]

theorem spliced_renumbered (c : Nat) (b : Box) :
    (b.renumbered c).spliced = renumberedMembers c b.spliced := by
  cases b <;> simp [renumbered, renumberedMembers, spliced]

theorem renumbered_parenthesized (c : Nat) (b : Box) :
    b.parenthesized.renumbered c = (b.renumbered c).parenthesized := by
  simp [parenthesized, renumbered, renumberedMembers, spliced_renumbered]

end Box

namespace Formula

mutual

/-- Numbering the operators from another number on renumbers them. -/
theorem renumbered_box (t : Formula) (first c : Nat) :
    (t.box first).renumbered c = t.box (first + c) := by
  cases t with
  | paren a => rw [box, Box.renumbered_parenthesized, renumbered_box, box]
  | _ =>
    simp [box, Box.infixed, Box.called, Box.empty, Box.renumbered, Box.renumberedMembers,
      renumbered_box, renumberedMembers_argumentBoxes, Nat.add_right_comm]

theorem renumberedMembers_argumentBoxes (as : List Formula) (first c : Nat) :
    Box.renumberedMembers c (argumentBoxes first as) = argumentBoxes (first + c) as := by
  cases as <;>
    simp [argumentBoxes, Box.renumberedMembers, renumbered_box, renumberedMembers_argumentBoxes,
      Nat.add_right_comm]

end

mutual

theorem box_of_operatorCount_eq_zero {t : Formula} (h : t.operatorCount = 0) (first : Nat) :
    t.box first = t.box 0 := by
  cases t with
  | negation a =>
    have ha : a.operatorCount = 0 := h
    rw [box, box, box_of_operatorCount_eq_zero ha first]
  | paren a =>
    have ha : a.operatorCount = 0 := h
    rw [box, box, box_of_operatorCount_eq_zero ha first]
  | call name as =>
    have has : argumentOperatorCount as = 0 := h
    rw [box, box, argumentBoxes_of_operatorCount_eq_zero has first]
  | power a x => simp [operatorCount] at h
  | binary o l r => simp [operatorCount] at h
  | _ => rfl

theorem argumentBoxes_of_operatorCount_eq_zero {as : List Formula}
    (h : argumentOperatorCount as = 0) (first : Nat) :
    argumentBoxes first as = argumentBoxes 0 as := by
  cases as with
  | nil => rfl
  | cons a as =>
    obtain ⟨ha, has⟩ := Nat.add_eq_zero_iff.1 h
    rw [argumentBoxes, argumentBoxes, ha, box_of_operatorCount_eq_zero ha first,
      argumentBoxes_of_operatorCount_eq_zero has]

end

/-- How many operations of `t` come before all those of `n`, which is the part at `p`, where children
come from left to right and each part comes after its children. -/
noncomputable def operationsBefore (t n : Formula) (p : Path) : Nat :=
  Set.ncard {q | (∃ m, t.get? q = some m ∧ m.isOperation = true) ∧
    ∀ r m, n.get? r = some m → m.isOperation = true → q.Precedes (p ++ r)}

/-- The table lists every operation once, so they can be counted there. -/
theorem operationsBefore_eq_countP (t n : Formula) (p : Path) :
    t.operationsBefore n p =
      t.operators.countP fun q => ∀ r ∈ n.operators, q.Precedes (p ++ r) := by
  have hset : {q | (∃ m, t.get? q = some m ∧ m.isOperation = true) ∧
        ∀ r m, n.get? r = some m → m.isOperation = true → q.Precedes (p ++ r)} =
      ↑(t.operators.filter fun q => ∀ r ∈ n.operators, q.Precedes (p ++ r)).toFinset := by
    ext q
    simp [mem_operators_iff]
  rw [operationsBefore, hset, Set.ncard_coe_finset,
    List.toFinset_card_of_nodup (t.nodup_operators.filter _), List.countP_eq_length_filter]

theorem operationsBefore_eq {t n : Formula} {p : Path} (h : t.get? p = some n)
    (hn : n.operators ≠ []) : t.operationsBefore n p = t.operatorsBefore p := by
  obtain ⟨before, after, ht, hlength⟩ := operators_of_get? h
  have hsorted := t.pairwise_precedes_operators
  rw [ht, List.append_assoc, List.pairwise_append, List.pairwise_append] at hsorted
  obtain ⟨-, ⟨-, -, hafter⟩, hbefore⟩ := hsorted
  obtain ⟨r, hr⟩ := List.exists_mem_of_ne_nil _ hn
  have hlisted : p ++ r ∈ n.operators.map (p ++ ·) := List.mem_map_of_mem hr
  have hcountBefore : before.countP (fun q => ∀ r ∈ n.operators, q.Precedes (p ++ r)) =
      before.length := by
    refine List.countP_eq_length.2 fun q hq => decide_eq_true fun r hr => ?_
    exact hbefore q hq _ (List.mem_append_left _ (List.mem_map_of_mem hr))
  have hcountOwn : (n.operators.map (p ++ ·)).countP
      (fun q => ∀ r ∈ n.operators, q.Precedes (p ++ r)) = 0 := by
    refine List.countP_eq_zero.2 fun q hq hall => ?_
    obtain ⟨r', hr', rfl⟩ := List.mem_map.1 hq
    exact Path.not_precedes_self _ (of_decide_eq_true hall r' hr')
  have hcountAfter : after.countP (fun q => ∀ r ∈ n.operators, q.Precedes (p ++ r)) = 0 := by
    refine List.countP_eq_zero.2 fun q hq hall => ?_
    exact (hafter _ hlisted q hq).asymm (of_decide_eq_true hall r hr)
  rw [operationsBefore_eq_countP, ht, List.countP_append, List.countP_append, hcountBefore,
    hcountOwn, hcountAfter, ← hlength]
  rfl

theorem renumbered_operationsBefore {t n : Formula} {p : Path} (h : t.get? p = some n) :
    (n.box 0).renumbered (t.operationsBefore n p) = n.box (0 + t.operatorsBefore p) := by
  rw [renumbered_box]
  by_cases hn : n.operators = []
  · have hzero : n.operatorCount = 0 := by rw [← length_operators, hn, List.length_nil]
    rw [box_of_operatorCount_eq_zero hzero, box_of_operatorCount_eq_zero hzero (0 + _)]
  · rw [operationsBefore_eq h hn]

/-- The box `b` of the part at `p`, numbered as in the whole, occurs in the box of `t`. A group
between parentheses is spliced into the group in which these stand, so its members are a stretch
there, directly between the parentheses and whatever other ones share the group. All else is a box
of its own. -/
structure OccursAt (t : Formula) (p : Path) (b : Box) : Prop where
  own : ¬ (t.IsBetweenParens p ∧ ∃ ms, b = .group ms) → ∃ g, t.drawing.box.get? g = some b
  spliced : ∀ q a ms, p = Path.child q .expression → t.get? q = some (paren a) → b = .group ms →
    t.drawing.box.get? (t.place q).path = some (.group (Box.wrapped (t.place q).depth
      (.punctuation .opening :: ms ++ [.punctuation .closing])))

theorem get?_box_between {t a : Formula} {q : Path} (hq : t.get? q = some (paren a)) :
    (t.box 0).get? (t.place q).path = some (.group (Box.wrapped ((t.place q).depth + 1)
      (a.box (0 + t.operatorsBefore (Path.child q .expression))).spliced)) := by
  have hplace := get?_box_place 0 (get?_child_paren hq)
  rw [place_child hq rfl] at hplace
  rw [← Box.iterate_parenthesized]
  exact hplace

theorem occursAt_of_get? {t n : Formula} {p : Path} (h : t.get? p = some n) :
    t.OccursAt p (n.box (0 + t.operatorsBefore p)) where
  own hown := by
    by_cases hparen : t.IsBetweenParens p
    · obtain ⟨q, a, rfl, hq⟩ := hparen
      obtain rfl : a = n := Option.some.inj ((get?_child_paren hq).symm.trans h)
      have hgroup := get?_box_between hq
      rw [Box.spliced_of_ne_group fun ms hms => hown ⟨⟨q, a, rfl, hq⟩, ms, hms⟩] at hgroup
      refine ⟨(t.place q).path.child ((t.place q).depth + 1), ?_⟩
      exact (Box.get?_child hgroup _).trans (Box.getElem?_wrapped_add _ (i := 0) Nat.one_pos)
    · have hplace := get?_box_place 0 h
      rw [depth_place_eq_zero h hparen] at hplace
      exact ⟨_, hplace⟩
  spliced q a ms hp hq hb := by
    subst hp
    obtain rfl : a = n := Option.some.inj ((get?_child_paren hq).symm.trans h)
    have hgroup := get?_box_between hq
    rwa [hb, Box.spliced_group, Box.wrapped_succ'] at hgroup

/-- The part at `p` is drawn in the drawing of the whole as it is drawn on its own. The table has the
entries of the part, with `p` in front, after those of all operations that come before them, its
text is a stretch of the text, and its box, numbered accordingly, occurs in the box. -/
theorem drawing_of_part {t n : Formula} {p : Path} (h : t.get? p = some n) :
    (∀ i < n.drawing.operators.length, t.drawing.operators[t.operationsBefore n p + i]? =
      n.drawing.operators[i]?.map (p ++ ·)) ∧
    (∃ before after, t.drawing.text = before ++ n.drawing.text ++ after) ∧
    t.OccursAt p (n.drawing.box.renumbered (t.operationsBefore n p)) := by
  refine ⟨fun i hi => ?_, ?_, ?_⟩
  · obtain ⟨ownBefore, ownAfter, ht, hlength⟩ := operators_of_get? h
    have hn : n.operators ≠ [] := List.ne_nil_of_length_pos (Nat.zero_lt_of_lt hi)
    have hi : i < (n.operators.map (p ++ ·)).length := by rwa [List.length_map]
    calc
      t.operators[t.operationsBefore n p + i]? =
          (ownBefore ++ (n.operators.map (p ++ ·) ++ ownAfter))[ownBefore.length + i]? := by
        rw [operationsBefore_eq h hn, ← hlength, ht, List.append_assoc]
      _ = (n.operators.map (p ++ ·))[i]? := by
        rw [List.getElem?_append_right (Nat.le_add_right _ _), Nat.add_sub_cancel_left,
          List.getElem?_append_left hi]
      _ = n.operators[i]?.map (p ++ ·) := List.getElem?_map
  · obtain ⟨before, after, haround⟩ := t.exists_isTextAround p
    exact ⟨before, after, haround n t (set?_of_get? h)⟩
  · have hbox : n.drawing.box.renumbered _ = _ := renumbered_operationsBefore h
    rw [hbox]
    exact occursAt_of_get? h

/-- `x * y + f(-((a ^ b)))` -/
def powerInNegation : Formula :=
  binary .addition (binary .multiplication (var "x") (var "y"))
    (call "f" [negation (paren (paren (power (var "a") (var "b"))))])

/-- The power has the second number, and its members stand between both parentheses in one group. -/
theorem drawing_of_part_powerInNegation :
    let p := [.right, .argument 0, .expression, .expression, .expression]
    let n := power (var "a") (var "b")
    powerInNegation.get? p = some n ∧ powerInNegation.operationsBefore n p = 1 ∧
    powerInNegation.drawing.box.get? [2, 2, 1] = some (.group (Box.wrapped 2
      [.terminal "a", .operator powerSymbol 1, .terminal "b"])) ∧
    (∀ i < n.drawing.operators.length,
      powerInNegation.drawing.operators[powerInNegation.operationsBefore n p + i]? =
        n.drawing.operators[i]?.map (p ++ ·)) ∧
    (∃ before after, powerInNegation.drawing.text = before ++ n.drawing.text ++ after) ∧
    powerInNegation.OccursAt p
      (n.drawing.box.renumbered (powerInNegation.operationsBefore n p)) :=
  ⟨rfl, by rw [operationsBefore_eq_countP]; decide, rfl, drawing_of_part rfl⟩

end Formula

end FormulaEditor
