import FormulaEditor.Proofs.Formula.Deletion
/-! What a deletion leaves of a formula. Read from the root down and from left to right, what stands
in the formula afterwards stood in it before, in this order, and an operator is gone. -/
namespace FormulaEditor
namespace Formula

/-- What a formula is apart from its children. -/
inductive Label
  | number (value : Number)
  | pi
  | e
  | var (name : String)
  | negation
  | power
  | binary (operator : Operator)
  | call (name : String)
  | paren
  | unrecognized
  deriving DecidableEq

def Label.isOperation : Label → Bool
  | power | binary _ => true
  | _ => false

mutual

def labels : Formula → List Label
  | number n => [.number n]
  | pi => [.pi]
  | e => [.e]
  | var name => [.var name]
  | negation a => .negation :: a.labels
  | power a x => .power :: (a.labels ++ x.labels)
  | binary o l r => .binary o :: (l.labels ++ r.labels)
  | call name as => .call name :: labelsOfArguments as
  | paren a => .paren :: a.labels
  | unrecognized => [.unrecognized]

def labelsOfArguments : List Formula → List Label
  | [] => []
  | a :: as => a.labels ++ labelsOfArguments as

end

@[simp] theorem labelsOfArguments_append (as bs : List Formula) :
    labelsOfArguments (as ++ bs) = labelsOfArguments as ++ labelsOfArguments bs := by
  induction as with
  | nil => rfl
  | cons a as ih => simp [labelsOfArguments, ih]

mutual

theorem countP_labels (t : Formula) : t.labels.countP Label.isOperation = t.operatorCount := by
  cases t <;>
    simp [labels, operatorCount, Label.isOperation, List.countP_cons, countP_labels,
      countP_labelsOfArguments]

theorem countP_labelsOfArguments (as : List Formula) :
    (labelsOfArguments as).countP Label.isOperation = argumentOperatorCount as := by
  cases as <;>
    simp [labelsOfArguments, argumentOperatorCount, countP_labels, countP_labelsOfArguments]

end

/-- The labels of a child are a stretch of those of its parent, and another child has its labels in
the same place. -/
theorem labels_of_child? {t c : Formula} {s : Step} (h : t.child? s = some c) :
    ∃ before after, t.labels = before ++ c.labels ++ after ∧
      ∀ w u, t.setChild? s w = some u → u.labels = before ++ w.labels ++ after := by
  cases t <;> cases s <;> simp only [child?, reduceCtorEq, Option.some.injEq] at h
  case call.argument name as i =>
    obtain ⟨hi, rfl⟩ := List.getElem?_eq_some_iff.1 h
    have has : as = as.take i ++ as[i] :: as.drop (i + 1) := by simp
    refine ⟨.call name :: labelsOfArguments (as.take i), labelsOfArguments (as.drop (i + 1)),
      ?_, ?_⟩
    · calc
        labels (call name as) = labels (call name (as.take i ++ as[i] :: as.drop (i + 1))) := by
          rw [← has]
        _ = _ := by
          rw [labels, labelsOfArguments_append, labelsOfArguments, List.cons_append,
            List.cons_append, List.append_assoc]
    · intro w u hu
      obtain ⟨_, rfl⟩ := of_setChild?_argument hu
      simp [labels, labelsOfArguments]
  all_goals subst h
  case power.expression a x =>
    refine ⟨[.power], x.labels, rfl, fun w u hu => ?_⟩
    obtain rfl := Option.some.inj hu
    rfl
  case power.power a x =>
    refine ⟨.power :: a.labels, [], by simp [labels], fun w u hu => ?_⟩
    obtain rfl := Option.some.inj hu
    simp [labels]
  case binary.left o l r =>
    refine ⟨[.binary o], r.labels, rfl, fun w u hu => ?_⟩
    obtain rfl := Option.some.inj hu
    rfl
  case binary.right o l r =>
    refine ⟨.binary o :: l.labels, [], by simp [labels], fun w u hu => ?_⟩
    obtain rfl := Option.some.inj hu
    simp [labels]
  case negation.expression a =>
    refine ⟨[.negation], [], by simp [labels], fun w u hu => ?_⟩
    obtain rfl := Option.some.inj hu
    simp [labels]
  case paren.expression a =>
    refine ⟨[.paren], [], by simp [labels], fun w u hu => ?_⟩
    obtain rfl := Option.some.inj hu
    simp [labels]

/-- The first formula has no label that the second one has not, in another order or more often, and
fewer operators. -/
structure IsPruned (u t : Formula) : Prop where
  sublist : u.labels.Sublist t.labels
  fewer : u.operatorCount < t.operatorCount

theorem IsPruned.labels_ne {u t : Formula} (h : u.IsPruned t) : u.labels ≠ t.labels := by
  intro he
  have hfewer := h.fewer
  rw [← countP_labels, ← countP_labels, he] at hfewer
  exact Nat.lt_irrefl _ hfewer

theorem isPruned_of_stretch {u t w c : Formula} {before before' after after' : List Label}
    (ht : t.labels = before ++ c.labels ++ after) (hu : u.labels = before' ++ w.labels ++ after')
    (hbefore : before'.Sublist before) (hafter : after'.Sublist after) (h : w.IsPruned c) :
    u.IsPruned t where
  sublist := by
    rw [ht, hu]
    exact (hbefore.append h.sublist).append hafter
  fewer := by
    have hfewer := h.fewer
    have hb : before'.countP Label.isOperation ≤ _ := hbefore.countP_le
    have ha : after'.countP Label.isOperation ≤ _ := hafter.countP_le
    simp only [← countP_labels, ht, hu, List.countP_append] at hfewer ⊢
    omega

theorem isHereditary_isPruned : IsHereditary IsPruned where
  ofChild hc hu hw := by
    obtain ⟨before, after, ht, hset⟩ := labels_of_child? hc
    exact isPruned_of_stretch ht (hset _ _ hu) (.refl before) (.refl after) hw
  ofArgument {name as c w} hc hw := by
    obtain ⟨before, after, rfl⟩ := List.append_of_mem hc
    have hcall : labels (call name (before ++ c :: after)) =
        (.call name :: labelsOfArguments before) ++ c.labels ++ labelsOfArguments after := by
      simp [labels, labelsOfArguments]
    have hsingle : labels (call name [w]) = [.call name] ++ w.labels ++ [] := by
      simp [labels, labelsOfArguments]
    exact isPruned_of_stretch hcall hsingle ((List.nil_sublist _).cons_cons _)
      (List.nil_sublist _) hw

/-- An operand is what is left of an operation without its operator and the other operand. -/
theorem isPruned_of_operand? {n x : Formula} {side : Side} (h : n.operand? side = some x) :
    x.IsPruned n := by
  cases n <;> cases side <;> simp only [operand?, reduceCtorEq, Option.some.injEq] at h
  all_goals
    subst h
    constructor
  case power.left.sublist a x => exact (List.sublist_append_left a.labels x.labels).cons _
  case power.right.sublist a x => exact (List.sublist_append_right a.labels x.labels).cons _
  case binary.left.sublist o l r => exact (List.sublist_append_left l.labels r.labels).cons _
  case binary.right.sublist o l r => exact (List.sublist_append_right l.labels r.labels).cons _
  all_goals
    rw [operatorCount]
    omega

theorem isPruned_deleteOperand {t n : Formula} {p : Path} {operators : List Path} {id : Nat}
    (hid : operators[id]? = some p) (hn : t.get? p = some n) (hop : n.isOperation = true)
    (side : Side) (collapse : Collapse) :
    (t.deleteOperand operators id side collapse).IsPruned t := by
  obtain ⟨kept, hk⟩ := (exists_operand?_iff side.opposite).2 hop
  have hcollapse := deleteOperand_isCollapse hid hn hk collapse
  exact isHereditary_isPruned.of_isCollapse hn (isPruned_of_operand? hk) hcollapse

end Formula

end FormulaEditor
