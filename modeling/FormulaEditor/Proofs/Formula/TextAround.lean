import FormulaEditor.Proofs.Formula.OperatorTable
import FormulaEditor.Proofs.Formula.Replacement
/-! The text of a formula around one of its parts. It does not depend on the part, so a deletion
shows in the text as one stretch that gives way to another one: the text of the operation, or of all
arguments beside it, to that of the operand that stays. -/
namespace FormulaEditor
namespace Formula

theorem texts_eq_join (as : List Formula) : texts as = String.join (as.map text) := by
  induction as with
  | nil => rfl
  | cons a as ih => simp [texts, ih]

@[simp] theorem texts_append (as bs : List Formula) : texts (as ++ bs) = texts as ++ texts bs := by
  simp only [texts_eq_join, List.map_append, String.join_append]

/-- What is read before and after a child does not depend on it. -/
theorem exists_text_of_setChild? (t : Formula) (s : Step) :
    ∃ before after, ∀ w u, t.setChild? s w = some u → u.text = before ++ w.text ++ after := by
  cases t <;> cases s <;> simp only [setChild?, reduceCtorEq, false_implies, implies_true,
    exists_const, Option.some.injEq, forall_eq']
  case call.argument name as i =>
    refine ⟨name ++ "(" ++ texts (as.take i), texts (as.drop (i + 1)) ++ ")", fun w u hu => ?_⟩
    have hu : (call name as).setChild? (.argument i) w = some u := hu
    obtain ⟨_, rfl⟩ := of_setChild?_argument hu
    simp [text, texts, String.append_assoc]
  case power.expression a x =>
    exact ⟨"", " " ++ powerSymbol ++ " " ++ x.text, by simp [text, String.append_assoc]⟩
  case power.power a x =>
    exact ⟨a.text ++ " " ++ powerSymbol ++ " ", "", by simp [text]⟩
  case binary.left o l r =>
    exact ⟨"", " " ++ o.symbol ++ " " ++ r.text, by simp [text, String.append_assoc]⟩
  case binary.right o l r =>
    exact ⟨l.text ++ " " ++ o.symbol ++ " ", "", by simp [text]⟩
  case negation.expression a => exact ⟨minusSign, "", by simp [text]⟩
  case paren.expression a => exact ⟨"(", ")", by simp [text]⟩

/-- The texts before and after the place that `p` leads to, whatever stands there. -/
def IsTextAround (t : Formula) (p : Path) (before after : String) : Prop :=
  ∀ w u, t.set? w p = some u → u.drawing.text = before ++ w.drawing.text ++ after

/-- The texts before and after the arguments of the call that `q` leads to, whatever these are. -/
def IsTextAroundArguments (t : Formula) (q : Path) (name before after : String) : Prop :=
  ∀ bs u, t.set? (call name bs) q = some u →
    u.drawing.text = before ++ String.join (bs.map fun b => b.drawing.text) ++ after

theorem exists_isTextAround (t : Formula) (p : Path) :
    ∃ before after, t.IsTextAround p before after := by
  induction p generalizing t with
  | nil =>
    refine ⟨"", "", fun w u hu => ?_⟩
    obtain rfl := Option.some.inj hu
    simp
  | cons s p ih =>
    cases hc : t.child? s with
    | none => exact ⟨"", "", fun w u hu => by simp [hc] at hu⟩
    | some c =>
      obtain ⟨before, after, hchild⟩ := t.exists_text_of_setChild? s
      obtain ⟨before', after', hpart⟩ := ih c
      refine ⟨before ++ before', after' ++ after, fun w u hu => ?_⟩
      rw [set?_cons, hc, Option.bind_some] at hu
      obtain ⟨a, ha, hu⟩ := Option.bind_eq_some_iff.1 hu
      have ha : a.text = before' ++ w.text ++ after' := hpart w a ha
      calc
        u.text = before ++ a.text ++ after := hchild a u hu
        _ = _ := by simp only [ha, String.append_assoc]; rfl

theorem IsTextAround.arguments {t : Formula} {q : Path} {before after : String}
    (h : t.IsTextAround q before after) (name : String) :
    t.IsTextAroundArguments q name (before ++ name ++ "(") (")" ++ after) := by
  intro bs u hu
  have hcall : u.text = before ++ (call name bs).text ++ after := h _ u hu
  simpa [drawing, text, texts_eq_join, String.append_assoc, Function.comp_def] using hcall

theorem exists_text_operands {n : Formula} (hn : n.isOperation = true) :
    ∃ l r symbol, n.operand? .left = some l ∧ n.operand? .right = some r ∧
      n.symbol? = some symbol ∧ n.text = l.text ++ (" " ++ symbol ++ " ") ++ r.text := by
  cases n with
  | power a x => exact ⟨a, x, _, rfl, rfl, rfl, by simp [text, String.append_assoc]⟩
  | binary o l r => exact ⟨l, r, _, rfl, rfl, rfl, by simp [text, String.append_assoc]⟩
  | _ => simp [isOperation] at hn

/-- The text of `u` is that of `t` with the text of `kept` in the place of that of the part at `p`,
which stands between `before` and `after`. If all arguments beside the part go with it, their texts
together give way to that of `kept`. -/
structure IsTextCollapse (t : Formula) (p : Path) (kept : Formula) (collapse : Collapse)
    (before after : String) (u : Formula) : Prop where
  matched : collapse = .replaceMatched ∨ ¬ p.IsArgument →
    u.drawing.text = before ++ kept.drawing.text ++ after
  all : ∀ (q : Path) i, collapse = .replaceAll → p = q.child (.argument i) →
    ∃ name as before after, t.get? q = some (call name as) ∧
      t.IsTextAroundArguments q name before after ∧
      t.drawing.text = before ++ String.join (as.map fun a => a.drawing.text) ++ after ∧
      u.drawing.text = before ++ kept.drawing.text ++ after

theorem IsCollapse.isTextCollapse {t kept u : Formula} {p : Path} {collapse : Collapse}
    {before after : String} (h : t.IsCollapse p kept collapse u)
    (haround : t.IsTextAround p before after) :
    t.IsTextCollapse p kept collapse before after u where
  matched hmatched := haround _ _ (h.set?_of_matched hmatched)
  all q i hall hq := by
    obtain ⟨name, as, hcall, hset⟩ := h.all q i hall hq
    obtain ⟨before, after, hcallText⟩ := t.exists_isTextAround q
    have harguments := hcallText.arguments name
    refine ⟨name, as, _, _, hcall, harguments, harguments _ _ (set?_of_get? hcall), ?_⟩
    simpa using harguments _ _ hset

/-- A deletion shows in the text as one substitution. What is read before and after the operation
stays and does not depend on it, and the operand that stays is the beginning or the end of the text
of the operation, up to its symbol. -/
theorem text_deleteOperand {t : Formula} {id : Nat} {p : Path}
    (hid : t.drawing.operators[id]? = some p) :
    ∃ n before after, t.get? p = some n ∧ t.IsTextAround p before after ∧
      t.drawing.text = before ++ n.drawing.text ++ after ∧
      (∃ l r symbol, n.operand? .left = some l ∧ n.operand? .right = some r ∧
        n.symbol? = some symbol ∧
        n.drawing.text = l.drawing.text ++ (" " ++ symbol ++ " ") ++ r.drawing.text) ∧
      ∀ side collapse, ∃ kept, n.operand? side.opposite = some kept ∧
        t.IsTextCollapse p kept collapse before after
          (t.deleteOperand t.drawing.operators id side collapse) := by
  obtain ⟨n, hn, hop⟩ := mem_operators_iff.1 (List.mem_of_getElem? hid)
  obtain ⟨before, after, haround⟩ := t.exists_isTextAround p
  refine ⟨n, before, after, hn, haround, haround _ _ (set?_of_get? hn), exists_text_operands hop,
    fun side collapse => ?_⟩
  obtain ⟨kept, hk⟩ := (exists_operand?_iff side.opposite).2 hop
  exact ⟨kept, hk, (deleteOperand_isCollapse hid hn hk collapse).isTextCollapse haround⟩

/-- `f((a), y ^ n - (-z), b)` -/
def differenceInCall : Formula :=
  call "f" [paren (var "a"), binary .subtraction (power (var "y") (var "n"))
    (paren (negation (var "z"))), var "b"]

theorem text_deleteOperand_differenceInCall :
    differenceInCall.drawing.operators[1]? = some [.argument 1] ∧
      differenceInCall.drawing.text = "f((a)y ^ n - (-z)b)" ∧
      (differenceInCall.deleteOperand differenceInCall.drawing.operators 1 .right
        .replaceMatched).drawing.text = "f((a)y ^ nb)" ∧
      (differenceInCall.deleteOperand differenceInCall.drawing.operators 1 .right
        .replaceAll).drawing.text = "f(y ^ n)" ∧
      ∃ n before after, differenceInCall.get? [.argument 1] = some n ∧
        differenceInCall.IsTextAround [.argument 1] before after ∧
        differenceInCall.drawing.text = before ++ n.drawing.text ++ after ∧
        (∃ l r symbol, n.operand? .left = some l ∧ n.operand? .right = some r ∧
          n.symbol? = some symbol ∧
          n.drawing.text = l.drawing.text ++ (" " ++ symbol ++ " ") ++ r.drawing.text) ∧
        ∀ side collapse, ∃ kept, n.operand? side.opposite = some kept ∧
          differenceInCall.IsTextCollapse [.argument 1] kept collapse before after
            (differenceInCall.deleteOperand differenceInCall.drawing.operators 1 side collapse) :=
  ⟨rfl, by decide, by decide, by decide, text_deleteOperand rfl⟩

end Formula

end FormulaEditor
