import FormulaEditor.Proofs.Formula.Replacement
/-! When it matters what becomes of the other arguments of a call. The two ways to delete an operand
differ in the operations that are one of several arguments, and in no others. -/
namespace FormulaEditor
namespace Formula

/-- What stands at the path is one of at least two arguments of a call. -/
def IsAmongArguments (t : Formula) (p : Path) : Prop :=
  ∃ (q : Path) (i : Nat) (name : String) (as : List Formula), p = q.child (.argument i) ∧
    t.get? q = some (call name as) ∧ 2 ≤ as.length

def LeadsAmongArguments (t : Formula) (operators : List Path) (id : Nat) : Prop :=
  ∃ p n, operators[id]? = some p ∧ t.get? p = some n ∧ n.isOperation = true ∧ t.IsAmongArguments p

theorem set?_child {t c : Formula} {q : Path} (hq : t.get? q = some c) (w : Formula) (s : Step) :
    t.set? w (q.child s) = (c.setChild? s w).bind (t.set? · q) := by
  induction q generalizing t with
  | nil =>
    obtain rfl := Option.some.inj hq
    have hsome := isSome_setChild? t w s
    cases hc : t.child? s with
    | none =>
      rw [hc, Option.isSome_none, Option.isSome_eq_false_iff, Option.isNone_iff_eq_none] at hsome
      simp [Path.child, hc, hsome]
    | some d =>
      obtain ⟨u, hu⟩ := Option.isSome_iff_exists.1 (hsome.trans (by simp [hc]))
      simp [Path.child, hc, hu]
  | cons s' q ih =>
    obtain ⟨d, hd, hq⟩ := Option.bind_eq_some_iff.1 hq
    have hchild : Path.child (s' :: q) s = s' :: Path.child q s := rfl
    rw [hchild, set?_cons, hd, Option.bind_some, ih hq]
    cases c.setChild? s w <;> simp [hd]

theorem set?_injective {t u w w' : Formula} {q : Path} (h : t.set? w q = some u)
    (h' : t.set? w' q = some u) : w = w' := by
  have hw := (isReplacement_of_set? h).here
  rw [(isReplacement_of_set? h').here] at hw
  exact (Option.some.inj hw).symm

/-- An operand that is the only argument of a call is put in the same place either way. Among
several arguments the calls that result have different numbers of arguments. -/
theorem isCollapse_eq_iff {t n kept u v : Formula} {p : Path} (hn : t.get? p = some n)
    (hu : t.IsCollapse p kept .replaceAll u) (hv : t.IsCollapse p kept .replaceMatched v) :
    u = v ↔ ¬ t.IsAmongArguments p := by
  have hset : t.set? kept p = some v := hv.set?_of_matched (.inl rfl)
  by_cases hargument : p.IsArgument
  · obtain ⟨q, i, rfl⟩ := hargument
    obtain ⟨name, as, hq, hcall⟩ := hu.all q i rfl rfl
    have hi : i < as.length := by
      rw [get?_child_argument hq] at hn
      exact (List.getElem?_eq_some_iff.1 hn).1
    rw [set?_child hq] at hset
    simp only [setChild?, hi, if_true, Option.bind_some] at hset
    have hlength : u = v ↔ as.length = 1 := by
      constructor
      · rintro rfl
        obtain ⟨-, hargs⟩ := call.inj (set?_injective hset hcall)
        simpa using congrArg List.length hargs
      · intro hone
        obtain ⟨a, rfl⟩ := List.length_eq_one_iff.1 hone
        obtain rfl : i = 0 := by simpa using hi
        exact Option.some.inj (hcall.symm.trans hset)
    rw [hlength]
    constructor
    · rintro hone ⟨q', i', name', as', hp, hq', htwo⟩
      have hparent := congrArg Path.parent? hp
      rw [Path.parent?_child, Path.parent?_child] at hparent
      obtain ⟨rfl, -⟩ := Prod.mk.inj (Option.some.inj hparent)
      obtain ⟨-, rfl⟩ := call.inj (Option.some.inj (hq.symm.trans hq'))
      omega
    · intro hfew
      have htwo : ¬ 2 ≤ as.length := fun htwo => hfew ⟨q, i, name, as, rfl, hq, htwo⟩
      omega
  · have hsame : u = v :=
      Option.some.inj ((hu.set?_of_matched (.inr hargument)).symm.trans hset)
    refine iff_of_true hsame ?_
    rintro ⟨q, i, _, _, hp, _⟩
    exact hargument ⟨q, i, hp⟩

/-- Whether the other arguments go or stay matters exactly for the operations that are one of
several arguments, whatever table the number is looked up in. -/
theorem deleteOperand_eq_iff (t : Formula) (operators : List Path) (id : Nat) (side : Side) :
    t.deleteOperand operators id side .replaceAll =
        t.deleteOperand operators id side .replaceMatched ↔
      ¬ t.LeadsAmongArguments operators id := by
  by_cases hop : ∃ p n, operators[id]? = some p ∧ t.get? p = some n ∧ n.isOperation = true
  · obtain ⟨p, n, hp, hn, hop⟩ := hop
    obtain ⟨kept, hk⟩ := (exists_operand?_iff side.opposite).2 hop
    rw [isCollapse_eq_iff hn (deleteOperand_isCollapse hp hn hk _)
      (deleteOperand_isCollapse hp hn hk _), not_iff_not]
    constructor
    · intro h
      exact ⟨p, n, hp, hn, hop, h⟩
    · rintro ⟨p', n', hp', _, _, h⟩
      obtain rfl := Option.some.inj (hp.symm.trans hp')
      exact h
  · have hnone : ∀ p n, operators[id]? = some p → t.get? p = some n → n.isOperation = false :=
      fun p n hp hn => Bool.eq_false_iff.2 fun h => hop ⟨p, n, hp, hn, h⟩
    rw [deleteOperand_of_not_isOperation hnone, deleteOperand_of_not_isOperation hnone]
    refine iff_of_true rfl ?_
    rintro ⟨p, n, hp, hn, h, _⟩
    exact hop ⟨p, n, hp, hn, h⟩

theorem deleteOperand_collapse_iff {t : Formula} {operators : List Path} {id : Nat} (side : Side)
    (c c' : Collapse) :
    t.deleteOperand operators id side c = t.deleteOperand operators id side c' ↔
      c = c' ∨ ¬ t.LeadsAmongArguments operators id := by
  have heq := t.deleteOperand_eq_iff operators id side
  cases c <;> cases c'
  · exact iff_of_true rfl (.inl rfl)
  · simpa using heq
  · rw [eq_comm]
    simpa using heq
  · exact iff_of_true rfl (.inl rfl)

end Formula

end FormulaEditor
