import FormulaEditor.Proofs.Formula.Pruning
/-! What a formula is like after one of its parts was replaced. Below the place stands the new part,
beside it all is as it was, and above it the nodes keep what they are and how many children they
have. A deletion is one such replacement and does nothing else. -/
namespace FormulaEditor
namespace Formula

def label : Formula → Label
  | number n => .number n
  | pi => .pi
  | e => .e
  | var name => .var name
  | negation _ => .negation
  | power .. => .power
  | binary o .. => .binary o
  | call name _ => .call name
  | paren _ => .paren
  | unrecognized => .unrecognized

def arity : Formula → Nat
  | negation _ | paren _ => 1
  | power .. | binary .. => 2
  | call _ as => as.length
  | _ => 0

theorem of_setChild? {t u w : Formula} {s : Step} (h : t.setChild? s w = some u) :
    u.label = t.label ∧ u.arity = t.arity ∧ ∀ s', s' ≠ s → u.child? s' = t.child? s' := by
  cases t with
  | call name as =>
    cases s with
    | argument i =>
      by_cases hi : i < as.length
      · obtain rfl : call name (as.set i w) = u := by simpa [setChild?, hi] using h
        refine ⟨rfl, List.length_set, fun s' hs => ?_⟩
        cases s' with
        | argument j =>
          have hij : i ≠ j := fun hij => hs (congrArg Step.argument hij.symm)
          simp [child?, hij]
        | _ => rfl
      · simp [setChild?, hi] at h
    | _ => simp [setChild?] at h
  | _ =>
    cases s <;> first
      | obtain rfl := Option.some.inj h
        refine ⟨rfl, rfl, fun s' hs => ?_⟩
        cases s' <;> first
          | rfl
          | exact absurd rfl hs
      | simp [setChild?] at h

theorem setChild?_of_child? {t c : Formula} {s : Step} (h : t.child? s = some c) :
    t.setChild? s c = some t := by
  cases t with
  | call name as =>
    cases s with
    | argument i =>
      obtain ⟨hi, rfl⟩ := List.getElem?_eq_some_iff.1 h
      simp [setChild?, hi]
    | _ => simp [child?] at h
  | _ =>
    cases s <;> first
      | obtain rfl := Option.some.inj h
        rfl
      | simp [child?] at h

theorem set?_of_get? {t n : Formula} {p : Path} (h : t.get? p = some n) :
    t.set? n p = some t := by
  induction p generalizing t with
  | nil =>
    obtain rfl := Option.some.inj h
    rfl
  | cons s p ih =>
    obtain ⟨c, hc, hn⟩ := Option.bind_eq_some_iff.1 h
    rw [set?_cons, hc, Option.bind_some, ih hn, Option.bind_some]
    exact setChild?_of_child? hc

/-- `u` is `t` with `w` in the place that `p` leads to, and otherwise like `t`. -/
structure IsReplacement (t : Formula) (p : Path) (w u : Formula) : Prop where
  here : u.get? p = some w
  below : ∀ q, u.get? (p ++ q) = w.get? q
  beside : ∀ q, ¬ p <+: q → ¬ q <+: p → u.get? q = t.get? q
  above : ∀ q, q <+: p → q ≠ p → ∃ a b, t.get? q = some a ∧ u.get? q = some b ∧
    b.label = a.label ∧ b.arity = a.arity

theorem IsReplacement.of_child {t u c a w : Formula} {s : Step} {p : Path}
    (hc : t.child? s = some c) (hu : t.setChild? s a = some u) (h : c.IsReplacement p w a) :
    t.IsReplacement (s :: p) w u := by
  have ha : u.child? s = some a := child?_of_setChild? hu
  obtain ⟨hlabel, harity, hothers⟩ := of_setChild? hu
  refine ⟨by simpa [ha] using h.here, fun q => by simpa [ha] using h.below q, ?_, ?_⟩
  · intro q hpq hqp
    cases q with
    | nil => exact absurd List.nil_prefix hqp
    | cons s' q =>
      by_cases hs : s' = s
      · subst hs
        rw [List.cons_prefix_cons, not_and] at hpq hqp
        have hbeside := h.beside q (hpq rfl) (hqp rfl)
        simpa [ha, hc] using hbeside
      · simp [hothers s' hs]
  · intro q hqp hne
    cases q with
    | nil => exact ⟨t, u, rfl, rfl, hlabel, harity⟩
    | cons s' q =>
      obtain ⟨rfl, hqp'⟩ := List.cons_prefix_cons.1 hqp
      obtain ⟨a', b, ha', hb, hsame⟩ := h.above q hqp' fun he => hne (he ▸ rfl)
      exact ⟨a', b, by simpa [hc] using ha', by simpa [ha] using hb, hsame⟩

theorem isReplacement_of_set? {t u w : Formula} {p : Path} (h : t.set? w p = some u) :
    t.IsReplacement p w u := by
  induction p generalizing t u with
  | nil =>
    obtain rfl := Option.some.inj h
    refine ⟨rfl, fun q => rfl, fun q hpq _ => absurd List.nil_prefix hpq, fun q hqp hne => ?_⟩
    exact absurd (List.prefix_nil.1 hqp) hne
  | cons s p ih =>
    obtain ⟨c, hc, h⟩ := Option.bind_eq_some_iff.1 h
    obtain ⟨a, ha, hu⟩ := Option.bind_eq_some_iff.1 h
    exact (ih ha).of_child hc hu

/-- A call whose arguments were all replaced by a single one is as it was at every path that neither
leads to it or above it nor into its arguments. -/
theorem IsReplacement.get?_of_not_argument {t u w : Formula} {q : Path} {name : String}
    {as : List Formula} (hq : t.get? q = some (call name as)) (has : as ≠ [])
    (h : t.IsReplacement q (call name [w]) u) {r : Path} (hr : ¬ r <+: q)
    (hargument : ∀ i < as.length, ¬ q.child (.argument i) <+: r) : u.get? r = t.get? r := by
  by_cases hqr : q <+: r
  · obtain ⟨r, rfl⟩ := hqr
    rw [h.below, get?_append, hq, Option.bind_some]
    cases r with
    | nil => exact absurd (by simp) hr
    | cons s r =>
      cases s with
      | argument i =>
        have hi : ¬ i < as.length := fun hi => hargument i hi ⟨r, by simp [Path.child]⟩
        have hpos := List.length_pos_iff.2 has
        have hsingle : ¬ i < 1 := by omega
        simp [child?, hi, hsingle]
      | _ => rfl
  · exact h.beside r hqr hr

def Path.IsArgument (p : Path) : Prop := ∃ (q : Path) (i : Nat), p = q.child (.argument i)

theorem IsCollapse.set?_of_matched {t kept u : Formula} {p : Path} {collapse : Collapse}
    (h : t.IsCollapse p kept collapse u) (hp : collapse = .replaceMatched ∨ ¬ p.IsArgument) :
    t.set? kept p = some u := by
  refine h.matched fun hall q i hq => ?_
  rcases hp with hmatched | hargument
  · simp [hmatched] at hall
  · exact hargument ⟨q, i, hq⟩

theorem deleteOperand_of_not_isOperation {t : Formula} {operators : List Path} {id : Nat}
    (h : ∀ p n, operators[id]? = some p → t.get? p = some n → n.isOperation = false) (side : Side)
    (collapse : Collapse) : t.deleteOperand operators id side collapse = t := by
  unfold deleteOperand
  cases hp : operators[id]? with
  | none => rfl
  | some p =>
    cases hn : t.get? p with
    | none => simp [deleteAt?, hn]
    | some n =>
      have hk : n.kept? side = none := by
        rw [← Option.not_isSome_iff_eq_none, isSome_kept?, h p n hp hn]
        exact Bool.false_ne_true
      simp [deleteAt?, hn, hk]

/-- A deletion puts the operand that stays in the place of the operation that the entry leads to. If
that is an argument and all arguments go, it makes the operand the only argument of the call. It
changes nothing else, and nothing at all if the entry leads to no operation of the formula. The
table may be that of any formula. -/
theorem deleteOperand_replaces (t : Formula) (operators : List Path) (id : Nat) (side : Side)
    (collapse : Collapse) :
    let u := t.deleteOperand operators id side collapse
    ((∀ p n, operators[id]? = some p → t.get? p = some n → n.isOperation = false) → u = t) ∧
    ∀ p n, operators[id]? = some p → t.get? p = some n → n.isOperation = true →
      ∃ kept, n.operand? side.opposite = some kept ∧
        (collapse = .replaceMatched ∨ ¬ p.IsArgument → t.IsReplacement p kept u) ∧
        ∀ (q : Path) (i : Nat), collapse = .replaceAll → p = q.child (.argument i) →
          ∃ name as, t.get? q = some (call name as) ∧ t.IsReplacement q (call name [kept]) u ∧
            ∀ r, ¬ r <+: q → (∀ j < as.length, ¬ q.child (.argument j) <+: r) →
              u.get? r = t.get? r := by
  intro u
  refine ⟨fun h => deleteOperand_of_not_isOperation h side collapse, fun p n hp hn hop => ?_⟩
  obtain ⟨kept, hk⟩ := (exists_operand?_iff side.opposite).2 hop
  have hcollapse := deleteOperand_isCollapse hp hn hk collapse
  refine ⟨kept, hk, fun hmatched => isReplacement_of_set? (hcollapse.set?_of_matched hmatched), ?_⟩
  intro q i hall hq
  obtain ⟨name, as, hcall, hset⟩ := hcollapse.all q i hall hq
  have hreplaced := isReplacement_of_set? hset
  have has : as ≠ [] := by
    rintro rfl
    rw [hq, Path.child, get?_append, hcall] at hn
    simp [child?] at hn
  exact ⟨name, as, hcall, hreplaced, fun r => hreplaced.get?_of_not_argument hcall has⟩

end Formula

end FormulaEditor
