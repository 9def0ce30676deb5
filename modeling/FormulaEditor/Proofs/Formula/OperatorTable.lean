import FormulaEditor.Proofs.Formula.Operands
import FormulaEditor.Proofs.Formula.Reading
/-! The table of operators against the formula and against its box. Its entries are the paths to
the operations, each operation after all that stands below it, and each entry belongs to one token,
which is drawn between the operands of the operation. -/
namespace FormulaEditor
namespace Formula

def Step.rank : Step → Nat
  | left | expression => 0
  | right | power => 1
  | argument i => i

/-- Whether one path comes before another one where children come from left to right and each part
comes after its children. -/
def Path.Precedes : Path → Path → Prop
  | _ :: _, [] => True
  | s :: p, s' :: q => s.rank < s'.rank ∨ s = s' ∧ Precedes p q
  | [], _ => False

instance Path.decidablePrecedes : (p q : Path) → Decidable (p.Precedes q)
  | _ :: _, [] => .isTrue trivial
  | s :: p, s' :: q =>
    haveI := Path.decidablePrecedes p q
    inferInstanceAs (Decidable (s.rank < s'.rank ∨ s = s' ∧ Path.Precedes p q))
  | [], [] => .isFalse id
  | [], _ :: _ => .isFalse id

theorem Path.Precedes.asymm {p q : Path} (h : p.Precedes q) : ¬ q.Precedes p := by
  induction p generalizing q with
  | nil => exact h.elim
  | cons s p ih =>
    cases q with
    | nil => exact id
    | cons s' q =>
      rcases h with h | ⟨rfl, h⟩
      · rintro (h' | ⟨rfl, _⟩)
        · exact Nat.lt_asymm h h'
        · exact Nat.lt_irrefl _ h
      · rintro (h' | ⟨_, h'⟩)
        · exact Nat.lt_irrefl _ h'
        · exact ih h h'

theorem Path.not_precedes_self (p : Path) : ¬ p.Precedes p := fun h => h.asymm h

theorem nil_mem_operators {t : Formula} : [] ∈ t.operators ↔ t.isOperation = true := by
  have hargument (i : Nat) (as : List Formula) : [] ∉ argumentOperators i as := by
    induction as generalizing i with
    | nil => exact List.not_mem_nil
    | cons a as ih => simp [argumentOperators, ih]
  cases t <;> simp [operators, isOperation, hargument]

theorem cons_mem_argumentOperators {s : Step} {p : Path} {as : List Formula} {i : Nat} :
    s :: p ∈ argumentOperators i as ↔
      ∃ j a, s = .argument (i + j) ∧ as[j]? = some a ∧ p ∈ a.operators := by
  induction as generalizing i with
  | nil => simp [argumentOperators]
  | cons a as ih =>
    simp only [argumentOperators, List.mem_append, List.mem_map, List.cons.injEq, ih]
    constructor
    · rintro (⟨q, hq, rfl, rfl⟩ | ⟨j, b, rfl, hb, hp⟩)
      · exact ⟨0, a, rfl, rfl, hq⟩
      · exact ⟨j + 1, b, by rw [Nat.add_assoc, Nat.add_comm 1], hb, hp⟩
    · rintro ⟨_ | j, b, rfl, hb, hp⟩
      · obtain rfl := Option.some.inj hb
        exact .inl ⟨p, hp, rfl, rfl⟩
      · exact .inr ⟨j, b, by rw [Nat.add_assoc, Nat.add_comm 1], hb, hp⟩

theorem cons_mem_operators {t : Formula} {s : Step} {p : Path} :
    s :: p ∈ t.operators ↔ ∃ c, t.child? s = some c ∧ p ∈ c.operators := by
  cases t with
  | call name as =>
    rw [operators, cons_mem_argumentOperators]
    cases s <;> simp [child?]
  | _ => cases s <;> simp [operators, child?]

theorem mem_operators_iff {t : Formula} {p : Path} :
    p ∈ t.operators ↔ ∃ n, t.get? p = some n ∧ n.isOperation = true := by
  induction p generalizing t with
  | nil => simp [nil_mem_operators]
  | cons s p ih =>
    rw [cons_mem_operators, get?_cons]
    cases t.child? s with
    | none => simp
    | some c => simp [ih]

section Order

theorem pairwise_map_cons {ps : List Path} (s : Step) (h : ps.Pairwise Path.Precedes) :
    (ps.map (s :: ·)).Pairwise Path.Precedes :=
  List.pairwise_map.2 (h.imp fun hpq => .inr ⟨rfl, hpq⟩)

theorem pairwise_operands {ps qs : List Path} {s s' : Step} (hs : s.rank < s'.rank)
    (hps : ps.Pairwise Path.Precedes) (hqs : qs.Pairwise Path.Precedes) :
    (ps.map (s :: ·) ++ qs.map (s' :: ·) ++ [[]]).Pairwise Path.Precedes := by
  have hoperands : (ps.map (s :: ·) ++ qs.map (s' :: ·)).Pairwise Path.Precedes := by
    refine List.pairwise_append.2 ⟨pairwise_map_cons s hps, pairwise_map_cons s' hqs, ?_⟩
    intro p hp q hq
    obtain ⟨p, _, rfl⟩ := List.mem_map.1 hp
    obtain ⟨q, _, rfl⟩ := List.mem_map.1 hq
    exact .inl hs
  refine List.pairwise_append.2 ⟨hoperands, List.pairwise_singleton _ _, ?_⟩
  intro p hp q hq
  obtain rfl := List.mem_singleton.1 hq
  rcases List.mem_append.1 hp with hp | hp
  all_goals
    obtain ⟨p, _, rfl⟩ := List.mem_map.1 hp
    trivial

theorem pairwise_argumentOperators {as : List Formula}
    (h : ∀ a ∈ as, a.operators.Pairwise Path.Precedes) (i : Nat) :
    (argumentOperators i as).Pairwise Path.Precedes := by
  induction as generalizing i with
  | nil => exact List.Pairwise.nil
  | cons a as ih =>
    have ha := h a List.mem_cons_self
    have has := ih fun b hb => h b (List.mem_cons_of_mem a hb)
    refine List.pairwise_append.2 ⟨pairwise_map_cons _ ha, has (i + 1), ?_⟩
    intro p hp q hq
    obtain ⟨p, _, rfl⟩ := List.mem_map.1 hp
    cases q with
    | nil => trivial
    | cons s q =>
      obtain ⟨j, _, rfl, _⟩ := cons_mem_argumentOperators.1 hq
      exact .inl (by simp only [Step.rank]; omega)

/-- An operation is listed after those in its operands, and these from left to right. -/
theorem pairwise_precedes_operators (t : Formula) : t.operators.Pairwise Path.Precedes := by
  induction t with
  | negation a ih | paren a ih => exact pairwise_map_cons .expression ih
  | power a x iha ihx =>
    have hrank : Step.expression.rank < Step.power.rank := Nat.one_pos
    exact pairwise_operands hrank iha ihx
  | binary o l r ihl ihr =>
    have hrank : Step.left.rank < Step.right.rank := Nat.one_pos
    exact pairwise_operands hrank ihl ihr
  | call name as ih => exact pairwise_argumentOperators ih 0
  | _ => exact List.Pairwise.nil

theorem nodup_operators (t : Formula) : t.operators.Nodup := by
  apply t.pairwise_precedes_operators.imp
  intro p q hpq he
  subst q
  exact p.not_precedes_self hpq

end Order

/-- The symbol that an operation is drawn with. -/
def symbol? : Formula → Option String
  | power .. => some powerSymbol
  | binary o .. => some o.symbol
  | _ => none

namespace IsOperatorGroup

variable {t n : Formula} {p : Path} {id : Nat} {ms : List Box}

theorem symbol?_eq (h : IsOperatorGroup t n p id ms) (hp : t.get? p = some n) {symbol : String}
    (hs : ms[(t.place p).depth + 1]? = some (.operator symbol id)) : n.symbol? = some symbol := by
  have hg := get?_box_place 0 hp
  rw [h.found, Option.some.injEq] at hg
  have hdraw (l r : Box) (symbol' : String) (id' : Nat)
      (hn : n.box (0 + t.operatorsBefore p) = .infixed l symbol' id' r) : symbol' = symbol := by
    rw [hn, Box.infixed, Box.iterate_parenthesized_group, Box.group.injEq] at hg
    rw [hg, Box.getElem?_wrapped_add _ (by simp)] at hs
    exact (Box.operator.inj (Option.some.inj hs)).1
  obtain ⟨x, _, hx, _⟩ := h.operand .left
  cases n with
  | power a x => rw [symbol?, hdraw _ _ _ _ rfl]
  | binary o l r => rw [symbol?, hdraw _ _ _ _ rfl]
  | _ => simp [operand?] at hx

end IsOperatorGroup

theorem exists_isOperatorGroup_of_get? {t : Formula} {q : Box.Path} {symbol : String} {id : Nat}
    (h : (t.box 0).get? q = some (.operator symbol id)) :
    ∃ p n ms, t.get? p = some n ∧ IsOperatorGroup t n p id ms ∧
      ms[(t.place p).depth + 1]? = some (.operator symbol id) ∧
      q = (t.place p).path.child ((t.place p).depth + 1) := by
  rcases q.eq_nil_or_concat with rfl | ⟨g, i, rfl⟩
  · have hid := t.operatorId?_box 0
    rw [Option.some.inj h] at hid
    simp [Box.operatorId?] at hid
  · rw [List.concat_eq_append] at h
    obtain ⟨ms, hg, hi⟩ := Box.get?_child_eq_some_iff.1 h
    obtain ⟨p, n, id', hp, _, rfl, hgroup⟩ :=
      exists_isOperatorGroup_of_mem hg (List.mem_of_getElem? hi)
    obtain rfl := hgroup.eq_of_operatorId? hi rfl
    obtain ⟨symbol', hs⟩ := hgroup.operator
    rw [hi] at hs
    obtain ⟨rfl, rfl⟩ := Box.operator.inj (Option.some.inj hs)
    exact ⟨p, n, ms, hp, hgroup, hi, List.concat_eq_append⟩

/-- Each number of the table is that of one token. -/
theorem existsUnique_operator (t : Formula) {id : Nat} (hid : id < t.operators.length) :
    ∃! q, ∃ symbol, (t.box 0).get? q = some (.operator symbol id) := by
  have hentry : t.operators[id]? = some t.operators[id] := List.getElem?_eq_getElem hid
  obtain ⟨n, hp, hn⟩ := mem_operators_iff.1 (List.mem_of_getElem? hentry)
  obtain ⟨id', ms, hgroup⟩ := exists_isOperatorGroup hp hn
  obtain rfl : id = id' :=
    (List.getElem?_inj hid t.nodup_operators).1 (hentry.trans hgroup.entry.symm)
  obtain ⟨symbol, hs⟩ := hgroup.operator
  refine ⟨(t.place t.operators[id]).path.child _, ⟨symbol, hgroup.get?_child hs⟩, ?_⟩
  rintro q ⟨symbol', hq⟩
  obtain ⟨p, n', ms', hp', hgroup', _, rfl⟩ := exists_isOperatorGroup_of_get? hq
  obtain rfl := Option.some.inj (hentry.symm.trans hgroup'.entry)
  rfl

/-- The token at `q` is drawn for the operation `n`, directly between the boxes of its operands. -/
structure IsOperatorToken (t n : Formula) (q : Box.Path) (symbol : String) : Prop where
  symbol : n.symbol? = some symbol
  operand : ∃ (g : Box.Path) (i : Nat), q = g.child (i + 1) ∧ ∀ side : Side, ∃ x b,
    n.operand? side = some x ∧ t.drawing.box.get? (g.child (i + side.index)) = some b ∧
      b.reading = x.text

theorem IsOperatorGroup.isOperatorToken {t n : Formula} {p : Path} {id : Nat} {ms : List Box}
    {symbol : String} (h : IsOperatorGroup t n p id ms) (hp : t.get? p = some n)
    (hs : ms[(t.place p).depth + 1]? = some (.operator symbol id)) :
    t.IsOperatorToken n ((t.place p).path.child ((t.place p).depth + 1)) symbol := by
  refine ⟨h.symbol?_eq hp hs, (t.place p).path, (t.place p).depth, rfl, fun side => ?_⟩
  obtain ⟨x, first, hx, hb⟩ := h.operand side
  exact ⟨x, x.box first, hx, h.get?_child hb, x.reading_box first⟩

/-- The table lists the paths of all operations once and in post-order. Its numbers are those of the
operators in the box, one token each, and the token is drawn for the operation that its number leads
to. -/
theorem operators_drawing_correspond (t : Formula) :
    t.drawing.operators.Pairwise Path.Precedes ∧ t.drawing.operators.Nodup ∧
    (∀ p, p ∈ t.drawing.operators ↔ ∃ n, t.get? p = some n ∧ n.isOperation = true) ∧
    (∀ id, id < t.drawing.operators.length ↔
      ∃! q, ∃ symbol, t.drawing.box.get? q = some (.operator symbol id)) ∧
    ∀ q symbol id, t.drawing.box.get? q = some (.operator symbol id) →
      ∃ p n, t.drawing.operators[id]? = some p ∧ t.get? p = some n ∧
        t.IsOperatorToken n q symbol := by
  refine ⟨t.pairwise_precedes_operators, t.nodup_operators, fun p => mem_operators_iff,
    fun id => ⟨t.existsUnique_operator, ?_⟩, fun q symbol id hq => ?_⟩
  · rintro ⟨q, ⟨symbol, hq⟩, _⟩
    obtain ⟨p, _, _, _, hgroup, _, _⟩ := exists_isOperatorGroup_of_get? hq
    exact (List.getElem?_eq_some_iff.1 hgroup.entry).1
  · obtain ⟨p, n, ms, hp, hgroup, hs, rfl⟩ := exists_isOperatorGroup_of_get? hq
    exact ⟨p, n, hgroup.entry, hp, hgroup.isOperatorToken hp hs⟩

end Formula

end FormulaEditor
