import FormulaEditor.Box.Path
/-! The list of all boxes of a drawing. It holds every box once with the path that leads to it, in
the order of the paths, and so do the tokens among them. -/
namespace FormulaEditor
namespace Box

mutual

theorem mem_boxes_iff {b c : Box} {p : Path} : (p, c) ∈ b.boxes ↔ b.get? p = some c := by
  cases b with
  | group bs =>
    rw [boxes, List.mem_cons, mem_boxesFrom_iff]
    cases p with
    | nil => simp [eq_comm]
    | cons i p =>
      rw [get?_cons_eq_some_iff]
      constructor
      · rintro (h | ⟨j, b, q, h, hb, hc⟩)
        · nomatch h
        · obtain ⟨rfl, rfl⟩ := List.cons.inj h
          exact ⟨bs, b, rfl, by simpa using hb, hc⟩
      · rintro ⟨_, b, hbs, hb, hc⟩
        obtain rfl := group.inj hbs
        exact .inr ⟨i, b, p, by rw [Nat.zero_add], hb, hc⟩
  | _ => cases p <;> simp [boxes, members?, eq_comm]

theorem mem_boxesFrom_iff {bs : List Box} {i : Nat} {c : Box} {p : Path} :
    (p, c) ∈ boxesFrom i bs ↔ ∃ j b q, p = (i + j) :: q ∧ bs[j]? = some b ∧ b.get? q = some c := by
  cases bs with
  | nil => simp [boxesFrom]
  | cons b bs =>
    simp only [boxesFrom, List.mem_append, List.mem_map, Prod.exists, Prod.mk.injEq,
      mem_boxes_iff, mem_boxesFrom_iff]
    constructor
    · rintro (⟨q, d, hd, rfl, rfl⟩ | ⟨j, d, q, rfl, hd, hc⟩)
      · exact ⟨0, b, q, rfl, rfl, hd⟩
      · exact ⟨j + 1, d, q, by rw [Nat.add_assoc, Nat.add_comm 1], hd, hc⟩
    · rintro ⟨_ | j, d, q, rfl, hd, hc⟩
      · obtain rfl := Option.some.inj hd
        exact .inl ⟨q, c, hc, rfl, rfl⟩
      · exact .inr ⟨j, d, q, by rw [Nat.add_assoc, Nat.add_comm 1], hd, hc⟩

end

mutual

/-- A group comes before its members, and these come one after the other. -/
theorem pairwise_boxes (b : Box) : b.boxes.Pairwise fun x y => x.1 < y.1 := by
  cases b with
  | group bs =>
    refine List.pairwise_cons.2 ⟨?_, pairwise_boxesFrom 0 bs⟩
    rintro ⟨p, c⟩ hp
    obtain ⟨j, _, q, rfl, _⟩ := mem_boxesFrom_iff.1 hp
    exact List.nil_lt_cons _ _
  | _ => exact List.pairwise_singleton _ _

theorem pairwise_boxesFrom (i : Nat) (bs : List Box) :
    (boxesFrom i bs).Pairwise fun x y => x.1 < y.1 := by
  cases bs with
  | nil => exact List.Pairwise.nil
  | cons b bs =>
    refine List.pairwise_append.2 ⟨?_, pairwise_boxesFrom (i + 1) bs, ?_⟩
    · refine List.pairwise_map.2 (b.pairwise_boxes.imp fun h => ?_)
      exact List.cons_lt_cons_iff.2 (.inr ⟨rfl, h⟩)
    · rintro x hx ⟨q, c⟩ hq
      obtain ⟨y, _, rfl⟩ := List.mem_map.1 hx
      obtain ⟨j, _, q, rfl, _⟩ := mem_boxesFrom_iff.1 hq
      exact List.cons_lt_cons_iff.2 (.inl (by omega))

end

def tokens (b : Box) : List (Path × Box) := b.boxes.filter fun x => x.2.members?.isNone

theorem mem_tokens_iff {b c : Box} {p : Path} :
    (p, c) ∈ b.tokens ↔ b.get? p = some c ∧ ∀ ms, c ≠ group ms := by
  have hgroup : c.members? = none ↔ ∀ ms, c ≠ group ms := by
    cases c <;> simp [members?]
  rw [tokens, List.mem_filter, mem_boxes_iff, Option.isNone_iff_eq_none, hgroup]

theorem pairwise_tokens (b : Box) : b.tokens.Pairwise fun x y => x.1 < y.1 :=
  b.pairwise_boxes.filter _

end Box

end FormulaEditor
