import FormulaEditor.Box.Path
/-! The order of paths to boxes, which paths lead into one member of a group, and how long paths can
be. -/
namespace FormulaEditor
namespace Box

namespace Path

theorem append_lt_append {p q : Path} (h : p < q) (hlen : p.length = q.length) (r s : Path) :
    p ++ r < q ++ s := by
  induction p generalizing q with
  | nil =>
    rw [List.eq_nil_of_length_eq_zero hlen.symm] at h
    exact absurd h (List.not_lt_nil _)
  | cons i p ih =>
    cases q with
    | nil => exact absurd h (List.not_lt_nil _)
    | cons j q =>
      rw [List.cons_append, List.cons_append, List.cons_lt_cons_iff]
      rcases List.cons_lt_cons_iff.1 h with hij | ⟨hij, hpq⟩
      · exact .inl hij
      · exact .inr ⟨hij, ih hpq (Nat.succ.inj hlen)⟩

/-- Where two paths part, the order is that of the members they go on through. -/
theorem append_cons_lt_iff (g : Path) {i j : Nat} (hij : j ≠ i) (r s : Path) :
    g ++ j :: r < g ++ i :: s ↔ j < i := by
  induction g with
  | nil => simp [List.cons_lt_cons_iff, hij]
  | cons k g ih => simpa [List.cons_lt_cons_iff] using ih

theorem child_lt_child_iff (p : Path) (i j : Nat) : p.child i < p.child j ↔ i < j := by
  induction p with
  | nil => simp [child, List.cons_lt_cons_iff]
  | cons k p ih => simpa [child] using ih

@[simp] theorem length_child (p : Path) (i : Nat) : (p.child i).length = p.length + 1 := by
  simp [child]

theorem child_injective {p q : Path} {i j : Nat} (h : p.child i = q.child j) : p = q ∧ i = j := by
  have hparent : some (p, i) = some (q, j) := by
    rw [← parent?_child, h, parent?_child]
  exact Prod.mk.inj (Option.some.inj hparent)

theorem prefix_child_iff {p q : Path} (i : Nat) (h : p.length ≤ q.length) :
    p <+: q.child i ↔ p <+: q := by
  have hne : p ≠ q.child i := by
    intro he
    rw [he, length_child] at h
    omega
  simp only [child, List.prefix_concat_iff] at hne ⊢
  exact or_iff_right hne

theorem exists_member {g q : Path} {i : Nat} (hg : g <+: q) (hne : q ≠ g)
    (hi : ¬ g.child i <+: q) : ∃ j r, j ≠ i ∧ q = g ++ j :: r := by
  obtain ⟨r, rfl⟩ := hg
  cases r with
  | nil => exact absurd (List.append_nil g) hne
  | cons j r =>
    refine ⟨j, r, ?_, rfl⟩
    rintro rfl
    exact hi ⟨r, by simp [child]⟩

theorem not_prefix_of_member {g : Path} {i j : Nat} (hij : j ≠ i) (r : Path) :
    ¬ g.child i <+: g ++ j :: r := by
  intro h
  have hcons : [i] <+: j :: r := (List.prefix_append_right_inj g).1 h
  exact hij (List.cons_prefix_cons.1 hcons).1.symm

theorem not_prefix_child {g : Path} {i j : Nat} (hij : j ≠ i) (r : Path) :
    ¬ g ++ j :: r <+: g.child i := by
  intro h
  have hcons : j :: r <+: [i] := (List.prefix_append_right_inj g).1 h
  exact hij (List.cons_prefix_cons.1 hcons).1

theorem apart_of_member {g q : Path} {i j k : Nat} (hij : j ≠ i) {r : Path}
    (hq : q.child k = g ++ j :: r) (hne : q ≠ g) (l : Nat) :
    ¬ q.child l <+: g.child i ∧ ¬ g.child i <+: q.child l := by
  rcases r.eq_nil_or_concat with rfl | ⟨r, k', rfl⟩
  · have hchild : q.child k = g.child j := hq
    exact absurd (child_injective hchild).1 hne
  · have hchild : q.child k = Path.child (g ++ j :: r) k' := by simpa [child] using hq
    obtain ⟨rfl, _⟩ := child_injective hchild
    have hmember : Path.child (g ++ j :: r) l = g ++ j :: (r ++ [l]) := by simp [child]
    rw [hmember]
    exact ⟨not_prefix_child hij _, not_prefix_of_member hij _⟩

end Path

theorem get?_child {root : Box} {g : Path} {ms : List Box} (hg : root.get? g = some (group ms))
    (i : Nat) : root.get? (g.child i) = ms[i]? := by
  rw [Path.child, get?_append, hg, Option.bind_some]
  simp [members?]

theorem get?_child_eq_some_iff {root c : Box} {p : Path} {i : Nat} :
    root.get? (p.child i) = some c ↔ ∃ ms, root.get? p = some (group ms) ∧ ms[i]? = some c := by
  rw [Path.child, get?_append, Option.bind_eq_some_iff]
  constructor
  · rintro ⟨b, hb, hc⟩
    obtain ⟨ms, d, rfl, hd, hc⟩ := get?_cons_eq_some_iff.1 hc
    obtain rfl := Option.some.inj hc
    exact ⟨ms, hb, hd⟩
  · rintro ⟨ms, hb, hc⟩
    exact ⟨group ms, hb, get?_cons_eq_some_iff.2 ⟨ms, c, rfl, hc, rfl⟩⟩

theorem height_pos (b : Box) : 0 < b.height := by
  cases b <;> simp [height]

theorem length_lt_height {b c : Box} {p : Path} (h : b.get? p = some c) : p.length < b.height := by
  induction p generalizing b with
  | nil => exact b.height_pos
  | cons i p ih =>
    obtain ⟨ms, d, rfl, hd, hc⟩ := get?_cons_eq_some_iff.1 h
    have hp : p.length < d.height := ih hc
    have hle : d.height ≤ heightOfMembers ms := height_le_heightOfMembers (List.mem_of_getElem? hd)
    rw [List.length_cons, height]
    omega

end Box

end FormulaEditor
