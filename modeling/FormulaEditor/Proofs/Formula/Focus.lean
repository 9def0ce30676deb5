import FormulaEditor.Proofs.Formula.Collapse
/-! Access to a part of a formula to put something else there. The way down to a part that is to be
replaced is a descent of its own. It leads where the path leads for reading, what is put there is
what is read there afterwards, and nothing beside it changes. -/
namespace FormulaEditor

/-- A part of a formula, and what becomes of the formula if something else is put in its place. -/
structure Focus where
  part : Formula
  put : Formula → Formula

namespace Formula

def focusChild? : Formula → Step → Option Focus
  | binary o l r, .left => some ⟨l, fun w => binary o w r⟩
  | binary o l r, .right => some ⟨r, fun w => binary o l w⟩
  | power a x, .expression => some ⟨a, fun w => power w x⟩
  | power a x, .power => some ⟨x, fun w => power a w⟩
  | negation a, .expression => some ⟨a, negation⟩
  | paren a, .expression => some ⟨a, paren⟩
  | call name as, .argument i => as[i]?.map fun a => ⟨a, fun w => call name (as.set i w)⟩
  | _, _ => none

end Formula

def Focus.down? (f : Focus) (s : Formula.Step) : Option Focus :=
  (f.part.focusChild? s).map fun g => ⟨g.part, fun w => f.put (g.put w)⟩

namespace Formula

def focus? (t : Formula) (p : Path) : Option Focus := p.foldlM Focus.down? ⟨t, id⟩

structure IsFocusedAt (t : Formula) (p : Path) (f : Focus) : Prop where
  read : t.get? p = some f.part
  write : ∀ w, t.set? w p = some (f.put w)

theorem focusChild?_cases (t : Formula) (s : Step) :
    (t.focusChild? s = none ∧ t.child? s = none) ∨
    ∃ g, t.focusChild? s = some g ∧ t.child? s = some g.part ∧
      ∀ w, t.setChild? s w = some (g.put w) := by
  cases t with
  | call name as =>
    cases s with
    | argument i =>
      by_cases hi : i < as.length
      · refine .inr ⟨⟨as[i], fun w => call name (as.set i w)⟩, ?_, ?_, ?_⟩
        · simp [focusChild?, hi]
        · simp [child?, hi]
        · simp [setChild?, hi]
      · exact .inl ⟨by simpa [focusChild?] using hi, by simpa [child?] using hi⟩
    | _ => exact .inl ⟨rfl, rfl⟩
  | _ =>
    cases s <;> first
      | exact .inl ⟨rfl, rfl⟩
      | exact .inr ⟨_, rfl, rfl, fun _ => rfl⟩

theorem IsFocusedAt.down? {t : Formula} {p : Path} {f : Focus} (h : t.IsFocusedAt p f) (s : Step) :
    (f.down? s = none ∧ t.get? (p.child s) = none) ∨
    ∃ g, f.down? s = some g ∧ t.IsFocusedAt (p.child s) g := by
  have hread : t.get? (p.child s) = f.part.child? s := by
    rw [get?_child, h.read, Option.bind_some]
  rcases f.part.focusChild?_cases s with ⟨hnone, hchild⟩ | ⟨g, hsome, hchild, hset⟩
  · exact .inl ⟨by simp [Focus.down?, hnone], hread.trans hchild⟩
  · refine .inr ⟨⟨g.part, fun w => f.put (g.put w)⟩, by simp [Focus.down?, hsome],
      hread.trans hchild, fun w => ?_⟩
    rw [set?_child h.read, hset, Option.bind_some, h.write]

theorem IsFocusedAt.run {t : Formula} {p : Path} {f : Focus} (h : t.IsFocusedAt p f) (q : Path) :
    (q.foldlM Focus.down? f = none ∧ t.get? (p ++ q) = none) ∨
    ∃ g, q.foldlM Focus.down? f = some g ∧ t.IsFocusedAt (p ++ q) g := by
  induction q generalizing p f with
  | nil => exact .inr ⟨f, rfl, by simpa using h⟩
  | cons s q ih =>
    have happend : p ++ s :: q = p.child s ++ q := by simp [Path.child]
    rw [happend, List.foldlM_cons]
    rcases h.down? s with ⟨hnone, hget⟩ | ⟨g, hsome, hg⟩
    · exact .inl ⟨by simp [hnone], by simp [get?_append, hget]⟩
    · simpa [hsome] using ih hg

/-- The descent ends with a focus on the part that the path leads to, or fails where the path leads
nowhere. -/
theorem focus?_cases (t : Formula) (p : Path) :
    (t.focus? p = none ∧ t.get? p = none) ∨
    ∃ f, t.focus? p = some f ∧ t.IsFocusedAt p f := by
  have hroot : t.IsFocusedAt [] ⟨t, id⟩ := ⟨rfl, fun _ => rfl⟩
  exact hroot.run p

theorem isFocusedAt_of_focus? {t : Formula} {p : Path} {f : Focus} (h : t.focus? p = some f) :
    t.IsFocusedAt p f := by
  rcases t.focus?_cases p with ⟨hnone, _⟩ | ⟨g, hsome, hg⟩
  · simp [hnone] at h
  · obtain rfl := Option.some.inj (hsome.symm.trans h)
    exact hg

theorem exists_focus?_of_get? {t n : Formula} {p : Path} (h : t.get? p = some n) :
    ∃ f, t.focus? p = some f ∧ f.part = n ∧ t.IsFocusedAt p f := by
  rcases t.focus?_cases p with ⟨_, hnone⟩ | ⟨f, hsome, hf⟩
  · simp [hnone] at h
  · exact ⟨f, hsome, Option.some.inj (hf.read.symm.trans h), hf⟩

theorem setChild?_setChild? {t u v : Formula} {s : Step} (h : t.setChild? s v = some u)
    (w : Formula) : u.setChild? s w = t.setChild? s w := by
  cases t with
  | call name as =>
    cases s with
    | argument i =>
      obtain ⟨hi, -⟩ := of_setChild?_argument h
      obtain rfl : call name (as.set i v) = u := by simpa [setChild?, hi] using h
      simp [setChild?]
    | _ => simp [setChild?] at h
  | _ =>
    cases s <;> first
      | obtain rfl := Option.some.inj h
        rfl
      | simp [setChild?] at h

theorem set?_set? {t u v : Formula} {p : Path} (h : t.set? v p = some u) (w : Formula) :
    u.set? w p = t.set? w p := by
  induction p generalizing t u with
  | nil => rfl
  | cons s p ih =>
    obtain ⟨c, hc, h⟩ := Option.bind_eq_some_iff.1 h
    obtain ⟨a, ha, hu⟩ := Option.bind_eq_some_iff.1 h
    have hchild : u.child? s = some a := child?_of_setChild? hu
    have hset : u.setChild? s = t.setChild? s := funext (setChild?_setChild? hu)
    rw [set?_cons, set?_cons, hchild, hc, Option.bind_some, Option.bind_some, ih ha, hset]

namespace Path

theorem parent?_eq_none_iff {p : Path} : p.parent? = none ↔ p = [] := by
  simp [parent?]

theorem exists_parent? {p : Path} (h : p ≠ []) :
    ∃ q s, p.parent? = some (q, s) ∧ q.child s = p := by
  cases hp : p.parent? with
  | none => exact absurd (parent?_eq_none_iff.1 hp) h
  | some x => exact ⟨x.1, x.2, rfl, (eq_child_of_parent? hp).symm⟩

end Path

/-- The focus `f` on the part at `p` is a lens: it holds the part that is read at `p`, putting that
back changes nothing, putting something else there replaces the part and nothing besides, and what
is put there gives way to what is put there next. -/
structure IsLensAt (t : Formula) (p : Path) (f : Focus) : Prop where
  read : t.get? p = some f.part
  put_part : f.put f.part = t
  replaces : ∀ w, t.IsReplacement p w (f.put w)
  put_put : ∀ w, ∃ g, (f.put w).focus? p = some g ∧ g.part = w ∧ ∀ w', g.put w' = f.put w'

theorem IsFocusedAt.isLensAt {t : Formula} {p : Path} {f : Focus} (h : t.IsFocusedAt p f) :
    t.IsLensAt p f where
  read := h.read
  put_part := Option.some.inj ((h.write _).symm.trans (set?_of_get? h.read))
  replaces w := isReplacement_of_set? (h.write w)
  put_put w := by
    have hread : (f.put w).get? p = some w := (isReplacement_of_set? (h.write w)).here
    obtain ⟨g, hg, hpart, hfocus⟩ := exists_focus?_of_get? hread
    refine ⟨g, hg, hpart, fun w' => ?_⟩
    have hwrite : some (g.put w') = some (f.put w') := by
      rw [← hfocus.write, ← h.write, set?_set? (h.write w)]
    exact Option.some.inj hwrite

/-- A part can be accessed to replace it exactly where a path leads for reading, it is the same part,
and the access is a lens, which does what replacing the part does. A path comes apart into that of
the parent and the last step, and leads to that child of what the parent's path leads to. -/
theorem focus?_lens (t : Formula) (p : Path) :
    (t.focus? p).map Focus.part = t.get? p ∧
    (∀ f, t.focus? p = some f → t.IsLensAt p f) ∧
    (∀ w, t.set? w p = (t.focus? p).map fun f => f.put w) ∧
    (∀ s, (p.child s).parent? = some (p, s)) ∧
    (p ≠ [] → ∃ q s, p.parent? = some (q, s) ∧ q.child s = p ∧
      t.get? p = (t.get? q).bind (·.child? s)) := by
  refine ⟨?_, fun f hf => (isFocusedAt_of_focus? hf).isLensAt, fun w => ?_, p.parent?_child, ?_⟩
  · rcases t.focus?_cases p with ⟨hnone, hget⟩ | ⟨f, hsome, hf⟩
    · simp [hnone, hget]
    · simp [hsome, hf.read]
  · rcases t.focus?_cases p with ⟨hnone, hget⟩ | ⟨f, hsome, hf⟩
    · have hset := isSome_set? t w p
      simpa [hnone, hget] using hset
    · simp [hsome, hf.write]
  · intro hp
    obtain ⟨q, s, hparent, hchild⟩ := Path.exists_parent? hp
    refine ⟨q, s, hparent, hchild, ?_⟩
    rw [← hchild, get?_child]

end Formula

end FormulaEditor
