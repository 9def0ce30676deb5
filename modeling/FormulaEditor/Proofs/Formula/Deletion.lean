import FormulaEditor.Proofs.Formula.Operands
/-! What a formula becomes when an operand is deleted: the other operand takes the place of the
operation, or that of all arguments of a call. -/
namespace FormulaEditor
namespace Formula

theorem isSome_set? (t w : Formula) (p : Path) : (t.set? w p).isSome = (t.get? p).isSome := by
  induction p generalizing t with
  | nil => rfl
  | cons s p ih =>
    cases hc : t.child? s with
    | none => simp [hc]
    | some c =>
      have hs (a : Formula) : (t.setChild? s a).isSome = true := by simp [isSome_setChild?, hc]
      cases ha : c.set? w p with
      | none => simp [hc, ha, ← ih]
      | some a => simp [hc, ha, ← ih, hs]

theorem eq_call_of_child? {t c : Formula} {i : Nat} (h : t.child? (.argument i) = some c) :
    ∃ name as, t = call name as := by
  cases t <;> simp [child?] at h
  exact ⟨_, _, rfl⟩

theorem exists_call_of_get?_child {t n : Formula} {q : Path} {i : Nat}
    (h : t.get? (q.child (.argument i)) = some n) : ∃ name as, t.get? q = some (call name as) := by
  rw [get?_child] at h
  obtain ⟨c, hc, hn⟩ := Option.bind_eq_some_iff.1 h
  obtain ⟨name, as, rfl⟩ := eq_call_of_child? hn
  exact ⟨name, as, hc⟩

/-- `u` is `t` with `kept` in the place of the part at `p`, or as the only argument of a call that
has the part among its arguments, if these collapse. -/
structure IsCollapse (t : Formula) (p : Path) (kept : Formula) (collapse : Collapse) (u : Formula) :
    Prop where
  all : ∀ (q : Path) i, collapse = .replaceAll → p = q.child (.argument i) →
    ∃ name as, t.get? q = some (call name as) ∧ t.set? (call name [kept]) q = some u
  matched : (collapse = .replaceAll → ∀ (q : Path) i, p ≠ q.child (.argument i)) →
    t.set? kept p = some u

theorem exists_collapseInto? {t n : Formula} {p : Path} (h : t.get? p = some n) (kept : Formula)
    (collapse : Collapse) :
    ∃ u, t.collapseInto? kept p collapse = some u ∧ t.IsCollapse p kept collapse u := by
  have hset (w : Formula) {q : Path} {c : Formula} (hq : t.get? q = some c) :
      ∃ u, t.set? w q = some u := Option.isSome_iff_exists.1 (by simp [isSome_set?, hq])
  by_cases hall : collapse = .replaceAll ∧ ∃ (q : Path) (i : Nat), p = q.child (.argument i)
  · obtain ⟨rfl, q, i, rfl⟩ := hall
    obtain ⟨name, as, hq⟩ := exists_call_of_get?_child h
    obtain ⟨u, hu⟩ := hset (call name [kept]) hq
    refine ⟨u, by simp [collapseInto?, hq, hu], ?_, fun hp => absurd rfl (hp rfl q i)⟩
    intro q' i' _ he
    have hparent : some (q, Step.argument i) = some (q', .argument i') := by
      rw [← Path.parent?_child, he, Path.parent?_child]
    obtain ⟨rfl, _⟩ := Prod.mk.inj (Option.some.inj hparent)
    exact ⟨name, as, hq, hu⟩
  · obtain ⟨u, hu⟩ := hset kept h
    refine ⟨u, ?_, fun q i hc hp => absurd ⟨hc, q, i, hp⟩ hall, fun _ => hu⟩
    unfold collapseInto?
    split
    · rename_i q i hp
      exact absurd ⟨rfl, q, i, Path.eq_child_of_parent? hp⟩ hall
    · exact hu

theorem of_setChild?_argument {name : String} {as : List Formula} {i : Nat} {w u : Formula}
    (h : (call name as).setChild? (.argument i) w = some u) :
    i < as.length ∧ u = call name (as.take i ++ w :: as.drop (i + 1)) := by
  by_cases hi : i < as.length
  · have hset : as.set i w = as.take i ++ w :: as.drop (i + 1) := by
      rw [List.set_eq_take_append_cons_drop, if_pos hi]
    obtain rfl : call name (as.set i w) = u := by simpa [setChild?, hi] using h
    exact ⟨hi, by rw [hset]⟩
  · simp [setChild?, hi] at h

/-- A relation between formulas that passes from parts to the wholes: it holds of two formulas that
differ in a child of which it holds, and of two calls if one has a single argument and it holds of
that and of an argument of the other. -/
structure IsHereditary (R : Formula → Formula → Prop) : Prop where
  ofChild : ∀ {t u c w : Formula} {s : Step},
    t.child? s = some c → t.setChild? s w = some u → R w c → R u t
  ofArgument : ∀ {name : String} {as : List Formula} {c w : Formula},
    c ∈ as → R w c → R (call name [w]) (call name as)

namespace IsHereditary

variable {R : Formula → Formula → Prop} {t u n : Formula} {p : Path}

theorem of_set? {w : Formula} (hR : IsHereditary R) (hn : t.get? p = some n) (hw : R w n)
    (hu : t.set? w p = some u) : R u t := by
  induction p generalizing t u with
  | nil =>
    obtain rfl := Option.some.inj hn
    obtain rfl := Option.some.inj hu
    exact hw
  | cons s p ih =>
    obtain ⟨c, hc, hn⟩ := Option.bind_eq_some_iff.1 hn
    obtain ⟨c', hc', hu⟩ := Option.bind_eq_some_iff.1 hu
    obtain rfl := Option.some.inj (hc.symm.trans hc')
    obtain ⟨a, ha, hu⟩ := Option.bind_eq_some_iff.1 hu
    have hac : R a c := ih hn ha
    exact hR.ofChild hc hu hac

/-- What holds of the operand that stays and of the operation holds of the formulas after and before
the deletion. -/
theorem of_isCollapse {kept : Formula} {collapse : Collapse} (hR : IsHereditary R)
    (hn : t.get? p = some n) (hk : R kept n) (h : t.IsCollapse p kept collapse u) : R u t := by
  by_cases hall : collapse = .replaceAll ∧ ∃ (q : Path) (i : Nat), p = q.child (.argument i)
  · obtain ⟨hcollapse, q, i, rfl⟩ := hall
    obtain ⟨name, as, hq, hu⟩ := h.all q i hcollapse rfl
    have hi : as[i]? = some n := by rwa [get?_child_argument hq] at hn
    have hcall : R (call name [kept]) (call name as) :=
      hR.ofArgument (List.mem_of_getElem? hi) hk
    exact hR.of_set? hq hcall hu
  · have hu := h.matched fun hcollapse q i hp => hall ⟨hcollapse, q, i, hp⟩
    exact hR.of_set? hn hk hu

end IsHereditary

/-- An entry of the table that leads to an operation is enough for a deletion to go through. -/
theorem deleteOperand_isCollapse {t n kept : Formula} {p : Path} {operators : List Path} {id : Nat}
    {side : Side} (hid : operators[id]? = some p) (hn : t.get? p = some n)
    (hk : n.operand? side.opposite = some kept) (collapse : Collapse) :
    t.IsCollapse p kept collapse (t.deleteOperand operators id side collapse) := by
  obtain ⟨u, hu, h⟩ := exists_collapseInto? hn kept collapse
  have hdelete : t.deleteOperand operators id side collapse = u := by
    simp [deleteOperand, deleteAt?, hid, hn, kept?_eq_operand?, hk, hu]
  rwa [hdelete]

end Formula

end FormulaEditor
