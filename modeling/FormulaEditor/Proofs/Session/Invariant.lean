import FormulaEditor.Proofs.Formula.Reader
import FormulaEditor.Session
/-! What holds of a session after any sequence of commands. All that it keeps besides the formula is
derived from that, the selection can be drawn, and the drawings made are the answers that tell of a
new formula. -/
namespace FormulaEditor
namespace Session

/-- The formula decides its text and its drawing, and a selection leads to a box of the drawing. -/
structure Consistent (settings : Settings) (s : Session) : Prop where
  drawing : s.drawing = s.formula.map Formula.drawing
  json : s.json = (s.formula.map Formula.canonicalJson).getD ""
  selection : ∀ p, s.selection = some p → ∃ b, s.selectable p = .ok b
  settings : s.settings = settings

def Answer.redraws : Except SessionError Answer → Bool
  | .ok (.changed true) | .ok (.deletion (.operand ..)) => true
  | _ => false

theorem selectable_eq_ok_iff {s : Session} {p : Box.Path} {b : Box} :
    s.selectable p = .ok b ↔
      ∃ d, s.drawing = some d ∧ d.box.get? p = some b ∧ b.isSelectable = true := by
  unfold selectable
  cases hd : s.drawing with
  | none => simp
  | some d =>
    cases hb : d.box.get? p with
    | none => simp [hb]
    | some c =>
      simp only [Option.some.injEq, exists_eq_left', hb]
      split
      · rename_i hc
        constructor
        · rintro ⟨⟩
          exact ⟨rfl, hc⟩
        · rintro ⟨rfl, _⟩
          rfl
      · rename_i hc
        constructor
        · rintro ⟨⟩
        · rintro ⟨rfl, hb⟩
          exact absurd hb hc

theorem setFormula_cases (s : Session) (t : Formula) :
    s.setFormula t = (false, s) ∨ s.setFormula t = (true, s.withFormula t) := by
  unfold setFormula
  split
  · exact .inl rfl
  · exact .inr rfl

theorem delete_cases (s : Session) :
    s.delete = (.ok .nothing, s) ∨ (∃ e, s.delete = (.error e, s.clearSelection)) ∨
      ∃ id side t, s.delete = (.ok (.operand id side), s.withFormula t) := by
  unfold delete
  split
  · exact .inl rfl
  · split
    · split
      · exact .inr (.inl ⟨_, rfl⟩)
      · exact .inr (.inr ⟨_, _, _, rfl⟩)
    · exact .inr (.inl ⟨_, rfl⟩)

/-- All that a command can do to a session. -/
theorem step_cases (s : Session) (c : Command) :
    (s.step c).2 = s ∧ Answer.redraws (s.step c).1 = false ∨
    (s.step c).2 = s.clearSelection ∧ Answer.redraws (s.step c).1 = false ∨
    (∃ p b, s.selectable p = .ok b ∧ (s.step c).2 = { s with selection := some p } ∧
      Answer.redraws (s.step c).1 = false) ∨
    ∃ t, (s.step c).2 = s.withFormula t ∧ Answer.redraws (s.step c).1 = true := by
  cases c with
  | setFormula t =>
    rcases s.setFormula_cases t with h | h
    · exact .inl (by simp [step, h, Answer.redraws])
    · exact .inr (.inr (.inr ⟨t, by simp [step, h, Answer.redraws]⟩))
  | setJson text =>
    cases ht : Formula.ofJson text with
    | error e => exact .inl (by simp [step, setJson, ht, Except.map, Answer.redraws])
    | ok t =>
      rcases s.setFormula_cases t with h | h
      · exact .inl (by simp [step, setJson, ht, h, Except.map, Answer.redraws])
      · exact .inr (.inr (.inr ⟨t, by simp [step, setJson, ht, h, Except.map, Answer.redraws]⟩))
  | select p =>
    cases hp : s.selectable p with
    | error e => exact .inr (.inl (by simp [step, select, hp, Except.map, Answer.redraws]))
    | ok b =>
      exact .inr (.inr (.inl ⟨p, b, hp, by simp [step, select, hp, Except.map, Answer.redraws]⟩))
  | clearSelection => exact .inr (.inl (by simp [step, Answer.redraws]))
  | delete =>
    rcases s.delete_cases with h | ⟨e, h⟩ | ⟨id, side, t, h⟩
    · exact .inl (by simp [step, h, Except.map, Answer.redraws])
    · exact .inr (.inl (by simp [step, h, Except.map, Answer.redraws]))
    · exact .inr (.inr (.inr ⟨t, by simp [step, h, Except.map, Answer.redraws]⟩))

theorem Consistent.new (settings : Settings) : Consistent settings (.new settings) where
  drawing := rfl
  json := rfl
  selection _ h := nomatch h
  settings := rfl

theorem Consistent.step {settings : Settings} {s : Session} (h : Consistent settings s)
    (c : Command) : Consistent settings (s.step c).2 := by
  rcases s.step_cases c with ⟨hs, _⟩ | ⟨hs, _⟩ | ⟨p, b, hb, hs, _⟩ | ⟨t, hs, _⟩
  all_goals rw [hs]
  · exact h
  · exact ⟨h.drawing, h.json, by simp, h.settings⟩
  · refine ⟨h.drawing, h.json, fun q hq => ?_, h.settings⟩
    obtain rfl := Option.some.inj hq
    exact ⟨b, hb⟩
  · exact ⟨rfl, rfl, by simp, h.settings⟩

theorem Consistent.run {settings : Settings} {s : Session} (h : Consistent settings s)
    (cs : List Command) : Consistent settings (s.run cs) := by
  induction cs generalizing s with
  | nil => exact h
  | cons c cs ih => exact ih (h.step c)

theorem step_drawCount (s : Session) (c : Command) :
    (s.step c).2.drawCount = s.drawCount + if Answer.redraws (s.step c).1 then 1 else 0 := by
  rcases s.step_cases c with ⟨hs, ha⟩ | ⟨hs, ha⟩ | ⟨p, b, _, hs, ha⟩ | ⟨t, hs, ha⟩
  all_goals simp [hs, ha, clearSelection]

theorem run_drawCount (s : Session) (cs : List Command) :
    (s.run cs).drawCount = s.drawCount + (s.answers cs).countP Answer.redraws := by
  induction cs generalizing s with
  | nil => rfl
  | cons c cs ih =>
    rw [run_cons, ih, step_drawCount, answers, List.countP_cons]
    omega

/-- Canonical texts tell formulas apart, and none is taken for the text of a session without one. -/
theorem Consistent.setFormula_eq_false_iff {settings : Settings} {s : Session}
    (h : Consistent settings s) (t : Formula) :
    (s.setFormula t).1 = false ↔ s.formula = some t := by
  have hjson := h.json
  unfold setFormula
  cases hf : s.formula with
  | none => simp
  | some u =>
    rw [hf] at hjson
    simp only [Option.map_some, Option.getD_some] at hjson
    by_cases ht : t.canonicalJson = s.json
    · have hu : u = t := Formula.canonicalJson_injective (hjson.symm.trans ht.symm)
      simp [ht, hu]
    · have hu : u ≠ t := by
        rintro rfl
        exact ht hjson.symm
      simp [ht, hu]

theorem setFormula_of_eq_false {s : Session} {t : Formula} (h : (s.setFormula t).1 = false) :
    s.setFormula t = (false, s) := by
  rcases s.setFormula_cases t with hs | hs
  · exact hs
  · rw [hs] at h
    nomatch h

theorem Consistent.drawing_of_formula {settings : Settings} {s : Session} {t : Formula}
    (h : Consistent settings s) (ht : s.formula = some t) : s.drawing = some t.drawing := by
  rw [h.drawing, ht, Option.map_some]

theorem Consistent.exists_of_selection {settings : Settings} {s : Session} {p : Box.Path}
    (h : Consistent settings s) (hp : s.selection = some p) :
    ∃ t b, s.formula = some t ∧ t.drawing.box.get? p = some b ∧ b.isSelectable = true := by
  obtain ⟨b, hb⟩ := h.selection p hp
  obtain ⟨d, hd, hget, hselectable⟩ := selectable_eq_ok_iff.1 hb
  rw [h.drawing] at hd
  obtain ⟨t, ht, rfl⟩ := Option.map_eq_some_iff.1 hd
  exact ⟨t, b, ht, hget, hselectable⟩

theorem Consistent.delete_spec {settings : Settings} {s : Session} (h : Consistent settings s) :
    (s.selection = none ∧ s.delete = (.ok .nothing, s)) ∨
    ∃ t p, s.formula = some t ∧ s.selection = some p ∧
      ((t.drawing.box.nearestOperator? p = none ∧
          s.delete = (.error .noOperator, s.clearSelection)) ∨
        ∃ o, t.drawing.box.nearestOperator? p = some o ∧
          s.delete = (.ok (.operand o.id (o.side p)),
            s.withFormula (t.deleteOperand t.operators o.id (o.side p) s.settings.collapse))) := by
  cases hp : s.selection with
  | none => exact .inl ⟨rfl, by simp [delete, hp]⟩
  | some p =>
    obtain ⟨t, b, ht, _⟩ := h.exists_of_selection hp
    have hd := h.drawing_of_formula ht
    refine .inr ⟨t, p, ht, rfl, ?_⟩
    cases ho : t.drawing.box.nearestOperator? p with
    | none => exact .inl ⟨rfl, by simp [delete, hp, hd, ht, ho]⟩
    | some o =>
      refine .inr ⟨o, rfl, ?_⟩
      simp only [delete, hp, hd, ht, ho]
      rfl

/-- A deletion can only fail for want of an operator, because what is selected is drawn. -/
theorem Consistent.eq_noOperator_of_delete {settings : Settings} {s : Session} {e : SessionError}
    (h : Consistent settings s) (he : s.delete.1 = .error e) : e = .noOperator := by
  rcases h.delete_spec with ⟨_, hs⟩ | ⟨t, p, _, _, ⟨_, hs⟩ | ⟨o, _, hs⟩⟩
  all_goals rw [hs] at he
  · nomatch he
  · exact (Except.error.inj he).symm
  · nomatch he

/-- What holds after any commands in any order. -/
theorem run_new_invariant (settings : Settings) (commands : List Command) :
    let s := (new settings).run commands
    (s.formula = none ↔ s.drawing = none) ∧
      (∀ t, s.formula = some t → s.drawing = some t.drawing ∧ s.json = t.canonicalJson) ∧
      (s.formula = none → s.json = "") ∧
      (∀ p, s.selection = some p →
        ∃ d b, s.drawing = some d ∧ d.box.get? p = some b ∧ b.isSelectable = true) ∧
      s.drawCount = ((new settings).answers commands).countP Answer.redraws ∧
      s.settings = settings ∧
      (∀ t, (s.step (.setFormula t)).1 = .ok (.changed false) ↔ s.formula = some t) ∧
      (∀ t, (s.step (.setFormula t)).1 = .ok (.changed false) → (s.step (.setFormula t)).2 = s) ∧
      (s.step .delete).1 ≠ .error .noFormula ∧ ∀ e, (s.step .delete).1 ≠ .error (.json e) := by
  intro s
  have hs : Consistent settings s := (Consistent.new settings).run commands
  have hcount : s.drawCount = 0 + ((new settings).answers commands).countP Answer.redraws :=
    (new settings).run_drawCount commands
  have hdrawing := hs.drawing
  have hjson := hs.json
  have hset (t : Formula) :
      (s.step (.setFormula t)).1 = .ok (.changed false) ↔ (s.setFormula t).1 = false := by
    simp [step]
  have hdelete (e : SessionError) (he : (s.step .delete).1 = .error e) : e = .noOperator := by
    refine hs.eq_noOperator_of_delete ?_
    cases hd : s.delete.1 <;> simp_all [step, Except.map]
  refine ⟨?_, ?_, ?_, ?_, ?_, hs.settings, ?_, ?_, ?_, ?_⟩
  · rw [hdrawing, Option.map_eq_none_iff]
  · intro t ht
    rw [hdrawing, hjson, ht]
    exact ⟨rfl, rfl⟩
  · intro hnone
    rw [hjson, hnone]
    rfl
  · intro p hp
    obtain ⟨b, hb⟩ := hs.selection p hp
    obtain ⟨d, hd⟩ := selectable_eq_ok_iff.1 hb
    exact ⟨d, b, hd⟩
  · rw [hcount, Nat.zero_add]
  · intro t
    rw [hset, hs.setFormula_eq_false_iff]
  · intro t ht
    have heq := setFormula_of_eq_false ((hset t).1 ht)
    simp [step, heq]
  · intro he
    nomatch hdelete _ he
  · intro e he
    nomatch hdelete _ he

end Session

end FormulaEditor
