import FormulaEditor.Proofs.Session.Deletion
/-! Commands that fail. Each error has its one cause, and a session is left as it was, but for the
selection if the command was to replace it or to use it up. -/
namespace FormulaEditor

theorem Box.isSelectable_eq_false_iff {b : Box} :
    b.isSelectable = false ↔ (∃ symbol id, b = .operator symbol id) ∨ (∃ name, b = .function name) ∨
      ∃ p, b = .punctuation p := by
  cases b <;> simp [isSelectable]

namespace Session

/-- Commands that give up the selection first, whatever comes of them. -/
def Command.deselects : Command → Bool
  | .select _ | .delete | .clearSelection => true
  | .setFormula _ | .setJson _ => false

theorem setFormula_ne_error (s : Session) (t : Formula) (e : SessionError) :
    (s.step (.setFormula t)).1 ≠ .error e := nofun

theorem clearSelection_ne_error (s : Session) (e : SessionError) :
    (s.step .clearSelection).1 ≠ .error e := nofun

theorem setJson_eq_error_iff {s : Session} {text : String} {e : SessionError} :
    (s.step (.setJson text)).1 = .error e ↔
      ∃ e', Formula.ofJson text = .error e' ∧ e = .json e' := by
  cases htext : Formula.ofJson text with
  | ok t => simp [step, setJson, htext, Except.map]
  | error e' => simp [step, setJson, htext, Except.map, eq_comm]

theorem selectable_eq_error_iff {s : Session} {p : Box.Path} {e : SessionError} :
    s.selectable p = .error e ↔
      e = .noFormula ∧ s.drawing = none ∨
      ∃ d, s.drawing = some d ∧
        (e = .noSuchBox p ∧ d.box.get? p = none ∨
          e = .notSelectable p ∧ ∃ b, d.box.get? p = some b ∧ b.isSelectable = false) := by
  unfold selectable
  cases hd : s.drawing with
  | none => simpa using eq_comm
  | some d =>
    cases hb : d.box.get? p with
    | none => simpa [hb] using eq_comm
    | some b =>
      by_cases hsel : b.isSelectable = true
      · simp [hb, hsel]
      · simpa [hb, hsel] using eq_comm

theorem select_eq_error_iff {s : Session} {p : Box.Path} {e : SessionError} :
    (s.step (.select p)).1 = .error e ↔ s.selectable p = .error e := by
  cases hp : s.selectable p <;> simp [step, select, hp, Except.map]

theorem Consistent.delete_eq_error_iff {settings : Settings} {s : Session}
    (h : Consistent settings s) {e : SessionError} :
    (s.step .delete).1 = .error e ↔ e = .noOperator ∧ ∃ d p, s.drawing = some d ∧
      s.selection = some p ∧ d.box.nearestOperator? p = none := by
  rw [step_delete]
  rcases h.delete_spec with ⟨hp, hs⟩ | ⟨t, p, ht, hp, ⟨ho, hs⟩ | ⟨o, ho, hs⟩⟩
  · simp [hs, hp, Except.map]
  · have hd := h.drawing_of_formula ht
    simp [hs, hp, hd, ho, Except.map, eq_comm]
  · have hd := h.drawing_of_formula ht
    simp [hs, hp, hd, ho, Except.map]

/-- Nothing but the selection can be lost by a failure. -/
theorem Consistent.step_of_error {settings : Settings} {s : Session} (h : Consistent settings s)
    {c : Command} {e : SessionError} (he : (s.step c).1 = .error e) :
    (s.step c).2 = { s with selection := if c.deselects then none else s.selection } := by
  cases c with
  | setFormula t => exact absurd he (s.setFormula_ne_error t e)
  | setJson text =>
    obtain ⟨e', htext, _⟩ := setJson_eq_error_iff.1 he
    simp [Session.step, setJson, htext, Command.deselects]
  | select p =>
    have hp := select_eq_error_iff.1 he
    simp [Session.step, select, hp, clearSelection, Command.deselects]
  | clearSelection => exact absurd he (s.clearSelection_ne_error e)
  | delete =>
    rw [step_delete] at he ⊢
    rcases h.delete_spec with ⟨_, hs⟩ | ⟨t, p, _, _, ⟨_, hs⟩ | ⟨o, _, hs⟩⟩
    · rw [hs] at he
      cases he
    · simp [hs, clearSelection, Command.deselects]
    · rw [hs] at he
      cases he

/-- In every session that commands lead to, a command that fails changes nothing but the selection,
and each error is given exactly for its cause. -/
theorem failure_leaves_session (settings : Settings) (commands : List Command) :
    let s := (new settings).run commands
    (∀ c e, (s.step c).1 = .error e →
      (s.step c).2 = { s with selection := if c.deselects then none else s.selection }) ∧
    (∀ c e, (s.step c).1 = .error e →
      (∃ text, c = .setJson text) ∨ (∃ p, c = .select p) ∨ c = .delete) ∧
    (∀ text e, (s.step (.setJson text)).1 = .error e ↔
      ∃ e', Formula.ofJson text = .error e' ∧ e = .json e') ∧
    (∀ p e, (s.step (.select p)).1 = .error e ↔
      e = .noFormula ∧ s.drawing = none ∨
      ∃ d, s.drawing = some d ∧
        (e = .noSuchBox p ∧ d.box.get? p = none ∨
          e = .notSelectable p ∧ ∃ b, d.box.get? p = some b ∧
            ((∃ symbol id, b = .operator symbol id) ∨ (∃ name, b = .function name) ∨
              ∃ q, b = .punctuation q))) ∧
    ∀ e, (s.step .delete).1 = .error e ↔ e = .noOperator ∧ ∃ d p, s.drawing = some d ∧
      s.selection = some p ∧ d.box.nearestOperator? p = none := by
  intro s
  have hs : Consistent settings s := (Consistent.new settings).run commands
  refine ⟨fun c e he => hs.step_of_error he, ?_, fun text e => setJson_eq_error_iff, ?_,
    fun e => hs.delete_eq_error_iff⟩
  · intro c e he
    cases c with
    | setFormula t => exact absurd he (s.setFormula_ne_error t e)
    | setJson text => exact .inl ⟨text, rfl⟩
    | select p => exact .inr (.inl ⟨p, rfl⟩)
    | clearSelection => exact absurd he (s.clearSelection_ne_error e)
    | delete => exact .inr (.inr rfl)
  · intro p e
    simp only [select_eq_error_iff, selectable_eq_error_iff, Box.isSelectable_eq_false_iff]

end Session

end FormulaEditor
