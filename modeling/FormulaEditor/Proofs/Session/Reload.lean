import FormulaEditor.Proofs.Formula.Nesting
import FormulaEditor.Proofs.Session.Invariant
/-! Sessions whose formulas come from texts. Whatever such a session holds can be read again from
its own text, because neither the texts nor the deletions make a formula too deep for that. -/
namespace FormulaEditor
namespace Session

/-- The formula is nested within the limit of the reader. -/
def IsReadable (s : Session) : Prop := ∀ t, s.formula = some t → t.nesting ≤ Json.depthLimit

theorem formula_setJson {s : Session} {text : String} {t : Formula}
    (h : (s.setJson text).2.formula = some t) :
    s.formula = some t ∨ Formula.ofJson text = .ok t := by
  unfold setJson at h
  cases htext : Formula.ofJson text with
  | error e =>
    rw [htext] at h
    exact .inl h
  | ok u =>
    rw [htext] at h
    rcases s.setFormula_cases u with hset | hset
    · simp only [hset] at h
      exact .inl h
    · simp only [hset, withFormula_formula, Option.some.injEq] at h
      exact .inr (by rw [h])

theorem nesting_delete {s : Session} {u : Formula} (h : s.delete.2.formula = some u) :
    ∃ t, s.formula = some t ∧ u.nesting ≤ t.nesting := by
  unfold delete at h
  split at h
  · exact ⟨u, h, le_rfl⟩
  · split at h
    · rename_i d t _ ht
      split at h
      · exact ⟨u, h, le_rfl⟩
      · obtain rfl := Option.some.inj h
        exact ⟨t, ht, t.nesting_deleteOperand_le _ _ _ _⟩
    · exact ⟨u, h, le_rfl⟩

/-- No command that gives no formula directly leads beyond the limit. -/
theorem IsReadable.step {s : Session} (h : s.IsReadable) {c : Command}
    (hc : ∀ u, c ≠ .setFormula u) : (s.step c).2.IsReadable := by
  intro t ht
  cases c with
  | setFormula u => exact absurd rfl (hc u)
  | setJson text =>
    rcases formula_setJson ht with hs | htext
    · exact h t hs
    · exact Formula.nesting_le_of_ofJson htext
  | select p =>
    have hformula : (s.select p).2.formula = s.formula := by
      unfold select
      cases s.selectable p <;> rfl
    exact h t (hformula ▸ ht)
  | clearSelection => exact h t ht
  | delete =>
    obtain ⟨u, hu, hle⟩ := nesting_delete ht
    exact hle.trans (h u hu)

theorem IsReadable.run {s : Session} (h : s.IsReadable) {cs : List Command}
    (hcs : ∀ c ∈ cs, ∀ u, c ≠ .setFormula u) : (s.run cs).IsReadable := by
  induction cs generalizing s with
  | nil => exact h
  | cons c cs ih =>
    have hstep := h.step (hcs c List.mem_cons_self)
    exact ih hstep fun d hd => hcs d (List.mem_cons_of_mem c hd)

/-- As long as all formulas come from texts, what a session holds is read from its own text, and
giving it that text changes nothing. -/
theorem reload_run_new (settings : Settings) (commands : List Command)
    (hcommands : ∀ c ∈ commands, ∀ u, c ≠ .setFormula u) :
    let s := (new settings).run commands
    ∀ t, s.formula = some t → Formula.ofJson s.json = .ok t ∧
      s.step (.setJson s.json) = (.ok (.changed false), s) := by
  intro s t ht
  have hs : Consistent settings s := (Consistent.new settings).run commands
  have hnew : (new settings).IsReadable := fun _ h => nomatch h
  have hread : Formula.ofJson s.json = .ok t := by
    rw [hs.json, ht]
    exact Formula.ofJson_of_nesting_le (hnew.run hcommands t ht)
  have hset := setFormula_of_eq_false ((hs.setFormula_eq_false_iff t).2 ht)
  exact ⟨hread, by simp [step, setJson, hread, hset, Except.map]⟩

/-- A text that breaks off, one of `x - y` that is not canonical, and the deletion of `y`. -/
def differenceCommands : List Command :=
  [.setJson "[\"SUBTRACTION\"",
    .setJson ("[\"SUBTRACTION\", [\"VARIABLE\", \"x\"], " ++
      "\x7b\"name\": \"y\", \"type\": \"VARIABLE\"\x7d]"),
    .select [2], .delete]

def difference : Session := (new {}).withFormula (.binary .subtraction (.var "x") (.var "y"))

theorem formula_run_differenceCommands :
    ((new {}).run differenceCommands).formula = some (.var "x") := by
  have hbroken : (new {}).step (.setJson "[\"SUBTRACTION\"") =
      (.error (.json (.malformed .endInList)), new {}) := by cbv
  have hset : (new {}).step (.setJson ("[\"SUBTRACTION\", [\"VARIABLE\", \"x\"], " ++
      "\x7b\"name\": \"y\", \"type\": \"VARIABLE\"\x7d]")) =
      (.ok (.changed true), difference) := by cbv
  have hselect : difference.step (.select [2]) =
      (.ok .done, { difference with selection := some [2] }) := by cbv
  have hdelete : step { difference with selection := some [2] } .delete =
      (.ok (.deletion (.operand 0 .right)), difference.withFormula (.var "x")) := by cbv
  simp only [differenceCommands, run_cons, run_nil, hbroken, hset, hselect, hdelete,
    withFormula_formula]

theorem reload_run_new_difference :
    let s := (new {}).run differenceCommands
    s.formula = some (.var "x") ∧ Formula.ofJson s.json = .ok (.var "x") ∧
      s.step (.setJson s.json) = (.ok (.changed false), s) :=
  ⟨formula_run_differenceCommands, reload_run_new {} differenceCommands
    (by simp [differenceCommands]) _ formula_run_differenceCommands⟩

end Session

end FormulaEditor
