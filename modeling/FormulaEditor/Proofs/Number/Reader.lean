import FormulaEditor.Formula.Reader
import FormulaEditor.Proofs.Binary64.Bits
import FormulaEditor.Proofs.Formula.Acceptance
import FormulaEditor.Proofs.Formula.Reader
import FormulaEditor.Proofs.Number.Display
/-! The texts of a number literal, in JSON and in a drawing, are read back as that literal, alone
and inside a formula. So either text tells which literal it is. -/
namespace FormulaEditor

open Json

theorem Json.glance_of_value {cs rest : List Char} {v : Value}
    (h : value 0 cs = .ok (v, rest)) : glance cs = .ok (v.shape, rest) := by
  unfold value at h
  unfold glance
  split at h
  · nomatch h
  · nomatch h
  · simp [*, bind, Except.bind]

theorem Formula.ofJson_of_value {text : String} {t : Formula} {v : Value}
    (hread : value depthLimit text.toList = .ok (v, [])) (h : t.IsSpelledAtRootBy v) :
    Formula.ofJson text = .ok t := by
  have hroot := root_eq_ok_iff.2 ⟨v, hread, h⟩
  simp [Formula.ofJson, hroot, endOfText, skipBlanks, bind, Except.bind]

theorem Json.value_print {v : Value} {depth : Nat} (hv : v.IsRegular) (hdepth : v.depth ≤ depth) :
    value depth v.print.toList = .ok (v, []) := by
  have hread := hv.readsBack depth [] (by simp [EndsNumber])
  rwa [List.append_nil, if_pos hdepth] at hread

namespace Number

theorem IsSpelledBy.depth_eq_zero {a : Number} {v : Value} (h : a.IsSpelledBy v) : v.depth = 0 := by
  cases v with
  | number n => rfl
  | string s => rfl
  | _ => exact h.elim

/-- What a literal is read from does not depend on what stands around it. -/
theorem read_scalar_eq_ok_iff {a : Number} {v : Value} :
    Formula.Field.value.read (Formula.Reading.ofValue.scalar v.shape) = .ok a ↔
      a.IsSpelledBy v := by
  rw [← Formula.read_value_iff]
  cases v <;> rfl

theorem ofJson_of_value {text : String} {a : Number} {v : Value}
    (hread : Json.value 0 text.toList = .ok (v, [])) (h : a.IsSpelledBy v) :
    ofJson text = .ok a := by
  have hglance := glance_of_value hread
  have hvalue := read_scalar_eq_ok_iff.2 h
  simp [ofJson, hglance, hvalue, Except.mapError, endOfText, skipBlanks, bind, Except.bind]

theorem isSpelledAtRootBy_tagged {a : Number} {v : Value} (h : a.IsSpelledBy v) :
    (Formula.number a).IsSpelledAtRootBy (Formula.tagged .number [("value", v)]) := by
  have htag : Tag.number.IsNamedByText (.string Tag.number.spelling) :=
    ⟨Formula.ofSpelling_eq_iff.1 Tag.number.ofSpelling_spelling, _, rfl⟩
  have hvalue : Once "value" a.IsSpelledBy [("type", .string Tag.number.spelling), ("value", v)] :=
    ⟨v, by simp, h⟩
  exact List.forall_mem_cons.2 ⟨⟨_, by simp, htag⟩, List.forall_mem_singleton.2 hvalue⟩

/-- The text of the value is read as the literal, both by itself and as the value of a number in a
formula. -/
structure IsReadFrom (a : Number) (v : Value) : Prop where
  alone : ofJson v.print = .ok a
  inFormula : Formula.ofJson (Formula.tagged .number [("value", v)]).print = .ok (.number a)

theorem isReadFrom_of_isSpelledBy {a : Number} {v : Value} (h : a.IsSpelledBy v)
    (hv : v.IsRegular) : a.IsReadFrom v where
  alone := ofJson_of_value (value_print hv h.depth_eq_zero.le) h
  inFormula := by
    refine Formula.ofJson_of_value (value_print ?_ ?_) (isSpelledAtRootBy_tagged h)
    · exact .object (List.forall_mem_cons.2 ⟨.string _, List.forall_mem_singleton.2 hv⟩)
    · simp [Formula.tagged, Value.depth, Value.depthOfMembers, h.depth_eq_zero, depthLimit]

theorem IsReadFrom.eq_of_print_eq {a b : Number} {v w : Value} (ha : a.IsReadFrom v)
    (hb : b.IsReadFrom w) (h : v.print = w.print) : a = b := by
  have hread := hb.alone
  rw [← h, ha.alone] at hread
  exact Except.ok.inj hread

/-- Every literal is read from the text that it is written as and, between quotes, from the text it
is drawn with. So literals are equal, that is equal bit by bit, exactly when they are drawn the
same, and exactly when they are written the same. -/
theorem texts_tell_number :
    (∀ a : Number, a.IsReadFrom a.toValue ∧ a.IsReadFrom (.string a.display)) ∧
    ∀ a b : Number, (a = b ↔ a.value.toBits = b.value.toBits) ∧
      (a = b ↔ a.display = b.display) ∧ (a = b ↔ a.toValue.print = b.toValue.print) := by
  have hwritten (a : Number) : a.IsReadFrom a.toValue :=
    isReadFrom_of_isSpelledBy a.isSpelledBy_toValue a.isRegular_toValue
  have hdrawn (a : Number) : a.IsReadFrom (.string a.display) :=
    isReadFrom_of_isSpelledBy (ofText?_eq_some_iff.1 a.ofText?_display) (.string _)
  refine ⟨fun a => ⟨hwritten a, hdrawn a⟩, fun a b => ⟨?_, ?_, ?_⟩⟩
  · rw [Binary64.toBits_inj, Number.mk.injEq]
  · exact ⟨congrArg display, display_injective⟩
  · exact ⟨congrArg fun a : Number => a.toValue.print, (hwritten a).eq_of_print_eq (hwritten b)⟩

end Number

end FormulaEditor
