import FormulaEditor.Formula.Encode
import FormulaEditor.Proofs.Formula.Recognition
import FormulaEditor.Proofs.Json.Reader
import FormulaEditor.Proofs.Number.Json
/-! The value that a formula is written as spells that formula and is read as it, however deep it
is. -/
namespace FormulaEditor

theorem Number.isSpelledBy_toValue (n : Number) : n.IsSpelledBy n.toValue := by
  rcases n.toValue_cases with ⟨m, hm, _, hvalue⟩ | ⟨s, hs, htext⟩
  · rw [hm]
    exact Number.approximates_rational_iff.2 hvalue
  · rw [hs]
    exact Number.ofText?_eq_some_iff.1 htext

theorem Number.isRegular_toValue (n : Number) : n.toValue.IsRegular := by
  rcases n.toValue_cases with ⟨m, hm, hregular, _⟩ | ⟨s, hs, _⟩
  · exact hm ▸ .number hregular
  · exact hs ▸ .string s

namespace Formula

open Json

def fields : Formula → List (String × Value)
  | number n => [("value", n.toValue)]
  | var name => [("name", .string name)]
  | negation a | paren a => [("expression", a.toValue)]
  | power a x => [("expression", a.toValue), ("power", x.toValue)]
  | binary _ l r => [("left", l.toValue), ("right", r.toValue)]
  | call name as => [("name", .string name), ("arguments", .array (toValues as))]
  | pi | e | unrecognized => []

theorem toValue_eq_tagged (t : Formula) : t.toValue = tagged t.tag t.fields := by
  cases t <;> simp [toValue, tag, fields]

theorem key_ne_of_mem_fields {t : Formula} {m : String × Value} (h : m ∈ t.fields) :
    m.1 ≠ "type" := by
  have hkeys : ∀ key ∈ t.fields.map Prod.fst, key ≠ "type" := by
    cases t <;> simp [fields]
  exact hkeys m.1 (List.mem_map_of_mem h)

theorem isRegular_toValue (t : Formula) : t.toValue.IsRegular := by
  have hobject {ms : List (String × Value)} {u : Tag} (h : ∀ m ∈ ms, m.2.IsRegular) :
      (tagged u ms).IsRegular :=
    .object (List.forall_mem_cons.2 ⟨.string _, h⟩)
  induction t with
  | number n => exact hobject (List.forall_mem_singleton.2 n.isRegular_toValue)
  | pi | e | unrecognized => exact hobject (List.forall_mem_nil _)
  | var name => exact hobject (List.forall_mem_singleton.2 (.string name))
  | negation a ih | paren a ih => exact hobject (List.forall_mem_singleton.2 ih)
  | power a x iha ihx =>
    exact hobject (List.forall_mem_cons.2 ⟨iha, List.forall_mem_singleton.2 ihx⟩)
  | binary o l r ihl ihr =>
    exact hobject (List.forall_mem_cons.2 ⟨ihl, List.forall_mem_singleton.2 ihr⟩)
  | call name as ih =>
    have harguments : (Value.array (toValues as)).IsRegular := by
      refine .array fun v hv => ?_
      rw [toValues_eq_map] at hv
      obtain ⟨a, ha, rfl⟩ := List.mem_map.1 hv
      exact ih a ha
    exact hobject (List.forall_mem_cons.2 ⟨.string name, List.forall_mem_singleton.2 harguments⟩)

theorem readsBack_fields (t : Formula) : ∀ m ∈ t.fields, m.2.ReadsBack := by
  intro m hm
  have hregular := t.isRegular_toValue
  rw [toValue_eq_tagged] at hregular
  cases hregular with
  | object h => exact (h m (List.mem_cons_of_mem _ hm)).readsBack

theorem areSpelledBy_toValues {as : List Formula} (h : ∀ a ∈ as, a.IsSpelledBy a.toValue) :
    AreSpelledBy as (toValues as) := by
  induction as with
  | nil => trivial
  | cons a as ih =>
    have ha := h a List.mem_cons_self
    have has := ih fun b hb => h b (List.mem_cons_of_mem a hb)
    exact ⟨ha, has⟩

theorem hasFields_fields {t : Formula}
    (h : ∀ s c, t.child? s = some c → c.IsSpelledBy c.toValue) :
    HasFields t.fieldSpellings (.object t.fields) := by
  cases t with
  | pi | e | unrecognized => exact List.forall_mem_nil _
  | number n =>
    exact List.forall_mem_singleton.2 ⟨_, by simp [fields], n.isSpelledBy_toValue⟩
  | var name => exact List.forall_mem_singleton.2 ⟨_, by simp [fields], rfl⟩
  | negation a | paren a =>
    exact List.forall_mem_singleton.2 ⟨_, by simp [fields], h .expression a rfl⟩
  | power a x =>
    have ha : Once "expression" a.IsSpelledBy (power a x).fields :=
      ⟨_, by simp [fields], h .expression a rfl⟩
    have hx : Once "power" x.IsSpelledBy (power a x).fields :=
      ⟨_, by simp [fields], h .power x rfl⟩
    exact List.forall_mem_cons.2 ⟨ha, List.forall_mem_singleton.2 hx⟩
  | binary o l r =>
    have hl : Once "left" l.IsSpelledBy (binary o l r).fields :=
      ⟨_, by simp [fields], h .left l rfl⟩
    have hr : Once "right" r.IsSpelledBy (binary o l r).fields :=
      ⟨_, by simp [fields], h .right r rfl⟩
    exact List.forall_mem_cons.2 ⟨hl, List.forall_mem_singleton.2 hr⟩
  | call name as =>
    have hname : Once "name" (· = .string name) (call name as).fields :=
      ⟨_, by simp [fields], rfl⟩
    have has : AreSpelledBy as (toValues as) := by
      refine areSpelledBy_toValues fun a ha => ?_
      obtain ⟨i, hi⟩ := List.mem_iff_getElem?.1 ha
      exact h (.argument i) a hi
    exact List.forall_mem_cons.2 ⟨hname, List.forall_mem_singleton.2
      ⟨.array (toValues as), by simp [fields], toValues as, rfl, has⟩⟩

/-- A formula is spelled by the value it is written as. -/
theorem isSpelledBy_toValue (t : Formula) : t.IsSpelledBy t.toValue := by
  induction t using inductChildren with
  | step t ih =>
    have htag : t.tag.IsNamedBy (.string t.tag.spelling) :=
      ofSpelling_eq_iff.1 t.tag.ofSpelling_spelling
    have hnone : t.fields.filter (·.1 = "type") = [] := by
      refine List.filter_eq_nil_iff.2 fun m hm => ?_
      simpa using key_ne_of_mem_fields hm
    rw [toValue_eq_tagged]
    refine List.forall_mem_cons.2 ⟨⟨.string t.tag.spelling, by simp [hnone], htag⟩, ?_⟩
    intro f hf
    exact (once_cons_of_ne (key_ne_of_mem_fieldSpellings hf).symm _).2 (hasFields_fields ih f hf)

theorem ofTagged_fields (t : Formula) :
    ofTagged t.tag (.members (Reading.ofEntries t.fields)) = .ok t :=
  ofTagged_members_eq_ok_iff.2 ⟨rfl, hasFields_fields fun _ c _ => c.isSpelledBy_toValue⟩

theorem formula_toValue (t : Formula) : (Reading.ofValue t.toValue).formula = .ok t :=
  formula_ofValue_eq_ok_iff.2 t.isSpelledBy_toValue

end Formula

end FormulaEditor
