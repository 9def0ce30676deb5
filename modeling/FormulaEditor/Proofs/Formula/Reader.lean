import FormulaEditor.Formula.Reader
import FormulaEditor.Proofs.Formula.Decode
/-! The canonical text of a formula tells which formula it is, and is read as that formula as long
as it is not nested too deep. -/
namespace FormulaEditor
namespace Formula

open Json

theorem canonicalJson_injective {a b : Formula} (h : a.canonicalJson = b.canonicalJson) :
    a = b := by
  have hvalue : a.toValue = b.toValue :=
    Value.print_injective a.isRegular_toValue b.isRegular_toValue h
  have hread := congrArg (fun v => (Reading.ofValue v).formula) hvalue
  simp only [formula_toValue] at hread
  exact Except.ok.inj hread

/-- Formulas have the same canonical text exactly when they are equal. -/
theorem canonicalJson_eq_iff (a b : Formula) : a.canonicalJson = b.canonicalJson ↔ a = b := by
  constructor
  · exact canonicalJson_injective
  · rintro rfl
    rfl

mutual

/-- How deep lists and objects stand inside one another in the canonical text. The arguments of a
call stand in a list of their own. -/
def nesting : Formula → Nat
  | negation a | paren a => a.nesting + 1
  | power a x => max a.nesting x.nesting + 1
  | binary _ l r => max l.nesting r.nesting + 1
  | call _ as => nestingOfArguments as + 2
  | _ => 1

def nestingOfArguments : List Formula → Nat
  | [] => 0
  | a :: as => max a.nesting (nestingOfArguments as)

end

theorem depth_number (n : Number) : n.toValue.depth = 0 := by
  rcases n.toValue_cases with ⟨m, hm, _⟩ | ⟨s, hs, _⟩
  · simp [hm, Value.depth]
  · simp [hs, Value.depth]

theorem depthOfItems_toValues {as : List Formula} (h : ∀ a ∈ as, a.toValue.depth = a.nesting) :
    Value.depthOfItems (toValues as) = nestingOfArguments as := by
  induction as with
  | nil => rfl
  | cons a as ih =>
    have ha := h a List.mem_cons_self
    have has := ih fun b hb => h b (List.mem_cons_of_mem a hb)
    rw [toValues, Value.depthOfItems, nestingOfArguments, ha, has]

theorem depth_toValue (t : Formula) : t.toValue.depth = t.nesting := by
  induction t with
  | number n =>
    have hn := depth_number n
    simp [toValue, tagged, Value.depth, Value.depthOfMembers, nesting, hn]
  | call name as ih =>
    have has := depthOfItems_toValues ih
    rw [toValues_eq_map] at has
    simp [toValue, tagged, Value.depth, Value.depthOfMembers, nesting, has]
  | _ => simp [toValue, tagged, Value.depth, Value.depthOfMembers, nesting, *]

theorem depthOfMembers_fields (t : Formula) : Value.depthOfMembers t.fields + 1 = t.nesting := by
  rw [← depth_toValue, toValue_eq_tagged]
  simp [tagged, Value.depth, Value.depthOfMembers]

theorem rootMembers_laterMembers {fuel : ℕ} {t : Tag} {ms : List (String × Value)}
    (hkeys : ∀ m ∈ ms, m.1 ≠ "type") (h : ∀ m ∈ ms, m.2.ReadsBack) (hfuel : ms.length < fuel)
    (rest : List Char) :
    rootMembers fuel false (some t) (Value.laterMembers ms ++ '}' :: rest) =
      if Value.depthOfMembers ms ≤ depthLimit - 1 then .ok ((some t, ms), rest)
      else .error (.malformed .recursionLimit) := by
  induction ms generalizing fuel with
  | nil =>
    obtain ⟨fuel, rfl⟩ : ∃ k, fuel = k + 1 := ⟨fuel - 1, by omega⟩
    change rootMembers (fuel + 1) false (some t) ('}' :: rest) = _
    simp [rootMembers, nextKey_closed, Value.depthOfMembers, bind, Except.bind]
  | cons m ms ih =>
    obtain ⟨fuel, rfl⟩ : ∃ k, fuel = k + 1 := ⟨fuel - 1, by omega⟩
    have hkey := hkeys m List.mem_cons_self
    have hread := h m List.mem_cons_self (depthLimit - 1) _ (endsNumber_laterMembers ms rest)
    have hlen : ms.length < fuel := by simpa using hfuel
    have hlater := ih (fun n hn => hkeys n (List.mem_cons_of_mem m hn))
      (fun n hn => h n (List.mem_cons_of_mem m hn)) hlen
    simp only [laterMembers_cons_append, rootMembers, nextKey_comma, string_quote, colon_cons,
      hread, hkey, if_false, Value.depthOfMembers, Nat.max_le, bind, Except.bind]
    by_cases hd : m.2.depth ≤ depthLimit - 1
    · by_cases hds : Value.depthOfMembers ms ≤ depthLimit - 1 <;> simp [hd, hds, hlater]
    · simp [hd]

theorem rootTag_print (t : Tag) (rest : List Char) :
    rootTag ((Value.string t.spelling).print.toList ++ rest) = .ok (t, rest) := by
  have hread := string_quote t.spelling rest
  simp [Value.print, quote, rootTag, glance, skipBlanks_cons (c := '"') (by decide), scalar, hread,
    Value.shape, bind, Except.bind]

/-- The canonical text of a formula is read as that formula, unless it is nested too deep. -/
theorem root_canonicalJson (t : Formula) (rest : List Char) :
    root (t.canonicalJson.toList ++ rest) =
      if t.nesting ≤ depthLimit then .ok (t, rest) else .error (.malformed .recursionLimit) := by
  have htext : t.canonicalJson.toList ++ rest =
      '{' :: '"' :: ("type".toList.flatMap escape ++ '"' :: ':' ::
        ((Value.string t.tag.spelling).print.toList ++
          (Value.laterMembers t.fields ++ '}' :: rest))) := by
    rw [canonicalJson, toValue_eq_tagged, tagged, toList_print_object, Value.toList_printMembers,
      List.append_assoc, memberText_append]
  have hfuel : t.fields.length < ("type".toList.flatMap escape ++ '"' :: ':' ::
      ((Value.string t.tag.spelling).print.toList ++
        (Value.laterMembers t.fields ++ '}' :: rest))).length := by
    have hlen := length_le_laterMembers t.fields
    simp only [List.length_append, List.length_cons]
    omega
  have hlater := rootMembers_laterMembers (t := t.tag) (fun m => key_ne_of_mem_fields)
    t.readsBack_fields hfuel rest
  have hdepth : Value.depthOfMembers t.fields ≤ depthLimit - 1 ↔ t.nesting ≤ depthLimit := by
    rw [← depthOfMembers_fields, depthLimit]
    omega
  rw [htext, root, skipBlanks_cons (by decide)]
  simp only [List.length_cons, rootMembers, nextKey_item, string_quote, colon_cons, rootTag_print,
    hlater, hdepth, if_true, Option.isSome_none, Bool.false_eq_true, if_false, bind, Except.bind]
  by_cases hd : t.nesting ≤ depthLimit
  · have hfields := t.ofTagged_fields
    rw [Reading.ofEntries_eq_map] at hfields
    simp [hd, ofBody, hfields, Except.mapError]
  · simp [hd]

theorem ofJson_of_nesting_le {t : Formula} (h : t.nesting ≤ depthLimit) :
    ofJson t.canonicalJson = .ok t := by
  have hroot := t.root_canonicalJson []
  rw [List.append_nil, if_pos h] at hroot
  simp [ofJson, hroot, endOfText, skipBlanks, bind, Except.bind]

/-- Reading undoes writing up to the limit, and beyond it the limit is the fault that is found. -/
theorem ofJson_canonicalJson (t : Formula) :
    t.nesting = t.toValue.depth ∧
      ofJson t.canonicalJson =
        (if t.nesting ≤ 127 then .ok t else .error (.malformed .recursionLimit)) ∧
      (Error.malformed .recursionLimit).message = "recursion limit exceeded" ∧
      (Error.malformed .recursionLimit).category = .text := by
  have hroot := t.root_canonicalJson []
  rw [List.append_nil, depthLimit] at hroot
  refine ⟨t.depth_toValue.symm, ?_, rfl, rfl⟩
  simp only [ofJson, hroot, bind, Except.bind]
  by_cases hd : t.nesting ≤ 127
  · simp [hd, endOfText, skipBlanks]
  · simp [hd]

end Formula

end FormulaEditor
