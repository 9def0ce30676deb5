import FormulaEditor.Proofs.Json.Quoted
import FormulaEditor.Proofs.Json.Separator
import FormulaEditor.Proofs.Json.Spelling
/-! Values are read back from their compact text, as long as they are not nested too deep. Otherwise
the limit is what is reported. -/
namespace FormulaEditor
namespace Json

namespace Value

mutual

def depth : Value → Nat
  | array items => depthOfItems items + 1
  | object members => depthOfMembers members + 1
  | _ => 0

def depthOfItems : List Value → Nat
  | [] => 0
  | v :: rest => max v.depth (depthOfItems rest)

def depthOfMembers : List (String × Value) → Nat
  | [] => 0
  | (_, v) :: rest => max v.depth (depthOfMembers rest)

end

inductive IsRegular : Value → Prop
  | null : IsRegular null
  | bool (b : Bool) : IsRegular (bool b)
  | number {n : Numeral} (h : n.IsRegular) : IsRegular (number n)
  | string (s : String) : IsRegular (string s)
  | array {items : List Value} (h : ∀ v ∈ items, IsRegular v) : IsRegular (array items)
  | object {members : List (String × Value)} (h : ∀ m ∈ members, IsRegular m.2) :
    IsRegular (object members)

def laterItems (items : List Value) : List Char := items.flatMap fun v => ',' :: v.print.toList

def memberText (m : String × Value) : List Char := (quote m.1).toList ++ ':' :: m.2.print.toList

def laterMembers (members : List (String × Value)) : List Char :=
  members.flatMap fun m => ',' :: memberText m

theorem toList_printItems (v : Value) (items : List Value) :
    (printItems (v :: items)).toList = v.print.toList ++ laterItems items := by
  induction items generalizing v with
  | nil => simp [printItems, laterItems]
  | cons w rest ih =>
    rw [printItems, String.toList_append, String.toList_append, ih w]
    simp [laterItems]

theorem toList_printMembers (m : String × Value) (members : List (String × Value)) :
    (printMembers (m :: members)).toList = memberText m ++ laterMembers members := by
  induction members generalizing m with
  | nil => simp [printMembers, laterMembers, memberText]
  | cons n rest ih =>
    rw [printMembers, String.toList_append, String.toList_append, String.toList_append,
      String.toList_append, ih n]
    simp [laterMembers, memberText]

/-- What is read from the text of the value, whatever follows it. -/
def ReadsBack (v : Value) : Prop := ∀ (d : Nat) (rest : List Char), EndsNumber rest →
  value d (v.print.toList ++ rest) =
    if v.depth ≤ d then .ok (v, rest) else .error (.malformed .recursionLimit)

end Value

open Value

theorem endsNumber_cons {c : Char} (h : continuesNumber c = false) (cs : List Char) :
    EndsNumber (c :: cs) := by
  intro x hx
  obtain rfl := Option.some.inj hx
  exact h

theorem endsNumber_laterItems (items : List Value) (rest : List Char) :
    EndsNumber (laterItems items ++ ']' :: rest) := by
  cases items with
  | nil => exact endsNumber_cons (by decide) _
  | cons v items => exact endsNumber_cons (by decide) _

theorem endsNumber_laterMembers (members : List (String × Value)) (rest : List Char) :
    EndsNumber (laterMembers members ++ '}' :: rest) := by
  cases members with
  | nil => exact endsNumber_cons (by decide) _
  | cons m members => exact endsNumber_cons (by decide) _

def startsValue (c : Char) : Bool :=
  c.isDigit || c == '-' || c == '"' || c == '[' || c == '{' || c == 'n' || c == 't' || c == 'f'

theorem startsValue_ne {c : Char} (h : startsValue c = true) : isBlank c = false ∧ c ≠ ']' := by
  constructor
  · by_cases hblank : isBlank c = true
    · simp only [isBlank, Bool.or_eq_true, beq_iff_eq] at hblank
      rcases hblank with ((rfl | rfl) | rfl) | rfl <;> revert h <;> decide
    · simpa using hblank
  · rintro rfl
    revert h
    decide

theorem startsValue_of_number {c : Char} (h : c = '-' ∨ c.isDigit = true) :
    startsValue c = true := by
  rcases h with rfl | h
  · decide
  · simp [startsValue, h]

theorem exists_print_eq (v : Value) : ∃ c cs, v.print.toList = c :: cs ∧ startsValue c = true := by
  cases v with
  | null => exact ⟨_, _, rfl, by decide⟩
  | bool b => cases b <;> exact ⟨_, _, rfl, by decide⟩
  | number n =>
    obtain ⟨c, cs, hn, hc⟩ := n.exists_digits_eq
    exact ⟨c, cs, by simp [print, Numeral.print, hn], startsValue_of_number hc⟩
  | string s => exact ⟨'"', s.toList.flatMap escape ++ ['"'], by simp [print, quote], by decide⟩
  | array items => exact ⟨'[', _, by simp [print]; rfl, by decide⟩
  | object members => exact ⟨'{', _, by simp [print]; rfl, by decide⟩

theorem startsItem_print (v : Value) (cs : List Char) : StartsItem ']' (v.print.toList ++ cs) := by
  obtain ⟨c, text, hv, hc⟩ := exists_print_eq v
  exact ⟨c, text ++ cs, by rw [hv, List.cons_append], startsValue_ne hc⟩

theorem nextElement_print (v : Value) (cs : List Char) :
    nextElement true (v.print.toList ++ cs) = .ok (.item (v.print.toList ++ cs)) :=
  nextElement_separator (.first blanks_nil) (startsItem_print v cs)

theorem nextElement_comma (v : Value) (cs : List Char) :
    nextElement false (',' :: (v.print.toList ++ cs)) = .ok (.item (v.print.toList ++ cs)) :=
  nextElement_separator (.later blanks_nil blanks_nil) (startsItem_print v cs)

theorem nextElement_closed (first : Bool) (cs : List Char) :
    nextElement first (']' :: cs) = .ok (.closed cs) :=
  nextElement_blanks_closed first blanks_nil cs

theorem nextKey_item (cs : List Char) : nextKey true ('"' :: cs) = .ok (.item cs) :=
  nextKey_separator (.first blanks_nil) cs

theorem nextKey_comma (cs : List Char) : nextKey false (',' :: '"' :: cs) = .ok (.item cs) :=
  nextKey_separator (.later blanks_nil blanks_nil) cs

theorem nextKey_closed (first : Bool) (cs : List Char) :
    nextKey first ('}' :: cs) = .ok (.closed cs) :=
  nextKey_blanks_closed first blanks_nil cs

theorem colon_cons (cs : List Char) : colon (':' :: cs) = .ok cs :=
  colon_eq_ok_iff.2 ⟨[], blanks_nil, rfl⟩

theorem elements_item {d fuel : Nat} {first : Bool} {v : Value} {items : List Value}
    {cs rest : List Char} (hv : ReadsBack v)
    (hnext : nextElement first cs =
      .ok (.item (v.print.toList ++ (laterItems items ++ ']' :: rest))))
    (hlater : elements nextElement (value d) fuel false (laterItems items ++ ']' :: rest) =
      if depthOfItems items ≤ d then .ok (items, rest) else .error (.malformed .recursionLimit)) :
    elements nextElement (value d) (fuel + 1) first cs =
      if depthOfItems (v :: items) ≤ d then .ok (v :: items, rest)
      else .error (.malformed .recursionLimit) := by
  have hread := hv d _ (endsNumber_laterItems items rest)
  simp only [elements, hnext, bind, Except.bind, hread, depthOfItems, Nat.max_le]
  by_cases hd : v.depth ≤ d
  · by_cases hds : depthOfItems items ≤ d <;> simp [hd, hds, hlater]
  · simp [hd]

theorem elements_nil {d fuel : Nat} (first : Bool) (rest : List Char) :
    elements nextElement (value d) (fuel + 1) first (']' :: rest) = .ok ([], rest) := by
  simp [elements, nextElement_closed, bind, Except.bind]

/-- Items are read one after the other, up to one that is too deep. -/
theorem elements_laterItems {d fuel : Nat} {items : List Value} (h : ∀ v ∈ items, ReadsBack v)
    (hfuel : items.length < fuel) (rest : List Char) :
    elements nextElement (value d) fuel false (laterItems items ++ ']' :: rest) =
      if depthOfItems items ≤ d then .ok (items, rest)
      else .error (.malformed .recursionLimit) := by
  induction items generalizing fuel with
  | nil =>
    obtain ⟨fuel, rfl⟩ : ∃ k, fuel = k + 1 := ⟨fuel - 1, by omega⟩
    exact elements_nil false rest
  | cons v items ih =>
    obtain ⟨fuel, rfl⟩ : ∃ k, fuel = k + 1 := ⟨fuel - 1, by omega⟩
    have hlen : items.length < fuel := by simpa using hfuel
    have hlater := ih (fun w hw => h w (List.mem_cons_of_mem v hw)) hlen
    refine elements_item (h v List.mem_cons_self) ?_ hlater
    rw [← nextElement_comma]
    simp [laterItems]

theorem elements_printItems {d fuel : Nat} {items : List Value} (h : ∀ v ∈ items, ReadsBack v)
    (hfuel : items.length < fuel) (rest : List Char) :
    elements nextElement (value d) fuel true ((printItems items).toList ++ ']' :: rest) =
      if depthOfItems items ≤ d then .ok (items, rest)
      else .error (.malformed .recursionLimit) := by
  obtain ⟨fuel, rfl⟩ : ∃ k, fuel = k + 1 := ⟨fuel - 1, by omega⟩
  cases items with
  | nil => exact elements_nil true rest
  | cons v items =>
    have hlen : items.length < fuel := by simpa using hfuel
    have hlater := elements_laterItems (d := d) (fun w hw => h w (List.mem_cons_of_mem v hw)) hlen
      rest
    refine elements_item (h v List.mem_cons_self) ?_ hlater
    rw [← nextElement_print, toList_printItems, List.append_assoc]

theorem members_member {d fuel : Nat} {first : Bool} {m : String × Value}
    {ms : List (String × Value)} {cs rest : List Char} (hm : ReadsBack m.2)
    (hnext : nextKey first cs = .ok (.item (m.1.toList.flatMap escape ++ '"' :: ':' ::
      (m.2.print.toList ++ (laterMembers ms ++ '}' :: rest)))))
    (hlater : members nextKey string (value d) fuel false (laterMembers ms ++ '}' :: rest) =
      if depthOfMembers ms ≤ d then .ok (ms, rest) else .error (.malformed .recursionLimit)) :
    members nextKey string (value d) (fuel + 1) first cs =
      if depthOfMembers (m :: ms) ≤ d then .ok (m :: ms, rest)
      else .error (.malformed .recursionLimit) := by
  have hread := hm d _ (endsNumber_laterMembers ms rest)
  simp only [members, hnext, bind, Except.bind, string_quote, colon_cons, hread, depthOfMembers,
    Nat.max_le]
  by_cases hd : m.2.depth ≤ d
  · by_cases hds : depthOfMembers ms ≤ d <;> simp [hd, hds, hlater]
  · simp [hd]

theorem members_nil {d fuel : Nat} (first : Bool) (rest : List Char) :
    members nextKey string (value d) (fuel + 1) first ('}' :: rest) = .ok ([], rest) := by
  simp [members, nextKey_closed, bind, Except.bind]

theorem memberText_append (m : String × Value) (cs : List Char) :
    memberText m ++ cs =
      '"' :: (m.1.toList.flatMap escape ++ '"' :: ':' :: (m.2.print.toList ++ cs)) := by
  simp [memberText, quote]

theorem laterMembers_cons_append (m : String × Value) (ms : List (String × Value))
    (cs : List Char) :
    laterMembers (m :: ms) ++ cs = ',' :: '"' :: (m.1.toList.flatMap escape ++ '"' :: ':' ::
      (m.2.print.toList ++ (laterMembers ms ++ cs))) := by
  rw [← memberText_append]
  simp [laterMembers]

theorem members_laterMembers {d fuel : Nat} {ms : List (String × Value)}
    (h : ∀ m ∈ ms, ReadsBack m.2) (hfuel : ms.length < fuel) (rest : List Char) :
    members nextKey string (value d) fuel false (laterMembers ms ++ '}' :: rest) =
      if depthOfMembers ms ≤ d then .ok (ms, rest) else .error (.malformed .recursionLimit) := by
  induction ms generalizing fuel with
  | nil =>
    obtain ⟨fuel, rfl⟩ : ∃ k, fuel = k + 1 := ⟨fuel - 1, by omega⟩
    exact members_nil false rest
  | cons m ms ih =>
    obtain ⟨fuel, rfl⟩ : ∃ k, fuel = k + 1 := ⟨fuel - 1, by omega⟩
    have hlen : ms.length < fuel := by simpa using hfuel
    have hlater := ih (fun n hn => h n (List.mem_cons_of_mem m hn)) hlen
    refine members_member (h m List.mem_cons_self) ?_ hlater
    rw [← nextKey_comma, laterMembers_cons_append]

theorem members_printMembers {d fuel : Nat} {ms : List (String × Value)}
    (h : ∀ m ∈ ms, ReadsBack m.2) (hfuel : ms.length < fuel) (rest : List Char) :
    members nextKey string (value d) fuel true ((printMembers ms).toList ++ '}' :: rest) =
      if depthOfMembers ms ≤ d then .ok (ms, rest) else .error (.malformed .recursionLimit) := by
  obtain ⟨fuel, rfl⟩ : ∃ k, fuel = k + 1 := ⟨fuel - 1, by omega⟩
  cases ms with
  | nil => exact members_nil true rest
  | cons m ms =>
    have hlen : ms.length < fuel := by simpa using hfuel
    have hlater := members_laterMembers (d := d) (fun n hn => h n (List.mem_cons_of_mem m hn)) hlen
      rest
    refine members_member (h m List.mem_cons_self) ?_ hlater
    rw [← nextKey_item, ← memberText_append, toList_printMembers, List.append_assoc]

theorem length_le_laterItems (items : List Value) : items.length ≤ (laterItems items).length := by
  induction items with
  | nil => exact Nat.zero_le _
  | cons v items ih =>
    simp only [laterItems, List.flatMap_cons, List.length_append, List.length_cons] at ih ⊢
    omega

theorem length_le_printItems (items : List Value) :
    items.length ≤ (printItems items).toList.length := by
  cases items with
  | nil => exact Nat.zero_le _
  | cons v items =>
    obtain ⟨c, cs, hv, _⟩ := exists_print_eq v
    have hlater := length_le_laterItems items
    rw [toList_printItems, hv, List.length_append, List.length_cons, List.length_cons]
    omega

theorem length_le_laterMembers (ms : List (String × Value)) :
    ms.length ≤ (laterMembers ms).length := by
  induction ms with
  | nil => exact Nat.zero_le _
  | cons m ms ih =>
    simp only [laterMembers, List.flatMap_cons, List.length_append, List.length_cons] at ih ⊢
    omega

theorem length_le_printMembers (ms : List (String × Value)) :
    ms.length ≤ (printMembers ms).toList.length := by
  cases ms with
  | nil => exact Nat.zero_le _
  | cons m ms =>
    have hlater := length_le_laterMembers ms
    rw [toList_printMembers, memberText, List.length_append, List.length_append,
      List.length_cons, List.length_cons]
    omega

theorem scalar_number {c : Char} (h : c = '-' ∨ c.isDigit = true) (cs : List Char) :
    scalar (c :: cs) = (number (c :: cs)).map fun p => (.number p.1, p.2) := by
  have hne : c ≠ 'n' ∧ c ≠ 't' ∧ c ≠ 'f' ∧ c ≠ '"' := by
    refine ⟨?_, ?_, ?_, ?_⟩ <;> rintro rfl <;> revert h <;> decide
  obtain ⟨hn, ht, hf, hquote⟩ := hne
  cases hcs : number (c :: cs) <;> simp [scalar, h, hcs, bind, Except.bind, Except.map]

/-- What is neither a list nor an object can be read however deep it stands. -/
theorem value_of_scalar (d : Nat) {c : Char} (hblank : isBlank c = false) (hlist : c ≠ '[')
    (hobject : c ≠ '{') (cs : List Char) : value d (c :: cs) = scalar (c :: cs) := by
  cases d <;> simp [value, skipBlanks_cons hblank, hlist, hobject]

theorem value_array (d : Nat) (cs : List Char) :
    value d ('[' :: cs) =
      if d = 0 then .error (.malformed .recursionLimit)
      else (elements nextElement (value (d - 1)) cs.length true cs).map
        fun p => (.array p.1, p.2) := by
  cases d with
  | zero => simp [value, skipBlanks_cons (c := '[') (by decide)]
  | succ d =>
    simp only [value, skipBlanks_cons (c := '[') (by decide)]
    rfl

theorem value_object (d : Nat) (cs : List Char) :
    value d ('{' :: cs) =
      if d = 0 then .error (.malformed .recursionLimit)
      else (members nextKey string (value (d - 1)) cs.length true cs).map
        fun p => (.object p.1, p.2) := by
  cases d with
  | zero => simp [value, skipBlanks_cons (c := '{') (by decide)]
  | succ d =>
    simp only [value, skipBlanks_cons (c := '{') (by decide)]
    rfl

theorem toList_print_object (ms : List (String × Value)) (rest : List Char) :
    (Value.object ms).print.toList ++ rest = '{' :: ((printMembers ms).toList ++ '}' :: rest) := by
  simp [print]

/-- Values without numerals out of range are read back as far as they are not too deep. -/
theorem Value.IsRegular.readsBack {v : Value} (h : v.IsRegular) : v.ReadsBack := by
  induction h with
  | null =>
    intro d rest _
    exact value_of_scalar d (by decide) (by decide) (by decide) _
  | bool b =>
    intro d rest _
    cases b
    all_goals exact value_of_scalar d (by decide) (by decide) (by decide) _
  | @number n hn =>
    intro d rest hrest
    obtain ⟨c, cs, hc, hstart⟩ := n.exists_digits_eq
    have hread := number_digits hn hrest
    have hblank := (startsValue_ne (startsValue_of_number hstart)).1
    have hbracket : c ≠ '[' ∧ c ≠ '{' := by
      constructor <;> rintro rfl <;> revert hstart <;> decide
    rw [hc, List.cons_append] at hread
    simp [print, Numeral.print, hc, value_of_scalar d hblank hbracket.1 hbracket.2,
      scalar_number hstart, hread, depth, Except.map]
  | string s =>
    intro d rest _
    have hread := string_quote s rest
    simp [print, quote, value_of_scalar d (c := '"') (by decide) (by decide) (by decide), scalar,
      hread, depth, bind, Except.bind]
  | @array items _ ih =>
    intro d rest _
    have htext : (Value.array items).print.toList ++ rest =
        '[' :: ((printItems items).toList ++ ']' :: rest) := by
      simp [print]
    have hfuel : items.length < ((printItems items).toList ++ ']' :: rest).length := by
      have hlen := length_le_printItems items
      rw [List.length_append, List.length_cons]
      omega
    rw [htext, value_array, elements_printItems ih hfuel, depth]
    cases d with
    | zero => simp
    | succ d => by_cases hd : depthOfItems items ≤ d <;> simp [hd, Except.map]
  | @object ms _ ih =>
    intro d rest _
    have hfuel : ms.length < ((printMembers ms).toList ++ '}' :: rest).length := by
      have hlen := length_le_printMembers ms
      rw [List.length_append, List.length_cons]
      omega
    rw [toList_print_object, value_object, members_printMembers ih hfuel, depth]
    cases d with
    | zero => simp
    | succ d => by_cases hd : depthOfMembers ms ≤ d <;> simp [hd, Except.map]

/-- The text of a value tells which value it is. -/
theorem Value.print_injective {v w : Value} (hv : v.IsRegular) (hw : w.IsRegular)
    (h : v.print = w.print) : v = w := by
  have hend : EndsNumber [] := by
    intro c hc
    nomatch hc
  have hreadv := hv.readsBack (max v.depth w.depth) [] hend
  have hreadw := hw.readsBack (max v.depth w.depth) [] hend
  rw [if_pos (le_max_left ..)] at hreadv
  rw [if_pos (le_max_right ..), ← h, hreadv] at hreadw
  exact congrArg Prod.fst (Except.ok.inj hreadw)

end Json

end FormulaEditor
