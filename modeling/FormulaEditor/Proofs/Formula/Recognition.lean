import FormulaEditor.Formula.Decode
import FormulaEditor.Formula.Path
import FormulaEditor.Proofs.Formula.Spelling
/-! The reader of values takes a value for a formula exactly when the value spells that formula.
What is found among members, what stands beside a tag and what a tag makes of it have a lemma
each. -/
namespace FormulaEditor

open Json

namespace Formula

section Members

variable {α β : Type}

abbrev Field.Reads (f : Field α) (x : α) (r : Reading) : Prop := f.read r = .ok x

theorem oneAmong_eq_ok_iff {f : Field α} {a : Option α} {x : α}
    {members : List (String × Reading)} :
    oneAmong f a members = .ok x ↔ Completes f.key f.Reads a x members := by
  induction members generalizing a with
  | nil => cases a <;> simp [oneAmong, Completes, Once]
  | cons m members ih =>
    obtain ⟨key, r⟩ := m
    by_cases hkey : key = f.key
    · subst hkey
      cases a with
      | none => simp only [oneAmong, if_true, bind_eq_ok_iff, completes_cons_none, ih]
      | some a => simp [oneAmong, not_completes_cons_some]
    · unfold oneAmong
      rw [if_neg hkey, completes_cons_of_ne hkey, ih]

theorem twoAmong_eq_ok_iff {f : Field α} {g : Field β} (hne : f.key ≠ g.key) {a : Option α}
    {b : Option β} {x : α} {y : β} {members : List (String × Reading)} :
    twoAmong f g a b members = .ok (x, y) ↔
      Completes f.key f.Reads a x members ∧ Completes g.key g.Reads b y members := by
  induction members generalizing a b with
  | nil => cases a <;> cases b <;> simp [twoAmong, Completes, Once]
  | cons m members ih =>
    obtain ⟨key, r⟩ := m
    by_cases hf : key = f.key
    · subst hf
      rw [completes_cons_of_ne hne]
      cases a with
      | none =>
        simp only [twoAmong, if_true, bind_eq_ok_iff, completes_cons_none, ih]
        constructor
        · rintro ⟨c, hc, hx, hy⟩
          exact ⟨⟨c, hc, hx⟩, hy⟩
        · rintro ⟨⟨c, hc, hx⟩, hy⟩
          exact ⟨c, hc, hx, hy⟩
      | some a => simp [twoAmong, not_completes_cons_some]
    · unfold twoAmong
      rw [if_neg hf, completes_cons_of_ne hf]
      by_cases hg : key = g.key
      · subst hg
        cases b with
        | none =>
          simp only [if_true, bind_eq_ok_iff, completes_cons_none, ih]
          constructor
          · rintro ⟨c, hc, hx, hy⟩
            exact ⟨hx, c, hc, hy⟩
          · rintro ⟨hx, c, hc, hy⟩
            exact ⟨c, hc, hx, hy⟩
        | some b => simp [not_completes_cons_some]
      · rw [if_neg hg, completes_cons_of_ne hg, ih]

def Field.tag : Field Tag := ⟨"type", fun r => tagOfShape r.shape⟩

theorem splitTag_eq_ok_iff {t : Option Tag} {u : Tag} {members entries : List (String × Reading)} :
    splitTag t members = .ok (some u, entries) ↔
      Completes Field.tag.key Field.tag.Reads t u members ∧
        entries = members.filter (·.1 ≠ "type") := by
  induction members generalizing t entries with
  | nil => cases t <;> simp [splitTag, Completes, Once, eq_comm]
  | cons m members ih =>
    obtain ⟨key, r⟩ := m
    by_cases hkey : key = Field.tag.key
    · subst hkey
      have hkept : ((Field.tag.key, r) :: members).filter (·.1 ≠ "type") =
          members.filter (·.1 ≠ "type") := by
        simp [Field.tag]
      rw [hkept]
      cases t with
      | none =>
        have hsplit : splitTag none ((Field.tag.key, r) :: members) =
            Field.tag.read r >>= fun t => splitTag (some t) members := rfl
        simp only [hsplit, bind_eq_ok_iff, completes_cons_none, ih]
        constructor
        · rintro ⟨c, hc, hu, he⟩
          exact ⟨⟨c, hc, hu⟩, he⟩
        · rintro ⟨⟨c, hc, hu⟩, he⟩
          exact ⟨c, hc, hu, he⟩
      | some t =>
        refine ⟨fun h => ?_, fun h => absurd h.1 not_completes_cons_some⟩
        simp [splitTag, Field.tag] at h
    · have hne : key ≠ "type" := hkey
      have hkept : ((key, r) :: members).filter (·.1 ≠ "type") =
          (key, r) :: members.filter (·.1 ≠ "type") := by
        simp [hne]
      rw [completes_cons_of_ne hkey, hkept, splitTag, if_neg hne, bind_eq_ok_iff]
      constructor
      · rintro ⟨⟨u', rest⟩, hrest, h⟩
        obtain ⟨rfl, rfl⟩ := Prod.mk.inj (Except.ok.inj h)
        obtain ⟨hu, rfl⟩ := ih.1 hrest
        exact ⟨hu, rfl⟩
      · rintro ⟨hu, rfl⟩
        exact ⟨_, ih.2 ⟨hu, rfl⟩, rfl⟩

end Members

namespace Body

def HasFields (fields : List (String × (Reading → Prop))) : Body → Prop
  | .members entries => ∀ f ∈ fields, Once f.1 f.2 entries
  | .items readings => List.Forall₂ (fun f r => f.2 r) fields readings

variable {α β : Type} {body : Body}

theorem noFields_eq_ok_iff {x y : α} : body.noFields x = .ok y ↔ x = y ∧ body.HasFields [] := by
  cases body with
  | members entries => simp [noFields, HasFields]
  | items readings => cases readings <;> simp [noFields, HasFields]

theorem oneField_eq_ok_iff {t : Tag} {f : Field α} {x : α} :
    body.oneField t f = .ok x ↔ body.HasFields [(f.key, f.Reads x)] := by
  cases body with
  | members entries => simp [oneField, HasFields, oneAmong_eq_ok_iff, Completes]
  | items readings =>
    rcases readings with _ | ⟨r, _ | ⟨s, readings⟩⟩
    · simp [oneField, HasFields]
    · simp [oneField, HasFields, bind_eq_ok_iff]
    · simp [oneField, HasFields, bind_eq_ok_iff]

theorem twoFields_eq_ok_iff {t : Tag} {f : Field α} {g : Field β} (hne : f.key ≠ g.key) {x : α}
    {y : β} : body.twoFields t f g = .ok (x, y) ↔
      body.HasFields [(f.key, f.Reads x), (g.key, g.Reads y)] := by
  cases body with
  | members entries => simp [twoFields, HasFields, twoAmong_eq_ok_iff hne, Completes]
  | items readings =>
    rcases readings with _ | ⟨r, _ | ⟨s, _ | ⟨u, readings⟩⟩⟩
    · simp [twoFields, HasFields]
    · simp [twoFields, HasFields, bind_eq_ok_iff]
    · simp [twoFields, HasFields, bind_eq_ok_iff]
    · simp [twoFields, HasFields, bind_eq_ok_iff]

end Body

def fieldReadings : Formula → List (String × (Reading → Prop))
  | number n => [(Field.value.key, Field.value.Reads n)]
  | var name => [(Field.name.key, Field.name.Reads name)]
  | negation a | paren a => [("expression", fun r => r.formula = .ok a)]
  | power a x => [("expression", fun r => r.formula = .ok a), ("power", fun r => r.formula = .ok x)]
  | binary _ l r => [("left", fun s => s.formula = .ok l), ("right", fun s => s.formula = .ok r)]
  | call name as =>
    [(Field.name.key, Field.name.Reads name),
      (Field.arguments.key, fun r => r.formulas = .ok as)]
  | pi | e | unrecognized => []

theorem map_eq_ok_iff {ε α β : Type} {f : α → β} {x : Except ε α} {b : β} :
    f <$> x = .ok b ↔ ∃ a, x = .ok a ∧ f a = b := by
  cases x with
  | error e => simp [Functor.map, Except.map]
  | ok a => simp [Functor.map, Except.map]

section Tagged

variable {α β : Type} {u : Tag} {body : Body} {t : Formula}

theorem noFields_eq_ok_iff {c : Formula} (hc : ∀ t : Formula, t.tag = u ↔ c = t)
    (hfields : c.fieldReadings = []) :
    body.noFields c = .ok t ↔ t.tag = u ∧ body.HasFields t.fieldReadings := by
  rw [Body.noFields_eq_ok_iff, hc]
  refine and_congr_right fun h => ?_
  rw [← h, hfields]

theorem oneField_eq_ok_iff {f : Field α} {c : α → Formula}
    (hc : ∀ t : Formula, t.tag = u ↔ ∃ a, c a = t)
    (hfields : ∀ a, (c a).fieldReadings = [(f.key, f.Reads a)]) :
    c <$> body.oneField u f = .ok t ↔ t.tag = u ∧ body.HasFields t.fieldReadings := by
  rw [map_eq_ok_iff, hc]
  constructor
  · rintro ⟨a, ha, rfl⟩
    exact ⟨⟨a, rfl⟩, hfields a ▸ Body.oneField_eq_ok_iff.1 ha⟩
  · rintro ⟨⟨a, rfl⟩, h⟩
    exact ⟨a, Body.oneField_eq_ok_iff.2 (hfields a ▸ h), rfl⟩

theorem twoFields_eq_ok_iff {f : Field α} {g : Field β} (hne : f.key ≠ g.key) {c : α → β → Formula}
    (hc : ∀ t : Formula, t.tag = u ↔ ∃ a b, c a b = t)
    (hfields : ∀ a b, (c a b).fieldReadings =
      [(f.key, f.Reads a), (g.key, g.Reads b)]) :
    (do let (a, b) ← body.twoFields u f g; .ok (c a b)) = .ok t ↔
      t.tag = u ∧ body.HasFields t.fieldReadings := by
  rw [bind_eq_ok_iff, hc]
  constructor
  · rintro ⟨⟨a, b⟩, hab, h⟩
    obtain rfl := Except.ok.inj h
    exact ⟨⟨a, b, rfl⟩, hfields a b ▸ (Body.twoFields_eq_ok_iff hne).1 hab⟩
  · rintro ⟨⟨a, b, rfl⟩, h⟩
    exact ⟨(a, b), (Body.twoFields_eq_ok_iff hne).2 (hfields a b ▸ h), rfl⟩

theorem ofTagged_eq_ok_iff :
    ofTagged u body = .ok t ↔ t.tag = u ∧ body.HasFields t.fieldReadings := by
  cases u with
  | number => exact oneField_eq_ok_iff (fun t => by cases t <;> simp [tag]) fun _ => rfl
  | pi => exact noFields_eq_ok_iff (fun t => by cases t <;> simp [tag]) rfl
  | e => exact noFields_eq_ok_iff (fun t => by cases t <;> simp [tag]) rfl
  | var => exact oneField_eq_ok_iff (fun t => by cases t <;> simp [tag]) fun _ => rfl
  | negation => exact oneField_eq_ok_iff (fun t => by cases t <;> simp [tag]) fun _ => rfl
  | power =>
    exact twoFields_eq_ok_iff (by decide) (fun t => by cases t <;> simp [tag]) fun _ _ => rfl
  | binary o =>
    exact twoFields_eq_ok_iff (by decide)
      (fun t => by cases t <;> simp [tag, eq_comm]) fun _ _ => rfl
  | function =>
    exact twoFields_eq_ok_iff (by decide) (fun t => by cases t <;> simp [tag]) fun _ _ => rfl
  | paren => exact oneField_eq_ok_iff (fun t => by cases t <;> simp [tag]) fun _ => rfl
  | unrecognized => exact noFields_eq_ok_iff (fun t => by cases t <;> simp [tag]) rfl

end Tagged

theorem texts_eq_map : Tag.texts = Tag.known.map fun t => (t, t.spelling) := rfl

theorem ofSpelling_eq_iff {u : Tag} {s : String} :
    Tag.ofSpelling s = u ↔ u.IsNamedBy (.string s) := by
  have hfind : (Tag.known.find? fun t => t.spelling = s) = none ↔ ∀ m ∈ Tag.texts, s ≠ m.2 := by
    rw [List.find?_eq_none, texts_eq_map, List.forall_mem_map]
    simp [eq_comm]
  constructor
  · rintro rfl
    unfold Tag.ofSpelling
    cases h : Tag.known.find? fun t => t.spelling = s with
    | none => exact .otherText (hfind.1 h)
    | some t =>
      obtain rfl : t.spelling = s := by simpa using List.find?_some h
      refine .text ?_
      rw [texts_eq_map]
      exact List.mem_map_of_mem (List.mem_of_find?_eq_some h)
  · intro h
    cases h with
    | text h =>
      rw [texts_eq_map] at h
      obtain ⟨t, -, htext⟩ := List.mem_map.1 h
      obtain ⟨rfl, rfl⟩ := Prod.mk.inj htext
      exact Tag.ofSpelling_spelling t
    | otherText h =>
      rw [Tag.ofSpelling, hfind.2 h]
      rfl

theorem ofIndex_eq_iff {u : Tag} {n : Nat} :
    Tag.ofIndex n = u ↔ u.IsNamedBy (.number (.integer (.ofNat n))) := by
  constructor
  · rintro rfl
    unfold Tag.ofIndex
    cases hn : Tag.known[n]? with
    | none => exact .otherIndex (List.getElem?_eq_none_iff.1 hn)
    | some t => exact .index (s := t.spelling) (by rw [texts_eq_map, List.getElem?_map, hn]; rfl)
  · intro h
    cases h with
    | index h =>
      rw [texts_eq_map, List.getElem?_map] at h
      obtain ⟨t, hn, htext⟩ := Option.map_eq_some_iff.1 h
      rw [Tag.ofIndex, hn]
      exact congrArg Prod.fst htext
    | otherIndex h => rw [Tag.ofIndex, List.getElem?_eq_none h, Option.getD_none]

theorem read_tag_iff {u : Tag} {v : Value} :
    Field.tag.read (Reading.ofValue v) = .ok u ↔ u.IsNamedBy v := by
  have hnone {v : Value} (hs : ∀ s, v ≠ .string s)
      (hn : ∀ n : Nat, v ≠ .number (.integer (.ofNat n))) : ¬ u.IsNamedBy v := by
    rintro (_ | _ | _ | _)
    · exact hs _ rfl
    · exact hs _ rfl
    · exact hn _ rfl
    · exact hn _ rfl
  cases v with
  | string s =>
    simpa [Field.tag, Reading.ofValue, Reading.ofValue.scalar, tagOfShape] using ofSpelling_eq_iff
  | number n =>
    rcases n with (n | n) | _
    · simpa [Field.tag, Reading.ofValue, Reading.ofValue.scalar, tagOfShape] using ofIndex_eq_iff
    · simp [Field.tag, Reading.ofValue, Reading.ofValue.scalar, tagOfShape, hnone]
    · simp [Field.tag, Reading.ofValue, Reading.ofValue.scalar, tagOfShape, hnone]
  | null => simp [Field.tag, Reading.ofValue, Reading.ofValue.scalar, tagOfShape, hnone]
  | bool b => simp [Field.tag, Reading.ofValue, Reading.ofValue.scalar, tagOfShape, hnone]
  | array items => simp [Field.tag, Reading.ofValue, tagOfShape, hnone]
  | object members => simp [Field.tag, Reading.ofValue, tagOfShape, hnone]

theorem read_value_iff {n : Number} {v : Value} :
    Field.value.read (Reading.ofValue v) = .ok n ↔ n.IsSpelledBy v := by
  cases v with
  | string s =>
    rw [Number.IsSpelledBy, ← Number.ofText?_eq_some_iff]
    cases hs : Number.ofText? s <;>
      simp [Field.value, Reading.ofValue, Reading.ofValue.scalar, hs]
  | number m =>
    rw [Number.IsSpelledBy, Number.approximates_rational_iff]
    simp [Field.value, Reading.ofValue, Reading.ofValue.scalar]
  | _ => simp [Field.value, Reading.ofValue, Reading.ofValue.scalar, Number.IsSpelledBy]

theorem read_name_iff {name : String} {v : Value} :
    Field.name.read (Reading.ofValue v) = .ok name ↔ v = .string name := by
  cases v <;> simp [Field.name, Reading.ofValue, Reading.ofValue.scalar]

theorem mapM_formula_eq_ok_iff {as : List Formula}
    (ih : ∀ a ∈ as, ∀ v, (Reading.ofValue v).formula = .ok a ↔ a.IsSpelledBy v) (vs : List Value) :
    (vs.map Reading.ofValue).mapM Reading.formula = .ok as ↔ AreSpelledBy as vs := by
  induction vs generalizing as with
  | nil => cases as <;> simp [AreSpelledBy, pure, Except.pure]
  | cons v vs ihv =>
    rw [List.map_cons, List.mapM_cons, bind_eq_ok_iff]
    simp only [bind_eq_ok_iff]
    constructor
    · rintro ⟨a, ha, bs, hbs, h⟩
      obtain rfl := Except.ok.inj h
      have htail := ihv fun b hb => ih b (List.mem_cons_of_mem a hb)
      exact ⟨(ih a List.mem_cons_self v).1 ha, htail.1 hbs⟩
    · intro h
      cases as with
      | nil => exact h.elim
      | cons a as =>
        have htail := ihv fun b hb => ih b (List.mem_cons_of_mem a hb)
        exact ⟨a, (ih a List.mem_cons_self v).2 h.1, as, htail.2 h.2, rfl⟩

theorem read_arguments_iff {as : List Formula} {v : Value}
    (ih : ∀ a ∈ as, ∀ w, (Reading.ofValue w).formula = .ok a ↔ a.IsSpelledBy w) :
    (Reading.ofValue v).formulas = .ok as ↔ ∃ vs, v = .array vs ∧ AreSpelledBy as vs := by
  cases v with
  | array vs =>
    have hread := mapM_formula_eq_ok_iff ih vs
    simpa only [Reading.ofValue, Reading.ofValues_eq_map, Value.array.injEq, exists_eq_left']
      using hread
  | _ => simp [Reading.ofValue, Reading.ofValue.scalar]

theorem key_ne_of_mem_fieldReadings {t : Formula} {f : String × (Reading → Prop)}
    (h : f ∈ t.fieldReadings) : f.1 ≠ "type" := by
  have hkeys : ∀ key ∈ t.fieldReadings.map Prod.fst, key ≠ "type" := by
    cases t <;> simp [fieldReadings, Field.value, Field.name, Field.arguments]
  exact hkeys f.1 (List.mem_map_of_mem h)

/-- The members of an object make a formula with the tag and the fields that are among them. -/
theorem ofMembers_eq_ok_iff {members : List (String × Reading)} {t : Formula} :
    ofMembers members = .ok t ↔
      ∀ f ∈ (Field.tag.key, Field.tag.Reads t.tag) :: t.fieldReadings,
        Once f.1 f.2 members := by
  have hfields : (∀ f ∈ t.fieldReadings, Once f.1 f.2 (members.filter (·.1 ≠ "type"))) ↔
      ∀ f ∈ t.fieldReadings, Once f.1 f.2 members :=
    forall₂_congr fun f hf => once_filter_ne (key_ne_of_mem_fieldReadings hf)
  rw [List.forall_mem_cons, ofMembers, bind_eq_ok_iff, ← hfields]
  constructor
  · rintro ⟨⟨_ | u, entries⟩, hsplit, h⟩
    · nomatch h
    · obtain ⟨hu, rfl⟩ := splitTag_eq_ok_iff.1 hsplit
      obtain ⟨rfl, hfields⟩ := ofTagged_eq_ok_iff.1 h
      exact ⟨hu, hfields⟩
  · rintro ⟨hu, h⟩
    exact ⟨(some t.tag, _), splitTag_eq_ok_iff.2 ⟨hu, rfl⟩, ofTagged_eq_ok_iff.2 ⟨rfl, h⟩⟩

theorem ofItems_eq_ok_iff {readings : List Reading} {t : Formula} :
    ofItems readings = .ok t ↔ List.Forall₂ (fun f r => f.2 r)
      ((Field.tag.key, Field.tag.Reads t.tag) :: t.fieldReadings) readings := by
  cases readings with
  | nil => simp [ofItems]
  | cons r rest =>
    rw [ofItems, bind_eq_ok_iff, List.forall₂_cons]
    constructor
    · rintro ⟨u, hu, h⟩
      obtain ⟨rfl, hfields⟩ := ofTagged_eq_ok_iff.1 h
      exact ⟨hu, hfields⟩
    · rintro ⟨hu, h⟩
      exact ⟨t.tag, hu, ofTagged_eq_ok_iff.2 ⟨rfl, h⟩⟩

theorem formula_ofValue_iff {v : Value} {t : Formula} :
    (Reading.ofValue v).formula = .ok t ↔
      HasFields (((Field.tag.key, Field.tag.Reads t.tag) :: t.fieldReadings).map
        fun f => (f.1, fun w => f.2 (Reading.ofValue w))) v := by
  cases v with
  | object members =>
    rw [Reading.ofValue, Reading.ofEntries_eq_map, ofMembers_eq_ok_iff, HasFields,
      List.forall_mem_map]
    exact forall₂_congr fun f _ => once_map Reading.ofValue
  | array items =>
    rw [Reading.ofValue, Reading.ofValues_eq_map, ofItems_eq_ok_iff, HasFields,
      List.forall₂_map_right_iff, List.forall₂_map_left_iff]
  | _ => simp [Reading.ofValue, Reading.ofValue.scalar, HasFields]

theorem map_fieldReadings {t : Formula}
    (ih : ∀ s c, t.child? s = some c → ∀ v, (Reading.ofValue v).formula = .ok c ↔ c.IsSpelledBy v) :
    t.fieldReadings.map (fun f => (f.1, fun v => f.2 (Reading.ofValue v))) = t.fieldSpellings := by
  have hchild {s : Step} {c : Formula} (h : t.child? s = some c) :
      (fun v => (Reading.ofValue v).formula = .ok c) = c.IsSpelledBy :=
    funext fun v => propext (ih s c h v)
  have hname (name : String) :
      (fun v => Field.name.read (Reading.ofValue v) = .ok name) = (· = .string name) :=
    funext fun v => propext read_name_iff
  cases t with
  | pi | e | unrecognized => rfl
  | number n =>
    have hvalue : (fun v => Field.value.read (Reading.ofValue v) = .ok n) = n.IsSpelledBy :=
      funext fun v => propext read_value_iff
    simp only [fieldReadings, List.map_cons, List.map_nil, hvalue]
    rfl
  | var name =>
    simp only [fieldReadings, List.map_cons, List.map_nil, hname]
    rfl
  | negation a =>
    simp only [fieldReadings, List.map_cons, List.map_nil, hchild (s := .expression) rfl]
    rfl
  | paren a =>
    simp only [fieldReadings, List.map_cons, List.map_nil, hchild (s := .expression) rfl]
    rfl
  | power a x =>
    simp only [fieldReadings, List.map_cons, List.map_nil, hchild (s := .expression) rfl,
      hchild (s := .power) rfl]
    rfl
  | binary o l r =>
    simp only [fieldReadings, List.map_cons, List.map_nil, hchild (s := .left) rfl,
      hchild (s := .right) rfl]
    rfl
  | call name as =>
    have harguments : (fun v => (Reading.ofValue v).formulas = .ok as) =
        fun v => ∃ vs, v = .array vs ∧ AreSpelledBy as vs := by
      refine funext fun v => propext (read_arguments_iff fun a ha => ?_)
      obtain ⟨i, hi⟩ := List.mem_iff_getElem?.1 ha
      exact ih (.argument i) a hi
    simp only [fieldReadings, List.map_cons, List.map_nil, hname, harguments]
    rfl

/-- Exactly the values that spell a formula are read as that formula. -/
theorem formula_ofValue_eq_ok_iff {t : Formula} {v : Value} :
    (Reading.ofValue v).formula = .ok t ↔ t.IsSpelledBy v := by
  induction t using inductChildren generalizing v with
  | step t ih =>
    have htag : (fun v => Field.tag.read (Reading.ofValue v) = .ok t.tag) = t.tag.IsNamedBy :=
      funext fun v => propext read_tag_iff
    rw [formula_ofValue_iff, IsSpelledBy, List.map_cons, htag,
      map_fieldReadings fun s c h v => ih s c h]
    rfl

theorem ofTagged_members_eq_ok_iff {u : Tag} {members : List (String × Value)} {t : Formula} :
    ofTagged u (.members (Reading.ofEntries members)) = .ok t ↔
      t.tag = u ∧ HasFields t.fieldSpellings (.object members) := by
  rw [ofTagged_eq_ok_iff, ← map_fieldReadings fun _ _ _ _ => formula_ofValue_eq_ok_iff,
    Reading.ofEntries_eq_map, HasFields, List.forall_mem_map]
  exact and_congr_right fun _ => forall₂_congr fun f _ => once_map Reading.ofValue

theorem ofTagged_items_eq_ok_iff {u : Tag} {items : List Value} {t : Formula} :
    ofTagged u (.items (Reading.ofValues items)) = .ok t ↔
      t.tag = u ∧ HasFields t.fieldSpellings (.array items) := by
  rw [ofTagged_eq_ok_iff, ← map_fieldReadings fun _ _ _ _ => formula_ofValue_eq_ok_iff,
    Reading.ofValues_eq_map, HasFields, List.forall₂_map_left_iff]
  exact and_congr_right fun _ => List.forall₂_map_right_iff

end Formula

end FormulaEditor
