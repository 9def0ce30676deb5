import FormulaEditor.Formula.Deletion
import FormulaEditor.Formula.Drawing
import Mathlib.Logic.Function.Iterate
/-! Where the parts of a formula are drawn. Parentheses share a group of boxes with what stands
between them, so the place of a part tells the box that is drawn for it together with a number of
parentheses around it. Every part is drawn at its place, and every group is where a part is. -/
namespace FormulaEditor

namespace Box

def wrapped (depth : Nat) (members : List Box) : List Box :=
  List.replicate depth (punctuation .opening) ++ members
    ++ List.replicate depth (punctuation .closing)

theorem mem_of_mem_wrapped {ms : List Box} {b : Box} {depth : Nat} (h : b ∈ wrapped depth ms)
    (hb : ∀ p, b ≠ punctuation p) : b ∈ ms := by
  simp only [wrapped, List.mem_append, List.mem_replicate] at h
  rcases h with (⟨_, h⟩ | h) | ⟨_, h⟩
  · exact absurd h (hb _)
  · exact h
  · exact absurd h (hb _)

@[simp] theorem spliced_group (ms : List Box) : (group ms).spliced = ms := rfl

theorem spliced_of_ne_group {b : Box} (h : ∀ ms, b ≠ group ms) : b.spliced = [b] := by
  cases b with
  | group ms => exact absurd rfl (h ms)
  | _ => rfl

theorem wrapped_succ (depth : Nat) (ms : List Box) :
    wrapped (depth + 1) ms =
      punctuation .opening :: wrapped depth ms ++ [punctuation .closing] := by
  simp [wrapped, List.replicate_succ, ← List.replicate_succ']

theorem wrapped_succ' (depth : Nat) (ms : List Box) :
    wrapped (depth + 1) ms =
      wrapped depth (punctuation .opening :: ms ++ [punctuation .closing]) := by
  have hopening : List.replicate (depth + 1) (punctuation .opening) =
      List.replicate depth (punctuation .opening) ++ [punctuation .opening] := List.replicate_succ'
  rw [wrapped, hopening]
  simp [wrapped, List.replicate_succ]

theorem iterate_parenthesized (b : Box) (depth : Nat) :
    parenthesized^[depth + 1] b = group (wrapped (depth + 1) b.spliced) := by
  induction depth with
  | zero => rfl
  | succ depth ih =>
    rw [Function.iterate_succ_apply', ih, wrapped_succ (depth + 1)]
    rfl

@[simp] theorem getElem?_wrapped_add {ms : List Box} {i : Nat} (depth : Nat) (hi : i < ms.length) :
    (wrapped depth ms)[depth + i]? = ms[i]? := by
  simp [wrapped, List.getElem?_append, hi]

theorem of_getElem?_wrapped {ms : List Box} {b : Box} {depth i : Nat}
    (h : (wrapped depth ms)[i]? = some b) :
    (∃ j, i = depth + j ∧ ms[j]? = some b) ∨ ∃ p, b = punctuation p := by
  have hi := (List.getElem?_eq_some_iff.1 h).1
  by_cases hd : depth ≤ i
  · obtain ⟨j, rfl⟩ := Nat.exists_eq_add_of_le hd
    by_cases hj : j < ms.length
    · exact .inl ⟨j, rfl, by rwa [getElem?_wrapped_add depth hj] at h⟩
    · rw [wrapped, List.getElem?_append_right (by simp; omega)] at h
      exact .inr ⟨_, List.eq_of_mem_replicate (List.mem_of_getElem? h)⟩
  · rw [wrapped, List.append_assoc, List.getElem?_append_left (by simp; omega)] at h
    exact .inr ⟨_, List.eq_of_mem_replicate (List.mem_of_getElem? h)⟩

theorem iterate_parenthesized_group (ms : List Box) (depth : Nat) :
    parenthesized^[depth] (group ms) = group (wrapped depth ms) := by
  cases depth with
  | zero => simp [wrapped]
  | succ depth => exact iterate_parenthesized _ depth

theorem mem_spliced_of_mem_iterate {b : Box} {ms : List Box} {depth id : Nat} {symbol : String}
    (h : parenthesized^[depth] b = group ms) (hm : operator symbol id ∈ ms) :
    operator symbol id ∈ b.spliced := by
  cases depth with
  | zero =>
    rw [Function.iterate_zero, id_eq] at h
    rwa [h]
  | succ depth =>
    rw [iterate_parenthesized, group.injEq] at h
    subst h
    exact mem_of_mem_wrapped hm (by simp)

theorem get?_parenthesized_cons {b c : Box} {i : Nat} {p : Path} (h : b.get? (i :: p) = some c) :
    b.parenthesized.get? ((i + 1) :: p) = some c := by
  obtain ⟨ms, d, rfl, hd, hc⟩ := get?_cons_eq_some_iff.1 h
  have hi : i < ms.length := (List.getElem?_eq_some_iff.1 hd).1
  refine get?_cons_eq_some_iff.2 ⟨_, d, rfl, ?_, hc⟩
  rw [List.cons_append, List.getElem?_cons_succ, spliced_group, List.getElem?_append_left hi, hd]

theorem eq_group_of_get? {b : Box} {p : Path} {ms : List Box} (h : b.get? p = some (group ms)) :
    ∃ ns, b = group ns := by
  cases p with
  | nil => exact ⟨ms, Option.some.inj h⟩
  | cons i p =>
    obtain ⟨ns, _, hb, _⟩ := get?_cons_eq_some_iff.1 h
    exact ⟨ns, hb⟩

theorem getElem?_of_append_singleton {ms : List Box} {last b : Box} {i : Nat}
    (h : (ms ++ [last])[i]? = some b) (hb : b ≠ last) : ms[i]? = some b := by
  by_cases hi : i < ms.length
  · rwa [List.getElem?_append_left hi] at h
  · rw [List.getElem?_append_right (by omega)] at h
    have hl : b ∈ [last] := List.mem_of_getElem? h
    exact absurd (List.mem_singleton.1 hl) hb

theorem get?_of_parenthesized_cons {b : Box} {ms : List Box} {i : Nat} {p : Path}
    (h : b.parenthesized.get? (i :: p) = some (group ms)) :
    ∃ j, i = j + 1 ∧ b.get? (j :: p) = some (group ms) := by
  obtain ⟨_, d, hn, hd, hp⟩ := get?_cons_eq_some_iff.1 h
  obtain rfl := group.inj hn
  obtain ⟨ns, rfl⟩ := eq_group_of_get? hp
  have hd := getElem?_of_append_singleton hd (by simp)
  cases i with
  | zero => simp at hd
  | succ j =>
    rw [List.getElem?_cons_succ] at hd
    refine ⟨j, rfl, ?_⟩
    cases b with
    | group bs => exact get?_cons_eq_some_iff.2 ⟨bs, _, rfl, hd, hp⟩
    | _ => simpa [spliced] using List.mem_of_getElem? hd

end Box

namespace Formula

def isParen : Formula → Bool
  | paren _ => true
  | _ => false

/-- The place of a child's box among those of its parent, unless that is a parenthesis. -/
def memberIndex : Formula → Step → Nat
  | negation _, _ => 1
  | power .., .power | binary .., .right => 2
  | call .., .argument i => i + 2
  | _, _ => 0

def operatorsBeforeChild : Formula → Step → Nat
  | power a _, .power => a.operatorCount
  | binary _ l _, .right => l.operatorCount
  | call _ as, .argument i => argumentOperatorCount (as.take i)
  | _, _ => 0

def operatorsBefore (t : Formula) : Path → Nat
  | [] => 0
  | s :: p =>
    match t.child? s with
    | some c => t.operatorsBeforeChild s + c.operatorsBefore p
    | none => 0

/-- The box of a part, or the outermost of the parentheses that share its group. -/
structure Place where
  path : Box.Path
  /-- How many parentheses share the group of the part and stand around it. -/
  depth : Nat

namespace Place

def inMember (i : Nat) (q : Place) : Place := ⟨i :: q.path, q.depth⟩

/-- The place after parentheses were put around everything: the opening one comes before all that
stands in the outermost group. -/
def inParen (q : Place) : Place :=
  ⟨q.path.modifyHead (· + 1), if q.path = [] then q.depth + 1 else q.depth⟩

end Place

def place (t : Formula) : Path → Place
  | [] => ⟨[], 0⟩
  | s :: p =>
    match t.child? s with
    | some c => if t.isParen then (c.place p).inParen else (c.place p).inMember (t.memberIndex s)
    | none => ⟨[], 0⟩

theorem exists_eq_box_of_mem_argumentBoxes {first : Nat} {as : List Formula} {b : Box}
    (h : b ∈ argumentBoxes first as) : ∃ a first', b = box first' a := by
  induction as generalizing first with
  | nil => simp [argumentBoxes] at h
  | cons a as ih =>
    rcases List.mem_cons.1 h with rfl | h
    · exact ⟨a, first, rfl⟩
    · exact ih h

theorem argumentBoxes_getElem? (first : Nat) (as : List Formula) (i : Nat) :
    (argumentBoxes first as)[i]? =
      as[i]?.map (·.box (first + argumentOperatorCount (as.take i))) := by
  induction as generalizing first i with
  | nil => rfl
  | cons a as ih =>
    cases i with
    | zero => simp [argumentBoxes, argumentOperatorCount]
    | succ i => simp [argumentBoxes, argumentOperatorCount, ih, Nat.add_assoc]

theorem getElem?_members_of_child? {t c : Formula} {s : Step} (first : Nat)
    (ht : t.isParen = false) (h : t.child? s = some c) :
    ∃ ms, t.box first = .group ms ∧
      ms[t.memberIndex s]? = some (c.box (first + t.operatorsBeforeChild s)) := by
  cases t <;> cases s <;> simp_all [child?, isParen, box, Box.infixed, Box.called, memberIndex,
    operatorsBeforeChild]
  case call.argument f as i =>
    have hi := (List.getElem?_eq_some_iff.1 h).1
    rw [List.getElem?_append_left (by simpa using hi), argumentBoxes_getElem?, h]
    rfl

theorem child?_of_getElem?_members {t : Formula} {first i : Nat} {ms ns : List Box}
    (ht : t.isParen = false) (hm : t.box first = .group ms) (h : ms[i]? = some (.group ns)) :
    ∃ s c, t.child? s = some c ∧ t.memberIndex s = i ∧
      c.box (first + t.operatorsBeforeChild s) = .group ns := by
  cases t with
  | negation a =>
    obtain rfl := Box.group.inj hm
    match i, h with
    | 1, h => exact ⟨.expression, a, rfl, rfl, Option.some.inj h⟩
  | power a x =>
    obtain rfl := Box.group.inj hm
    match i, h with
    | 0, h => exact ⟨.expression, a, rfl, rfl, Option.some.inj h⟩
    | 2, h => exact ⟨.power, x, rfl, rfl, Option.some.inj h⟩
  | binary o l r =>
    obtain rfl := Box.group.inj hm
    match i, h with
    | 0, h => exact ⟨.left, l, rfl, rfl, Option.some.inj h⟩
    | 2, h => exact ⟨.right, r, rfl, rfl, Option.some.inj h⟩
  | call name as =>
    obtain rfl := Box.group.inj hm
    have h := Box.getElem?_of_append_singleton h (by simp)
    match i, h with
    | i + 2, h =>
      rw [List.getElem?_cons_succ, List.getElem?_cons_succ, argumentBoxes_getElem?] at h
      obtain ⟨a, ha, hn⟩ := Option.map_eq_some_iff.1 h
      exact ⟨.argument i, a, ha, rfl, hn⟩
  | paren a => simp [isParen] at ht
  | unrecognized =>
    obtain rfl := Box.group.inj hm
    simp at h
  | _ => simp [box] at hm

@[simp] theorem place_nil (t : Formula) : t.place [] = ⟨[], 0⟩ := rfl

theorem place_cons {t c : Formula} {s : Step} (h : t.child? s = some c) (p : Path) :
    t.place (s :: p) =
      if t.isParen then (c.place p).inParen else (c.place p).inMember (t.memberIndex s) := by
  simp [place, h]

@[simp] theorem operatorsBefore_nil (t : Formula) : t.operatorsBefore [] = 0 := rfl

theorem operatorsBefore_cons {t c : Formula} {s : Step} (h : t.child? s = some c) (p : Path) :
    t.operatorsBefore (s :: p) = t.operatorsBeforeChild s + c.operatorsBefore p := by
  simp [operatorsBefore, h]

theorem exists_eq_paren {t : Formula} (h : t.isParen = true) : ∃ a, t = paren a := by
  cases t <;> simp_all [isParen]

/-- Every part is drawn at its place, with its operators numbered after those before it. -/
theorem get?_box_place {t n : Formula} {p : Path} (first : Nat) (h : t.get? p = some n) :
    (t.box first).get? (t.place p).path =
      some (Box.parenthesized^[(t.place p).depth] (n.box (first + t.operatorsBefore p))) := by
  induction p generalizing t first with
  | nil =>
    obtain rfl := Option.some.inj h
    rfl
  | cons s p ih =>
    obtain ⟨c, hc, hn⟩ := Option.bind_eq_some_iff.1 h
    have hb := ih (first + t.operatorsBeforeChild s) hn
    rw [place_cons hc, operatorsBefore_cons hc, ← Nat.add_assoc]
    cases ht : t.isParen with
    | false =>
      obtain ⟨ms, hm, hi⟩ := getElem?_members_of_child? first ht hc
      rw [hm]
      exact Box.get?_cons_eq_some_iff.2 ⟨ms, _, rfl, hi, hb⟩
    | true =>
      obtain ⟨a, rfl⟩ := exists_eq_paren ht
      cases s <;> simp only [child?, reduceCtorEq, Option.some.injEq] at hc
      subst hc
      rcases hq : a.place p with ⟨_ | ⟨i, path⟩, depth⟩
      · rw [hq] at hb
        have hb : a.box first = _ := Option.some.inj hb
        simp [box, hb, Place.inParen, Function.iterate_succ_apply']
      · rw [hq] at hb
        exact Box.get?_parenthesized_cons hb

/-- A child of a parenthesis shares its group. Any other child has a box of its own, which stands
behind the parentheses around its parent. -/
theorem place_child {t m c : Formula} {q : Path} {s : Step} (hm : t.get? q = some m)
    (hc : m.child? s = some c) :
    t.place (q.child s) =
      if m.isParen then ⟨(t.place q).path, (t.place q).depth + 1⟩
      else ⟨(t.place q).path.child ((t.place q).depth + m.memberIndex s), 0⟩ := by
  induction q generalizing t with
  | nil =>
    obtain rfl := Option.some.inj hm
    cases ht : t.isParen <;>
      simp [Path.child, place_cons hc, ht, Place.inParen, Place.inMember, Box.Path.child]
  | cons s' q ih =>
    obtain ⟨d, hd, hm⟩ := Option.bind_eq_some_iff.1 hm
    have hchild : Path.child (s' :: q) s = s' :: Path.child q s := rfl
    rw [hchild, place_cons hd, place_cons hd, ih hm]
    rcases d.place q with ⟨_ | ⟨i, path⟩, depth⟩ <;> cases ht : t.isParen <;>
      cases hparen : m.isParen <;>
      simp [Place.inParen, Place.inMember, Box.Path.child, Nat.add_right_comm]

def IsBetweenParens (t : Formula) (p : Path) : Prop :=
  ∃ q a, p = Path.child q .expression ∧ t.get? q = some (paren a)

theorem depth_place_eq_zero {t n : Formula} {p : Path} (hn : t.get? p = some n)
    (h : ¬ t.IsBetweenParens p) : (t.place p).depth = 0 := by
  rcases p.eq_nil_or_concat with rfl | ⟨q, s, rfl⟩
  · rfl
  · have hchild : q.concat s = Path.child q s := List.concat_eq_append
    rw [hchild] at hn h ⊢
    obtain ⟨m, hm, hc⟩ := Option.bind_eq_some_iff.1 ((t.get?_child q s).symm.trans hn)
    rw [place_child hm hc]
    cases hparen : m.isParen with
    | false => rfl
    | true =>
      obtain ⟨a, rfl⟩ := exists_eq_paren hparen
      cases s with
      | expression => exact absurd ⟨q, a, rfl, hm⟩ h
      | _ => simp [child?] at hc

/-- Every group is at the place of a part that is no parenthesis. -/
theorem exists_place_of_get?_box {t : Formula} {first : Nat} {g : Box.Path} {ms : List Box}
    (h : (t.box first).get? g = some (.group ms)) :
    ∃ p n, t.get? p = some n ∧ n.isParen = false ∧ (t.place p).path = g := by
  induction t using inductChildren generalizing first g ms with
  | step t ih =>
    cases ht : t.isParen with
    | false =>
      cases g with
      | nil => exact ⟨[], t, rfl, ht, rfl⟩
      | cons i g =>
        obtain ⟨ns, b, hm, hi, hb⟩ := Box.get?_cons_eq_some_iff.1 h
        obtain ⟨bs, rfl⟩ := Box.eq_group_of_get? hb
        obtain ⟨s, c, hc, rfl, hbox⟩ := child?_of_getElem?_members ht hm hi
        rw [← hbox] at hb
        obtain ⟨p, n, hp, hn, hg⟩ := ih s c hc hb
        refine ⟨s :: p, n, by simp [hc, hp], hn, ?_⟩
        simp [place_cons hc, ht, Place.inMember, hg]
    | true =>
      obtain ⟨a, rfl⟩ := exists_eq_paren ht
      have ha : (paren a).child? .expression = some a := rfl
      cases g with
      | nil =>
        cases ha' : a.isParen with
        | false => exact ⟨[.expression], a, rfl, ha', rfl⟩
        | true =>
          obtain ⟨b, rfl⟩ := exists_eq_paren ha'
          obtain ⟨p, n, hp, hn, hg⟩ := @ih _ _ ha first [] _ rfl
          refine ⟨.expression :: p, n, by simp [ha, hp], hn, ?_⟩
          simp [place_cons ha, ht, Place.inParen, hg]
      | cons i g =>
        obtain ⟨j, rfl, hb⟩ := Box.get?_of_parenthesized_cons h
        obtain ⟨p, n, hp, hn, hg⟩ := ih _ a ha hb
        refine ⟨.expression :: p, n, by simp [ha, hp], hn, ?_⟩
        simp [place_cons ha, ht, Place.inParen, hg]

end Formula

end FormulaEditor
