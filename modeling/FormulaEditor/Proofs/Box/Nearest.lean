import FormulaEditor.Box.Nearest
import FormulaEditor.Proofs.Box.Path
import Mathlib.Logic.Function.Iterate
/-! The search for the nearest operator, layer by layer. Each layer holds all boxes of one depth that
stand in the group around the selection but not in the selected box, in the order of drawing. So
the operator that is met first is the shallowest one, and the leftmost one of these. -/
namespace FormulaEditor
namespace Box

namespace Layer

theorem mem_ofMembers_iff {p q : Path} {ms : List Box} {b : Box} :
    (q, b) ∈ ofMembers p ms ↔ ∃ i, q = p.child i ∧ ms[i]? = some b := by
  simp only [ofMembers, List.mem_map, Prod.exists, List.mem_zipIdx_iff_getElem?, Prod.mk.injEq]
  constructor
  · rintro ⟨c, i, hi, rfl, rfl⟩
    exact ⟨i, rfl, hi⟩
  · rintro ⟨i, rfl, hi⟩
    exact ⟨b, i, hi, rfl, rfl⟩

theorem ofMembers_getElem? (p : Path) (ms : List Box) (i : Nat) :
    (ofMembers p ms)[i]? = ms[i]?.map (p.child i, ·) := by
  simp [ofMembers, List.getElem?_zipIdx, Function.comp_def]

def IsSorted (l : Layer) : Prop := l.Pairwise fun x y => x.1 < y.1

theorem isSorted_ofMembers (p : Path) (ms : List Box) : (ofMembers p ms).IsSorted := by
  refine List.pairwise_iff_getElem.2 fun i j hi hj hij => ?_
  have hplace {k : Nat} (hk : k < (ofMembers p ms).length) : (ofMembers p ms)[k].1 = p.child k := by
    have hget := ofMembers_getElem? p ms k
    rw [List.getElem?_eq_getElem hk] at hget
    obtain ⟨b, _, hb⟩ := Option.map_eq_some_iff.1 hget.symm
    rw [← hb]
  rw [hplace hi, hplace hj]
  exact (Path.child_lt_child_iff p i j).2 hij

theorem mem_below_iff {l : Layer} {q : Path} {c : Box} :
    (q, c) ∈ l.below ↔ ∃ p ms i, (p, group ms) ∈ l ∧ q = p.child i ∧ ms[i]? = some c := by
  rw [below, List.mem_flatMap]
  constructor
  · rintro ⟨⟨p, b⟩, hp, hq⟩
    obtain ⟨i, rfl, hc⟩ := mem_ofMembers_iff.1 hq
    cases b with
    | group ms => exact ⟨p, ms, i, hp, rfl, hc⟩
    | _ => nomatch hc
  · rintro ⟨p, ms, i, hp, rfl, hc⟩
    exact ⟨(p, group ms), hp, mem_ofMembers_iff.2 ⟨i, rfl, hc⟩⟩

theorem IsSorted.below {l : Layer} (h : l.IsSorted) {n : Nat} (hlen : ∀ x ∈ l, x.1.length = n) :
    l.below.IsSorted := by
  refine List.pairwise_flatMap.2 ⟨fun x _ => isSorted_ofMembers _ _, ?_⟩
  refine h.imp_of_mem fun {x y} hx hy hxy => ?_
  rintro ⟨p, b⟩ hp ⟨q, c⟩ hq
  obtain ⟨i, rfl, _⟩ := mem_ofMembers_iff.1 hp
  obtain ⟨j, rfl, _⟩ := mem_ofMembers_iff.1 hq
  exact Path.append_lt_append hxy ((hlen x hx).trans (hlen y hy).symm) _ _

theorem operator?_eq_none_iff {l : Layer} :
    l.operator? = none ↔ ∀ q symbol id, (q, operator symbol id) ∉ l := by
  rw [operator?, List.findSome?_eq_none_iff]
  constructor
  · intro h q symbol id hm
    simpa [operatorId?] using h _ hm
  · rintro h ⟨q, b⟩ hm
    cases b with
    | operator symbol id => exact absurd hm (h q symbol id)
    | _ => rfl

/-- In a layer that is in order the operator that is met first has the least path. -/
theorem operator?_eq_some_of_sorted {l : Layer} (h : l.IsSorted) {o : OperatorPlace}
    (ho : l.operator? = some o) :
    (∃ symbol, (o.path, operator symbol o.id) ∈ l) ∧
      ∀ q symbol id, (q, operator symbol id) ∈ l → o.path = q ∨ o.path < q := by
  obtain ⟨before, ⟨p, b⟩, after, rfl, hb, hbefore⟩ := List.findSome?_eq_some_iff.1 ho
  obtain ⟨id, hid, rfl⟩ := Option.map_eq_some_iff.1 hb
  cases b with
  | operator symbol id' =>
    obtain rfl := Option.some.inj hid
    refine ⟨⟨symbol, by simp⟩, fun q symbol' id hm => ?_⟩
    have hnone : (q, operator symbol' id) ∉ before := fun hq => by
      simpa [operatorId?] using hbefore _ hq
    have hafter : (p, operator symbol id') = (q, operator symbol' id) ∨
        (q, operator symbol' id) ∈ after := by
      simpa [hnone, eq_comm] using hm
    rcases hafter with heq | hmem
    · exact .inl (Prod.mk.inj heq).1
    · have hsorted := (List.pairwise_append.1 h).2.1
      exact .inr ((List.pairwise_cons.1 hsorted).1 _ hmem)
  | _ => simp [operatorId?] at hid

/-- The search ends at the first layer with an operator. -/
theorem exists_first_of_search {fuel : Nat} {l : Layer} {o : OperatorPlace}
    (h : l.search fuel = some o) :
    ∃ k, (below^[k] l).operator? = some o ∧ ∀ j < k, (below^[j] l).operator? = none := by
  induction fuel generalizing l with
  | zero => nomatch h
  | succ fuel ih =>
    rw [search] at h
    cases hl : l.operator? with
    | some o' =>
      rw [hl] at h
      exact ⟨0, hl.trans h, fun j hj => absurd hj (Nat.not_lt_zero j)⟩
    | none =>
      rw [hl] at h
      obtain ⟨k, ho, hnone⟩ := ih h
      refine ⟨k + 1, ho, fun j hj => ?_⟩
      cases j with
      | zero => exact hl
      | succ j => exact hnone j (Nat.lt_of_succ_lt_succ hj)

theorem operator?_of_search_eq_none {fuel : Nat} {l : Layer} (h : l.search fuel = none) :
    ∀ k < fuel, (below^[k] l).operator? = none := by
  induction fuel generalizing l with
  | zero => exact fun k hk => absurd hk (Nat.not_lt_zero k)
  | succ fuel ih =>
    rw [search] at h
    cases hl : l.operator? with
    | some o => rw [hl] at h; nomatch h
    | none =>
      rw [hl] at h
      intro k hk
      cases k with
      | zero => exact hl
      | succ k => exact ih h k (Nat.lt_of_succ_lt_succ hk)

/-- The layer `depth` steps below that of the selected box `g.child i`: all boxes of the group at
`g` and below it that are as far down, apart from those in the selected box. -/
structure IsAround (root : Box) (g : Path) (i depth : Nat) (l : Layer) : Prop where
  mem_iff : ∀ q b, (q, b) ∈ l ↔
    q.length = g.length + 1 + depth ∧ g <+: q ∧ ¬ g.child i <+: q ∧ root.get? q = some b
  sorted : l.IsSorted

theorem isAround_eraseIdx {root : Box} {g : Path} {ms : List Box}
    (hg : root.get? g = some (group ms)) (i : Nat) :
    IsAround root g i 0 ((ofMembers g ms).eraseIdx i) where
  mem_iff q b := by
    have hmem : (q, b) ∈ (ofMembers g ms).eraseIdx i ↔
        ∃ j, j ≠ i ∧ q = g.child j ∧ ms[j]? = some b := by
      simp only [List.mem_eraseIdx_iff_getElem?, ofMembers_getElem?, Option.map_eq_some_iff,
        Prod.mk.injEq]
      constructor
      · rintro ⟨j, hij, c, hc, rfl, rfl⟩
        exact ⟨j, hij, rfl, hc⟩
      · rintro ⟨j, hij, rfl, hb⟩
        exact ⟨j, hij, b, hb, rfl, rfl⟩
    rw [hmem]
    constructor
    · rintro ⟨j, hij, rfl, hb⟩
      exact ⟨Path.length_child g j, List.prefix_append g [j], Path.not_prefix_of_member hij [],
        (get?_child hg j).trans hb⟩
    · rintro ⟨hlen, hprefix, hout, hb⟩
      have hne : q ≠ g := by
        rintro rfl
        omega
      obtain ⟨j, r, hij, rfl⟩ := Path.exists_member hprefix hne hout
      obtain rfl : r = [] := by
        rw [List.length_append, List.length_cons] at hlen
        exact List.eq_nil_of_length_eq_zero (by omega)
      exact ⟨j, hij, rfl, (get?_child hg j).symm.trans hb⟩
  sorted := (isSorted_ofMembers g ms).sublist (List.eraseIdx_sublist _ i)

/-- One layer further down, nothing that stands around the selection is lost, and nothing of the
selection comes in. -/
theorem IsAround.below {root : Box} {g : Path} {i depth : Nat} {l : Layer}
    (h : IsAround root g i depth l) : IsAround root g i (depth + 1) l.below where
  mem_iff q c := by
    -- what is in this layer is as far down as the selection or further, so one more step leads
    -- neither into the group nor into the selected box
    have haround {p : Path} (j : Nat) (hlen : p.length = g.length + 1 + depth) :
        (g <+: p.child j ↔ g <+: p) ∧ (g.child i <+: p.child j ↔ g.child i <+: p) := by
      have hchild := Path.length_child g i
      exact ⟨Path.prefix_child_iff j (by omega), Path.prefix_child_iff j (by omega)⟩
    rw [mem_below_iff]
    constructor
    · rintro ⟨p, ms, j, hp, rfl, hc⟩
      obtain ⟨hlen, hprefix, hout, hget⟩ := (h.mem_iff p (group ms)).1 hp
      have hj := haround j hlen
      refine ⟨?_, hj.1.2 hprefix, fun hin => hout (hj.2.1 hin), ?_⟩
      · rw [Path.length_child, hlen, Nat.add_assoc]
      · exact get?_child_eq_some_iff.2 ⟨ms, hget, hc⟩
    · rintro ⟨hlen, hprefix, hout, hget⟩
      rcases q.eq_nil_or_concat with rfl | ⟨p, j, rfl⟩
      · nomatch hlen
      · rw [List.concat_eq_append] at *
        have hlen' : p.length = g.length + 1 + depth := by
          rw [List.length_append, List.length_singleton] at hlen
          omega
        have hj := haround j hlen'
        obtain ⟨ms, hms, hc⟩ := get?_child_eq_some_iff.1 hget
        refine ⟨p, ms, j, (h.mem_iff _ _).2 ⟨hlen', hj.1.1 hprefix, ?_, hms⟩, rfl, hc⟩
        exact fun hin => hout (hj.2.2 hin)
  sorted := h.sorted.below fun x hx => ((h.mem_iff x.1 x.2).1 hx).1

theorem IsAround.iterate_below {root : Box} {g : Path} {i : Nat} {l : Layer}
    (h : IsAround root g i 0 l) (depth : Nat) :
    IsAround root g i depth (Layer.below^[depth] l) := by
  induction depth with
  | zero => exact h
  | succ depth ih =>
    rw [Function.iterate_succ_apply']
    exact ih.below

theorem IsAround.eq_nil_of_height_le {root : Box} {g : Path} {i depth : Nat} {l : Layer}
    (h : IsAround root g i depth l) (hdepth : root.height ≤ depth) : l = [] := by
  refine List.eq_nil_iff_forall_not_mem.2 fun x hx => ?_
  obtain ⟨hlen, _, _, hget⟩ := (h.mem_iff x.1 x.2).1 hx
  have hlt := length_lt_height hget
  omega

end Layer

/-- An operator that stands in the group around a selected box, or further down from there, and not
in the selected box itself. -/
structure IsOperatorAround (root : Box) (g selected : Path) (o : OperatorPlace) : Prop where
  found : ∃ symbol, root.get? o.path = some (operator symbol o.id)
  inGroup : g <+: o.path
  ne_group : o.path ≠ g
  outside : ¬ selected <+: o.path

theorem exists_beside?_child {root : Box} {g : Path} {i : Nat}
    (h : (root.get? (g.child i)).isSome) :
    ∃ l, root.beside? (g.child i) = some l ∧ Layer.IsAround root g i 0 l := by
  obtain ⟨b, hb⟩ := Option.isSome_iff_exists.1 h
  obtain ⟨ms, hg, _⟩ := get?_child_eq_some_iff.1 hb
  exact ⟨_, by simp [beside?, hb, hg, members?], Layer.isAround_eraseIdx hg i⟩

theorem IsOperatorAround.exists_member {root : Box} {g : Path} {i : Nat} {o : OperatorPlace}
    (h : root.IsOperatorAround g (g.child i) o) : ∃ j r, j ≠ i ∧ o.path = g ++ j :: r :=
  Path.exists_member h.inGroup h.ne_group h.outside

theorem IsOperatorAround.exists_mem_layer {root : Box} {g : Path} {i : Nat} {o : OperatorPlace}
    {l : Layer} (h : root.IsOperatorAround g (g.child i) o) (hl : Layer.IsAround root g i 0 l) :
    ∃ depth < root.height, o.path.length = g.length + 1 + depth ∧
      ∃ symbol, (o.path, operator symbol o.id) ∈ Layer.below^[depth] l := by
  obtain ⟨symbol, hget⟩ := h.found
  obtain ⟨j, r, _, hpath⟩ := h.exists_member
  have hlen : o.path.length = g.length + 1 + r.length := by
    rw [hpath, List.length_append, List.length_cons]
    omega
  have hlt := length_lt_height hget
  refine ⟨r.length, by omega, hlen, symbol, ?_⟩
  exact ((hl.iterate_below r.length).mem_iff _ _).2 ⟨hlen, h.inGroup, h.outside, hget⟩

/-- The operator that is found stands around the selection, and the others there are not less deep,
nor further to the left where they are as deep. -/
theorem nearestOperator?_spec {root : Box} {g : Path} {i : Nat}
    (h : (root.get? (g.child i)).isSome) {o : OperatorPlace}
    (ho : root.nearestOperator? (g.child i) = some o) :
    root.IsOperatorAround g (g.child i) o ∧
      ∀ o', root.IsOperatorAround g (g.child i) o' →
        o.path.length < o'.path.length ∨
          o.path.length = o'.path.length ∧ (o.path = o'.path ∨ o.path < o'.path) := by
  obtain ⟨l, hbeside, hl⟩ := exists_beside?_child h
  have hsearch : l.search root.height = some o := by
    simpa [nearestOperator?, hbeside] using ho
  obtain ⟨k, hfirst, hnone⟩ := Layer.exists_first_of_search hsearch
  have hk := hl.iterate_below k
  obtain ⟨⟨symbol, hmem⟩, hleast⟩ := Layer.operator?_eq_some_of_sorted hk.sorted hfirst
  obtain ⟨hlen, hprefix, hout, hget⟩ := (hk.mem_iff _ _).1 hmem
  constructor
  · refine ⟨⟨symbol, hget⟩, hprefix, ?_, hout⟩
    intro he
    rw [he] at hlen
    omega
  · intro o' ho'
    obtain ⟨depth, _, hlen', symbol', hmem'⟩ := ho'.exists_mem_layer hl
    -- layers before the `k`th one hold no operator, and that one is in order
    rcases Nat.lt_trichotomy depth k with hlt | rfl | hlt
    · exact absurd hmem' (Layer.operator?_eq_none_iff.1 (hnone depth hlt) _ _ _)
    · exact .inr ⟨hlen.trans hlen'.symm, hleast _ _ _ hmem'⟩
    · exact .inl (by omega)

theorem isSome_nearestOperator? {root : Box} {g : Path} {i : Nat}
    (h : (root.get? (g.child i)).isSome) {o : OperatorPlace}
    (ho : root.IsOperatorAround g (g.child i) o) :
    (root.nearestOperator? (g.child i)).isSome := by
  obtain ⟨l, hbeside, hl⟩ := exists_beside?_child h
  obtain ⟨depth, hdepth, _, symbol, hmem⟩ := ho.exists_mem_layer hl
  rw [Option.isSome_iff_ne_none]
  intro hnone
  have hsearch : l.search root.height = none := by
    simpa [nearestOperator?, hbeside] using hnone
  have hlayer := Layer.operator?_of_search_eq_none hsearch depth hdepth
  exact Layer.operator?_eq_none_iff.1 hlayer _ _ _ hmem

/-- An operator in the group of the selection comes before all that stand further down. -/
theorem exists_child_of_operator_beside {root : Box} {g : Path} {ms : List Box} {symbol : String}
    {i j id : Nat} (hg : root.get? g = some (group ms)) (hj : ms[j]? = some (operator symbol id))
    (hij : j ≠ i) (h : (root.get? (g.child i)).isSome) :
    ∃ o k symbol', root.nearestOperator? (g.child i) = some o ∧ o.path = g.child k ∧
      ms[k]? = some (operator symbol' o.id) := by
  have hbeside : root.IsOperatorAround g (g.child i) ⟨id, g.child j⟩ := by
    refine ⟨⟨symbol, (get?_child hg j).trans hj⟩, List.prefix_append g [j], ?_,
      Path.not_prefix_of_member hij []⟩
    simp [Path.child]
  obtain ⟨o, ho⟩ := Option.isSome_iff_exists.1 (isSome_nearestOperator? h hbeside)
  obtain ⟨haround, hleast⟩ := nearestOperator?_spec h ho
  obtain ⟨symbol', hfound⟩ := haround.found
  obtain ⟨k, r, _, hpath⟩ := haround.exists_member
  have hlen : o.path.length ≤ (g.child j).length := by
    rcases hleast _ hbeside with hlt | ⟨heq, _⟩
    · exact Nat.le_of_lt hlt
    · exact Nat.le_of_eq heq
  obtain rfl : r = [] := by
    rw [hpath, List.length_append, List.length_cons, Path.length_child] at hlen
    exact List.eq_nil_of_length_eq_zero (by omega)
  have hchild : o.path = g.child k := hpath
  rw [hchild, get?_child hg] at hfound
  exact ⟨o, k, symbol', ho, hchild, hfound⟩

/-- The only operator in the group of the selection is the one that is found. -/
theorem nearestOperator?_child {root : Box} {g : Path} {ms : List Box} {symbol : String}
    {i j id : Nat} (hg : root.get? g = some (group ms)) (hi : i < ms.length)
    (hj : ms[j]? = some (operator symbol id)) (hij : i ≠ j)
    (unique : ∀ k b, ms[k]? = some b → b.operatorId?.isSome → k = j) :
    root.nearestOperator? (g.child i) = some ⟨id, g.child j⟩ := by
  have hsel : (root.get? (g.child i)).isSome := by simp [get?_child hg, hi]
  obtain ⟨⟨id', path⟩, k, symbol', ho, hpath, hk⟩ :=
    exists_child_of_operator_beside hg hj hij.symm hsel
  obtain rfl := unique k _ hk rfl
  obtain ⟨_, rfl⟩ := operator.inj (Option.some.inj (hj.symm.trans hk))
  rw [ho, ← hpath]

theorem exists_child_of_nearestOperator? {root : Box} {p : Path} {o : OperatorPlace}
    (ho : root.nearestOperator? p = some o) :
    ∃ (g : Path) (i : Nat), p = g.child i ∧ (root.get? p).isSome := by
  simp only [nearestOperator?, beside?, Option.bind_eq_bind, Option.bind_eq_some_iff] at ho
  obtain ⟨_, ⟨b, hb, ⟨g, i⟩, hparent, _⟩, _⟩ := ho
  exact ⟨g, i, Path.eq_child_of_parent? hparent, Option.isSome_iff_exists.2 ⟨b, hb⟩⟩

end Box

namespace OperatorPlace

/-- Where an operator stands around the selection, its side is told by the members of the group that
lead to the two. -/
theorem side_eq_right_iff {root : Box} {g : Box.Path} {i : Nat} {o : OperatorPlace}
    (h : root.IsOperatorAround g (g.child i) o) :
    ∃ j, o.path[g.length]? = some j ∧ (o.side (g.child i) = .right ↔ j < i) := by
  obtain ⟨j, r, hij, hpath⟩ := h.exists_member
  refine ⟨j, by simp [hpath], ?_⟩
  have hlt : o.path < g.child i ↔ j < i := by
    rw [hpath]
    exact Box.Path.append_cons_lt_iff g hij r []
  by_cases hj : j < i
  · simp [side, hlt, hj]
  · simp [side, hlt, hj]

theorem side_child (id i j : Nat) (g : Box.Path) :
    OperatorPlace.side ⟨id, g.child j⟩ (g.child i) = if j < i then .right else .left := by
  simp [side, Box.Path.child_lt_child_iff]

end OperatorPlace

namespace Box

theorem IsOperatorAround.not_prefix {root : Box} {g : Path} {i : Nat} {o : OperatorPlace}
    (h : root.IsOperatorAround g (g.child i) o) : ¬ o.path <+: g.child i := by
  obtain ⟨j, r, hij, hpath⟩ := h.exists_member
  rw [hpath]
  exact Path.not_prefix_child hij r

/-- Of the operators around a selected box, the search gives the shallowest one, and the leftmost
one of these. It comes to its end in any box, and it finds nothing only if there is nothing to find. -/
theorem nearestOperator?_shallowest_leftmost (root : Box) (selected : Path) :
    (selected = [] ∨ root.get? selected = none → root.nearestOperator? selected = none) ∧
    (∀ l, root.beside? selected = some l → Layer.below^[root.height] l = []) ∧
    ∀ g i, selected = g.child i → (root.get? selected).isSome →
      ((root.nearestOperator? selected).isSome ↔ ∃ o, root.IsOperatorAround g selected o) ∧
      ∀ o, root.nearestOperator? selected = some o →
        root.IsOperatorAround g selected o ∧
        (∀ o', root.IsOperatorAround g selected o' → o.path.length < o'.path.length ∨
          o.path.length = o'.path.length ∧ (o.path = o'.path ∨ o.path < o'.path)) ∧
        ¬ selected <+: o.path ∧ ¬ o.path <+: selected ∧
        ∃ j, o.path[g.length]? = some j ∧ (o.side selected = .right ↔ j < i) := by
  refine ⟨?_, ?_, ?_⟩
  · intro h
    by_contra hne
    obtain ⟨o, ho⟩ := Option.ne_none_iff_exists'.1 hne
    obtain ⟨g, i, rfl, hsome⟩ := exists_child_of_nearestOperator? ho
    rcases h with hnil | hnone
    · simp [Path.child] at hnil
    · simp [hnone] at hsome
  · intro l hl
    have hparts := hl
    simp only [beside?, Option.bind_eq_bind, Option.bind_eq_some_iff] at hparts
    obtain ⟨b, hb, ⟨g, i⟩, hparent, _⟩ := hparts
    obtain rfl := Path.eq_child_of_parent? hparent
    obtain ⟨l', hbeside, haround⟩ := exists_beside?_child (Option.isSome_iff_exists.2 ⟨b, hb⟩)
    obtain rfl := Option.some.inj (hbeside.symm.trans hl)
    exact (haround.iterate_below root.height).eq_nil_of_height_le (Nat.le_refl _)
  · rintro g i rfl h
    constructor
    · constructor
      · intro hsome
        obtain ⟨o, ho⟩ := Option.isSome_iff_exists.1 hsome
        exact ⟨o, (nearestOperator?_spec h ho).1⟩
      · rintro ⟨o, ho⟩
        exact isSome_nearestOperator? h ho
    · intro o ho
      obtain ⟨haround, hleast⟩ := nearestOperator?_spec h ho
      exact ⟨haround, hleast, haround.outside, haround.not_prefix,
        OperatorPlace.side_eq_right_iff haround⟩

end Box

end FormulaEditor
