import FormulaEditor.Proofs.Box.Layout
import FormulaEditor.Proofs.Line.Pieces
/-! A drawing as a line shows its tokens one after the other, whatever groups they stand in. The
groups that are open while the line is drawn leave no trace but the braces around a selected one. -/
namespace FormulaEditor

namespace Box

open Line

def groupPieces (selected : Bool) (ps : List String) : List String :=
  if selected ∧ ps ≠ [] then [braced (joined ps)] else ps

/-- What a token adds to the pieces: nothing if its piece is empty. -/
def shown (piece : String) : List String := if piece = "" then [] else [piece]

mutual

/-- The pieces of a box, where `q` is the way from it to the selection. -/
def pieces (q : Option Path) : Box → List String
  | group bs => groupPieces (q = some []) (memberPieces q 0 bs).flatten
  | b => shown (Line.piece b ⟨b.isSelectable, q = some []⟩)

def memberPieces (q : Option Path) (i : Nat) : List Box → List (List String)
  | [] => []
  | b :: bs => b.pieces (q.bind (Path.after? i)) :: memberPieces q (i + 1) bs

end

theorem not_mem_shown (piece : String) : "" ∉ shown piece := by
  by_cases h : piece = "" <;> simp [shown, h, eq_comm]

theorem not_mem_groupPieces (selected : Bool) {ps : List String} (h : "" ∉ ps) :
    "" ∉ groupPieces selected ps := by
  rw [groupPieces]
  split
  · simpa using (braced_ne_empty _).symm
  · exact h

mutual

theorem not_mem_pieces (q : Option Path) (b : Box) : "" ∉ b.pieces q := by
  cases b with
  | group bs => exact not_mem_groupPieces _ (not_mem_flatten_memberPieces q 0 bs)
  | _ => exact not_mem_shown _

theorem not_mem_flatten_memberPieces (q : Option Path) (i : Nat) (bs : List Box) :
    "" ∉ (memberPieces q i bs).flatten := by
  cases bs with
  | nil => simp [memberPieces]
  | cons b bs =>
    rw [memberPieces, List.flatten_cons, List.mem_append, not_or]
    exact ⟨not_mem_pieces _ b, not_mem_flatten_memberPieces q (i + 1) bs⟩

end

theorem put_piece (piece : String) (g : List String) (gs : List (List String)) :
    put piece (g :: gs) = (g ++ once (shown piece)) :: gs := by
  by_cases h : piece = "" <;> simp [put, shown, h]

theorem groupPiece_eq {ps : List String} (h : "" ∉ ps) (mark : Mark) :
    groupPiece ps mark = joined (groupPieces mark.selected ps) := by
  simp only [groupPiece, groupPieces, ne_eq, joined_eq_empty_iff h]
  split <;> simp

theorem close_members {pss : List (List String)} (h : "" ∉ pss.flatten) (mark : Mark)
    (g : List String) (gs : List (List String)) :
    close mark (pss.flatMap once :: g :: gs) =
      (g ++ once (groupPieces mark.selected pss.flatten)) :: gs := by
  have hpiece : groupPiece (pss.flatMap once) mark = groupPiece pss.flatten mark := by
    rw [← groupPiece_once, once_flatMap_once, groupPiece_once]
  rw [close, hpiece, groupPiece_eq h, put_joined (not_mem_groupPieces _ h)]

mutual

/-- Drawing a box adds one piece to the innermost group, in which its pieces are joined. -/
theorem run_layout (b : Box) (q : Option Path) {l : Line} {g : List String}
    {gs : List (List String)} (h : l.groups = g :: gs) :
    l.run (b.layout (q.map Cursor.ofPath)) = Line.ofGroups ((g ++ once (b.pieces q)) :: gs) := by
  cases b with
  | group bs =>
    have hopened : (Line.mk ([] :: l.groups) l.text).groups = [] :: g :: gs := by rw [h]
    have hmembers := groups_run_layoutFrom bs q 0 hopened
    have hnone := not_mem_flatten_memberPieces q 0 bs
    rw [layout, List.cons_append, Line.run_cons, Line.apply_openGroup, Line.run_append,
      Line.run_cons, Line.run_nil, Line.apply_closeGroup, hmembers, List.nil_append,
      close_members hnone, mark_map_ofPath, pieces]
  | _ => simp [layout, h, put_piece, mark_map_ofPath, pieces]

theorem groups_run_layoutFrom (bs : List Box) (q : Option Path) (i : Nat) {l : Line}
    {g : List String} {gs : List (List String)} (h : l.groups = g :: gs) :
    (l.run (layoutFrom (q.map Cursor.ofPath) i bs)).groups =
      (g ++ (memberPieces q i bs).flatMap once) :: gs := by
  cases bs with
  | nil => simpa [layoutFrom, memberPieces] using h
  | cons b bs =>
    have hfirst := run_layout b (q.bind (Path.after? i)) h
    have hgroups : (Line.ofGroups ((g ++ once (b.pieces (q.bind (Path.after? i)))) :: gs)).groups =
        (g ++ once (b.pieces (q.bind (Path.after? i)))) :: gs := rfl
    rw [layoutFrom, into?_map_ofPath, Line.run_append, hfirst,
      groups_run_layoutFrom bs q (i + 1) hgroups, memberPieces, List.flatMap_cons,
      List.append_assoc]

end

/-- A whole drawing leaves a single group open, the line, whatever was there before. -/
theorem run_calls (l : Line) (root : Box) (selection : Option Path) :
    l.run (root.calls selection) = Line.ofGroups [once (root.pieces selection)] := by
  have hinit : (l.apply .init).groups = [[]] := rfl
  rw [calls, Line.run_cons, run_layout root selection hinit, List.nil_append]

def plainPiece (b : Box) : String :=
  if b.isSelectable then "[" ++ b.text?.getD "" ++ "]" else b.text?.getD ""

/-- The pieces of tokens that are not selected, without those that are empty. -/
def plainPieces (tokens : List (Path × Box)) : List String :=
  tokens.flatMap fun x => shown x.2.plainPiece

@[simp] theorem plainPieces_append (xs ys : List (Path × Box)) :
    plainPieces (xs ++ ys) = plainPieces xs ++ plainPieces ys := List.flatMap_append

@[simp] theorem plainPieces_map (f : Path → Path) (xs : List (Path × Box)) :
    plainPieces (xs.map fun x => (f x.1, x.2)) = plainPieces xs := by
  simp [plainPieces, List.flatMap_map]

def tokensFrom (i : Nat) (bs : List Box) : List (Path × Box) :=
  (boxesFrom i bs).filter fun x => x.2.members?.isNone

theorem tokens_group (bs : List Box) : (group bs).tokens = tokensFrom 0 bs := by
  simp [tokens, tokensFrom, boxes, members?]

theorem tokensFrom_cons (i : Nat) (b : Box) (bs : List Box) :
    tokensFrom i (b :: bs) =
      b.tokens.map (fun x => (i :: x.1, x.2)) ++ tokensFrom (i + 1) bs := by
  simp [tokens, tokensFrom, boxesFrom, List.filter_map, Function.comp_def]

theorem tokensFrom_append (i : Nat) (bs cs : List Box) :
    tokensFrom i (bs ++ cs) = tokensFrom i bs ++ tokensFrom (i + bs.length) cs := by
  induction bs generalizing i with
  | nil => simp [tokensFrom, boxesFrom]
  | cons b bs ih => simp [tokensFrom_cons, ih, Nat.add_assoc, Nat.add_comm 1]

mutual

theorem pieces_none (b : Box) : b.pieces none = plainPieces b.tokens := by
  cases b with
  | group bs => simp [pieces, groupPieces, tokens_group, flatten_memberPieces_none bs 0]
  | _ => simp [pieces, plainPieces, tokens, boxes, members?, Line.piece, plainPiece, bracketed]

theorem flatten_memberPieces_none (bs : List Box) (i : Nat) :
    (memberPieces none i bs).flatten = plainPieces (tokensFrom i bs) := by
  cases bs with
  | nil => rfl
  | cons b bs =>
    simp [memberPieces, tokensFrom_cons, pieces_none b, flatten_memberPieces_none bs (i + 1)]

end

theorem memberPieces_append (q : Option Path) (i : Nat) (bs cs : List Box) :
    memberPieces q i (bs ++ cs) =
      memberPieces q i bs ++ memberPieces q (i + bs.length) cs := by
  induction bs generalizing i with
  | nil => simp [memberPieces]
  | cons b bs ih => simp [memberPieces, ih, Nat.add_assoc, Nat.add_comm 1]

theorem memberPieces_of_after? {q : Option Path} {i : Nat} {bs : List Box}
    (h : ∀ k < bs.length, q.bind (Path.after? (i + k)) = none) :
    memberPieces q i bs = memberPieces none i bs := by
  induction bs generalizing i with
  | nil => rfl
  | cons b bs ih =>
    have hfirst : q.bind (Path.after? i) = none := h 0 (Nat.succ_pos _)
    have hlater : ∀ k < bs.length, q.bind (Path.after? (i + 1 + k)) = none := fun k hk => by
      rw [Nat.add_right_comm]
      exact h (k + 1) (Nat.succ_lt_succ hk)
    rw [memberPieces, memberPieces, hfirst, ih hlater]
    rfl

theorem pieces_cons_of_none {b : Box} {i : Nat} (p : Path)
    (h : ∀ bs, b = group bs → bs.length ≤ i) : b.pieces (some (i :: p)) = b.pieces none := by
  cases b with
  | group bs =>
    have hle : bs.length ≤ i := h bs rfl
    have hmembers : memberPieces (some (i :: p)) 0 bs = memberPieces none 0 bs := by
      refine memberPieces_of_after? fun k hk => ?_
      have hne : i ≠ k := by omega
      simp [Path.after?, hne]
    simp [pieces, groupPieces, hmembers]
  | _ => simp [pieces]

theorem pieces_group_cons {bs : List Box} {d : Box} {i : Nat} (hd : bs[i]? = some d) (p : Path) :
    ∃ before after,
      (group bs).tokens = before ++ d.tokens.map (fun x => (i :: x.1, x.2)) ++ after ∧
      (group bs).pieces (some (i :: p)) =
        plainPieces before ++ d.pieces (some p) ++ plainPieces after := by
  obtain ⟨hi, rfl⟩ := List.getElem?_eq_some_iff.1 hd
  have hlength : (bs.take i).length = i := List.length_take_of_le (Nat.le_of_lt hi)
  have hbs : bs = bs.take i ++ bs[i] :: bs.drop (i + 1) := by simp
  have hbefore : memberPieces (some (i :: p)) 0 (bs.take i) = memberPieces none 0 (bs.take i) := by
    refine memberPieces_of_after? fun k hk => ?_
    have hne : i ≠ k := by omega
    simp [Path.after?, hne]
  have hafter : memberPieces (some (i :: p)) (i + 1) (bs.drop (i + 1)) =
      memberPieces none (i + 1) (bs.drop (i + 1)) := by
    refine memberPieces_of_after? fun k _ => ?_
    have hne : i ≠ i + 1 + k := by omega
    simp [Path.after?, hne]
  refine ⟨tokensFrom 0 (bs.take i), tokensFrom (i + 1) (bs.drop (i + 1)), ?_, ?_⟩
  · calc
      (group bs).tokens = tokensFrom 0 (bs.take i ++ bs[i] :: bs.drop (i + 1)) := by
        rw [← hbs, tokens_group]
      _ = _ := by
        rw [tokensFrom_append, tokensFrom_cons, hlength, Nat.zero_add, List.append_assoc]
  · calc
      (group bs).pieces (some (i :: p)) =
          (memberPieces (some (i :: p)) 0 (bs.take i ++ bs[i] :: bs.drop (i + 1))).flatten := by
        rw [← hbs]
        simp [pieces, groupPieces]
      _ = _ := by
        rw [memberPieces_append, memberPieces, hlength, Nat.zero_add, hbefore, hafter,
          List.flatten_append, List.flatten_cons, flatten_memberPieces_none,
          flatten_memberPieces_none, ← List.append_assoc]
        simp [Path.after?]

/-- A selection shows in the pieces of the box that it leads to and in no others. -/
theorem pieces_of_get? {root b : Box} {p : Path} (h : root.get? p = some b) :
    ∃ before after, root.tokens = before ++ b.tokens.map (fun x => (p ++ x.1, x.2)) ++ after ∧
      root.pieces (some p) = plainPieces before ++ b.pieces (some []) ++ plainPieces after := by
  induction p generalizing root with
  | nil =>
    obtain rfl := Option.some.inj h
    exact ⟨[], [], by simp, by simp [plainPieces]⟩
  | cons i p ih =>
    obtain ⟨bs, d, rfl, hd, hb⟩ := get?_cons_eq_some_iff.1 h
    obtain ⟨before, after, htokens, hpieces⟩ := pieces_group_cons hd p
    obtain ⟨before', after', htokens', hpieces'⟩ := ih hb
    refine ⟨before ++ before'.map (fun x => (i :: x.1, x.2)),
      after'.map (fun x => (i :: x.1, x.2)) ++ after, ?_, ?_⟩
    · simp [htokens, htokens', Function.comp_def]
    · simp [hpieces, hpieces']

theorem pieces_of_get?_eq_none {root : Box} {p : Path} (h : root.get? p = none) :
    root.pieces (some p) = root.pieces none := by
  induction p generalizing root with
  | nil => simp at h
  | cons i p ih =>
    by_cases hd : ∃ bs d, root = group bs ∧ bs[i]? = some d
    · obtain ⟨bs, d, rfl, hd⟩ := hd
      have hnone : d.get? p = none := by simpa [members?, hd] using h
      obtain ⟨before, after, htokens, hpieces⟩ := pieces_group_cons hd p
      rw [hpieces, ih hnone, pieces_none, pieces_none, htokens]
      simp
    · refine pieces_cons_of_none p fun bs hbs => Nat.le_of_not_lt fun hi => ?_
      exact hd ⟨bs, bs[i], hbs, List.getElem?_eq_getElem hi⟩

theorem text_run_calls (l : Line) (root : Box) (selection : Option Path) :
    (l.run (root.calls selection)).text = joined (root.pieces selection) := by
  rw [run_calls]
  exact joined_once _

theorem pieces_selected_token {b : Box} (h : b.members? = none) :
    b.pieces (some []) = [braced (b.text?.getD "")] := by
  cases b <;> simp_all [pieces, shown, Line.piece, braced_ne_empty, members?]

theorem pieces_selected_group (bs : List Box) :
    (group bs).pieces (some []) = groupPieces true (plainPieces (group bs).tokens) := by
  have hmembers : memberPieces (some []) 0 bs = memberPieces none 0 bs :=
    memberPieces_of_after? fun _ _ => rfl
  simp [pieces, hmembers, flatten_memberPieces_none, tokens_group]

/-- A drawing is one line with the pieces of its tokens in order, one blank between them, without
those that are empty. A selected token stands there in braces, even if its text is empty. A selected
group has one pair of braces around its pieces, from the first to the last, unless it has none. A
path that leads nowhere does not show, and the groups do not either. It does not matter what was
drawn before, and at the end no group is open but the line. -/
theorem calls_draw_line (l : Line) (root : Box) :
    (l.run (root.calls none)).text = " ".intercalate (plainPieces root.tokens) ∧
    (∀ p b, root.get? p = some b → b.members? = none → ∃ before after,
      root.tokens = before ++ (p, b) :: after ∧
      (l.run (root.calls (some p))).text =
        " ".intercalate
          (plainPieces before ++ ("\x7b" ++ b.text?.getD "" ++ "\x7d") :: plainPieces after)) ∧
    (∀ p bs, root.get? p = some (group bs) → plainPieces (group bs).tokens ≠ [] →
      ∃ before after,
        root.tokens = before ++ (group bs).tokens.map (fun x => (p ++ x.1, x.2)) ++ after ∧
        (l.run (root.calls (some p))).text =
          " ".intercalate (plainPieces before ++
            ("\x7b" ++ " ".intercalate (plainPieces (group bs).tokens) ++ "\x7d") ::
              plainPieces after)) ∧
    (∀ p, (root.get? p = none ∨
        ∃ bs, root.get? p = some (group bs) ∧ plainPieces (group bs).tokens = []) →
      (l.run (root.calls (some p))).text = (l.run (root.calls none)).text) ∧
    ∀ selection, (l.run (root.calls selection)).groups.length = 1 := by
  simp only [text_run_calls, ← joined_eq, ← braced_eq]
  refine ⟨by rw [pieces_none], ?_, ?_, ?_, fun selection => by rw [run_calls]; rfl⟩
  · intro p b hb hmembers
    obtain ⟨before, after, htokens, hpieces⟩ := pieces_of_get? hb
    have hown : b.tokens = [([], b)] := by
      cases b <;> simp_all [tokens, boxes, members?]
    refine ⟨before, after, by simp [htokens, hown], ?_⟩
    rw [hpieces, pieces_selected_token hmembers, List.append_assoc, List.singleton_append]
  · intro p bs hb hshown
    obtain ⟨before, after, htokens, hpieces⟩ := pieces_of_get? hb
    refine ⟨before, after, htokens, ?_⟩
    rw [hpieces, pieces_selected_group, groupPieces, if_pos ⟨rfl, hshown⟩, List.append_assoc,
      List.singleton_append]
  · rintro p (hnone | ⟨bs, hb, hempty⟩)
    · rw [pieces_of_get?_eq_none hnone]
    · obtain ⟨before, after, htokens, hpieces⟩ := pieces_of_get? hb
      rw [hpieces, pieces_selected_group, hempty, pieces_none, htokens]
      simp [groupPieces, hempty]

end Box

end FormulaEditor
