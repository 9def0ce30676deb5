import FormulaEditor.Box.Layout
import FormulaEditor.Proofs.Box.Order
/-! What a front end gets to draw. The calls are well bracketed and tell of every box once, in the
order of the paths, and the box that is marked as selected is the one the selection leads to. -/
namespace FormulaEditor

namespace Box

/-- The call that starts the drawing of a box: all there is of a token, the opening of a group. -/
def start (b : Box) (mark : Mark) : DrawCall :=
  match b with
  | group _ => .openGroup mark
  | b => .token b mark

/-- All calls that bear the mark of a box: both brackets of a group. -/
def ownCalls (b : Box) (mark : Mark) : List DrawCall :=
  match b with
  | group _ => [.openGroup mark, .closeGroup mark]
  | b => [.token b mark]

def selectedCalls : Option Box → List DrawCall
  | none => []
  | some b => b.ownCalls ⟨b.isSelectable, true⟩

def Path.after? (i : Nat) : Path → Option Path
  | [] => none
  | j :: p => if j = i then some p else none

end Box

namespace DrawCall

def mark? : DrawCall → Option Mark
  | init => none
  | token _ mark | openGroup mark | closeGroup mark => some mark

def isSelected (c : DrawCall) : Bool := c.mark?.any Mark.selected

mutual

/-- Calls that draw the box at `p`: a token, or between an opening and a closing with one mark the
members of a group. The second list holds the calls that start something, in order, with the paths
that the brackets give them. -/
inductive Draws : Box.Path → List DrawCall → List (Box.Path × DrawCall) → Prop
  | token (p : Box.Path) (b : Box) (mark : Mark) : Draws p [token b mark] [(p, token b mark)]
  | group {p : Box.Path} {cs : List DrawCall} {starts : List (Box.Path × DrawCall)} (mark : Mark)
    (h : DrawsMembers p 0 cs starts) :
    Draws p (openGroup mark :: cs ++ [closeGroup mark]) ((p, openGroup mark) :: starts)

inductive DrawsMembers : Box.Path → Nat → List DrawCall → List (Box.Path × DrawCall) → Prop
  | nil (p : Box.Path) (i : Nat) : DrawsMembers p i [] []
  | cons {p : Box.Path} {i : Nat} {cs ds : List DrawCall}
    {starts later : List (Box.Path × DrawCall)}
    (h : Draws (p.child i) cs starts) (hlater : DrawsMembers p (i + 1) ds later) :
    DrawsMembers p i (cs ++ ds) (starts ++ later)

end

end DrawCall

namespace Box

open DrawCall

theorem into?_map_ofPath (q : Option Path) (i : Nat) :
    (q.map Cursor.ofPath).bind (·.into? i) = (q.bind (Path.after? i)).map Cursor.ofPath := by
  rcases q with _ | _ | ⟨j, p⟩
  · rfl
  · simp [Path.after?]
  · by_cases hj : j = i <;> simp [Path.after?, hj]

theorem bind_after?_eq_some_iff {q : Option Path} {i : Nat} {p : Path} :
    q.bind (Path.after? i) = some p ↔ q = some (i :: p) := by
  rcases q with _ | _ | ⟨j, r⟩ <;> simp [Path.after?]

theorem mark_map_ofPath (b : Box) (q : Option Path) :
    b.mark (q.map Cursor.ofPath) = ⟨b.isSelectable, q = some []⟩ := by
  rcases q with _ | _ | ⟨j, p⟩ <;> simp [mark, Cursor.isHere, Cursor.ofPath]

def startAt (q : Option Path) (x : Path × Box) : DrawCall :=
  x.2.start ⟨x.2.isSelectable, q = some x.1⟩

mutual

theorem draws_layout (b : Box) (q : Option Path) (p : Path) :
    Draws p (b.layout (q.map Cursor.ofPath)) (b.boxes.map fun x => (p ++ x.1, startAt q x)) := by
  cases b with
  | group bs =>
    have hmembers := drawsMembers_layoutFrom bs q p 0
    have h := Draws.group ((group bs).mark (q.map Cursor.ofPath)) hmembers
    simpa [layout, boxes, startAt, start, mark_map_ofPath] using h
  | _ => simpa [layout, boxes, startAt, start, mark_map_ofPath] using Draws.token _ _ _

theorem drawsMembers_layoutFrom (bs : List Box) (q : Option Path) (p : Path) (i : Nat) :
    DrawsMembers p i (layoutFrom (q.map Cursor.ofPath) i bs)
      ((boxesFrom i bs).map fun x => (p ++ x.1, startAt q x)) := by
  cases bs with
  | nil => exact .nil p i
  | cons b bs =>
    have hfirst := draws_layout b (q.bind (Path.after? i)) (p.child i)
    have h := DrawsMembers.cons hfirst (drawsMembers_layoutFrom bs q p (i + 1))
    rw [layoutFrom, into?_map_ofPath]
    simpa [boxesFrom, startAt, bind_after?_eq_some_iff, Path.child, Function.comp_def] using h

end

def getFrom? (i : Nat) (bs : List Box) : Path → Option Box
  | [] => none
  | j :: p => if j < i then none else bs[j - i]?.bind (·.get? p)

theorem get?_group_cons (bs : List Box) (j : Nat) (p : Path) :
    (group bs).get? (j :: p) = getFrom? 0 bs (j :: p) := by
  simp [getFrom?, members?]

theorem getFrom?_cons_cons (i : Nat) (b : Box) (bs : List Box) (j : Nat) (p : Path) :
    getFrom? i (b :: bs) (j :: p) = if j = i then b.get? p else getFrom? (i + 1) bs (j :: p) := by
  rcases Nat.lt_trichotomy j i with hlt | rfl | hgt
  · have hne : j ≠ i := by omega
    simp [getFrom?, hne, hlt, Nat.lt_succ_of_lt hlt]
  · simp [getFrom?]
  · obtain ⟨k, rfl⟩ := Nat.exists_eq_add_of_lt hgt
    have hne : i + k + 1 ≠ i := by omega
    have hpast : ¬ i + k + 1 < i + 1 := by omega
    have hplace : i + k + 1 - i = k + 1 ∧ i + k + 1 - (i + 1) = k := by omega
    have hnot : ¬ i + k + 1 < i := by omega
    simp [getFrom?, hne, hnot, hpast, hplace]

mutual

/-- The calls that are marked as selected are those of the box that the path leads to. -/
theorem filter_isSelected_layout (b : Box) (q : Option Path) :
    (b.layout (q.map Cursor.ofPath)).filter isSelected = selectedCalls (q.bind b.get?) := by
  cases b with
  | group bs =>
    rw [layout, mark_map_ofPath, List.cons_append, List.filter_cons, List.filter_append,
      filter_isSelected_layoutFrom]
    rcases q with _ | _ | ⟨j, p⟩
    · rfl
    · rfl
    · rw [Option.bind_some, Option.bind_some, get?_group_cons]
      simp [isSelected, mark?]
  | _ =>
    simp only [layout, mark_map_ofPath]
    rcases q with _ | _ | ⟨j, p⟩ <;> rfl

theorem filter_isSelected_layoutFrom (bs : List Box) (q : Option Path) (i : Nat) :
    (layoutFrom (q.map Cursor.ofPath) i bs).filter isSelected =
      selectedCalls (q.bind (getFrom? i bs)) := by
  cases bs with
  | nil => rcases q with _ | _ | ⟨j, p⟩ <;> simp [layoutFrom, getFrom?, selectedCalls]
  | cons b bs =>
    rw [layoutFrom, into?_map_ofPath, List.filter_append, filter_isSelected_layout,
      filter_isSelected_layoutFrom]
    rcases q with _ | _ | ⟨j, p⟩
    · rfl
    · rfl
    · simp only [Option.bind_some, getFrom?_cons_cons]
      by_cases hj : j = i
      · simp [Path.after?, getFrom?, selectedCalls, hj]
      · simp [Path.after?, selectedCalls, hj]

end

/-- The calls for a drawing draw the outermost box. What they start are the boxes that a path leads
to, each once and in the order of the paths, with the mark that says whether the selection leads
there; and no calls bear the mark of a selected box but those of the box that the selection leads
to. -/
theorem calls_draw_boxes (root : Box) (selection : Option Path) :
    ∃ cs starts, root.calls selection = .init :: cs ∧ Draws [] cs starts ∧
      starts.Pairwise (fun x y => x.1 < y.1) ∧
      (∀ p c, (p, c) ∈ starts ↔
        ∃ b, root.get? p = some b ∧ c = b.start ⟨b.isSelectable, selection = some p⟩) ∧
      cs.filter isSelected = selectedCalls (selection.bind root.get?) := by
  refine ⟨_, _, rfl, draws_layout root selection [], ?_, ?_,
    filter_isSelected_layout root selection⟩
  · exact List.pairwise_map.2 root.pairwise_boxes
  · intro p c
    simp only [List.nil_append, List.mem_map, Prod.exists, Prod.mk.injEq]
    constructor
    · rintro ⟨q, b, hb, rfl, rfl⟩
      exact ⟨b, mem_boxes_iff.1 hb, rfl⟩
    · rintro ⟨b, hb, rfl⟩
      exact ⟨p, b, mem_boxes_iff.2 hb, rfl, rfl⟩

end Box

end FormulaEditor
