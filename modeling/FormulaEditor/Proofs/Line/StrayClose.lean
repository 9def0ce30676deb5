import FormulaEditor.Proofs.Line.Pieces
/-! Calls that close more groups than they open. A close that finds no group open joins the pieces
of the line into one. Unless it also puts braces around them this does not show, then or later. -/
namespace FormulaEditor

namespace DrawCall

/-- How many groups are open after a call if `n` were before it. A close that finds none open leaves
none. -/
def openAfter (n : Nat) : DrawCall → Nat
  | .init => 0
  | .token .. => n
  | .openGroup _ => n + 1
  | .closeGroup _ => n - 1

def openGroups (calls : List DrawCall) : Nat := calls.foldl openAfter 0

end DrawCall

namespace Line

@[simp] theorem length_put (p : String) (gs : List (List String)) :
    (put p gs).length = gs.length := by
  cases gs with
  | nil => rfl
  | cons g gs =>
    rw [put]
    split <;> rfl

@[simp] theorem length_close (mark : Mark) (gs : List (List String)) :
    (close mark gs).length = gs.length - 2 + 1 := by
  match gs with
  | [] => simp [close]
  | [g] => simp [close]
  | g :: h :: gs => simp [close]

theorem length_groups_apply {l : Line} {n : Nat} (h : l.groups.length = n + 1) (c : DrawCall) :
    (l.apply c).groups.length = c.openAfter n + 1 := by
  cases c with
  | init => rfl
  | token b mark => simp [ofGroups, h, DrawCall.openAfter]
  | openGroup mark => simp [h, DrawCall.openAfter]
  | closeGroup mark => simp [ofGroups, h, DrawCall.openAfter]

theorem length_groups_run {l : Line} {n : Nat} (h : l.groups.length = n + 1)
    (cs : List DrawCall) : (l.run cs).groups.length = cs.foldl DrawCall.openAfter n + 1 := by
  induction cs generalizing l n with
  | nil => exact h
  | cons c cs ih => exact ih (length_groups_apply h c)

theorem length_groups_run_init (l : Line) (cs : List DrawCall) :
    (l.run (.init :: cs)).groups.length = DrawCall.openGroups cs + 1 :=
  length_groups_run rfl cs

/-- What every call leaves: the text is what the outermost group makes, and no group has an empty
piece. -/
structure Drawn (l : Line) : Prop where
  text_eq : l.text = joined (l.groups.getLast?.getD [])
  not_mem : ∀ g ∈ l.groups, "" ∉ g

theorem not_mem_put {gs : List (List String)} (h : ∀ g ∈ gs, "" ∉ g) (p : String) :
    ∀ g ∈ put p gs, "" ∉ g := by
  cases gs with
  | nil => exact h
  | cons g gs =>
    obtain ⟨hg, hgs⟩ := List.forall_mem_cons.1 h
    rw [put]
    split
    · exact h
    · rename_i hp
      exact List.forall_mem_cons.2 ⟨by simp [hg, eq_comm, hp], hgs⟩

theorem not_mem_close {gs : List (List String)} (h : ∀ g ∈ gs, "" ∉ g) (mark : Mark) :
    ∀ g ∈ close mark gs, "" ∉ g := by
  have hline : ∀ g ∈ [([] : List String)], "" ∉ g := by simp
  match gs with
  | [] => exact not_mem_put hline _
  | [g] => exact not_mem_put hline _
  | g :: g' :: gs => exact not_mem_put (List.forall_mem_cons.1 h).2 _

theorem drawn_ofGroups {gs : List (List String)} (h : ∀ g ∈ gs, "" ∉ g) : (ofGroups gs).Drawn :=
  ⟨rfl, h⟩

theorem Drawn.apply {l : Line} (h : l.Drawn) (c : DrawCall) : (l.apply c).Drawn := by
  cases c with
  | init => exact ⟨rfl, by simp⟩
  | token b mark => exact drawn_ofGroups (not_mem_put h.not_mem _)
  | openGroup mark =>
    -- a new group is never the outermost one, unless there is none yet
    have hlast : (([] : List String) :: l.groups).getLast?.getD [] = l.groups.getLast?.getD [] := by
      cases l.groups <;> simp
    exact ⟨by simp [hlast, h.text_eq], by simpa using h.not_mem⟩
  | closeGroup mark => exact drawn_ofGroups (not_mem_close h.not_mem mark)

theorem Drawn.run {l : Line} (h : l.Drawn) (cs : List DrawCall) : (l.run cs).Drawn := by
  induction cs generalizing l with
  | nil => exact h
  | cons c cs ih => exact ih (h.apply c)

theorem drawn_run_init (l : Line) (cs : List DrawCall) : (l.run (.init :: cs)).Drawn :=
  Drawn.run ⟨rfl, by simp⟩ cs

/-- The line with the pieces of each group joined into one. -/
def merged (l : Line) : Line := ⟨l.groups.map once, l.text⟩

@[simp] theorem groups_merged (l : Line) : l.merged.groups = l.groups.map once := rfl

@[simp] theorem text_merged (l : Line) : l.merged.text = l.text := rfl

theorem joined_getLast?_map_once (gs : List (List String)) :
    joined ((gs.map once).getLast?.getD []) = joined (gs.getLast?.getD []) := by
  rw [List.getLast?_map]
  cases gs.getLast? <;> simp

theorem merged_ofGroups (gs : List (List String)) :
    (ofGroups gs).merged = ofGroups (gs.map once) := by
  rw [merged, ofGroups, ofGroups, joined_getLast?_map_once]

theorem map_once_put (p : String) (gs : List (List String)) :
    (put p (gs.map once)).map once = (put p gs).map once := by
  cases gs with
  | nil => rfl
  | cons g gs => by_cases hp : p = "" <;> simp [put, hp, once_once_append, Function.comp_def]

theorem map_once_close (mark : Mark) (gs : List (List String)) :
    (close mark (gs.map once)).map once = (close mark gs).map once := by
  match gs with
  | [] => rfl
  | [g] => simp [close, groupPiece_once]
  | g :: g' :: gs =>
    have hput := map_once_put (groupPiece g mark) (g' :: gs)
    simpa [close, groupPiece_once] using hput

/-- How the pieces of the groups were joined before a call does not show after it. -/
theorem merged_apply (l : Line) (c : DrawCall) :
    (l.merged.apply c).merged = (l.apply c).merged := by
  cases c with
  | init => rfl
  | token b mark =>
    rw [apply_token, apply_token, merged_ofGroups, merged_ofGroups, groups_merged, map_once_put]
  | openGroup mark => simp [merged, Function.comp_def]
  | closeGroup mark =>
    rw [apply_closeGroup, apply_closeGroup, merged_ofGroups, merged_ofGroups, groups_merged,
      map_once_close]

theorem merged_run {l m : Line} (h : l.merged = m.merged) (cs : List DrawCall) :
    (l.run cs).merged = (m.run cs).merged := by
  induction cs generalizing l m with
  | nil => exact h
  | cons c cs ih =>
    have happly : (l.apply c).merged = (m.apply c).merged := by
      rw [← merged_apply, h, merged_apply]
    exact ih happly

theorem text_run {l m : Line} (h : l.merged = m.merged) (cs : List DrawCall) :
    (l.run cs).text = (m.run cs).text := by
  rw [← text_merged, merged_run h cs, text_merged]

/-- Closing the line itself joins its pieces and changes nothing else. -/
theorem Drawn.merged_closeGroup {l : Line} (h : l.Drawn) {g : List String} (hg : l.groups = [g])
    (selectable : Bool) : (l.apply (.closeGroup ⟨selectable, false⟩)).merged = l.merged := by
  have hnone : "" ∉ g := h.not_mem g (by simp [hg])
  have htext : l.text = joined g := by simp [h.text_eq, hg]
  have hclose : close ⟨selectable, false⟩ [g] = [once g] := by
    simp [close, groupPiece, put_joined hnone]
  calc
    (l.apply (.closeGroup ⟨selectable, false⟩)).merged = (ofGroups [once g]).merged := by
      rw [apply_closeGroup, hg, hclose]
    _ = l.merged := by simp [merged, ofGroups, hg, htext]

/-- After every call of a drawing the line is what the outermost group makes, the only one besides
those that the calls so far leave open. Where they leave none open, one more close, if it is not
selected, shows neither at once nor after any calls that follow. -/
theorem stray_close_does_not_show (l : Line) (calls : List DrawCall) :
    (∃ g, (l.run (.init :: calls)).groups.getLast? = some g ∧
      (l.run (.init :: calls)).text = " ".intercalate g) ∧
    (l.run (.init :: calls)).groups.length = DrawCall.openGroups calls + 1 ∧
    (DrawCall.openGroups calls = 0 → ∀ (selectable : Bool) (later : List DrawCall),
      (l.run (.init :: calls ++ .closeGroup ⟨selectable, false⟩ :: later)).text =
        (l.run (.init :: calls ++ later)).text) := by
  have hdrawn := drawn_run_init l calls
  have hlength := length_groups_run_init l calls
  refine ⟨?_, hlength, fun hopen selectable later => ?_⟩
  · have hne : (l.run (.init :: calls)).groups ≠ [] := List.ne_nil_of_length_eq_add_one hlength
    refine ⟨_, List.getLast?_eq_some_getLast hne, ?_⟩
    rw [hdrawn.text_eq, List.getLast?_eq_some_getLast hne, Option.getD_some, joined_eq]
  · obtain ⟨g, hg⟩ := List.length_eq_one_iff.1 (by rw [hlength, hopen])
    rw [run_append, run_append, run_cons]
    exact text_run (hdrawn.merged_closeGroup hg selectable) later

/-- The tokens of `5 + 3`, in no group. -/
def sumCalls : List DrawCall :=
  [.token (.terminal "5") ⟨true, false⟩, .token (.operator "+" 0) ⟨false, false⟩,
    .token (.terminal "3") ⟨true, false⟩]

/-- The stray close leaves other pieces here, and a selected close after it still draws the same. -/
theorem stray_close_does_not_show_sum :
    DrawCall.openGroups sumCalls = 0 ∧
    (blank.run (.init :: sumCalls)).groups = [["[5]", "+", "[3]"]] ∧
    (blank.run (.init :: sumCalls ++ [.closeGroup ⟨true, false⟩])).groups = [["[5] + [3]"]] ∧
    (blank.run (.init :: sumCalls ++ [.closeGroup ⟨true, true⟩])).text = "\x7b[5] + [3]\x7d" ∧
    (blank.run (.init :: sumCalls ++ [.closeGroup ⟨true, false⟩, .closeGroup ⟨true, true⟩])).text =
      (blank.run (.init :: sumCalls ++ [.closeGroup ⟨true, true⟩])).text :=
  have hopen : DrawCall.openGroups sumCalls = 0 := rfl
  ⟨hopen, by decide, by decide, by decide,
    (stray_close_does_not_show blank sumCalls).2.2 hopen true [.closeGroup ⟨true, true⟩]⟩

end Line

end FormulaEditor
