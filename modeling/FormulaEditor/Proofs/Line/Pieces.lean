import FormulaEditor.Line
/-! The pieces of a line. How the pieces of a group were joined before does not show: all that comes
of them depends only on the one piece that they make together. -/
namespace FormulaEditor

namespace Line

theorem joined_eq (ps : List String) : joined ps = " ".intercalate ps := rfl

theorem braced_eq (s : String) : braced s = "\x7b" ++ s ++ "\x7d" := rfl

@[simp] theorem joined_nil : joined [] = "" := String.intercalate_nil

@[simp] theorem joined_singleton (s : String) : joined [s] = s := String.intercalate_singleton

theorem joined_append {ps qs : List String} (hp : ps ≠ []) (hq : qs ≠ []) :
    joined (ps ++ qs) = joined ps ++ " " ++ joined qs :=
  String.intercalate_append_of_ne_nil hp hq

theorem braced_ne_empty (s : String) : braced s ≠ "" := by
  intro h
  have hlist := congrArg String.toList h
  simp [braced] at hlist

theorem joined_eq_empty_iff {ps : List String} (h : "" ∉ ps) : joined ps = "" ↔ ps = [] := by
  cases ps with
  | nil => simp
  | cons s ps =>
    have hs : s ≠ "" := fun he => h (by simp [he])
    cases ps with
    | nil => simpa using hs
    | cons s' ps =>
      have hne : joined ([s] ++ (s' :: ps)) ≠ "" := by
        rw [joined_append (by simp) (by simp), joined_singleton]
        intro he
        have hlist := congrArg String.toList he
        simp at hlist
      simpa using hne

def once (ps : List String) : List String := if ps = [] then [] else [joined ps]

@[simp] theorem once_nil : once [] = [] := rfl

@[simp] theorem once_singleton (s : String) : once [s] = [s] := by simp [once]

@[simp] theorem joined_once (ps : List String) : joined (once ps) = joined ps := by
  by_cases h : ps = [] <;> simp [once, h]

@[simp] theorem once_once (ps : List String) : once (once ps) = once ps := by
  by_cases h : ps = [] <;> simp [once, h]

/-- Joining two runs of pieces and then both is joining all at once. -/
theorem once_append_once (ps qs : List String) : once (once ps ++ once qs) = once (ps ++ qs) := by
  by_cases hp : ps = []
  · simp [hp]
  · by_cases hq : qs = []
    · simp [hq]
    · have hjoined : joined ([joined ps] ++ [joined qs]) = joined (ps ++ qs) := by
        rw [joined_append (by simp) (by simp), joined_append hp hq, joined_singleton,
          joined_singleton]
      simpa [once, hp, hq] using hjoined

theorem once_once_append (ps qs : List String) : once (once ps ++ qs) = once (ps ++ qs) := by
  rw [← once_append_once, once_once, once_append_once]

theorem once_flatMap_once (pss : List (List String)) :
    once (pss.flatMap once) = once pss.flatten := by
  induction pss with
  | nil => rfl
  | cons ps pss ih =>
    calc
      once ((ps :: pss).flatMap once) = once (ps ++ pss.flatMap once) := by
        rw [List.flatMap_cons, once_once_append]
      _ = once (once ps ++ once pss.flatten) := by rw [← once_append_once, ih]
      _ = once (ps :: pss).flatten := by rw [once_append_once, List.flatten_cons]

theorem put_joined {ps : List String} (h : "" ∉ ps) (g : List String) (gs : List (List String)) :
    put (joined ps) (g :: gs) = (g ++ once ps) :: gs := by
  by_cases hp : ps = []
  · simp [put, hp]
  · simp [put, once, hp, joined_eq_empty_iff h]

theorem groupPiece_once (ps : List String) (mark : Mark) :
    groupPiece (once ps) mark = groupPiece ps mark := by
  simp [groupPiece]

end Line

end FormulaEditor
