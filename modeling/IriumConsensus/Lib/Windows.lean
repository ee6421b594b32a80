import Mathlib.Data.List.Infix

namespace Windows

variable {α : Type} {p m s xs : List α}

theorem getElem?_of_prefix_drop {i j : Nat} (h : m <+: xs.drop i) (hj : j < m.length) : xs[i + j]? = m[j]? := by
  rw [← List.getElem?_drop, List.prefix_iff_getElem?.mp h j hj, List.getElem?_eq_getElem hj]

variable [DecidableEq α]

/-- Where a list first occurs in another one. -/
def position (m : List α) : List α → Option Nat
  | [] => if m = [] then some 0 else none
  | x :: xs => if m <+: x :: xs then some 0 else (position m xs).map (· + 1)

theorem position_of_prefix (h : m <+: xs) : position m xs = some 0 := by
  cases xs with
  | nil => rw [position, if_pos (List.prefix_nil.mp h)]
  | cons x xs => rw [position, if_pos h]

theorem position_eq (h : ∀ i < p.length, ¬m <+: (p ++ (m ++ s)).drop i) :
    position m (p ++ (m ++ s)) = some p.length := by
  induction p with
  | nil => exact position_of_prefix (List.prefix_append m s)
  | cons x p ih =>
    have hfirst : ¬m <+: x :: (p ++ (m ++ s)) := h 0 (Nat.succ_pos _)
    rw [List.cons_append, position, if_neg hfirst, ih fun i hi => h (i + 1) (Nat.succ_lt_succ hi)]
    rfl

def splitAround (m xs : List α) : Option (List α × List α) :=
  (position m xs).map fun pos => (xs.take pos, xs.drop (pos + m.length))

theorem splitAround_eq (h : ∀ i < p.length, ¬m <+: (p ++ (m ++ s)).drop i) :
    splitAround m (p ++ (m ++ s)) = some (p, s) := by
  rw [splitAround, position_eq h, Option.map_some, List.take_left, ← List.drop_drop, List.drop_left, List.drop_left]

end Windows
