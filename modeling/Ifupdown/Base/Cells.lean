import Mathlib.Data.List.Basic

/-! Cells of a fixed number that are written one at a time. A write outside of them has no result. -/
namespace Cells

variable {α : Type} {front behind cells xs : List α} {x : α} {p : Nat}

def write (cells : List α) (p : Nat) (x : α) : Option (List α) := if p < cells.length then some (cells.set p x) else none

def writeAll (cells : List α) (p : Nat) : List α → Option (List α)
  | [] => some cells
  | x :: xs =>
    match write cells p x with
    | none => none
    | some cells => writeAll cells (p + 1) xs

/-- The cells once the first ones are written. -/
def overlay (front cells : List α) : List α := front ++ cells.drop front.length

@[simp] theorem overlay_nil : overlay [] cells = cells := rfl

theorem overlay_length (fits : front.length ≤ cells.length) : (overlay front cells).length = cells.length := by
  unfold overlay
  rw [List.length_append, List.length_drop]
  omega

theorem overlay_behind (later : front.length ≤ p) : (overlay front cells)[p]? = cells[p]? := by
  unfold overlay
  rw [List.getElem?_append_right later, List.getElem?_drop]
  congr 1
  omega

theorem overlay_at (inside : p < front.length) : (overlay front cells)[p]? = front[p]? := List.getElem?_append_left inside

theorem write_at {y : α} : write (front ++ x :: behind) front.length y = some (front ++ y :: behind) := by
  unfold write
  rw [if_pos (by rw [List.length_append, List.length_cons]; omega), List.set_append_right _ _ (Nat.le_refl _), Nat.sub_self,
    List.set_cons_zero]

theorem write_overlay (room : front.length < cells.length) :
    write (overlay front cells) front.length x = some (overlay (front ++ [x]) cells) := by
  have next : cells.drop front.length = cells[front.length] :: cells.drop (front.length + 1) := List.drop_eq_getElem_cons room
  unfold overlay
  rw [next, write_at, List.length_append, List.append_assoc]
  rfl

theorem writeAll_at (room : xs.length ≤ behind.length) :
    writeAll (front ++ behind) front.length xs = some (front ++ overlay xs behind) := by
  induction xs generalizing front behind with
  | nil => rfl
  | cons x xs ih =>
    cases behind with
    | nil => exact absurd room (Nat.not_succ_le_zero _)
    | cons y behind =>
      have next := @ih (front ++ [x]) behind (Nat.le_of_succ_le_succ room)
      rw [List.length_append, List.length_singleton, List.append_assoc] at next
      unfold writeAll
      rw [write_at]
      dsimp only
      rw [List.singleton_append] at next
      rw [next, List.append_assoc]
      rfl

end Cells
