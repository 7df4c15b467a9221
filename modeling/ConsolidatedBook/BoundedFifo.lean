import Mathlib.Data.List.Basic

/-- A first-in first-out queue that never holds more than `capacity` values. -/
structure BoundedFifo (α : Type) (capacity : Nat) where
  held : List α
  bounded : held.length ≤ capacity

namespace BoundedFifo

variable {α : Type} {capacity : Nat}

def empty (α : Type) (capacity : Nat) : BoundedFifo α capacity := ⟨[], Nat.zero_le _⟩

/-- Append while there is room; `false` and no change when there is none. -/
def push (fifo : BoundedFifo α capacity) (value : α) : BoundedFifo α capacity × Bool :=
  if room : fifo.held.length < capacity then
    (⟨fifo.held ++ [value], by rw [List.length_append]; exact room⟩, true)
  else (fifo, false)

/-- Remove the oldest value; `none` and no change when there is none. -/
def pop (fifo : BoundedFifo α capacity) : BoundedFifo α capacity × Option α :=
  (⟨fifo.held.tail, by rw [List.length_tail]; exact Nat.le_trans (Nat.sub_le _ _) fifo.bounded⟩, fifo.held.head?)

theorem push_accepted {fifo : BoundedFifo α capacity} {value : α} :
    (fifo.push value).2 = true ↔ fifo.held.length < capacity := by
  unfold push
  split
  · rename_i room
    simp only [room]
  · rename_i full
    simp only [full, Bool.false_eq_true]

theorem push_held_of_room {fifo : BoundedFifo α capacity} {value : α}
    (room : fifo.held.length < capacity) : (fifo.push value).1.held = fifo.held ++ [value] := by
  rw [push, dif_pos room]

theorem push_of_full {fifo : BoundedFifo α capacity} {value : α}
    (full : ¬ fifo.held.length < capacity) : fifo.push value = (fifo, false) := by
  rw [push, dif_neg full]

theorem pop_of_cons {fifo : BoundedFifo α capacity} {value : α} {rest : List α}
    (same : fifo.held = value :: rest) : fifo.pop.1.held = rest ∧ fifo.pop.2 = some value := by
  simp only [pop, same, List.tail_cons, List.head?_cons, and_self]

theorem pop_of_nil {fifo : BoundedFifo α capacity} (none : fifo.held = []) :
    fifo.pop = (fifo, Option.none) := by
  obtain ⟨held, bounded⟩ := fifo
  subst none
  rfl

end BoundedFifo
