import Mathlib.Data.List.Basic
import Mathlib.Data.Fintype.Basic
import Mathlib.Data.Finset.Lattice.Fold
import Mathlib.Order.Lattice.Nat

/-! `n` connections deliver one and the same sequence of messages, each in
order and each at its own pace. An `order` lists the connections by turns. -/

namespace RedundantStream

variable {α : Type} {n : Nat} (messages : List α)

/-- What arrives when the turns of `order` follow those of `past`: each
connection hands over the first message it has not handed over yet. -/
def deliveriesAfter (past : List (Fin n)) : List (Fin n) → List α
  | [] => []
  | connection :: order =>
    messages[past.count connection]?.toList ++ deliveriesAfter (past ++ [connection]) order

def deliveries (order : List (Fin n)) : List α :=
  deliveriesAfter messages [] order

/-- How many messages some connection has delivered. -/
def front (past : List (Fin n)) : Nat :=
  Finset.univ.sup fun connection => past.count connection

theorem deliveriesAfter_append (past earlier later : List (Fin n)) :
    deliveriesAfter messages past (earlier ++ later) =
      deliveriesAfter messages past earlier ++ deliveriesAfter messages (past ++ earlier) later := by
  induction earlier generalizing past with
  | nil => simp only [List.nil_append, deliveriesAfter, List.append_nil]
  | cons connection earlier ih =>
    simp only [List.cons_append, deliveriesAfter, ih, List.append_assoc, List.nil_append]

theorem deliveries_concat (order : List (Fin n)) (connection : Fin n) :
    deliveries messages (order ++ [connection]) =
      deliveries messages order ++ messages[order.count connection]?.toList := by
  unfold deliveries
  rw [deliveriesAfter_append]
  simp only [deliveriesAfter, List.nil_append, List.append_nil]

theorem deliveries_extends {earlier order : List (Fin n)} (initial : earlier <+: order) :
    deliveries messages earlier <+: deliveries messages order := by
  obtain ⟨later, rfl⟩ := initial
  unfold deliveries
  rw [deliveriesAfter_append]
  exact List.prefix_append _ _

theorem count_le_front (past : List (Fin n)) (connection : Fin n) : past.count connection ≤ front past :=
  Finset.le_sup (f := fun connection => past.count connection) (Finset.mem_univ connection)

theorem front_le {past : List (Fin n)} {bound : Nat} (within : ∀ connection, past.count connection ≤ bound) :
    front past ≤ bound :=
  Finset.sup_le fun connection _ => within connection

theorem front_concat (past : List (Fin n)) (connection : Fin n) :
    front (past ++ [connection]) = max (front past) (past.count connection + 1) := by
  apply le_antisymm
  · refine front_le fun other => ?_
    have behind := count_le_front past other
    rw [List.count_append, List.count_singleton]
    by_cases same : connection = other
    · subst same
      simp
    · simp only [beq_iff_eq, same, if_false, Nat.add_zero]
      exact behind.trans (Nat.le_max_left _ _)
  · refine max_le (front_le fun other => ?_) ?_
    · have more := (List.prefix_append past [connection]).sublist.count_le other
      exact more.trans (count_le_front _ other)
    · have own := count_le_front (past ++ [connection]) connection
      rwa [List.count_append, List.count_singleton_self] at own

end RedundantStream
