import ConsolidatedBook.MPSCQueue.Sequential

namespace ConsolidatedBook

open PositionWord (ofNat toNat add diff)

variable {W α : Type} [PositionWord W] {c : Capacity}

namespace MPSCQueue

/-- The runs of non-overlapping calls, each with the values that `Push` has
accepted and those that `Pop` has returned, in order. -/
inductive CallRun [DecidableEq W] [Movable α] : MPSCQueue W α c → List α → List α → Prop
  | init : CallRun (MPSCQueue.init W α c) [] []
  | push {q q' accepted returned weakFails value result} : CallRun q accepted returned →
      q.push weakFails value = some (q', result) →
      CallRun q' (if result then accepted ++ [value] else accepted) returned
  | pop {q q' accepted returned result} : CallRun q accepted returned → q.pop = some (q', result) →
      CallRun q' accepted (returned ++ result.toList)

/-- The accepted values that are not returned yet are at most `Capacity`,
and the `k`-th value accepted is in the cell of position `k` until then. -/
structure KeepsAccepted (q : MPSCQueue W α c) (accepted returned : List α) : Prop where
  bounded : accepted.length ≤ returned.length + c.size
  intact : ∀ k value, returned.length ≤ k → accepted[k]? = some value → q.dataAt (ofNat k) = value

section Runs

variable [DecidableEq W] {q q' : MPSCQueue W α c} {first : Nat} {accepted returned held : List α}

/-- At the number found at `enqueuePos` a call is refused exactly if it is
not zero; with one cell, it is zero also when the queue is full. -/
theorem Holds.push_attempt (holds : q.Holds first held) (exact_ : PositionWord.Exact W c) (value : α) :
    q.push (List.replicate 5 false) value =
      some (if held.length < c.size ∨ c.size = 1 then (q.pushed value, true) else (q, false)) := by
  have number := holds.diff_enqueuePos exact_
  have positive := c.positive
  have settled : diff (q.sequenceAt q.enqueuePos) q.enqueuePos ≤ 0 := by
    rw [number]
    split <;> omega
  have attempt : q.Attempting ⟨(), 0, value⟩ (.loadEnqueuePos ⟨(), 0, value⟩) := rfl
  refine (runPush_attempting settled [] attempt).trans ?_
  have accepts : diff (q.sequenceAt q.enqueuePos) q.enqueuePos = 0 ↔ held.length < c.size ∨ c.size = 1 := by
    rw [number]
    split <;> omega
  simp only [accepts]

variable [Movable α]

/-- The ring holds the accepted values that are not returned yet. -/
theorem CallRun.holds (exact_ : PositionWord.Exact W c) (two : 2 ≤ c.size) (run : CallRun q accepted returned) :
    ∃ held, accepted = returned ++ held ∧ q.Holds returned.length held := by
  induction run with
  | init => exact ⟨[], rfl, .init exact_⟩
  | @push q q' accepted returned weakFails value result _ call ih =>
    obtain ⟨held, rfl, holds⟩ := ih
    obtain ⟨fifo, rfl⟩ : ∃ fifo : BoundedFifo α c.size, fifo.held = held := ⟨⟨held, holds.bounded⟩, rfl⟩
    have outcome := holds.push_result exact_ two call
    by_cases room : fifo.held.length < c.size
    · rw [if_pos room] at outcome
      cases outcome
      refine ⟨fifo.held ++ [value], ?_, holds.pushed exact_ room value⟩
      rw [if_pos rfl, List.append_assoc]
    · rw [if_neg room] at outcome
      cases outcome
      exact ⟨fifo.held, rfl, holds⟩
  | @pop q q' accepted returned result _ call ih =>
    obtain ⟨held, rfl, holds⟩ := ih
    obtain ⟨fifo, rfl⟩ : ∃ fifo : BoundedFifo α c.size, fifo.held = held := ⟨⟨held, holds.bounded⟩, rfl⟩
    have outcome := holds.pop exact_
    rw [call] at outcome
    cases same : fifo.held with
    | nil =>
      rw [same] at holds
      rw [same, if_pos rfl] at outcome
      cases outcome
      exact ⟨[], by simp, by rwa [Option.toList_none, List.append_nil]⟩
    | cons value rest =>
      rw [same] at holds
      rw [same, if_neg (List.cons_ne_nil value rest)] at outcome
      cases outcome
      refine ⟨rest, by simp, ?_⟩
      rw [List.length_append]
      exact holds.popped exact_

theorem CallRun.keepsAccepted (exact_ : PositionWord.Exact W c) (two : 2 ≤ c.size)
    (run : CallRun q accepted returned) : q.KeepsAccepted accepted returned := by
  obtain ⟨held, rfl, holds⟩ := run.holds exact_ two
  constructor
  · rw [List.length_append]
    exact Nat.add_le_add_left holds.bounded _
  · intro k value unreturned atK
    obtain ⟨i, rfl⟩ := Nat.exists_eq_add_of_le unreturned
    rw [List.getElem?_append_right unreturned, Nat.add_sub_cancel_left] at atK
    exact (holds.filled i value atK).2

/-- With one cell, a value published is stamped as free for the next lap, and
a second value is accepted on top of it. -/
theorem CallRun.overwrites (exact_ : PositionWord.Exact W c) (one : c.size = 1) (first second : α) :
    ∃ q : MPSCQueue W α c, CallRun q [first, second] [] ∧ q.dataAt (ofNat 0) = second := by
  have empty : (MPSCQueue.init W α c).Holds 0 [] := .init exact_
  have push := empty.push_attempt exact_ first
  rw [if_pos (Or.inr one)] at push
  have full : ((MPSCQueue.init W α c).pushed first).Holds 0 [first] := empty.pushed exact_ c.positive first
  have push' := full.push_attempt exact_ second
  rw [if_pos (Or.inr one)] at push'
  refine ⟨_, .push (.push .init push) push', ?_⟩
  have same : c.slot (ofNat 0 : W) = c.slot ((MPSCQueue.init W α c).pushed first).enqueuePos := by
    apply Fin.ext
    omega
  rw [MPSCQueue.pushed, dataAt_storeSequence, dataAt_storeData, if_pos same]

end Runs

end MPSCQueue

section Capacities

variable [Movable α]

/-- Of the capacities that the `static_assert` admits, exactly those of more
than one cell keep every accepted value until it is popped. -/
theorem mpscQueue_keepsAccepted_iff (word : c.size < 2 ^ 64) :
    (∀ (q : MPSCQueue (BitVec 64) α c) accepted returned, q.CallRun accepted returned →
      q.KeepsAccepted accepted returned) ↔ c.size ≠ 1 := by
  obtain ⟨k, size⟩ := c.isPowerOfTwo
  have small : k ≤ 63 := by
    rw [size] at word
    have := (Nat.pow_lt_pow_iff_right (by decide : 1 < 2)).mp word
    omega
  have exact_ := PositionWord.exact_bitVec size small
  constructor
  · intro keeps one
    obtain ⟨q, run, _⟩ := MPSCQueue.CallRun.overwrites exact_ one (Movable.initial : α) Movable.initial
    have bounded := (keeps q _ _ run).bounded
    rw [one] at bounded
    exact absurd bounded (Nat.not_succ_le_self 1)
  · intro more q accepted returned run
    have positive := c.positive
    exact run.keepsAccepted exact_ (by omega)

theorem mpscQueue_keepsAccepted_iff_default :
    ∃ q : MPSCQueue (BitVec 64) String .default, q.CallRun ["a"] [] ∧ q.KeepsAccepted ["a"] [] := by
  obtain ⟨q, pushed⟩ : ∃ q, (MPSCQueue.init (BitVec 64) String .default).push (List.replicate 5 false) "a" =
    some (q, true) := ⟨_, rfl⟩
  have run : q.CallRun ["a"] [] := .push .init pushed
  exact ⟨q, run, (mpscQueue_keepsAccepted_iff (by decide)).mpr (by decide) q _ _ run⟩

/-- `Capacity = 1` passes the `static_assert`. -/
def Capacity.one : Capacity := ⟨1, by decide, by decide⟩

theorem mpscQueue_not_keepsAccepted :
    ∃ q : MPSCQueue (BitVec 64) String .one, q.CallRun ["a", "b"] [] ∧ q.dataAt (ofNat 0) = "b" ∧
      ¬ q.KeepsAccepted ["a", "b"] [] := by
  obtain ⟨q, run, top⟩ := MPSCQueue.CallRun.overwrites (PositionWord.exact_bitVec (k := 0) rfl (Nat.zero_le _))
    (rfl : Capacity.one.size = 1) "a" "b"
  exact ⟨q, run, top, fun keeps => absurd keeps.bounded (Nat.not_succ_le_self 1)⟩

end Capacities

end ConsolidatedBook
