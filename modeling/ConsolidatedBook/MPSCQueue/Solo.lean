import ConsolidatedBook.MPSCQueue.Exclusion

namespace ConsolidatedBook

open PositionWord (ofNat toNat add diff)

variable {ι α : Type} {c : Capacity}

/-- The thread is at the top of the loop body, where the sequence number is loaded. -/
def PushPhase.beginsIteration {W : Type} : PushPhase W ι α → Bool
  | .loadSequence _ _ => true
  | _ => false

namespace QueueState

/-- How many iterations of the loop thread `i` begins in its next `n` steps,
taken alone and without spurious failures. -/
def loopIterations [DecidableEq ι] [Movable α] (s : QueueState Nat ι α c) (i : ι) : Nat → Nat
  | 0 => 0
  | n + 1 =>
    (if (s.producers i).phase.beginsIteration then 1 else 0) +
      match s.step (.stepPush i false) with
      | some (t, _) => loopIterations t i n
      | none => 0

/-- Thread `i`, taking its steps alone, returns from this call, and begins at
most `k` iterations of the loop before. -/
def ReturnsAlone [DecidableEq ι] [Movable α] (s : QueueState Nat ι α c) (i : ι) (call : PushCall ι α)
    (k : Nat) : Prop :=
  ∃ n t events accepted, (queueMachine Nat ι α c).run s (List.replicate n (.stepPush i false)) = some (t, events) ∧
    (t.producers i).phase = .idle ∧ .pushReturned call accepted ∈ events ∧ s.loopIterations i n ≤ k

variable {s t : QueueState Nat ι α c} {events : List (QueueEvent Nat ι α)} {i : ι} {pos k : Nat} {call : PushCall ι α}

/-- The number at a fresh position is not ahead of it. -/
theorem RingInvariant.sequence_enqueuePos_le (inv : s.RingInvariant) :
    s.queue.sequenceAt s.queue.enqueuePos ≤ s.queue.enqueuePos := by
  have low := inv.released_le
  have claimed := inv.claimed_le
  obtain ⟨p, lower, upper, slot, own | ⟨published, earlier⟩⟩ := inv.sequence_cases s.queue.enqueuePos
  · rw [own]
    by_contra ahead
    have same := c.slot_injOn (by omega : s.queue.enqueuePos ≤ p) (by omega) le_rfl (by have := c.positive; omega) slot
    omega
  · omega

section Alone

variable [DecidableEq ι] [Movable α]

/-- One step of thread `i`, taken alone. -/
theorem step_alone {phase : PushPhase Nat ι α} (at_ : (s.producers i).phase = phase) (busy : phase.isIdle = false) :
    s.step (.stepPush i false) = some ({ s.setPhase i (s.queue.pushImplStep false phase).2.1 with
      queue := (s.queue.pushImplStep false phase).1 }, (s.queue.pushImplStep false phase).2.2) := by
  simp only [QueueState.step, at_, busy, Bool.false_eq_true, if_false, setPhase]

namespace ReturnsAlone

theorem mono {l : Nat} (returns : s.ReturnsAlone i call k) (bound : k ≤ l) : s.ReturnsAlone i call l := by
  obtain ⟨n, t, events, accepted, run, idle, returned, count⟩ := returns
  exact ⟨n, t, events, accepted, run, idle, returned, count.trans bound⟩

theorem of_step (step : s.step (.stepPush i false) = some (t, events)) (returns : t.ReturnsAlone i call k) {l : Nat}
    (count : (if (s.producers i).phase.beginsIteration then 1 else 0) + k ≤ l) : s.ReturnsAlone i call l := by
  obtain ⟨n, u, rest, accepted, run, idle, returned, bound⟩ := returns
  refine ⟨n + 1, u, events ++ rest, accepted, Machine.run_cons step run, idle, List.mem_append_right _ returned, ?_⟩
  rw [loopIterations, step]
  exact (Nat.add_le_add_left bound _).trans count

theorem of_returns {accepted : Bool} (phase : (s.producers i).phase = .returns call accepted) :
    s.ReturnsAlone i call 0 := by
  have step : s.step (.stepPush i false) = some (s.setPhase i .idle, [.pushReturned call accepted]) :=
    step_alone phase rfl
  refine ⟨1, s.setPhase i .idle, _, accepted, Machine.run_cons step rfl, ?_, List.mem_append_left _
    (List.mem_singleton.mpr rfl), ?_⟩
  · exact setPhase_self s i _
  · rw [loopIterations, step, phase]
    exact le_rfl

/-- Once the position is claimed nothing can hold the thread up. -/
theorem of_publish (phase : (s.producers i).phase = .publish call pos) : s.ReturnsAlone i call 0 := by
  refine of_step (step_alone phase rfl) (of_returns (setPhase_self s i (.returns call true))) ?_
  rw [phase]
  exact le_rfl

theorem of_writeData (phase : (s.producers i).phase = .writeData call pos) : s.ReturnsAlone i call 0 := by
  refine of_step (step_alone phase rfl) (of_publish (setPhase_self s i (.publish call pos))) ?_
  rw [phase]
  exact le_rfl

/-- A compare-exchange at the fresh position succeeds. -/
theorem of_compareExchange (phase : (s.producers i).phase = .compareExchange call s.queue.enqueuePos) :
    s.ReturnsAlone i call 0 := by
  refine of_step (k := 0) (step_alone phase rfl) ?_ (by rw [phase]; exact le_rfl)
  simp only [MPSCQueue.pushImplStep, and_self, if_true]
  exact of_writeData (setPhase_self s i _)

/-- At a fresh position the loop body is not repeated. -/
theorem of_fresh (inv : s.RingInvariant) (phase : (s.producers i).phase = .loadSequence call s.queue.enqueuePos) :
    s.ReturnsAlone i call 1 := by
  have behind := inv.sequence_enqueuePos_le
  refine of_step (k := 0) (step_alone phase rfl) ?_ (by rw [phase]; exact le_rfl)
  by_cases vacant : diff (s.queue.sequenceAt s.queue.enqueuePos) s.queue.enqueuePos = 0
  · simp only [MPSCQueue.pushImplStep, vacant, if_true]
    exact of_compareExchange (setPhase_self s i _)
  · have full : diff (s.queue.sequenceAt s.queue.enqueuePos) s.queue.enqueuePos < 0 := by
      rw [diff_nat] at vacant ⊢
      omega
    simp only [MPSCQueue.pushImplStep, vacant, full, if_true, if_false]
    exact of_returns (setPhase_self s i _)

theorem of_loadEnqueuePos (two : 2 ≤ c.size) (inv : s.RingInvariant)
    (phase : (s.producers i).phase = .loadEnqueuePos call) : s.ReturnsAlone i call 1 := by
  have next := inv.move two (.positionLoaded phase)
  refine of_step (k := 1) (step_alone phase rfl) ?_ (by rw [phase]; exact le_rfl)
  exact of_fresh next (setPhase_self s i _)

/-- A compare-exchange at a stale position fails, and that gives the fresh one. -/
theorem of_stale (two : 2 ≤ c.size) (inv : s.RingInvariant)
    (phase : (s.producers i).phase = .compareExchange call pos) : s.ReturnsAlone i call 1 := by
  by_cases fresh : s.queue.enqueuePos = pos
  · subst fresh
    exact (of_compareExchange phase).mono (Nat.zero_le _)
  · have next := inv.move two (.failed phase)
    refine of_step (k := 1) (step_alone phase rfl) ?_ (by rw [phase]; exact le_rfl)
    simp only [MPSCQueue.pushImplStep, fresh, false_and, if_false]
    exact of_fresh next (setPhase_self s i _)

/-- However stale its position, the thread comes back to the top of the loop
at most once. -/
theorem of_loadSequence (two : 2 ≤ c.size) (inv : s.RingInvariant)
    (phase : (s.producers i).phase = .loadSequence call pos) : s.ReturnsAlone i call 2 := by
  rcases Int.lt_trichotomy (diff (s.queue.sequenceAt pos) pos) 0 with full | vacant | behind
  · refine of_step (k := 0) (step_alone phase rfl) ?_ (by rw [phase]; exact Nat.le_succ 1)
    simp only [MPSCQueue.pushImplStep, full.ne, full, if_true, if_false]
    exact of_returns (setPhase_self s i _)
  · have next := inv.move two (.vacant phase vacant)
    refine of_step (k := 1) (step_alone phase rfl) ?_ (by rw [phase]; exact le_rfl)
    simp only [MPSCQueue.pushImplStep, vacant, if_true]
    exact of_stale two next (setPhase_self s i _)
  · have next := inv.move two (.behind phase behind)
    refine of_step (k := 1) (step_alone phase rfl) ?_ (by rw [phase]; exact le_rfl)
    simp only [MPSCQueue.pushImplStep, behind.ne', not_lt.mpr behind.le, if_false]
    exact of_loadEnqueuePos two next (setPhase_self s i _)

end ReturnsAlone

end Alone

end QueueState

section Solo

variable [DecidableEq ι] [Movable α] {s : QueueState Nat ι α c} {history : List (QueueEvent Nat ι α)}

/-- Wherever a producer stands in `push_impl` and wherever the other threads
are stalled, running alone it returns within two iterations of the loop. -/
theorem mpscQueue_returnsAlone (two : 2 ≤ c.size) (reach : (queueMachine Nat ι α c).Reach s history) {i : ι}
    {call : PushCall ι α} (inside : (s.producers i).phase.call = some call) : s.ReturnsAlone i call 2 := by
  have inv := QueueState.RingInvariant.reach two reach
  cases at_ : (s.producers i).phase <;> rw [at_] at inside <;> cases inside
  case loadEnqueuePos => exact (QueueState.ReturnsAlone.of_loadEnqueuePos two inv at_).mono (by decide)
  case loadSequence => exact .of_loadSequence two inv at_
  case compareExchange => exact (QueueState.ReturnsAlone.of_stale two inv at_).mono (by decide)
  case writeData => exact (QueueState.ReturnsAlone.of_writeData at_).mono (by decide)
  case publish => exact (QueueState.ReturnsAlone.of_publish at_).mono (by decide)
  case returns => exact (QueueState.ReturnsAlone.of_returns at_).mono (by decide)

/-- Thread 0 has loaded its position, thread 1 claims it and stalls. -/
def stalePosition : List (QueueAction Nat String) :=
  [.callPush 0 "a", .stepPush 0 false, .callPush 1 "b", .stepPush 1 false, .stepPush 1 false, .stepPush 1 false]

theorem mpscQueue_returnsAlone_stalePosition :
    ∃ s history, (queueMachine Nat Nat String .default).run
        (queueMachine Nat Nat String .default).initial stalePosition = some (s, history) ∧
      (s.producers 0).phase = .loadSequence ⟨0, 0, "a"⟩ 0 ∧ (s.producers 1).phase = .writeData ⟨1, 0, "b"⟩ 0 ∧
      s.ReturnsAlone 0 ⟨0, 0, "a"⟩ 2 := by
  refine ⟨_, _, rfl, rfl, rfl, ?_⟩
  exact mpscQueue_returnsAlone (by decide) (Machine.Reach.start.run
    (rfl : (queueMachine Nat Nat String .default).run _ stalePosition = some (_, _))) rfl

end Solo

end ConsolidatedBook
