import ConsolidatedBook.MPSCQueue.Delivery

namespace ConsolidatedBook

open PositionWord (ofNat toNat add diff)

variable {ι α : Type} {c : Capacity}

namespace QueueState

/-- `Push` has decided to return `false` to this call. -/
def Refused {W : Type} (s : QueueState W ι α c) (history : List (QueueEvent W ι α)) (call : PushCall ι α) : Prop :=
  (∃ i, (s.producers i).phase = .returns call false) ∨ .pushReturned call false ∈ history

/-- Thread `i` loads, for this call, a sequence number that is below its
position, while as many positions as there are cells are claimed and not released. -/
structure LoadsFull (s : QueueState Nat ι α c) (history : List (QueueEvent Nat ι α)) (i : ι)
    (call : PushCall ι α) : Prop where
  loads : ∃ pos, (s.producers i).phase = .loadSequence call pos ∧ diff (s.queue.sequenceAt pos) pos < 0
  full : c.size ≤ (((claims history).map Prod.fst).filter (· ∉ releasedPositions history)).length

/-- Each cell holds the value it was built with or that of a call which
stored at a position of this cell, moved from or not. -/
def HoldsOnly [Movable α] (s : QueueState Nat ι α c) (stored : PushCall ι α → Nat → Prop) : Prop :=
  ∀ cell, (s.queue.buffer cell).data = Movable.initial ∨ ∃ call pos, stored call pos ∧ c.slot pos = cell ∧
    ((s.queue.buffer cell).data = call.value ∨ (s.queue.buffer cell).data = Movable.movedFrom call.value)

/-- The value of this call is in no cell: each holds another call's, or none. -/
def KeptOut [Movable α] (s : QueueState Nat ι α c) (history : List (QueueEvent Nat ι α))
    (call : PushCall ι α) : Prop :=
  s.HoldsOnly fun other pos => other ≠ call ∧ .claimed other pos ∈ history

variable {s t : QueueState Nat ι α c} {history events : List (QueueEvent Nat ι α)} {i : ι} {pos : Nat}

/-- A number below a producer's own position, however stale, is the one that
the previous lap has published: the position is the next to be claimed, and
no position of the previous lap is released. -/
theorem RingInvariant.full_of_lt (inv : s.RingInvariant) (aim : (s.producers i).phase.aim = some pos)
    (below : s.queue.sequenceAt pos < pos) : s.queue.enqueuePos = s.released + c.size := by
  have claimed := inv.claimed_le
  have target := inv.aim_le i pos aim
  obtain ⟨p, lower, upper, slot, stamp⟩ := inv.sequence_cases pos
  have earlier : p < pos := by omega
  have lap : pos = p + c.size := by
    by_contra other
    have same := c.slot_injOn le_rfl (by omega) earlier.le (by omega) slot
    omega
  omega

theorem Counted.unreleased (counted : s.Counted history) (inv : s.RingInvariant) :
    (((ConsolidatedBook.claims history).map Prod.fst).filter (· ∉ releasedPositions history)).length =
      s.queue.enqueuePos - s.released := by
  obtain ⟨n, total⟩ := Nat.exists_eq_add_of_le inv.released_le
  rw [counted.claims, counted.released, total, List.range_add, List.filter_append,
    List.filter_eq_nil_iff.mpr (by simp), List.nil_append, List.filter_eq_self.mpr (by simp),
    List.length_map, List.length_range, Nat.add_sub_cancel_left]

section Data

variable [Movable α]

theorem HoldsOnly.mono {stored stored' : PushCall ι α → Nat → Prop} (holds : s.HoldsOnly stored)
    (more : ∀ call pos, stored call pos → stored' call pos) : s.HoldsOnly stored' := by
  intro cell
  refine (holds cell).imp_right ?_
  rintro ⟨call, pos, origin, slot, value⟩
  exact ⟨call, pos, more call pos origin, slot, value⟩

theorem HoldsOnly.congr {stored : PushCall ι α → Nat → Prop} (holds : s.HoldsOnly stored)
    (same : ∀ cell, (t.queue.buffer cell).data = (s.queue.buffer cell).data) : t.HoldsOnly stored := by
  intro cell
  rw [same cell]
  exact holds cell

/-- A store into the cell of a position of the storing call. -/
theorem HoldsOnly.store {stored : PushCall ι α → Nat → Prop} {value : α} {call : PushCall ι α}
    (holds : s.HoldsOnly stored) (queue : t.queue = s.queue.storeData pos value) (origin : stored call pos)
    (left : value = call.value ∨ value = Movable.movedFrom call.value) : t.HoldsOnly stored := by
  intro cell
  rw [queue]
  simp only [MPSCQueue.storeData, Function.update_apply]
  split
  · rename_i same
    exact Or.inr ⟨call, pos, origin, same.symm, left⟩
  · exact holds cell

omit [Movable α] in
theorem storeSequence_data (q : MPSCQueue Nat α c) (pos n : Nat) (cell : Fin c.size) :
    ((q.storeSequence pos n).buffer cell).data = (q.buffer cell).data := by
  simp only [MPSCQueue.storeSequence, MPSCQueue.dataAt, Function.update_apply]
  split
  · rename_i same
    rw [same]
  · rfl

variable [DecidableEq ι]

theorem HoldsOnly.move (holds : s.HoldsOnly fun call pos => .claimed call pos ∈ history)
    (ring : s.RingInvariant) (counted : s.Counted history) (data : s.DataInvariant history)
    (move : s.Move t events) : t.HoldsOnly fun call pos => .claimed call pos ∈ history ++ events := by
  have kept := holds.mono fun _ _ member => List.mem_append_left events member
  cases move with
  | pushCalled | positionLoaded | vacant | full | behind | claimed | failed | pushReturned | popCalled
  | dequeueLoaded | empty | ready | advanced | popReturned => exact kept
  | @written i call pos phase =>
    exact kept.store rfl (List.mem_append_left _ (data.claim i pos call (by rw [phase]; rfl))) (Or.inl rfl)
  | published | released => exact kept.congr (storeSequence_data _ _ _)
  | @taken pos consumer =>
    have reading : s.consumer.reading = some pos := by rw [consumer]; rfl
    obtain ⟨stamp, upper⟩ := ring.reading pos reading
    obtain ⟨call, claimed⟩ := counted.exists_claim upper
    have here := ring.position pos (by rw [consumer]; rfl)
    have untaken : s.taken ≤ pos := by simp only [QueueState.taken, consumer, here, le_refl]
    have value := data.intact call pos claimed untaken stamp
    exact kept.store rfl (List.mem_append_left _ claimed) (Or.inr (by rw [value]))

theorem HoldsOnly.reach (two : 2 ≤ c.size) (reach : (queueMachine Nat ι α c).Reach s history) :
    s.HoldsOnly fun call pos => .claimed call pos ∈ history := by
  induction reach with
  | start => exact fun _ => Or.inl rfl
  | next before step ih =>
    exact ih.move (.reach two before) (.reach two before) (.reach two before) (step_move step)

end Data

section Refusal

variable [DecidableEq ι] {call : PushCall ι α}

/-- A thread that does not turn to returning `false` refuses no call. -/
theorem Refused.of_setProducer {producer : Producer Nat ι α} (other : producer.phase ≠ .returns call false)
    (refused : (s.setProducer i producer).Refused history call) : s.Refused history call := by
  refine refused.imp_left ?_
  rintro ⟨j, returns⟩
  rw [setProducer_producers] at returns
  split at returns
  · exact absurd returns other
  · exact ⟨j, returns⟩

variable [Movable α]

theorem Refused.move (move : s.Move t events) (refused : t.Refused (history ++ events) call) :
    s.Refused history call ∨ ∃ i pos, (s.producers i).phase = .loadSequence call pos ∧
      diff (s.queue.sequenceAt pos) pos < 0 ∧ (t.producers i).phase = .returns call false ∧ events = [] := by
  have earlier : .pushReturned call false ∉ events → t.Refused history call := by
    intro absent
    simpa only [Refused, List.mem_append, absent, or_false] using refused
  cases move with
  | pushCalled | claimed | published =>
    exact Or.inl (Refused.of_setProducer (by simp) (earlier (by simp)))
  | positionLoaded | vacant | behind | failed | written =>
    exact Or.inl (Refused.of_setProducer (by simp) (earlier (by simp)))
  | @full i other pos phase below =>
    by_cases same : other = call
    · subst same
      refine Or.inr ⟨i, pos, phase, below, ?_, rfl⟩
      rw [setPhase_phase, if_pos rfl]
    · exact Or.inl (Refused.of_setProducer (by simp [same]) (earlier (by simp)))
  | @pushReturned i other accepted phase =>
    rcases refused with returns | returned
    · exact Or.inl (Refused.of_setProducer (by simp) (Or.inl returns))
    · rcases List.mem_append.mp returned with old | new
      · exact Or.inl (Or.inr old)
      · cases List.mem_singleton.mp new
        exact Or.inl (Or.inl ⟨i, phase⟩)
  | popCalled | dequeueLoaded | empty | ready | taken | released | advanced | popReturned =>
    exact Or.inl (earlier (by simp))

/-- A refusal stands. -/
theorem Refused.stays (move : s.Move t events) (refused : s.Refused history call) :
    t.Refused (history ++ events) call := by
  have turn : ∀ {i producer}, (s.producers i).phase ≠ .returns call false →
      (s.setProducer i producer).Refused (history ++ events) call := by
    intro i producer other
    refine refused.imp ?_ (List.mem_append_left _)
    rintro ⟨j, returns⟩
    refine ⟨j, ?_⟩
    rw [setProducer_producers, if_neg]
    · exact returns
    · rintro rfl
      exact other returns
  cases move with
  | pushCalled phase | positionLoaded phase | vacant phase | full phase | behind phase | claimed phase
  | failed phase | written phase | published phase => exact turn (by simp [phase])
  | @pushReturned i other accepted phase =>
    by_cases same : PushPhase.returns (W := Nat) other accepted = .returns call false
    · cases same
      exact Or.inr (List.mem_append_right _ (List.mem_singleton.mpr rfl))
    · exact turn (by rwa [phase])
  | popCalled | dequeueLoaded | empty | ready | taken | released | advanced | popReturned =>
    exact refused.imp_right (List.mem_append_left _)

omit [Movable α] in
/-- A refused call has claimed no position. -/
theorem CallInvariant.refused_unclaimed (inv : CallInvariant s.producers history)
    (refused : s.Refused history call) (pos : Nat) : .claimed call pos ∉ history := by
  rcases refused with ⟨i, returns⟩ | returned
  · intro claimed
    have owner := (inv.current i call (by rw [returns]; rfl)).1
    rcases inv.claimed call pos claimed with done | winner
    · rw [owner, Producer.finished, returns] at done
      exact Nat.lt_irrefl _ done
    · rw [owner, returns] at winner
      cases winner
  · exact inv.refused call returned pos

theorem Refused.keptOut (two : 2 ≤ c.size) (reach : (queueMachine Nat ι α c).Reach s history)
    (refused : s.Refused history call) : s.KeptOut history call := by
  refine (HoldsOnly.reach two reach).mono fun other pos claimed => ⟨?_, claimed⟩
  rintro rfl
  exact (CallInvariant.reach reach).refused_unclaimed refused pos claimed

omit [DecidableEq ι] [Movable α] in
theorem RingInvariant.loadsFull (inv : s.RingInvariant) (counted : s.Counted history)
    (loads : (s.producers i).phase = .loadSequence call pos) (below : diff (s.queue.sequenceAt pos) pos < 0) :
    s.LoadsFull history i call := by
  refine ⟨⟨pos, loads, below⟩, ?_⟩
  rw [diff_nat] at below
  rw [counted.unreleased inv, inv.full_of_lt (by rw [loads]; rfl) (by omega), Nat.add_sub_cancel_left]

end Refusal

end QueueState

section Fullness

variable [DecidableEq ι] [Movable α] {s : QueueState Nat ι α c} {history : List (QueueEvent Nat ι α)}

/-- Every refusal goes back to a load at which the queue was full, and from
there on the refused value is in no cell. -/
theorem mpscQueue_refusesOnlyFull (two : 2 ≤ c.size) (reach : (queueMachine Nat ι α c).Reach s history)
    {call : PushCall ι α} (refused : s.Refused history call) :
    ∃ t u before i action, (queueMachine Nat ι α c).Reach t before ∧ t.LoadsFull before i call ∧
      (queueMachine Nat ι α c).step t action = some (u, []) ∧ (u.producers i).phase = .returns call false ∧
      (queueMachine Nat ι α c).ReachFrom u before s history ∧
      ∀ v later, (queueMachine Nat ι α c).ReachFrom u before v later → v.KeptOut later call := by
  have none : ¬ (queueMachine Nat ι α c).initial.Refused [] call := by
    rintro (⟨i, returns⟩ | returned)
    · cases returns
    · cases returned
  obtain ⟨t, u, before, action, events, reached, step, open_, refuses, rest⟩ :=
    reach.exists_step (fun s history => s.Refused history call) none refused
  obtain earlier | ⟨i, pos, loads, below, returns, rfl⟩ := QueueState.Refused.move (QueueState.step_move step) refuses
  · exact absurd earlier open_
  · rw [List.append_nil] at rest refuses
    refine ⟨t, u, before, i, action, reached,
      (QueueState.RingInvariant.reach two reached).loadsFull (.reach two reached) loads below, step, returns, rest, ?_⟩
    intro v later run
    have refusedLater : v.Refused later call :=
      run.invariant (fun s history => s.Refused history call)
        (fun refused step => refused.stays (QueueState.step_move step)) refuses
    have reachedU : (queueMachine Nat ι α c).Reach u before := by
      simpa only [List.append_nil] using reached.next step
    exact refusedLater.keptOut two (run.reach reachedU)

/-- A queue of two cells. -/
def Capacity.two : Capacity := ⟨2, by decide, by decide⟩

/-- Two pushes fill this queue and the third one is refused. -/
def thirdPush : List (QueueAction Nat String) :=
  .callPush 0 "a" :: List.replicate 6 (.stepPush 0 false) ++ .callPush 0 "b" :: List.replicate 6 (.stepPush 0 false) ++
    .callPush 0 "c" :: List.replicate 3 (.stepPush 0 false)

def thirdPushHistory : List (QueueEvent Nat Nat String) :=
  [.pushCalled ⟨0, 0, "a"⟩, .claimed ⟨0, 0, "a"⟩ 0, .published ⟨0, 0, "a"⟩ 0, .pushReturned ⟨0, 0, "a"⟩ true,
    .pushCalled ⟨0, 1, "b"⟩, .claimed ⟨0, 1, "b"⟩ 1, .published ⟨0, 1, "b"⟩ 1, .pushReturned ⟨0, 1, "b"⟩ true,
    .pushCalled ⟨0, 2, "c"⟩, .pushReturned ⟨0, 2, "c"⟩ false]

theorem mpscQueue_refusesOnlyFull_thirdPush :
    ∃ s, (queueMachine Nat Nat String .two).run (queueMachine Nat Nat String .two).initial thirdPush =
        some (s, thirdPushHistory) ∧ s.KeptOut thirdPushHistory ⟨0, 2, "c"⟩ := by
  obtain ⟨s, run⟩ : ∃ s, (queueMachine Nat Nat String .two).run (queueMachine Nat Nat String .two).initial thirdPush =
    some (s, thirdPushHistory) := ⟨_, rfl⟩
  have refused : s.Refused thirdPushHistory ⟨0, 2, "c"⟩ := Or.inr (by simp [thirdPushHistory])
  obtain ⟨_, _, _, _, _, _, _, _, _, rest, kept⟩ :=
    mpscQueue_refusesOnlyFull (by decide) (Machine.Reach.start.run run) refused
  exact ⟨s, run, kept _ _ rest⟩

end Fullness

end ConsolidatedBook
