import ConsolidatedBook.MPSCQueue.Moves
import ConsolidatedBook.MPSCQueue.Slots

namespace ConsolidatedBook

open PositionWord (ofNat toNat add diff)

variable {ι α : Type} {c : Capacity}

namespace QueueState

/-- Thread `i` has claimed position `p` and not yet published it. -/
def Claims (s : QueueState Nat ι α c) (i : ι) (p : Nat) : Prop :=
  ∃ call, (s.producers i).phase.claim = some (p, call)

/-- How many positions the consumer's sequence store has released: one more
than `dequeuePos` while that store is done and `dequeuePos` is not yet advanced. -/
def released (s : QueueState Nat ι α c) : Nat :=
  match s.consumer with
  | .advance pos _ => pos + 1
  | _ => s.queue.dequeuePos

/-- What ties each cell's sequence number to `enqueuePos`, to the released
count and to every local `pos`. The lap that starts at the released count has
one position for each cell: a claimed one carries its own number until its
owner publishes it, an unclaimed one carries its own number. -/
structure RingInvariant (s : QueueState Nat ι α c) : Prop where
  released_le : s.released ≤ s.queue.enqueuePos
  claimed_le : s.queue.enqueuePos ≤ s.released + c.size
  vacant : ∀ p, s.queue.enqueuePos ≤ p → p < s.released + c.size → s.queue.sequenceAt p = p
  filled : ∀ p, s.released ≤ p → p < s.queue.enqueuePos →
    s.queue.sequenceAt p = p + 1 ∨ ∃ i, s.Claims i p
  claim : ∀ i p, s.Claims i p → s.released ≤ p ∧ p < s.queue.enqueuePos ∧ s.queue.sequenceAt p = p
  exclusive : ∀ i j p, s.Claims i p → s.Claims j p → i = j
  checked : ∀ i call pos, (s.producers i).phase = .compareExchange call pos → pos < s.released + c.size
  aim_le : ∀ i pos, (s.producers i).phase.aim = some pos → pos ≤ s.queue.enqueuePos
  position : ∀ pos, s.consumer.position = some pos → pos = s.queue.dequeuePos
  reading : ∀ pos, s.consumer.reading = some pos →
    s.queue.sequenceAt pos = pos + 1 ∧ pos < s.queue.enqueuePos

variable {s t : QueueState Nat ι α c} {i j : ι} {p pos : Nat}

namespace RingInvariant

/-- The sequence number of every cell, whatever position it is looked up
by: the cell's position in the current lap, or that position's successor. -/
theorem sequence_cases (inv : s.RingInvariant) (pos : Nat) :
    ∃ p, s.released ≤ p ∧ p < s.released + c.size ∧ c.slot p = c.slot pos ∧
      (s.queue.sequenceAt pos = p ∨ s.queue.sequenceAt pos = p + 1 ∧ p < s.queue.enqueuePos) := by
  obtain ⟨p, lower, upper, same⟩ := c.exists_slot_eq s.released (c.slot pos)
  have equal : s.queue.sequenceAt pos = s.queue.sequenceAt p := by simp only [MPSCQueue.sequenceAt, same]
  refine ⟨p, lower, upper, same, ?_⟩
  rw [equal]
  by_cases unclaimed : s.queue.enqueuePos ≤ p
  · exact Or.inl (inv.vacant p unclaimed upper)
  · rcases inv.filled p lower (by omega) with published | ⟨i, claims⟩
    · exact Or.inr ⟨published, by omega⟩
    · exact Or.inl (inv.claim i p claims).2.2

/-- A cell that carries a producer's own `pos` is free for it in this lap. -/
theorem checked_of_sequence (inv : s.RingInvariant) (two : 2 ≤ c.size)
    (same : s.queue.sequenceAt pos = pos) : pos < s.released + c.size := by
  obtain ⟨p, _, upper, slot, stamped | ⟨published, _⟩⟩ := inv.sequence_cases pos
  · omega
  · have successor : pos = p + 1 := by omega
    subst successor
    exact absurd slot.symm (c.slot_succ_ne two p)

theorem claim_slot_ne (inv : s.RingInvariant) (claims : s.Claims i p) (claims' : s.Claims j pos)
    (different : p ≠ pos) : c.slot p ≠ c.slot pos := by
  intro same
  have bound := inv.claimed_le
  obtain ⟨lower, upper, _⟩ := inv.claim i p claims
  obtain ⟨lower', upper', _⟩ := inv.claim j pos claims'
  exact different (c.slot_injOn lower (by omega) lower' (by omega) same)

/-- The consumer works on the first position that is not released yet. -/
theorem released_of_reading (inv : s.RingInvariant) (reading : s.consumer.reading = some pos) :
    s.released = pos := by
  cases at_ : s.consumer with
  | moveData p | release p result =>
    have here := inv.position p (by rw [at_]; rfl)
    rw [at_] at reading
    cases reading
    simp only [released, at_, here]
  | _ => simp [at_, PopPhase.reading] at reading

theorem claim_slot_ne_reading (inv : s.RingInvariant) (claims : s.Claims i p)
    (reading : s.consumer.reading = some pos) : c.slot p ≠ c.slot pos := by
  intro same
  have bound := inv.claimed_le
  obtain ⟨lower, upper, own⟩ := inv.claim i p claims
  obtain ⟨stamp, upper'⟩ := inv.reading pos reading
  have first := inv.released_of_reading reading
  have here := c.slot_injOn lower (by omega) first.le (by omega) same
  subst here
  omega

end RingInvariant

section Producers

variable [DecidableEq ι]

theorem setProducer_claims (s : QueueState Nat ι α c) (i j : ι) (producer : Producer Nat ι α) (p : Nat) :
    (s.setProducer i producer).Claims j p ↔
      if j = i then ∃ call, producer.phase.claim = some (p, call) else s.Claims j p := by
  unfold Claims
  rw [setProducer_producers]
  split <;> rfl

/-- A thread that moves to a phase without a claim leaves the other threads' claims. -/
theorem setPhase_claims_of_none {phase : PushPhase Nat ι α} (none : phase.claim = none) :
    (s.setPhase i phase).Claims j p ↔ j ≠ i ∧ s.Claims j p := by
  rw [setPhase, setProducer_claims]
  split
  · rename_i equal
    simp only [none, reduceCtorEq, exists_false, equal, ne_eq, not_true_eq_false, false_and]
  · rename_i other
    simp only [ne_eq, other, not_false_eq_true, true_and]

theorem RingInvariant.checked_setPhase (inv : s.RingInvariant) {phase : PushPhase Nat ι α}
    {call : PushCall ι α} (at_ : ((s.setPhase i phase).producers j).phase = .compareExchange call pos)
    (elsewhere : phase ≠ .compareExchange call pos) : pos < s.released + c.size := by
  rw [setPhase_phase] at at_
  split at at_
  · exact absurd at_ elsewhere
  · exact inv.checked j call pos at_

theorem RingInvariant.aim_setPhase (inv : s.RingInvariant) {phase : PushPhase Nat ι α}
    (aim : ((s.setPhase i phase).producers j).phase.aim = some pos) (none : phase.aim = none) :
    pos ≤ s.queue.enqueuePos := by
  rw [setPhase_phase] at aim
  split at aim
  · rw [none] at aim
    cases aim
  · exact inv.aim_le j pos aim

/-- A step that touches nothing shared keeps the invariant if its thread
neither claims a position before it nor after it. -/
theorem RingInvariant.setProducer (inv : s.RingInvariant) {producer : Producer Nat ι α}
    (before : (s.producers i).phase.claim = none) (after : producer.phase.claim = none)
    (checked : ∀ call pos, producer.phase = .compareExchange call pos → pos < s.released + c.size)
    (aim : ∀ pos, producer.phase.aim = some pos → pos ≤ s.queue.enqueuePos) :
    (s.setProducer i producer).RingInvariant := by
  have same : ∀ j p, (s.setProducer i producer).Claims j p ↔ s.Claims j p := by
    intro j p
    rw [setProducer_claims]
    split
    · rename_i equal
      subst equal
      simp only [Claims, before, after, reduceCtorEq, exists_false]
    · rfl
  refine ⟨inv.released_le, inv.claimed_le, inv.vacant, ?_, ?_, ?_, ?_, ?_, inv.position, inv.reading⟩
  · intro p lower upper
    simp only [same]
    exact inv.filled p lower upper
  · intro j p claims
    exact inv.claim j p ((same j p).mp claims)
  · intro j k p first second
    exact inv.exclusive j k p ((same j p).mp first) ((same k p).mp second)
  · intro j call pos phase
    rw [setProducer_producers] at phase
    split at phase
    · exact checked call pos phase
    · exact inv.checked j call pos phase
  · intro j pos target
    rw [setProducer_producers] at target
    split at target
    · exact aim pos target
    · exact inv.aim_le j pos target

theorem RingInvariant.claimed (inv : s.RingInvariant) {call : PushCall ι α}
    (phase : (s.producers i).phase = .compareExchange call s.queue.enqueuePos) :
    RingInvariant { s.setPhase i (.writeData call s.queue.enqueuePos) with
      queue := { s.queue with enqueuePos := s.queue.enqueuePos + 1 } } := by
  have free := inv.checked i call _ phase
  have low := inv.released_le
  have cases_ : ∀ {j p}, (s.setPhase i (.writeData call s.queue.enqueuePos)).Claims j p →
      j = i ∧ p = s.queue.enqueuePos ∨ j ≠ i ∧ s.Claims j p := by
    intro j p claims
    rw [setPhase, setProducer_claims] at claims
    split at claims
    · rename_i equal
      obtain ⟨_, same⟩ := claims
      simp only [PushPhase.claim, Option.some.injEq, Prod.mk.injEq] at same
      exact Or.inl ⟨equal, same.1.symm⟩
    · rename_i other
      exact Or.inr ⟨other, claims⟩
  refine ⟨Nat.le_succ_of_le low, free, fun p lower upper => inv.vacant p (Nat.le_of_succ_le lower) upper,
    ?_, ?_, ?_, ?_, ?_, inv.position, ?_⟩
  · intro p lower upper
    by_cases old : p < s.queue.enqueuePos
    · refine (inv.filled p lower old).imp_right ?_
      rintro ⟨j, claims⟩
      have other : j ≠ i := by
        rintro rfl
        simp [Claims, phase, PushPhase.claim] at claims
      exact ⟨j, (setProducer_claims s i j _ p).mpr (by rwa [if_neg other])⟩
    · have new : p = s.queue.enqueuePos := Nat.le_antisymm (Nat.lt_succ_iff.mp upper) (not_lt.mp old)
      exact Or.inr ⟨i, (setProducer_claims s i i _ p).mpr (by simp [PushPhase.claim, new])⟩
  · intro j p claims
    rcases cases_ claims with ⟨_, rfl⟩ | ⟨_, old⟩
    · exact ⟨low, Nat.lt_succ_self _, inv.vacant _ le_rfl free⟩
    · obtain ⟨lower, upper, stamp⟩ := inv.claim j p old
      exact ⟨lower, Nat.lt_succ_of_lt upper, stamp⟩
  · intro j k p first second
    rcases cases_ first with ⟨rfl, new⟩ | ⟨_, old⟩ <;> rcases cases_ second with ⟨rfl, new'⟩ | ⟨_, old'⟩
    · rfl
    · exact absurd (inv.claim k p old').2.1 (by omega)
    · exact absurd (inv.claim j p old).2.1 (by omega)
    · exact inv.exclusive j k p old old'
  · intro j call' pos target
    exact inv.checked_setPhase target (by simp)
  · intro j pos target
    exact Nat.le_succ_of_le (inv.aim_setPhase target rfl)
  · intro pos reading
    obtain ⟨stamp, upper⟩ := inv.reading pos reading
    exact ⟨stamp, Nat.lt_succ_of_lt upper⟩

theorem RingInvariant.written (inv : s.RingInvariant) {call : PushCall ι α}
    (phase : (s.producers i).phase = .writeData call pos) (data : α) :
    RingInvariant { s.setPhase i (.publish call pos) with queue := s.queue.storeData pos data } := by
  have same : ∀ j p, (s.setPhase i (.publish call pos)).Claims j p ↔ s.Claims j p := by
    intro j p
    rw [setPhase, setProducer_claims]
    split
    · rename_i equal
      subst equal
      simp only [Claims, phase, PushPhase.claim]
    · rfl
  have kept : ∀ p, (s.queue.storeData pos data).sequenceAt p = s.queue.sequenceAt p :=
    fun p => MPSCQueue.sequenceAt_storeData p pos data
  refine ⟨inv.released_le, inv.claimed_le, fun p lower upper => (kept p).trans (inv.vacant p lower upper),
    ?_, ?_, ?_, ?_, ?_, inv.position, ?_⟩
  · intro p lower upper
    rcases inv.filled p lower upper with stamp | ⟨j, claims⟩
    · exact Or.inl ((kept p).trans stamp)
    · exact Or.inr ⟨j, (same j p).mpr claims⟩
  · intro j p claims
    obtain ⟨lower, upper, stamp⟩ := inv.claim j p ((same j p).mp claims)
    exact ⟨lower, upper, (kept p).trans stamp⟩
  · intro j k p first second
    exact inv.exclusive j k p ((same j p).mp first) ((same k p).mp second)
  · intro j call' pos' target
    exact inv.checked_setPhase target (by simp)
  · intro j pos' target
    exact inv.aim_setPhase target rfl
  · intro pos' reading
    obtain ⟨stamp, upper⟩ := inv.reading pos' reading
    exact ⟨(kept pos').trans stamp, upper⟩

theorem RingInvariant.published (inv : s.RingInvariant) {call : PushCall ι α}
    (phase : (s.producers i).phase = .publish call pos) :
    RingInvariant { s.setPhase i (.returns call true) with
      queue := s.queue.storeSequence pos (pos + 1) } := by
  have claims : s.Claims i pos := ⟨call, by rw [phase]; rfl⟩
  obtain ⟨lower, upper, stamp⟩ := inv.claim i pos claims
  have bound := inv.claimed_le
  -- inside the current lap the store reaches the claimed position and no other
  have kept : ∀ {p}, s.released ≤ p → p < s.released + c.size → p ≠ pos →
      (s.queue.storeSequence pos (pos + 1)).sequenceAt p = s.queue.sequenceAt p := by
    intro p low high different
    rw [MPSCQueue.sequenceAt_storeSequence, if_neg]
    intro same
    exact different (c.slot_injOn low high lower (by omega) same)
  have others : ∀ {j p}, (s.setPhase i (.returns call true)).Claims j p → j ≠ i ∧ s.Claims j p :=
    (setPhase_claims_of_none rfl).mp
  refine ⟨inv.released_le, inv.claimed_le, ?_, ?_, ?_, ?_, ?_, ?_, inv.position, ?_⟩
  · intro p low high
    have beyond : s.queue.enqueuePos ≤ p := low
    change (s.queue.storeSequence pos (pos + 1)).sequenceAt p = p
    rw [kept (by have := inv.released_le; omega) high (by omega)]
    exact inv.vacant p low high
  · intro p low high
    have within : p < s.queue.enqueuePos := high
    by_cases here : p = pos
    · subst here
      exact Or.inl (by simp [MPSCQueue.sequenceAt_storeSequence])
    · change (s.queue.storeSequence pos (pos + 1)).sequenceAt p = p + 1 ∨ _
      rw [kept low (by change s.released ≤ p at low; omega) here]
      refine (inv.filled p low high).imp_right ?_
      rintro ⟨j, claims'⟩
      have other : j ≠ i := by
        rintro rfl
        obtain ⟨call', target⟩ := claims'
        simp only [phase, PushPhase.claim, Option.some.injEq, Prod.mk.injEq] at target
        exact here target.1.symm
      exact ⟨j, (setPhase_claims_of_none rfl).mpr ⟨other, claims'⟩⟩
  · intro j p claims'
    obtain ⟨other, old⟩ := others claims'
    obtain ⟨low, high, stamp'⟩ := inv.claim j p old
    refine ⟨low, high, ?_⟩
    change (s.queue.storeSequence pos (pos + 1)).sequenceAt p = p
    rw [kept low (by omega), stamp']
    rintro rfl
    exact other (inv.exclusive j i p old claims)
  · intro j k p first second
    exact inv.exclusive j k p (others first).2 (others second).2
  · intro j call' pos' target
    exact inv.checked_setPhase target (by simp)
  · intro j pos' target
    exact inv.aim_setPhase target rfl
  · intro pos' reading
    obtain ⟨stamp', high⟩ := inv.reading pos' reading
    refine ⟨?_, high⟩
    change (s.queue.storeSequence pos (pos + 1)).sequenceAt pos' = pos' + 1
    rw [MPSCQueue.sequenceAt_storeSequence, if_neg (inv.claim_slot_ne_reading claims reading).symm]
    exact stamp'

end Producers

/-- A step of the consumer that changes no sequence number and releases nothing. -/
theorem RingInvariant.consumer_frame (inv : s.RingInvariant)
    (producers : t.producers = s.producers) (enqueue : t.queue.enqueuePos = s.queue.enqueuePos)
    (sequence : ∀ p : Nat, t.queue.sequenceAt p = s.queue.sequenceAt p) (same : t.released = s.released)
    (position : ∀ pos, t.consumer.position = some pos → pos = t.queue.dequeuePos)
    (reading : ∀ pos, t.consumer.reading = some pos →
      s.queue.sequenceAt pos = pos + 1 ∧ pos < s.queue.enqueuePos) : t.RingInvariant := by
  have claims : ∀ i p, t.Claims i p ↔ s.Claims i p := fun i p => by simp only [Claims, producers]
  refine ⟨?_, ?_, ?_, ?_, ?_, ?_, ?_, ?_, position, ?_⟩
  · simpa only [same, enqueue] using inv.released_le
  · simpa only [same, enqueue] using inv.claimed_le
  · simpa only [same, enqueue, sequence] using inv.vacant
  · simpa only [same, enqueue, sequence, claims] using inv.filled
  · simpa only [same, enqueue, sequence, claims] using inv.claim
  · simpa only [claims] using inv.exclusive
  · simpa only [same, producers] using inv.checked
  · simpa only [enqueue, producers] using inv.aim_le
  · simpa only [enqueue, sequence] using reading

theorem RingInvariant.release (inv : s.RingInvariant) {result : α}
    (consumer : s.consumer = .release pos result) :
    RingInvariant { s with
      queue := s.queue.storeSequence pos (pos + c.size)
      consumer := .advance pos result } := by
  have reading : s.consumer.reading = some pos := by rw [consumer]; rfl
  have first := inv.released_of_reading reading
  obtain ⟨stamp, upper⟩ := inv.reading pos reading
  have bound := inv.claimed_le
  have positive := c.positive
  -- the store reaches the position one lap ahead and no other of the new lap
  have kept : ∀ {p}, pos + 1 ≤ p → p < pos + c.size →
      (s.queue.storeSequence pos (pos + c.size)).sequenceAt p = s.queue.sequenceAt p := by
    intro p low high
    rw [MPSCQueue.sequenceAt_storeSequence, if_neg]
    intro same
    have here := c.slot_injOn (by omega : pos ≤ p) high le_rfl (by omega) same
    omega
  have unpublished : ∀ {i p}, s.Claims i p → pos + 1 ≤ p := by
    intro i p claims
    obtain ⟨low, _, own⟩ := inv.claim i p claims
    have different : p ≠ pos := by
      rintro rfl
      omega
    omega
  refine ⟨upper, ?_, ?_, ?_, ?_, inv.exclusive, ?_, inv.aim_le, ?_, ?_⟩
  · change s.queue.enqueuePos ≤ pos + 1 + c.size
    omega
  · intro p low high
    have beyond : s.queue.enqueuePos ≤ p := low
    have within : p < pos + 1 + c.size := high
    change (s.queue.storeSequence pos (pos + c.size)).sequenceAt p = p
    by_cases lap : p = pos + c.size
    · rw [MPSCQueue.sequenceAt_storeSequence, lap, if_pos (c.slot_add_size pos)]
    · rw [kept (by omega) (by omega)]
      exact inv.vacant p low (by omega)
  · intro p low high
    have beyond : pos + 1 ≤ p := low
    have within : p < s.queue.enqueuePos := high
    change (s.queue.storeSequence pos (pos + c.size)).sequenceAt p = p + 1 ∨ _
    rw [kept (by omega) (by omega)]
    exact inv.filled p (by omega) high
  · intro i p claims
    have low := unpublished claims
    obtain ⟨_, high, own⟩ := inv.claim i p claims
    refine ⟨low, high, ?_⟩
    change (s.queue.storeSequence pos (pos + c.size)).sequenceAt p = p
    rw [kept low (by omega), own]
  · intro i call target phase
    have old := inv.checked i call target phase
    change target < pos + 1 + c.size
    omega
  · intro target position
    exact inv.position target (by rw [consumer]; exact position)
  · intro target reading'
    cases reading'

section Runs

variable [DecidableEq ι] [Movable α]

theorem RingInvariant.move (inv : s.RingInvariant) (two : 2 ≤ c.size)
    {events : List (QueueEvent Nat ι α)} (move : s.Move t events) : t.RingInvariant := by
  cases move with
  | pushCalled phase =>
    exact inv.setProducer (by rw [phase]; rfl) rfl (fun _ _ h => nomatch h) (fun _ h => nomatch h)
  | positionLoaded phase =>
    refine inv.setProducer (by rw [phase]; rfl) rfl (fun _ _ h => nomatch h) ?_
    intro pos aim
    cases aim
    exact le_rfl
  | @vacant i call pos phase same =>
    have stamp : s.queue.sequenceAt pos = pos := by
      rw [diff_nat] at same
      omega
    refine inv.setProducer (by rw [phase]; rfl) rfl ?_ ?_
    · intro call' pos' here
      cases here
      exact inv.checked_of_sequence two stamp
    · intro pos' aim
      cases aim
      exact inv.aim_le i pos (by rw [phase]; rfl)
  | full phase _ | behind phase _ | pushReturned phase =>
    exact inv.setProducer (by rw [phase]; rfl) rfl (fun _ _ h => nomatch h) (fun _ h => nomatch h)
  | claimed phase same =>
    subst same
    exact inv.claimed phase
  | failed phase =>
    refine inv.setProducer (by rw [phase]; rfl) rfl (fun _ _ h => nomatch h) ?_
    intro pos aim
    cases aim
    exact le_rfl
  | written phase => exact inv.written phase _
  | published phase => exact inv.published phase
  | popCalled consumer =>
    exact inv.consumer_frame rfl rfl (fun _ => rfl) (by simp only [released, consumer])
      (fun _ h => nomatch h) (fun _ h => nomatch h)
  | dequeueLoaded consumer =>
    refine inv.consumer_frame rfl rfl (fun _ => rfl) (by simp only [released, consumer]) ?_ (fun _ h => nomatch h)
    intro pos position
    cases position
    rfl
  | empty consumer _ =>
    exact inv.consumer_frame rfl rfl (fun _ => rfl) (by simp only [released, consumer])
      (fun _ h => nomatch h) (fun _ h => nomatch h)
  | @ready pos consumer same =>
    have stamp : s.queue.sequenceAt pos = pos + 1 := by
      rw [diff_nat, add_nat] at same
      omega
    have here := inv.position pos (by rw [consumer]; rfl)
    have first : s.released = pos := by simp only [released, consumer, here]
    refine inv.consumer_frame rfl rfl (fun _ => rfl) (by simp only [released, consumer]) ?_ ?_
    · intro target position
      cases position
      exact here
    · intro target reading
      cases reading
      refine ⟨stamp, ?_⟩
      by_contra unclaimed
      have own := inv.vacant pos (by omega) (by have := c.positive; omega)
      omega
  | @taken pos consumer =>
    refine inv.consumer_frame rfl rfl (fun p => MPSCQueue.sequenceAt_storeData p pos _)
      (by simp only [released, consumer, MPSCQueue.storeData_dequeuePos]) ?_ ?_
    · intro target position
      exact inv.position target (by rw [consumer]; exact position)
    · intro target reading
      exact inv.reading target (by rw [consumer]; exact reading)
  | released consumer => exact inv.release consumer
  | advanced consumer =>
    exact inv.consumer_frame rfl rfl (fun _ => rfl) (by simp only [released, consumer, add_nat])
      (fun _ h => nomatch h) (fun _ h => nomatch h)
  | popReturned consumer =>
    exact inv.consumer_frame rfl rfl (fun _ => rfl) (by simp only [released, consumer])
      (fun _ h => nomatch h) (fun _ h => nomatch h)

theorem RingInvariant.start : ((queueMachine Nat ι α c).initial).RingInvariant := by
  have positive := c.positive
  refine ⟨le_rfl, Nat.zero_le _, ?_, ?_, ?_, ?_, ?_, ?_, ?_, ?_⟩
  · intro p _ upper
    have within : p < c.size := by
      change p < 0 + c.size at upper
      omega
    change ((c.slot p).val : Nat) = p
    rw [Capacity.slot_val, toNat_nat, Nat.mod_eq_of_lt within]
  · intro p _ upper
    exact absurd upper (Nat.not_lt_zero p)
  · rintro i p ⟨call, claims⟩
    cases claims
  · rintro i j p ⟨call, claims⟩
    cases claims
  · intro i call pos phase
    cases phase
  · intro i pos aim
    cases aim
  · intro pos position
    cases position
  · intro pos reading
    cases reading

/-- The invariant of every state that any interleaving reaches. -/
theorem RingInvariant.reach (two : 2 ≤ c.size) {history : List (QueueEvent Nat ι α)}
    (reach : (queueMachine Nat ι α c).Reach s history) : s.RingInvariant :=
  reach.invariant .start fun inv step => inv.move two (step_move step)

end Runs

end QueueState

end ConsolidatedBook
