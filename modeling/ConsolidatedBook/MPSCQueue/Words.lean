import ConsolidatedBook.MPSCQueue.History

namespace ConsolidatedBook

open PositionWord (ofNat toNat add diff)

variable {W V ι α : Type} {c : Capacity}

/-- The words tell two positions apart as the naturals do while these are
less than `span` from each other. -/
structure PositionWord.Spans (W : Type) [PositionWord W] (c : Capacity) (span : Nat) : Prop where
  size_le : c.size ≤ span
  add_ofNat : ∀ n k : Nat, add (ofNat n : W) k = ofNat (n + k)
  slot_ofNat : ∀ n : Nat, c.slot (ofNat n : W) = c.slot n
  diff_ofNat : ∀ a b : Nat, a < b + span → b ≤ a + span → diff (ofNat a : W) (ofNat b) = (a : Int) - b

theorem PositionWord.spans_bitVec (word : c.size < 2 ^ 64) : PositionWord.Spans (BitVec 64) c (2 ^ 63) := by
  obtain ⟨k, size⟩ := c.isPowerOfTwo
  have small : k < 64 := (Nat.pow_lt_pow_iff_right (by decide)).mp (size ▸ word)
  have bound : c.size ≤ 2 ^ 63 := size ▸ Nat.pow_le_pow_right (by decide) (by omega)
  refine ⟨bound, ?_, ?_, ?_⟩
  · intro n k
    exact (BitVec.ofNat_add n k).symm
  · intro n
    have divides : 2 ^ k ∣ 2 ^ 64 := Nat.pow_dvd_pow 2 (by omega)
    apply Fin.ext
    rw [Capacity.slot_val, Capacity.slot_val, toNat_nat, size]
    exact Nat.mod_mod_of_dvd n divides
  · intro a b above below
    change (BitVec.ofNat 64 a - BitVec.ofNat 64 b).toInt = (a : Int) - b
    rw [BitVec.toInt_sub, BitVec.toInt_ofNat', BitVec.toInt_ofNat', Int.sub_bmod_bmod, Int.bmod_sub_bmod]
    exact Int.bmod_eq_of_le (by omega) (by omega)

theorem PositionWord.Spans.ofNat_inj [PositionWord W] {span a b : Nat} (spans : Spans W c span)
    (order : b ≤ a) (near : a < b + span) : (ofNat a : W) = ofNat b ↔ a = b := by
  constructor
  · intro same
    have zero := spans.diff_ofNat b b (by have := c.positive; have := spans.size_le; omega) (by omega)
    have apart := spans.diff_ofNat a b near (by omega)
    rw [same] at apart
    omega
  · intro same
    rw [same]

/-- The same ring with its positions renamed. -/
def MPSCQueue.map (f : W → V) (q : MPSCQueue W α c) : MPSCQueue V α c where
  enqueuePos := f q.enqueuePos
  dequeuePos := f q.dequeuePos
  buffer i := ⟨f (q.buffer i).sequence, (q.buffer i).data⟩

def PushPhase.map (f : W → V) : PushPhase W ι α → PushPhase V ι α
  | .idle => .idle
  | .loadEnqueuePos call => .loadEnqueuePos call
  | .loadSequence call pos => .loadSequence call (f pos)
  | .compareExchange call pos => .compareExchange call (f pos)
  | .writeData call pos => .writeData call (f pos)
  | .publish call pos => .publish call (f pos)
  | .returns call accepted => .returns call accepted

def PopPhase.map (f : W → V) : PopPhase W α → PopPhase V α
  | .idle => .idle
  | .loadDequeuePos => .loadDequeuePos
  | .loadSequence pos => .loadSequence (f pos)
  | .moveData pos => .moveData (f pos)
  | .release pos result => .release (f pos) result
  | .advance pos result => .advance (f pos) result
  | .returns result => .returns result

def QueueEvent.map (f : W → V) : QueueEvent W ι α → QueueEvent V ι α
  | .pushCalled call => .pushCalled call
  | .claimed call pos => .claimed call (f pos)
  | .published call pos => .published call (f pos)
  | .pushReturned call accepted => .pushReturned call accepted
  | .popCalled => .popCalled
  | .taken pos => .taken (f pos)
  | .released pos => .released (f pos)
  | .popReturned result => .popReturned result

def QueueState.map (f : W → V) (s : QueueState W ι α c) : QueueState V ι α c where
  queue := s.queue.map f
  producers i := ⟨(s.producers i).phase.map f, (s.producers i).calls⟩
  consumer := s.consumer.map f

@[simp] theorem PushPhase.isIdle_map (f : W → V) (phase : PushPhase W ι α) :
    (phase.map f).isIdle = phase.isIdle := by
  cases phase <;> rfl

@[simp] theorem PushPhase.aim_map (f : W → V) (phase : PushPhase W ι α) :
    (phase.map f).aim = phase.aim.map f := by
  cases phase <;> rfl

@[simp] theorem PushPhase.claim_map (f : W → V) (phase : PushPhase W ι α) :
    (phase.map f).claim = phase.claim.map fun claim => (f claim.1, claim.2) := by
  cases phase <;> rfl

@[simp] theorem PopPhase.isIdle_map (f : W → V) (phase : PopPhase W α) :
    (phase.map f).isIdle = phase.isIdle := by
  cases phase <;> rfl

@[simp] theorem PopPhase.reading_map (f : W → V) (phase : PopPhase W α) :
    (phase.map f).reading = phase.reading.map f := by
  cases phase <;> rfl

theorem claims_map (f : W → V) (history : List (QueueEvent W ι α)) :
    claims (history.map (QueueEvent.map f)) = (claims history).map fun claim => (f claim.1, claim.2) := by
  unfold claims
  rw [List.filterMap_map, List.map_filterMap]
  congr 1
  funext event
  cases event <;> rfl

theorem popped_map (f : W → V) (history : List (QueueEvent W ι α)) :
    popped (history.map (QueueEvent.map f)) = popped history := by
  unfold popped
  rw [List.filterMap_map]
  congr 1
  funext event
  cases event <;> rfl

theorem QueueState.map_setProducer [DecidableEq ι] (f : W → V) (s : QueueState W ι α c) (i : ι)
    (p : Producer W ι α) :
    (s.setProducer i p).map f = (s.map f).setProducer i ⟨p.phase.map f, p.calls⟩ := by
  simp only [QueueState.map, QueueState.setProducer, QueueState.mk.injEq, true_and, and_true]
  funext j
  by_cases same : j = i
  · subst same
    simp only [Function.update_self]
  · simp only [Function.update_of_ne same]

theorem QueueState.map_queue [DecidableEq ι] (f : W → V) (s : QueueState W ι α c) (i : ι) (p : Producer W ι α)
    (q : MPSCQueue W α c) :
    ({ s.setProducer i p with queue := q } : QueueState W ι α c).map f =
      { (s.map f).setProducer i ⟨p.phase.map f, p.calls⟩ with queue := q.map f } := by
  rw [← map_setProducer]
  rfl

section Words

variable [PositionWord W] {span : Nat} {q : MPSCQueue Nat α c}

namespace MPSCQueue

theorem sequenceAt_map (spans : PositionWord.Spans W c span) (pos : Nat) :
    (q.map ofNat).sequenceAt (ofNat pos : W) = ofNat (q.sequenceAt pos) := by
  simp only [sequenceAt, map, spans.slot_ofNat]

theorem dataAt_map (spans : PositionWord.Spans W c span) (pos : Nat) :
    (q.map ofNat).dataAt (ofNat pos : W) = q.dataAt pos := by
  simp only [dataAt, map, spans.slot_ofNat]

theorem storeSequence_map (spans : PositionWord.Spans W c span) (pos n : Nat) :
    (q.storeSequence pos n).map ofNat = (q.map ofNat).storeSequence (ofNat pos : W) (ofNat n) := by
  simp only [storeSequence, dataAt_map spans]
  simp only [map, mk.injEq, true_and, spans.slot_ofNat]
  funext i
  by_cases same : i = c.slot pos
  · subst same
    simp only [Function.update_self]
  · simp only [Function.update_of_ne same]

theorem storeData_map (spans : PositionWord.Spans W c span) (pos : Nat) (data : α) :
    (q.storeData pos data).map ofNat = (q.map ofNat).storeData (ofNat pos : W) data := by
  simp only [storeData, sequenceAt_map spans]
  simp only [map, mk.injEq, true_and, spans.slot_ofNat]
  funext i
  by_cases same : i = c.slot pos
  · subst same
    simp only [Function.update_self]
  · simp only [Function.update_of_ne same]

/-- The consumer's position is less than a lap behind the number that it finds there. -/
theorem popStep_map [Movable α] (spans : PositionWord.Spans W c span) (phase : PopPhase Nat α)
    (sequence : ∀ pos, phase = .loadSequence pos →
      q.sequenceAt pos < pos + 1 + span ∧ pos + 1 ≤ q.sequenceAt pos + span) :
    (q.map ofNat).popStep (ι := ι) (phase.map (ofNat : Nat → W)) =
      ((q.popStep (ι := ι) phase).1.map ofNat, (q.popStep (ι := ι) phase).2.1.map ofNat,
        (q.popStep (ι := ι) phase).2.2.map (QueueEvent.map ofNat)) := by
  cases phase with
  | idle | loadDequeuePos | returns result => rfl
  | loadSequence pos =>
    obtain ⟨above, below⟩ := sequence pos rfl
    have same := spans.diff_ofNat _ _ above below
    simp only [PopPhase.map, popStep, sequenceAt_map spans, spans.add_ofNat, same, diff_nat, add_nat]
    split <;> rfl
  | moveData pos =>
    simp only [PopPhase.map, popStep, storeData_map spans, dataAt_map spans, List.map_cons, List.map_nil,
      QueueEvent.map]
  | release pos result =>
    simp only [PopPhase.map, popStep, storeSequence_map spans, spans.add_ofNat, List.map_cons, List.map_nil,
      QueueEvent.map, add_nat]
  | advance pos result =>
    simp only [PopPhase.map, popStep, spans.add_ofNat, List.map_nil, MPSCQueue.map, add_nat]

variable [DecidableEq W]

/-- A producer's access with words is its access with naturals, if its own
position is near the two numbers that it is compared with. -/
theorem pushImplStep_map (spans : PositionWord.Spans W c span) (weakFails : Bool) (phase : PushPhase Nat ι α)
    (sequence : ∀ pos, phase.aim = some pos →
      q.sequenceAt pos < pos + span ∧ pos ≤ q.sequenceAt pos + span)
    (fresh : ∀ pos, phase.aim = some pos → pos ≤ q.enqueuePos ∧ q.enqueuePos < pos + span) :
    (q.map ofNat).pushImplStep weakFails (phase.map (ofNat : Nat → W)) =
      ((q.pushImplStep weakFails phase).1.map ofNat, (q.pushImplStep weakFails phase).2.1.map ofNat,
        (q.pushImplStep weakFails phase).2.2.map (QueueEvent.map ofNat)) := by
  cases phase with
  | idle | loadEnqueuePos call | returns call accepted => rfl
  | loadSequence call pos =>
    obtain ⟨above, below⟩ := sequence pos rfl
    have same := spans.diff_ofNat _ _ above below
    simp only [PushPhase.map, pushImplStep, sequenceAt_map spans, same, diff_nat]
    split
    · rfl
    · split <;> rfl
  | compareExchange call pos =>
    obtain ⟨order, near⟩ := fresh pos rfl
    have same : (ofNat q.enqueuePos : W) = ofNat pos ↔ q.enqueuePos = pos := spans.ofNat_inj order near
    simp only [PushPhase.map, pushImplStep, MPSCQueue.map, same]
    split
    · rw [spans.add_ofNat]
      rfl
    · rfl
  | writeData call pos =>
    simp only [PushPhase.map, pushImplStep, storeData_map spans, List.map_nil]
  | publish call pos =>
    simp only [PushPhase.map, pushImplStep, storeSequence_map spans, spans.add_ofNat, List.map_cons, List.map_nil,
      QueueEvent.map, add_nat]

end MPSCQueue

end Words

section Steps

variable [PositionWord W] [DecidableEq W] [DecidableEq ι] {span : Nat} {s : QueueState Nat ι α c}

/-- In time, a step with words is the step with naturals. -/
theorem QueueState.step_map [Movable α] (spans : PositionWord.Spans W c span) (inv : s.RingInvariant)
    {action : QueueAction ι α}
    (near : ∀ i weakFails, action = .stepPush i weakFails → ∀ pos, (s.producers i).phase.aim = some pos →
      s.queue.enqueuePos + c.size < pos + span) :
    (s.map (ofNat : Nat → W)).step action =
      (s.step action).map fun (u, events) => (u.map ofNat, events.map (QueueEvent.map ofNat)) := by
  have positive := c.positive
  have bound := spans.size_le
  have low := inv.released_le
  have high := inv.claimed_le
  cases action with
  | callPush i value =>
    have idle : ((s.map (ofNat : Nat → W)).producers i).phase.isIdle = (s.producers i).phase.isIdle :=
      PushPhase.isIdle_map _ _
    simp only [QueueState.step, idle]
    split
    · rw [Option.map_some, map_setProducer]
      rfl
    · rfl
  | callPop =>
    have idle : (s.map (ofNat : Nat → W)).consumer.isIdle = s.consumer.isIdle := PopPhase.isIdle_map _ _
    simp only [QueueState.step, idle]
    split
    · rfl
    · rfl
  | stepPush i weakFails =>
    have idle : ((s.map (ofNat : Nat → W)).producers i).phase.isIdle = (s.producers i).phase.isIdle :=
      PushPhase.isIdle_map _ _
    have access := MPSCQueue.pushImplStep_map spans weakFails (s.producers i).phase (q := s.queue)
      (fun pos aim => ?_) (fun pos aim => ?_)
    · simp only [QueueState.step, idle]
      split
      · rfl
      · rw [Option.map_some, map_queue]
        exact congrArg (fun result : MPSCQueue W α c × PushPhase W ι α × List (QueueEvent W ι α) =>
          some ({ (s.map ofNat).setProducer i ⟨result.2.1, (s.producers i).calls⟩ with queue := result.1 },
            result.2.2)) access
    · obtain ⟨p, lower, upper, _, stamp⟩ := inv.sequence_cases pos
      have target := inv.aim_le i pos aim
      have inTime := near i weakFails rfl pos aim
      omega
    · have target := inv.aim_le i pos aim
      have inTime := near i weakFails rfl pos aim
      omega
  | stepPop =>
    have idle : (s.map (ofNat : Nat → W)).consumer.isIdle = s.consumer.isIdle := PopPhase.isIdle_map _ _
    have access := MPSCQueue.popStep_map (ι := ι) spans s.consumer (q := s.queue) (fun pos at_ => ?_)
    · simp only [QueueState.step, idle]
      split
      · rfl
      · exact congrArg (fun result : MPSCQueue W α c × PopPhase W α × List (QueueEvent W ι α) =>
          some ({ s.map ofNat with queue := result.1, consumer := result.2.1 }, result.2.2)) access
    · -- the consumer stands at the first position of the lap
      have here := inv.position pos (by rw [at_]; rfl)
      have first : s.released = pos := by simp only [released, at_, here]
      obtain ⟨p, lower, upper, _, stamp⟩ := inv.sequence_cases pos
      omega

end Steps

end ConsolidatedBook
