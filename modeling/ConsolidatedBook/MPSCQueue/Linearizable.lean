import ConsolidatedBook.MPSCQueue.Atomic
import ConsolidatedBook.MPSCQueue.Fullness
import ConsolidatedBook.MPSCQueue.Wrapping

namespace ConsolidatedBook

open PositionWord (ofNat toNat add diff)

variable {W ι α : Type} {c : Capacity}

/-- A `Push` has taken effect from its successful compare-exchange on, or
from the load that found the queue full. -/
def PushPhase.atomic : PushPhase W ι α → AtomicPush ι α
  | .idle => .idle
  | .loadEnqueuePos call | .loadSequence call _ | .compareExchange call _ => .called call
  | .writeData call _ | .publish call _ => .answered call true
  | .returns call accepted => .answered call accepted

/-- A `Pop` has taken effect from its releasing store on, or from the load
that found nothing published. -/
def PopPhase.atomic : PopPhase W α → AtomicPop α
  | .idle => .idle
  | .loadDequeuePos | .loadSequence _ | .moveData _ | .release _ _ => .called
  | .advance _ result => .answered (some result)
  | .returns result => .answered result

theorem seenBy_map {V : Type} (f : W → V) (history : List (QueueEvent W ι α)) :
    seenBy (history.map (QueueEvent.map f)) = seenBy history := by
  unfold seenBy
  rw [List.filterMap_map]
  congr 1
  funext event
  cases event <;> rfl

/-- The atomic queue holds the calls whose positions are claimed and not
released, in the order of the positions. -/
structure Refines (s : QueueState Nat ι α c) (history : List (QueueEvent Nat ι α))
    (t : AtomicQueue ι α c.size) (past : List (CallerEvent ι α)) : Prop where
  held : t.fifo.held = ((claims history).drop s.released).map Prod.snd
  producers : ∀ i, t.producers i = (s.producers i).phase.atomic
  calls : ∀ i, t.calls i = (s.producers i).calls
  consumer : t.consumer = s.consumer.atomic
  seen : past = seenBy history

namespace Refines

variable {s u : QueueState Nat ι α c} {history events : List (QueueEvent Nat ι α)} {t : AtomicQueue ι α c.size}
  {past : List (CallerEvent ι α)} {i : ι} {pos : Nat}

theorem held_length (refines : Refines s history t past) (counted : s.Counted history) :
    t.fifo.held.length = s.queue.enqueuePos - s.released := by
  rw [refines.held, List.length_map, List.length_drop, counted.length_claims]

/-- The oldest call that the atomic queue holds is that of the first position not released. -/
theorem held_cons (refines : Refines s history t past) (counted : s.Counted history) {call : PushCall ι α}
    (claimed : .claimed call s.released ∈ history) :
    t.fifo.held = call :: ((claims history).drop (s.released + 1)).map Prod.snd := by
  obtain ⟨within, entry⟩ := List.getElem?_eq_some_iff.mp (counted.claims_getElem?.mp claimed)
  rw [refines.held, List.drop_eq_getElem_cons within, entry, List.map_cons]

/-- A step that the atomic queue does not take part in. -/
theorem stutter (refines : Refines s history t past)
    (producers : ∀ i, (u.producers i).phase.atomic = (s.producers i).phase.atomic)
    (calls : ∀ i, (u.producers i).calls = (s.producers i).calls)
    (consumer : u.consumer.atomic = s.consumer.atomic) (released : u.released = s.released)
    (quiet : claims events = [] ∧ seenBy events = []) : Refines u (history ++ events) t past := by
  obtain ⟨noClaim, unseen⟩ := quiet
  refine ⟨?_, ?_, ?_, ?_, ?_⟩
  · rw [claims_append, noClaim, List.append_nil, released]
    exact refines.held
  · intro i
    rw [refines.producers i, producers i]
  · intro i
    rw [refines.calls i, calls i]
  · rw [refines.consumer, consumer]
  · rw [seenBy_append, unseen, List.append_nil]
    exact refines.seen

variable [DecidableEq ι]

theorem stutter_setPhase (refines : Refines s history t past) {phase : PushPhase Nat ι α}
    (same : phase.atomic = (s.producers i).phase.atomic) (producers : u.producers = (s.setPhase i phase).producers)
    (consumer : u.consumer = s.consumer) (released : u.released = s.released)
    (quiet : claims events = [] ∧ seenBy events = []) : Refines u (history ++ events) t past := by
  refine refines.stutter ?_ ?_ (congrArg _ consumer) released quiet
  · intro j
    rw [producers, QueueState.setPhase_phase]
    split
    · rename_i equal
      rw [equal, same]
    · rfl
  · intro j
    rw [producers, QueueState.setPhase_calls]

/-- A producer's step that the atomic queue takes too. -/
theorem setPhase (refines : Refines s history t past) (phase : PushPhase Nat ι α)
    (fifo : BoundedFifo (PushCall ι α) c.size) (producers : u.producers = (s.setPhase i phase).producers)
    (consumer : u.consumer = s.consumer)
    (held : fifo.held = ((claims (history ++ events)).drop u.released).map Prod.snd) :
    Refines u (history ++ events) { t.setProducer i phase.atomic with fifo := fifo } (past ++ seenBy events) := by
  refine ⟨held, ?_, ?_, ?_, ?_⟩
  · intro j
    rw [producers, QueueState.setPhase_phase]
    change Function.update t.producers i phase.atomic j = _
    rw [Function.update_apply]
    split
    · rfl
    · exact refines.producers j
  · intro j
    rw [producers, QueueState.setPhase_calls]
    exact refines.calls j
  · rw [consumer]
    exact refines.consumer
  · rw [seenBy_append, refines.seen]

omit [DecidableEq ι] in
/-- A step of the consumer that the atomic queue takes too. -/
theorem setConsumer (refines : Refines s history t past) (fifo : BoundedFifo (PushCall ι α) c.size)
    (producers : u.producers = s.producers)
    (held : fifo.held = ((claims (history ++ events)).drop u.released).map Prod.snd) :
    Refines u (history ++ events) { t with fifo := fifo, consumer := u.consumer.atomic }
      (past ++ seenBy events) := by
  refine ⟨held, ?_, ?_, rfl, ?_⟩
  · intro j
    rw [producers]
    exact refines.producers j
  · intro j
    rw [producers]
    exact refines.calls j
  · rw [seenBy_append, refines.seen]

theorem pushCalled (refines : Refines s history t past) (phase : (s.producers i).phase = .idle) (value : α) :
    ∃ v later, (atomicMachine ι α c.size).ReachFrom t past v later ∧
      Refines (s.setProducer i ⟨.loadEnqueuePos ⟨i, (s.producers i).calls, value⟩, (s.producers i).calls + 1⟩)
        (history ++ [.pushCalled ⟨i, (s.producers i).calls, value⟩]) v later := by
  have idle : t.producers i = .idle := by
    rw [refines.producers i, phase]
    rfl
  have count := refines.calls i
  have step := AtomicQueue.step_callPush idle value
  rw [count] at step
  refine ⟨_, _, .one step, ?_, ?_, ?_, refines.consumer, ?_⟩
  · rw [claims_append]
    exact refines.held.trans (congrArg _ (congrArg _ (List.append_nil _).symm))
  · intro j
    rw [QueueState.setProducer_producers]
    change Function.update t.producers i _ j = _
    rw [Function.update_apply]
    split
    · rfl
    · exact refines.producers j
  · intro j
    rw [QueueState.setProducer_producers]
    change Function.update t.calls i _ j = _
    rw [Function.update_apply]
    split
    · rfl
    · exact refines.calls j
  · rw [seenBy_append, refines.seen]
    rfl

/-- A claim appends the call, and there is room for it. -/
theorem claimed (refines : Refines s history t past) (ring : s.RingInvariant) (counted : s.Counted history)
    {call : PushCall ι α} (phase : (s.producers i).phase = .compareExchange call s.queue.enqueuePos) :
    ∃ v later, (atomicMachine ι α c.size).ReachFrom t past v later ∧
      Refines { s.setPhase i (.writeData call s.queue.enqueuePos) with
        queue := { s.queue with enqueuePos := s.queue.enqueuePos + 1 } }
        (history ++ [.claimed call s.queue.enqueuePos]) v later := by
  have called : t.producers i = .called call := by
    rw [refines.producers i, phase]
    rfl
  have length := refines.held_length counted
  have free := ring.checked i call _ phase
  have low := ring.released_le
  have room : t.fifo.held.length < c.size := by omega
  have accepted : (t.fifo.push call).2 = true := BoundedFifo.push_accepted.mpr room
  have step := AtomicQueue.step_push called
  rw [accepted] at step
  refine ⟨_, _, .one step, refines.setPhase (.writeData call s.queue.enqueuePos) _ rfl rfl ?_⟩
  change (t.fifo.push call).1.held = ((claims (history ++ [.claimed call _])).drop s.released).map Prod.snd
  rw [BoundedFifo.push_held_of_room room, refines.held, claims_append,
    List.drop_append_of_le_length (by rw [counted.length_claims]; exact low), List.map_append]
  rfl

/-- A load that finds the number behind is made while the atomic queue is full. -/
theorem full (refines : Refines s history t past) (ring : s.RingInvariant) (counted : s.Counted history)
    {call : PushCall ι α} (phase : (s.producers i).phase = .loadSequence call pos)
    (below : s.queue.sequenceAt pos < pos) :
    ∃ v later, (atomicMachine ι α c.size).ReachFrom t past v later ∧
      Refines (s.setPhase i (.returns call false)) (history ++ []) v later := by
  have called : t.producers i = .called call := by
    rw [refines.producers i, phase]
    rfl
  have length := refines.held_length counted
  have lap := ring.full_of_lt (show (s.producers i).phase.aim = some pos by rw [phase]; rfl) below
  have noRoom : ¬ t.fifo.held.length < c.size := by omega
  have refused : t.fifo.push call = (t.fifo, false) := BoundedFifo.push_of_full noRoom
  have step := AtomicQueue.step_push called
  rw [refused] at step
  refine ⟨_, _, .one step, refines.setPhase (.returns call false) _ rfl rfl ?_⟩
  rw [List.append_nil]
  exact refines.held

theorem pushReturned (refines : Refines s history t past) {call : PushCall ι α} {accepted : Bool}
    (phase : (s.producers i).phase = .returns call accepted) :
    ∃ v later, (atomicMachine ι α c.size).ReachFrom t past v later ∧
      Refines (s.setPhase i .idle) (history ++ [.pushReturned call accepted]) v later := by
  have answered : t.producers i = .answered call accepted := by
    rw [refines.producers i, phase]
    rfl
  refine ⟨_, _, .one (AtomicQueue.step_returnPush answered),
    refines.setPhase .idle t.fifo rfl rfl ?_⟩
  rw [claims_append]
  exact refines.held.trans (congrArg _ (congrArg _ (List.append_nil _).symm))

theorem popCalled (refines : Refines s history t past) (consumer : s.consumer = .idle) :
    ∃ v later, (atomicMachine ι α c.size).ReachFrom t past v later ∧
      Refines { s with consumer := .loadDequeuePos } (history ++ [.popCalled]) v later := by
  have idle : t.consumer = .idle := by
    rw [refines.consumer, consumer]
    rfl
  refine ⟨_, _, .one (AtomicQueue.step_callPop idle), refines.setConsumer t.fifo rfl ?_⟩
  have kept : QueueState.released { s with consumer := .loadDequeuePos } = s.released := by
    simp only [QueueState.released, consumer]
  rw [kept, claims_append]
  exact refines.held.trans (congrArg _ (congrArg _ (List.append_nil _).symm))

theorem popReturned (refines : Refines s history t past) {result : Option α} (consumer : s.consumer = .returns result) :
    ∃ v later, (atomicMachine ι α c.size).ReachFrom t past v later ∧
      Refines { s with consumer := .idle } (history ++ [.popReturned result]) v later := by
  have answered : t.consumer = .answered result := by
    rw [refines.consumer, consumer]
    rfl
  refine ⟨_, _, .one (AtomicQueue.step_returnPop answered), refines.setConsumer t.fifo rfl ?_⟩
  have kept : QueueState.released { s with consumer := .idle } = s.released := by
    simp only [QueueState.released, consumer]
  rw [kept, claims_append]
  exact refines.held.trans (congrArg _ (congrArg _ (List.append_nil _).symm))

/-- The releasing store removes the oldest call, whose value `Pop` has in hand. -/
theorem released (refines : Refines s history t past) (ring : s.RingInvariant) (counted : s.Counted history)
    (data : s.DataInvariant history) {result : α} (consumer : s.consumer = .release pos result) :
    ∃ v later, (atomicMachine ι α c.size).ReachFrom t past v later ∧
      Refines { s with
        queue := s.queue.storeSequence pos (pos + c.size)
        consumer := .advance pos result } (history ++ [.released pos]) v later := by
  have called : t.consumer = .called := by
    rw [refines.consumer, consumer]
    rfl
  have reading : s.consumer.reading = some pos := by rw [consumer]; rfl
  have first := ring.released_of_reading reading
  obtain ⟨call, claimed⟩ := counted.exists_claim (ring.reading pos reading).2
  have held := refines.held_cons counted (first ▸ claimed)
  obtain ⟨rest, oldest⟩ := BoundedFifo.pop_of_cons held
  -- what is in hand is the last of the values taken so far
  have value : result = call.value := by
    have hand := data.hand
    have taken : s.taken = pos + 1 := by simp only [QueueState.taken, consumer]
    rw [taken, consumer, List.take_add_one, counted.claims_getElem?.mp claimed, List.map_append] at hand
    have last := congrArg List.getLast? hand
    simpa [PopPhase.inHand] using last
  have step := AtomicQueue.step_pop called
  rw [oldest, Option.map_some, ← value] at step
  refine ⟨_, _, .one step, refines.setConsumer _ rfl ?_⟩
  have shown : claims (history ++ [.released pos]) = claims history := by
    rw [claims_append]
    exact List.append_nil _
  rw [rest, shown]
  change _ = ((claims history).drop (pos + 1)).map Prod.snd
  rw [first]

/-- A load that finds nothing published is made while the atomic queue is
empty, or while the oldest call has not returned. -/
theorem empty (refines : Refines s history t past) (ring : s.RingInvariant) (counted : s.Counted history)
    (calls : QueueState.CallInvariant s.producers history) (data : s.DataInvariant history)
    (consumer : s.consumer = .loadSequence pos) (unpublished : s.queue.sequenceAt pos ≠ pos + 1) :
    ∃ v later, (atomicMachine ι α c.size).ReachFrom t past v later ∧
      Refines { s with consumer := .returns none } (history ++ []) v later := by
  have called : t.consumer = .called := by
    rw [refines.consumer, consumer]
    rfl
  have here := ring.position pos (by rw [consumer]; rfl)
  have first : s.released = pos := by simp only [QueueState.released, consumer, here]
  have kept : QueueState.released { s with consumer := .returns none } = s.released := by
    simp only [QueueState.released, consumer]
  have held : t.fifo.held = ((claims (history ++ [])).drop
      (QueueState.released { s with consumer := .returns none })).map Prod.snd := by
    rw [List.append_nil, kept]
    exact refines.held
  by_cases vacant : s.queue.enqueuePos ≤ pos
  · have none : t.fifo.held = [] := by
      have length := refines.held_length counted
      exact List.length_eq_zero_iff.mp (by omega)
    have step := AtomicQueue.step_pop called
    rw [BoundedFifo.pop_of_nil none] at step
    exact ⟨_, _, .one step, refines.setConsumer _ rfl held⟩
  · rcases ring.filled pos first.le (by omega) with published | ⟨i, call, claim⟩
    · exact absurd published unpublished
    · have claimed := data.claim i pos call claim
      have oldest : t.fifo.held.head? = some call := by
        rw [refines.held_cons counted (first ▸ claimed), List.head?_cons]
      have returning : (t.producers call.producer).isReturning call = true := by
        cases at_ : (s.producers i).phase with
        | writeData own p | publish own p =>
          rw [at_] at claim
          cases claim
          obtain ⟨owner, -⟩ := calls.current i call (by rw [at_]; rfl)
          rw [owner, refines.producers i, at_]
          exact beq_self_eq_true call.serial
        | _ =>
          rw [at_] at claim
          cases claim
      exact ⟨_, _, .one (AtomicQueue.step_popNothing called oldest returning), refines.setConsumer _ rfl held⟩

variable [Movable α]

theorem move (refines : Refines s history t past) (ring : s.RingInvariant) (counted : s.Counted history)
    (calls : QueueState.CallInvariant s.producers history) (data : s.DataInvariant history)
    (move : s.Move u events) :
    ∃ v later, (atomicMachine ι α c.size).ReachFrom t past v later ∧ Refines u (history ++ events) v later := by
  have wait : Refines u (history ++ events) t past → ∃ v later,
      (atomicMachine ι α c.size).ReachFrom t past v later ∧ Refines u (history ++ events) v later :=
    fun still => ⟨t, past, .refl, still⟩
  cases move with
  | pushCalled phase => exact refines.pushCalled phase _
  | positionLoaded phase | vacant phase _ | behind phase _ | failed phase | written phase | published phase =>
    exact wait (refines.stutter_setPhase (by rw [phase]; rfl) rfl rfl rfl ⟨rfl, rfl⟩)
  | @full i call pos phase below =>
    rw [diff_nat] at below
    exact refines.full ring counted phase (by omega)
  | claimed phase same =>
    subst same
    exact refines.claimed ring counted phase
  | pushReturned phase => exact refines.pushReturned phase
  | popCalled consumer => exact refines.popCalled consumer
  | dequeueLoaded consumer | ready consumer _ | taken consumer | advanced consumer =>
    exact wait (refines.stutter (fun _ => rfl) (fun _ => rfl) (by rw [consumer]; rfl)
      (by simp only [QueueState.released, consumer, add_nat, MPSCQueue.storeData_dequeuePos]) ⟨rfl, rfl⟩)
  | @empty pos consumer different =>
    rw [diff_nat, add_nat] at different
    exact refines.empty ring counted calls data consumer (by omega)
  | released consumer => exact refines.released ring counted data consumer
  | popReturned consumer => exact refines.popReturned consumer

end Refines

section Runs

variable [DecidableEq ι] [Movable α]

theorem queueMachine_simulation (two : 2 ≤ c.size) :
    Machine.Simulation (queueMachine Nat ι α c) (atomicMachine ι α c.size) Refines where
  start := ⟨rfl, fun _ => rfl, fun _ => rfl, rfl, rfl⟩
  next := by
    intro s u history action events t past before _ refines step
    exact refines.move (.reach two before) (.reach two before) (.reach before) (.reach two before)
      (QueueState.step_move step)

variable {s : QueueState (BitVec 64) ι α c} {ages : ι → Nat}
  {history : List (QueueEvent (BitVec 64) ι α × (ι → Nat))}

/-- The queue is linearizable: what its callers see of any interleaving of
the accesses of `Push` and `Pop`, the atomic queue shows them too. -/
theorem mpscQueue_linearizable (two : 2 ≤ c.size) (word : c.size < 2 ^ 64)
    (reach : (timelyMachine (BitVec 64) ι α c (2 ^ 63)).Reach (s, ages) history) :
    ∃ t, (atomicMachine ι α c.size).Reach t (seenBy (history.map Prod.fst)) := by
  have simulated := timelyMachine_simulation (ι := ι) (α := α) (PositionWord.spans_bitVec word) two
  obtain ⟨⟨literal, _⟩, past, reached, _, _, events⟩ := simulated.reach reach
  obtain ⟨t, view, atomic, refines⟩ := (queueMachine_simulation two).reach reached.forget
  refine ⟨t, ?_⟩
  rw [events, seenBy_map, ← refines.seen]
  exact atomic

/-- The loser of the race publishes while the winner has not, and `Pop` finds nothing. -/
def overtaken : List (QueueAction Nat String) :=
  [.callPush 0 "a", .callPush 1 "b", .stepPush 0 false, .stepPush 0 false, .stepPush 0 false,
    .stepPush 1 false, .stepPush 1 false, .stepPush 1 false, .stepPush 1 false, .stepPush 1 false,
    .stepPush 1 false, .callPop, .stepPop, .stepPop, .stepPop]

theorem mpscQueue_linearizable_overtaken :
    ∃ s history t, (timelyMachine (BitVec 64) Nat String .default (2 ^ 63)).run
        (timelyMachine (BitVec 64) Nat String .default (2 ^ 63)).initial overtaken = some (s, history) ∧
      seenBy (history.map Prod.fst) = [.pushCalled ⟨0, 0, "a"⟩, .pushCalled ⟨1, 0, "b"⟩,
        .pushReturned ⟨1, 0, "b"⟩ true, .popCalled, .popReturned none] ∧
      (atomicMachine Nat String Capacity.default.size).Reach t (seenBy (history.map Prod.fst)) := by
  have reached := Machine.Reach.start.run
    (rfl : (timelyMachine (BitVec 64) Nat String .default (2 ^ 63)).run _ overtaken = some (_, _))
  obtain ⟨t, atomic⟩ := mpscQueue_linearizable (by decide) (by decide) reached
  exact ⟨_, _, t, rfl, rfl, atomic⟩

end Runs

end ConsolidatedBook
