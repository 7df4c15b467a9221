import ConsolidatedBook.MPSCQueue

namespace ConsolidatedBook

open PositionWord (ofNat toNat add diff)

variable {W ι α : Type} {c : Capacity}

namespace PushPhase

/-- The call that a thread is executing. -/
def call : PushPhase W ι α → Option (PushCall ι α)
  | .idle => none
  | .loadEnqueuePos call | .loadSequence call _ | .compareExchange call _
  | .writeData call _ | .publish call _ | .returns call _ => some call

/-- The local `pos` of a thread that has not claimed it. -/
def aim : PushPhase W ι α → Option W
  | .loadSequence _ pos | .compareExchange _ pos => some pos
  | _ => none

/-- The position of a thread between its successful compare-exchange and
its publishing store, with the call it works for. -/
def claim : PushPhase W ι α → Option (W × PushCall ι α)
  | .writeData call pos | .publish call pos => some (pos, call)
  | _ => none

theorem isIdle_iff {phase : PushPhase W ι α} : phase.isIdle = true ↔ phase = .idle := by
  cases phase <;> simp [isIdle]

end PushPhase

namespace PopPhase

/-- The local `pos` of the consumer, until it stores its successor. -/
def position : PopPhase W α → Option W
  | .loadSequence pos | .moveData pos | .release pos _ | .advance pos _ => some pos
  | _ => none

/-- The position of the consumer between its accepting sequence load and
its releasing sequence store. -/
def reading : PopPhase W α → Option W
  | .moveData pos | .release pos _ => some pos
  | _ => none

/-- The value that `Pop` has moved out of a cell and not yet returned. -/
def inHand : PopPhase W α → Option α
  | .release _ result | .advance _ result | .returns (some result) => some result
  | _ => none

theorem isIdle_iff {phase : PopPhase W α} : phase.isIdle = true ↔ phase = .idle := by
  cases phase <;> simp [isIdle]

end PopPhase

namespace QueueState

variable [DecidableEq ι]

def setPhase (s : QueueState W ι α c) (i : ι) (phase : PushPhase W ι α) : QueueState W ι α c :=
  s.setProducer i ⟨phase, (s.producers i).calls⟩

theorem setProducer_producers (s : QueueState W ι α c) (i j : ι) (p : Producer W ι α) :
    (s.setProducer i p).producers j = if j = i then p else s.producers j :=
  Function.update_apply _ _ _ _

theorem setPhase_producers (s : QueueState W ι α c) (i j : ι) (phase : PushPhase W ι α) :
    (s.setPhase i phase).producers j =
      if j = i then ⟨phase, (s.producers i).calls⟩ else s.producers j :=
  setProducer_producers s i j _

theorem setPhase_phase (s : QueueState W ι α c) (i j : ι) (phase : PushPhase W ι α) :
    ((s.setPhase i phase).producers j).phase = if j = i then phase else (s.producers j).phase := by
  rw [setPhase, setProducer_producers]
  split <;> rfl

theorem setPhase_self (s : QueueState W ι α c) (i : ι) (phase : PushPhase W ι α) :
    ((s.setPhase i phase).producers i).phase = phase := by
  rw [setPhase_phase, if_pos rfl]

@[simp] theorem setPhase_calls (s : QueueState W ι α c) (i j : ι) (phase : PushPhase W ι α) :
    ((s.setPhase i phase).producers j).calls = (s.producers j).calls := by
  rw [setPhase, setProducer_producers]
  split
  · rename_i same
    rw [same]
  · rfl

variable [PositionWord W] [DecidableEq W] [Movable α]

/-- Everything that one step of the queue can do, one case for each access
and each outcome of it. -/
inductive Move (s : QueueState W ι α c) :
    QueueState W ι α c → List (QueueEvent W ι α) → Prop
  | pushCalled {i value} : (s.producers i).phase = .idle →
      Move s (s.setProducer i ⟨.loadEnqueuePos ⟨i, (s.producers i).calls, value⟩, (s.producers i).calls + 1⟩)
        [.pushCalled ⟨i, (s.producers i).calls, value⟩]
  | positionLoaded {i call} : (s.producers i).phase = .loadEnqueuePos call →
      Move s (s.setPhase i (.loadSequence call s.queue.enqueuePos)) []
  | vacant {i call pos} : (s.producers i).phase = .loadSequence call pos →
      diff (s.queue.sequenceAt pos) pos = 0 → Move s (s.setPhase i (.compareExchange call pos)) []
  | full {i call pos} : (s.producers i).phase = .loadSequence call pos →
      diff (s.queue.sequenceAt pos) pos < 0 → Move s (s.setPhase i (.returns call false)) []
  | behind {i call pos} : (s.producers i).phase = .loadSequence call pos →
      0 < diff (s.queue.sequenceAt pos) pos → Move s (s.setPhase i (.loadEnqueuePos call)) []
  | claimed {i call pos} : (s.producers i).phase = .compareExchange call pos →
      s.queue.enqueuePos = pos →
      Move s { s.setPhase i (.writeData call pos) with queue := { s.queue with enqueuePos := add pos 1 } }
        [.claimed call pos]
  | failed {i call pos} : (s.producers i).phase = .compareExchange call pos →
      Move s (s.setPhase i (.loadSequence call s.queue.enqueuePos)) []
  | written {i call pos} : (s.producers i).phase = .writeData call pos →
      Move s { s.setPhase i (.publish call pos) with queue := s.queue.storeData pos call.value } []
  | published {i call pos} : (s.producers i).phase = .publish call pos →
      Move s { s.setPhase i (.returns call true) with queue := s.queue.storeSequence pos (add pos 1) }
        [.published call pos]
  | pushReturned {i call accepted} : (s.producers i).phase = .returns call accepted →
      Move s (s.setPhase i .idle) [.pushReturned call accepted]
  | popCalled : s.consumer = .idle → Move s { s with consumer := .loadDequeuePos } [.popCalled]
  | dequeueLoaded : s.consumer = .loadDequeuePos →
      Move s { s with consumer := .loadSequence s.queue.dequeuePos } []
  | empty {pos} : s.consumer = .loadSequence pos →
      diff (s.queue.sequenceAt pos) (add pos 1) ≠ 0 → Move s { s with consumer := .returns none } []
  | ready {pos} : s.consumer = .loadSequence pos →
      diff (s.queue.sequenceAt pos) (add pos 1) = 0 → Move s { s with consumer := .moveData pos } []
  | taken {pos} : s.consumer = .moveData pos →
      Move s { s with
        queue := s.queue.storeData pos (Movable.movedFrom (s.queue.dataAt pos))
        consumer := .release pos (s.queue.dataAt pos) } [.taken pos]
  | released {pos result} : s.consumer = .release pos result →
      Move s { s with
        queue := s.queue.storeSequence pos (add pos c.size)
        consumer := .advance pos result } [.released pos]
  | advanced {pos result} : s.consumer = .advance pos result →
      Move s { s with
        queue := { s.queue with dequeuePos := add pos 1 }
        consumer := .returns (some result) } []
  | popReturned {result} : s.consumer = .returns result →
      Move s { s with consumer := .idle } [.popReturned result]

theorem stepPush_move {s t : QueueState W ι α c} {i : ι} {weakFails : Bool}
    {events : List (QueueEvent W ι α)} (step : s.step (.stepPush i weakFails) = some (t, events)) :
    s.Move t events := by
  simp only [QueueState.step] at step
  cases at_ : (s.producers i).phase with
  | idle => simp [at_, PushPhase.isIdle] at step
  | loadEnqueuePos call =>
    simp only [at_, PushPhase.isIdle, MPSCQueue.pushImplStep, Bool.false_eq_true, if_false] at step
    cases step
    exact .positionLoaded at_
  | loadSequence call pos =>
    simp only [at_, PushPhase.isIdle, MPSCQueue.pushImplStep, Bool.false_eq_true, if_false] at step
    split at step
    · rename_i vacant
      cases step
      exact .vacant at_ vacant
    · split at step
      · rename_i full
        cases step
        exact .full at_ full
      · cases step
        exact .behind at_ (by omega)
  | compareExchange call pos =>
    simp only [at_, PushPhase.isIdle, MPSCQueue.pushImplStep, Bool.false_eq_true, if_false] at step
    split at step
    · rename_i won
      cases step
      exact .claimed at_ won.1
    · cases step
      exact .failed at_
  | writeData call pos =>
    simp only [at_, PushPhase.isIdle, MPSCQueue.pushImplStep, Bool.false_eq_true, if_false] at step
    cases step
    exact .written at_
  | publish call pos =>
    simp only [at_, PushPhase.isIdle, MPSCQueue.pushImplStep, Bool.false_eq_true, if_false] at step
    cases step
    exact .published at_
  | returns call accepted =>
    simp only [at_, PushPhase.isIdle, MPSCQueue.pushImplStep, Bool.false_eq_true, if_false] at step
    cases step
    exact .pushReturned at_

theorem stepPop_move {s t : QueueState W ι α c} {events : List (QueueEvent W ι α)}
    (step : s.step .stepPop = some (t, events)) : s.Move t events := by
  simp only [QueueState.step] at step
  cases at_ : s.consumer with
  | idle => simp [at_, PopPhase.isIdle] at step
  | loadDequeuePos =>
    simp only [at_, PopPhase.isIdle, MPSCQueue.popStep, Bool.false_eq_true, if_false] at step
    cases step
    exact .dequeueLoaded at_
  | loadSequence pos =>
    simp only [at_, PopPhase.isIdle, MPSCQueue.popStep, Bool.false_eq_true, if_false] at step
    split at step
    · rename_i empty
      cases step
      exact .empty at_ empty
    · rename_i ready
      cases step
      exact .ready at_ (not_not.mp ready)
  | moveData pos =>
    simp only [at_, PopPhase.isIdle, MPSCQueue.popStep, Bool.false_eq_true, if_false] at step
    cases step
    exact .taken at_
  | release pos result =>
    simp only [at_, PopPhase.isIdle, MPSCQueue.popStep, Bool.false_eq_true, if_false] at step
    cases step
    exact .released at_
  | advance pos result =>
    simp only [at_, PopPhase.isIdle, MPSCQueue.popStep, Bool.false_eq_true, if_false] at step
    cases step
    exact .advanced at_
  | returns result =>
    simp only [at_, PopPhase.isIdle, MPSCQueue.popStep, Bool.false_eq_true, if_false] at step
    cases step
    exact .popReturned at_

/-- Every step of the machine is one of the moves. -/
theorem step_move {s t : QueueState W ι α c} {action : QueueAction ι α}
    {events : List (QueueEvent W ι α)} (step : s.step action = some (t, events)) : s.Move t events := by
  cases action with
  | callPush i value =>
    simp only [QueueState.step, Option.ite_none_right_eq_some] at step
    obtain ⟨idle, same⟩ := step
    cases same
    exact .pushCalled (PushPhase.isIdle_iff.mp idle)
  | stepPush i weakFails => exact stepPush_move step
  | callPop =>
    simp only [QueueState.step, Option.ite_none_right_eq_some] at step
    obtain ⟨idle, same⟩ := step
    cases same
    exact .popCalled (PopPhase.isIdle_iff.mp idle)
  | stepPop => exact stepPop_move step

/-- A producer's step is one access of `push_impl` at its phase. -/
theorem stepPush_eq {s t : QueueState W ι α c} {i : ι} {weakFails : Bool} {events : List (QueueEvent W ι α)}
    (step : s.step (.stepPush i weakFails) = some (t, events)) :
    (s.producers i).phase.isIdle = false ∧
    t = { s.setPhase i (s.queue.pushImplStep weakFails (s.producers i).phase).2.1 with
      queue := (s.queue.pushImplStep weakFails (s.producers i).phase).1 } ∧
    events = (s.queue.pushImplStep weakFails (s.producers i).phase).2.2 := by
  simp only [QueueState.step, Option.ite_none_left_eq_some, Bool.not_eq_true] at step
  obtain ⟨busy, same⟩ := step
  cases same
  exact ⟨busy, rfl, rfl⟩

theorem stepPop_eq {s t : QueueState W ι α c} {events : List (QueueEvent W ι α)}
    (step : s.step .stepPop = some (t, events)) :
    s.consumer.isIdle = false ∧
    t = { s with
      queue := (s.queue.popStep (ι := ι) s.consumer).1
      consumer := (s.queue.popStep (ι := ι) s.consumer).2.1 } ∧
    events = (s.queue.popStep s.consumer).2.2 := by
  simp only [QueueState.step, Option.ite_none_left_eq_some, Bool.not_eq_true] at step
  obtain ⟨busy, same⟩ := step
  cases same
  exact ⟨busy, rfl, rfl⟩

end QueueState

theorem MPSCQueue.popStep_enqueuePos [PositionWord W] [Movable α] (q : MPSCQueue W α c) (phase : PopPhase W α) :
    (q.popStep (ι := ι) phase).1.enqueuePos = q.enqueuePos := by
  cases phase with
  | loadSequence pos => simp only [popStep, apply_ite Prod.fst, ite_self]
  | _ => rfl

end ConsolidatedBook
