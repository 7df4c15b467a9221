import ConsolidatedBook.BoundedFifo
import ConsolidatedBook.MPSCQueue

namespace ConsolidatedBook

variable {W ι α : Type} {capacity : Nat}

/-- What the callers of the queue see of it. -/
inductive CallerEvent (ι α : Type)
  | pushCalled (call : PushCall ι α)
  | pushReturned (call : PushCall ι α) (accepted : Bool)
  | popCalled
  | popReturned (result : Option α)

def QueueEvent.seen : QueueEvent W ι α → Option (CallerEvent ι α)
  | .pushCalled call => some (.pushCalled call)
  | .pushReturned call accepted => some (.pushReturned call accepted)
  | .popCalled => some .popCalled
  | .popReturned result => some (.popReturned result)
  | .claimed _ _ | .published _ _ | .taken _ | .released _ => none

/-- A run as its callers see it. -/
def seenBy (history : List (QueueEvent W ι α)) : List (CallerEvent ι α) :=
  history.filterMap QueueEvent.seen

@[simp] theorem seenBy_append (history events : List (QueueEvent W ι α)) :
    seenBy (history ++ events) = seenBy history ++ seenBy events := List.filterMap_append

/-- A producer of the atomic queue. Its call takes effect at one moment
between the call and the return, and has its answer from then on. -/
inductive AtomicPush (ι α : Type)
  | idle
  | called (call : PushCall ι α)
  | answered (call : PushCall ι α) (accepted : Bool)

inductive AtomicPop (α : Type)
  | idle
  | called
  | answered (result : Option α)

/-- The call has been accepted and its thread has not returned from it yet. -/
def AtomicPush.isReturning (call : PushCall ι α) : AtomicPush ι α → Bool
  | .answered own true => own.serial == call.serial
  | _ => false

/-- What the queue is for: a bounded fifo of the calls that it has accepted. -/
structure AtomicQueue (ι α : Type) (capacity : Nat) where
  fifo : BoundedFifo (PushCall ι α) capacity
  producers : ι → AtomicPush ι α
  calls : ι → Nat
  consumer : AtomicPop α

inductive AtomicAction (ι α : Type)
  | callPush (producer : ι) (value : α)
  | push (producer : ι)
  | returnPush (producer : ι)
  | callPop
  | pop
  | popNothing
  | returnPop

namespace AtomicQueue

variable [DecidableEq ι]

def setProducer (s : AtomicQueue ι α capacity) (i : ι) (producer : AtomicPush ι α) : AtomicQueue ι α capacity :=
  { s with producers := Function.update s.producers i producer }

/-- `Push` answers `false` only when `capacity` calls are held. `Pop` answers
the oldest one's value. It answers `none` when none is held, and it may do so
while the thread of the oldest one has not returned from it. -/
def step (s : AtomicQueue ι α capacity) :
    AtomicAction ι α → Option (AtomicQueue ι α capacity × List (CallerEvent ι α))
  | .callPush i value =>
    match s.producers i with
    | .idle =>
      let call : PushCall ι α := ⟨i, s.calls i, value⟩
      some ({ s.setProducer i (.called call) with calls := Function.update s.calls i (s.calls i + 1) },
        [.pushCalled call])
    | _ => none
  | .push i =>
    match s.producers i with
    | .called call =>
      some ({ s.setProducer i (.answered call (s.fifo.push call).2) with fifo := (s.fifo.push call).1 }, [])
    | _ => none
  | .returnPush i =>
    match s.producers i with
    | .answered call accepted => some (s.setProducer i .idle, [.pushReturned call accepted])
    | _ => none
  | .callPop =>
    match s.consumer with
    | .idle => some ({ s with consumer := .called }, [.popCalled])
    | _ => none
  | .pop =>
    match s.consumer with
    | .called =>
      some ({ s with fifo := s.fifo.pop.1, consumer := .answered (s.fifo.pop.2.map PushCall.value) }, [])
    | _ => none
  | .popNothing =>
    match s.consumer, s.fifo.held.head? with
    | .called, some oldest =>
      if (s.producers oldest.producer).isReturning oldest then some ({ s with consumer := .answered none }, [])
      else none
    | _, _ => none
  | .returnPop =>
    match s.consumer with
    | .answered result => some ({ s with consumer := .idle }, [.popReturned result])
    | _ => none

end AtomicQueue

/-- Any number of producers and one consumer, at an atomic queue. -/
def atomicMachine (ι α : Type) [DecidableEq ι] (capacity : Nat) :
    Machine (AtomicQueue ι α capacity) (AtomicAction ι α) (CallerEvent ι α) where
  initial := ⟨.empty _ capacity, fun _ => .idle, fun _ => 0, .idle⟩
  step := AtomicQueue.step

namespace AtomicQueue

variable [DecidableEq ι] {s : AtomicQueue ι α capacity} {i : ι} {call oldest : PushCall ι α}

theorem step_callPush (idle : s.producers i = .idle) (value : α) :
    (atomicMachine ι α capacity).step s (.callPush i value) = some ({ s.setProducer i (.called ⟨i, s.calls i, value⟩) with
      calls := Function.update s.calls i (s.calls i + 1) }, [.pushCalled ⟨i, s.calls i, value⟩]) := by
  simp only [atomicMachine, step, idle]

theorem step_push (called : s.producers i = .called call) :
    (atomicMachine ι α capacity).step s (.push i) = some ({ s.setProducer i (.answered call (s.fifo.push call).2) with
      fifo := (s.fifo.push call).1 }, []) := by
  simp only [atomicMachine, step, called]

theorem step_returnPush {accepted : Bool} (answered : s.producers i = .answered call accepted) :
    (atomicMachine ι α capacity).step s (.returnPush i) = some (s.setProducer i .idle, [.pushReturned call accepted]) := by
  simp only [atomicMachine, step, answered]

theorem step_callPop (idle : s.consumer = .idle) :
    (atomicMachine ι α capacity).step s .callPop = some ({ s with consumer := .called }, [.popCalled]) := by
  simp only [atomicMachine, step, idle]

theorem step_pop (called : s.consumer = .called) :
    (atomicMachine ι α capacity).step s .pop = some ({ s with
      fifo := s.fifo.pop.1
      consumer := .answered (s.fifo.pop.2.map PushCall.value) }, []) := by
  simp only [atomicMachine, step, called]

theorem step_popNothing (called : s.consumer = .called) (first : s.fifo.held.head? = some oldest)
    (returning : (s.producers oldest.producer).isReturning oldest = true) :
    (atomicMachine ι α capacity).step s .popNothing = some ({ s with consumer := .answered none }, []) := by
  simp only [atomicMachine, step, called, first, returning, if_true]

theorem step_returnPop {result : Option α} (answered : s.consumer = .answered result) :
    (atomicMachine ι α capacity).step s .returnPop = some ({ s with consumer := .idle }, [.popReturned result]) := by
  simp only [atomicMachine, step, answered]

end AtomicQueue

end ConsolidatedBook
