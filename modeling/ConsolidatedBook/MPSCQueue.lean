import ConsolidatedBook.Machine
import Mathlib.Logic.Function.Basic

namespace ConsolidatedBook

/-- The arithmetic of positions and sequence numbers. `diff` is the code's
`(intptr_t)a - (intptr_t)b`. -/
class PositionWord (W : Type) where
  ofNat : Nat → W
  toNat : W → Nat
  add : W → Nat → W
  diff : W → W → Int

/-- Positions that never wrap. -/
instance : PositionWord Nat where
  ofNat n := n
  toNat n := n
  add n k := n + k
  diff a b := a - b

/-- `size_t` positions, with the two's complement difference. -/
instance : PositionWord (BitVec 64) where
  ofNat n := BitVec.ofNat 64 n
  toNat w := w.toNat
  add w k := w + BitVec.ofNat 64 k
  diff a b := (a - b).toInt

/-- What the queue needs of its element type: the value a cell is built with,
and what a move leaves behind in the object it moves from. -/
class Movable (α : Type) where
  initial : α
  movedFrom : α → α

/-- The template's default element type; a moved-from string is empty. -/
instance : Movable String := ⟨"", fun _ => ""⟩

/-- A non-zero `Capacity` that passes the `static_assert`. -/
structure Capacity where
  size : Nat
  positive : 0 < size
  powerOfTwo : size &&& (size - 1) = 0

/-- The template's default, `Capacity = 4096`. -/
def Capacity.default : Capacity := ⟨4096, by decide, by decide⟩

structure Cell (W α : Type) where
  sequence : W
  data : α

structure MPSCQueue (W α : Type) (c : Capacity) where
  enqueuePos : W
  dequeuePos : W
  buffer : Fin c.size → Cell W α

open PositionWord (ofNat toNat add diff)

variable {W ι α : Type} [PositionWord W] [Movable α] {c : Capacity}

/-- The cell of a position, `pos & (Capacity - 1)`. -/
def Capacity.slot (c : Capacity) (pos : W) : Fin c.size :=
  ⟨toNat pos &&& (c.size - 1), Nat.lt_of_le_of_lt Nat.and_le_right (Nat.sub_lt c.positive Nat.one_pos)⟩

namespace MPSCQueue

/-- The constructor stamps each cell with its own index. -/
def init (W α : Type) [PositionWord W] [Movable α] (c : Capacity) : MPSCQueue W α c where
  enqueuePos := ofNat 0
  dequeuePos := ofNat 0
  buffer i := ⟨ofNat i, Movable.initial⟩

def sequenceAt (q : MPSCQueue W α c) (pos : W) : W := (q.buffer (c.slot pos)).sequence

def dataAt (q : MPSCQueue W α c) (pos : W) : α := (q.buffer (c.slot pos)).data

def storeSequence (q : MPSCQueue W α c) (pos sequence : W) : MPSCQueue W α c :=
  { q with buffer := Function.update q.buffer (c.slot pos) ⟨sequence, q.dataAt pos⟩ }

def storeData (q : MPSCQueue W α c) (pos : W) (data : α) : MPSCQueue W α c :=
  { q with buffer := Function.update q.buffer (c.slot pos) ⟨q.sequenceAt pos, data⟩ }

end MPSCQueue

/-- One call of `Push`: its thread, its place in that thread's program, and
its argument. Only the argument is read by the code. -/
structure PushCall (ι α : Type) where
  producer : ι
  serial : Nat
  value : α
deriving DecidableEq

/-- Where a thread stands in `push_impl`: at the access that it makes next. -/
inductive PushPhase (W ι α : Type)
  | idle
  | loadEnqueuePos (call : PushCall ι α)
  | loadSequence (call : PushCall ι α) (pos : W)
  | compareExchange (call : PushCall ι α) (pos : W)
  | writeData (call : PushCall ι α) (pos : W)
  | publish (call : PushCall ι α) (pos : W)
  | returns (call : PushCall ι α) (accepted : Bool)

/-- Where the consumer stands in `Pop`. -/
inductive PopPhase (W α : Type)
  | idle
  | loadDequeuePos
  | loadSequence (pos : W)
  | moveData (pos : W)
  | release (pos : W) (result : α)
  | advance (pos : W) (result : α)
  | returns (result : Option α)

inductive QueueEvent (W ι α : Type)
  | pushCalled (call : PushCall ι α)
  | claimed (call : PushCall ι α) (pos : W)
  | published (call : PushCall ι α) (pos : W)
  | pushReturned (call : PushCall ι α) (accepted : Bool)
  | popCalled
  | taken (pos : W)
  | released (pos : W)
  | popReturned (result : Option α)
deriving DecidableEq

/-- One access of `push_impl` by the thread at `phase`, with the local
computation up to its next one. `weakFails` is a spurious failure of the
`compare_exchange_weak`, which loads `enqueuePos` into `pos` as any failure does. -/
def MPSCQueue.pushImplStep [DecidableEq W] (q : MPSCQueue W α c) (weakFails : Bool) :
    PushPhase W ι α → MPSCQueue W α c × PushPhase W ι α × List (QueueEvent W ι α)
  | .idle => (q, .idle, [])
  | .loadEnqueuePos call => (q, .loadSequence call q.enqueuePos, [])
  | .loadSequence call pos =>
    if diff (q.sequenceAt pos) pos = 0 then (q, .compareExchange call pos, [])
    else if diff (q.sequenceAt pos) pos < 0 then (q, .returns call false, [])
    else (q, .loadEnqueuePos call, [])
  | .compareExchange call pos =>
    if q.enqueuePos = pos ∧ weakFails = false then
      ({ q with enqueuePos := add pos 1 }, .writeData call pos, [.claimed call pos])
    else (q, .loadSequence call q.enqueuePos, [])
  | .writeData call pos => (q.storeData pos call.value, .publish call pos, [])
  | .publish call pos => (q.storeSequence pos (add pos 1), .returns call true, [.published call pos])
  | .returns call accepted => (q, .idle, [.pushReturned call accepted])

/-- One access of `Pop` by the consumer. -/
def MPSCQueue.popStep (q : MPSCQueue W α c) :
    PopPhase W α → MPSCQueue W α c × PopPhase W α × List (QueueEvent W ι α)
  | .idle => (q, .idle, [])
  | .loadDequeuePos => (q, .loadSequence q.dequeuePos, [])
  | .loadSequence pos =>
    if diff (q.sequenceAt pos) (add pos 1) ≠ 0 then (q, .returns none, []) else (q, .moveData pos, [])
  | .moveData pos =>
    (q.storeData pos (Movable.movedFrom (q.dataAt pos)), .release pos (q.dataAt pos), [.taken pos])
  | .release pos result =>
    (q.storeSequence pos (add pos c.size), .advance pos result, [.released pos])
  | .advance pos result => ({ q with dequeuePos := add pos 1 }, .returns (some result), [])
  | .returns result => (q, .idle, [.popReturned result])

/-- A producer thread, and how many times it has called `Push` so far. -/
structure Producer (W ι α : Type) where
  phase : PushPhase W ι α
  calls : Nat

/-- The shared queue, any number of producer threads, and the one consumer. -/
structure QueueState (W ι α : Type) (c : Capacity) where
  queue : MPSCQueue W α c
  producers : ι → Producer W ι α
  consumer : PopPhase W α

def QueueState.setProducer [DecidableEq ι] (s : QueueState W ι α c) (i : ι) (p : Producer W ι α) :
    QueueState W ι α c :=
  { s with producers := Function.update s.producers i p }

inductive QueueAction (ι α : Type)
  | callPush (producer : ι) (value : α)
  | stepPush (producer : ι) (weakFails : Bool)
  | callPop
  | stepPop

def PushPhase.isIdle : PushPhase W ι α → Bool
  | .idle => true
  | _ => false

def PopPhase.isIdle : PopPhase W α → Bool
  | .idle => true
  | _ => false

/-- Any thread may take its next step at any time, and an idle one may call. -/
def QueueState.step [DecidableEq W] [DecidableEq ι] (s : QueueState W ι α c) :
    QueueAction ι α → Option (QueueState W ι α c × List (QueueEvent W ι α))
  | .callPush i value =>
    if (s.producers i).phase.isIdle then
      let call : PushCall ι α := ⟨i, (s.producers i).calls, value⟩
      some (s.setProducer i ⟨.loadEnqueuePos call, (s.producers i).calls + 1⟩, [.pushCalled call])
    else none
  | .stepPush i weakFails =>
    if (s.producers i).phase.isIdle then none
    else
      let (queue, phase, events) := s.queue.pushImplStep weakFails (s.producers i).phase
      some ({ s.setProducer i ⟨phase, (s.producers i).calls⟩ with queue := queue }, events)
  | .callPop =>
    if s.consumer.isIdle then some ({ s with consumer := .loadDequeuePos }, [.popCalled]) else none
  | .stepPop =>
    if s.consumer.isIdle then none
    else
      let (queue, consumer, events) := s.queue.popStep s.consumer
      some ({ s with queue := queue, consumer := consumer }, events)

def queueMachine (W ι α : Type) [PositionWord W] [DecidableEq W] [DecidableEq ι] [Movable α]
    (c : Capacity) : Machine (QueueState W ι α c) (QueueAction ι α) (QueueEvent W ι α) where
  initial := ⟨MPSCQueue.init W α c, fun _ => ⟨.idle, 0⟩, .idle⟩
  step := QueueState.step

end ConsolidatedBook
