import ConsolidatedBook.BoundedFifo
import ConsolidatedBook.MPSCQueue.Slots

namespace ConsolidatedBook

open PositionWord (ofNat toNat add diff)

variable {W α : Type} [PositionWord W] {c : Capacity}

/-- The words count positions exactly on everything within one lap: adding,
finding the cell and telling two positions apart agree with the naturals. No
number is compared with a position a whole lap behind it. -/
structure PositionWord.Exact (W : Type) [PositionWord W] (c : Capacity) : Prop where
  add_ofNat : ∀ n k : Nat, add (ofNat n : W) k = ofNat (n + k)
  slot_ofNat : ∀ n : Nat, c.slot (ofNat n : W) = c.slot n
  diff_ofNat : ∀ a b : Nat, a < b + c.size → b ≤ a + c.size → diff (ofNat a : W) (ofNat b) = (a : Int) - b

/-- `size_t` words do so for every capacity that a `size_t` can hold, whatever
number of laps through `2 ^ 64` lies behind the positions. -/
theorem PositionWord.exact_bitVec {k : Nat} (size : c.size = 2 ^ k) (small : k ≤ 63) :
    PositionWord.Exact (BitVec 64) c where
  add_ofNat n k := by
    change BitVec.ofNat 64 n + BitVec.ofNat 64 k = BitVec.ofNat 64 (n + k)
    rw [BitVec.ofNat_add]
  slot_ofNat n := by
    apply Fin.ext
    have divides : 2 ^ k ∣ 2 ^ 64 := Nat.pow_dvd_pow 2 (by omega)
    rw [Capacity.slot_val, Capacity.slot_val, toNat_nat, size]
    exact Nat.mod_mod_of_dvd n divides
  diff_ofNat a b above below := by
    have bound : c.size ≤ 2 ^ 63 := size ▸ Nat.pow_le_pow_right (by decide) small
    change (BitVec.ofNat 64 a - BitVec.ofNat 64 b).toInt = (a : Int) - b
    rw [BitVec.toInt_sub, BitVec.toInt_ofNat', BitVec.toInt_ofNat', Int.sub_bmod_bmod, Int.bmod_sub_bmod]
    exact Int.bmod_eq_of_le (by omega) (by omega)

namespace MPSCQueue

section Calls

variable [DecidableEq W]

/-- A `Push` whose thread runs alone, from `phase` on. The list tells, access
by access, if a compare-exchange made there fails spuriously; `none` is a list
that ends before the call returns. -/
def runPush : List Bool → MPSCQueue W α c → PushPhase W Unit α → Option (MPSCQueue W α c × Bool)
  | _, q, .returns _ accepted => some (q, accepted)
  | [], _, _ => none
  | weakFails :: later, q, phase =>
    let (q, phase, _) := q.pushImplStep weakFails phase
    runPush later q phase

def push (weakFails : List Bool) (q : MPSCQueue W α c) (value : α) : Option (MPSCQueue W α c × Bool) :=
  runPush weakFails q (.loadEnqueuePos ⟨(), 0, value⟩)

/-- A `Pop` from `phase` on, given at most `fuel` accesses. -/
def runPop [Movable α] : Nat → MPSCQueue W α c → PopPhase W α → Option (MPSCQueue W α c × Option α)
  | _, q, .returns result => some (q, result)
  | 0, _, _ => none
  | fuel + 1, q, phase =>
    let (q, phase, _) := popStep (ι := Unit) q phase
    runPop fuel q phase

/-- `Pop` makes five accesses at most. -/
def pop [Movable α] (q : MPSCQueue W α c) : Option (MPSCQueue W α c × Option α) :=
  runPop 5 q .loadDequeuePos

/-- The ring after an accepted `Push`. -/
def pushed (q : MPSCQueue W α c) (value : α) : MPSCQueue W α c :=
  ({ q with enqueuePos := add q.enqueuePos 1 }.storeData q.enqueuePos value).storeSequence
    q.enqueuePos (add q.enqueuePos 1)

theorem runPush_returns (weakFails : List Bool) (q : MPSCQueue W α c) (call : PushCall Unit α)
    (accepted : Bool) : runPush weakFails q (.returns call accepted) = some (q, accepted) := by
  cases weakFails <;> rfl

/-- A returned call stays returned when more accesses are granted. -/
theorem runPush_append {weakFails more : List Bool} {q : MPSCQueue W α c} {phase : PushPhase W Unit α}
    {result : MPSCQueue W α c × Bool} (run : runPush weakFails q phase = some result) :
    runPush (weakFails ++ more) q phase = some result := by
  induction weakFails generalizing q phase with
  | nil =>
    cases phase with
    | returns call accepted => exact (runPush_returns more q call accepted).trans run
    | _ => cases run
  | cons fails later ih =>
    cases phase with
    | returns call accepted => exact run
    | _ => exact ih run

/-- From its successful compare-exchange on, a call needs two accesses. -/
theorem runPush_writeData {weakFails : List Bool} (enough : 2 ≤ weakFails.length) (q : MPSCQueue W α c)
    (call : PushCall Unit α) (pos : W) :
    runPush weakFails q (.writeData call pos) =
      some ((q.storeData pos call.value).storeSequence pos (add pos 1), true) := by
  match weakFails, enough with
  | _ :: _ :: later, _ => exact runPush_returns later _ call true

/-- The phases of a call that runs alone and has not claimed its position. -/
def Attempting (q : MPSCQueue W α c) (call : PushCall Unit α) : PushPhase W Unit α → Prop
  | .loadEnqueuePos own => own = call
  | .loadSequence own pos => own = call ∧ pos = q.enqueuePos
  | .compareExchange own pos => own = call ∧ pos = q.enqueuePos ∧ diff (q.sequenceAt pos) pos = 0
  | _ => False

/-- Once its compare-exchange no longer fails spuriously, a call that runs
alone returns within five accesses: it is accepted if the cell at
`enqueuePos` is free, and refused if that cell is behind. -/
theorem runPush_attempting {q : MPSCQueue W α c} {call : PushCall Unit α}
    (settled : diff (q.sequenceAt q.enqueuePos) q.enqueuePos ≤ 0) (weakFails : List Bool)
    {phase : PushPhase W Unit α} (attempt : q.Attempting call phase) :
    runPush (weakFails ++ List.replicate 5 false) q phase =
      some (if diff (q.sequenceAt q.enqueuePos) q.enqueuePos = 0 then (q.pushed call.value, true)
        else (q, false)) := by
  induction weakFails generalizing phase with
  | nil =>
    cases phase with
    | loadEnqueuePos own =>
      obtain rfl := attempt
      by_cases free : diff (q.sequenceAt q.enqueuePos) q.enqueuePos = 0
      · simp [List.replicate, runPush, pushImplStep, free, pushed]
      · have behind : diff (q.sequenceAt q.enqueuePos) q.enqueuePos < 0 := by omega
        simp [List.replicate, runPush, pushImplStep, free, behind]
    | loadSequence own pos =>
      obtain ⟨rfl, rfl⟩ := attempt
      by_cases free : diff (q.sequenceAt q.enqueuePos) q.enqueuePos = 0
      · simp [List.replicate, runPush, pushImplStep, free, pushed]
      · have behind : diff (q.sequenceAt q.enqueuePos) q.enqueuePos < 0 := by omega
        simp [List.replicate, runPush, pushImplStep, free, behind]
    | compareExchange own pos =>
      obtain ⟨rfl, rfl, free⟩ := attempt
      simp [List.replicate, runPush, pushImplStep, free, pushed]
    | _ => exact attempt.elim
  | cons fails later ih =>
    cases phase with
    | loadEnqueuePos own =>
      obtain rfl := attempt
      exact ih (show q.Attempting own (.loadSequence own q.enqueuePos) from ⟨rfl, rfl⟩)
    | loadSequence own pos =>
      obtain ⟨rfl, rfl⟩ := attempt
      by_cases free : diff (q.sequenceAt q.enqueuePos) q.enqueuePos = 0
      · simp only [List.cons_append, runPush, pushImplStep, if_pos free]
        rw [ih (show q.Attempting own (.compareExchange own q.enqueuePos) from ⟨rfl, rfl, free⟩), if_pos free]
      · have behind : diff (q.sequenceAt q.enqueuePos) q.enqueuePos < 0 := by omega
        simp only [List.cons_append, runPush, pushImplStep, if_neg free, if_pos behind, runPush_returns]
    | compareExchange own pos =>
      obtain ⟨rfl, rfl, free⟩ := attempt
      cases fails with
      | true =>
        simp only [List.cons_append, runPush, pushImplStep, Bool.true_eq_false, and_false, if_false]
        exact ih (show q.Attempting own (.loadSequence own q.enqueuePos) from ⟨rfl, rfl⟩)
      | false =>
        simp only [List.cons_append, runPush, pushImplStep, and_self, if_true, if_pos free]
        exact runPush_writeData (by simp) _ own q.enqueuePos
    | _ => exact attempt.elim

/-- The ring after a `Pop` that found a value. -/
def popped [Movable α] (q : MPSCQueue W α c) : MPSCQueue W α c :=
  { (q.storeData q.dequeuePos (Movable.movedFrom (q.dataAt q.dequeuePos))).storeSequence
      q.dequeuePos (add q.dequeuePos c.size) with dequeuePos := add q.dequeuePos 1 }

omit [DecidableEq W] in
theorem pop_eq [Movable α] (q : MPSCQueue W α c) :
    q.pop = some (if diff (q.sequenceAt q.dequeuePos) (add q.dequeuePos 1) = 0 then
      (q.popped, some (q.dataAt q.dequeuePos)) else (q, none)) := by
  by_cases ready : diff (q.sequenceAt q.dequeuePos) (add q.dequeuePos 1) = 0
  · simp [pop, runPop, popStep, ready, popped]
  · simp [pop, runPop, popStep, ready]

end Calls

/-- The ring's representation of the values `held`, the oldest of them at
position `first`. -/
structure Holds (q : MPSCQueue W α c) (first : Nat) (held : List α) : Prop where
  dequeue : q.dequeuePos = ofNat first
  enqueue : q.enqueuePos = ofNat (first + held.length)
  bounded : held.length ≤ c.size
  filled : ∀ i value, held[i]? = some value →
    q.sequenceAt (ofNat (first + i)) = ofNat (first + i + 1) ∧ q.dataAt (ofNat (first + i)) = value
  vacant : ∀ p, first + held.length ≤ p → p < first + c.size → q.sequenceAt (ofNat p) = ofNat p

namespace Holds

variable {q : MPSCQueue W α c} {first : Nat} {held : List α}

theorem init [Movable α] (exact_ : PositionWord.Exact W c) : (MPSCQueue.init W α c).Holds 0 [] := by
  refine ⟨rfl, rfl, Nat.zero_le _, ?_, ?_⟩
  · intro i value entry
    cases entry
  · intro p _ upper
    have within : p < c.size := by omega
    simp only [sequenceAt, MPSCQueue.init, exact_.slot_ofNat, Capacity.slot_val, toNat_nat,
      Nat.mod_eq_of_lt within]

/-- The number at `enqueuePos`: free while there is room, one lap behind else. -/
theorem diff_enqueuePos (holds : q.Holds first held) (exact_ : PositionWord.Exact W c) :
    diff (q.sequenceAt q.enqueuePos) q.enqueuePos = if held.length < c.size then 0 else 1 - (c.size : Int) := by
  rw [holds.enqueue]
  split
  · rename_i room
    rw [holds.vacant _ le_rfl (by omega), exact_.diff_ofNat _ _ (by omega) (by omega)]
    omega
  · have full : held.length = c.size := by have := holds.bounded; omega
    have positive := c.positive
    have oldest := List.getElem?_eq_getElem (show 0 < held.length by omega)
    have same : c.slot (ofNat (first + held.length) : W) = c.slot (ofNat (first + 0) : W) := by
      rw [exact_.slot_ofNat, exact_.slot_ofNat, full, Nat.add_zero, Capacity.slot_add_size]
    have stamp : q.sequenceAt (ofNat (first + held.length)) = ofNat (first + 0 + 1) := by
      rw [sequenceAt, same]
      exact (holds.filled 0 _ oldest).1
    rw [stamp, exact_.diff_ofNat _ _ (by omega) (by omega)]
    omega

theorem pushed (holds : q.Holds first held) (exact_ : PositionWord.Exact W c)
    (room : held.length < c.size) (value : α) : (q.pushed value).Holds first (held ++ [value]) := by
  have enqueue := holds.enqueue
  -- within the lap, the two stores reach the position behind the last value and no other
  have apart : ∀ p, first ≤ p → p < first + c.size → p ≠ first + held.length →
      c.slot (ofNat p : W) ≠ c.slot q.enqueuePos := by
    intro p low high different same
    rw [enqueue, exact_.slot_ofNat, exact_.slot_ofNat] at same
    exact different (c.slot_injOn low high (by omega) (by omega) same)
  refine ⟨holds.dequeue, ?_, ?_, ?_, ?_⟩
  · change add q.enqueuePos 1 = ofNat (first + (held ++ [value]).length)
    rw [enqueue, exact_.add_ofNat, List.length_append, List.length_singleton, Nat.add_assoc]
  · rw [List.length_append, List.length_singleton]
    exact room
  · intro i entry atI
    rw [MPSCQueue.pushed, sequenceAt_storeSequence, dataAt_storeSequence, dataAt_storeData,
      sequenceAt_storeData]
    by_cases old : i < held.length
    · rw [List.getElem?_append_left old] at atI
      rw [if_neg (apart _ (by omega) (by omega) (by omega)), if_neg (apart _ (by omega) (by omega) (by omega))]
      exact holds.filled i entry atI
    · have last : i = held.length := by
        have within := (List.getElem?_eq_some_iff.mp atI).1
        rw [List.length_append, List.length_singleton] at within
        omega
      subst last
      rw [List.getElem?_concat_length] at atI
      rw [enqueue, if_pos rfl, if_pos rfl, exact_.add_ofNat]
      exact ⟨rfl, Option.some.inj atI⟩
  · intro p low high
    rw [List.length_append, List.length_singleton] at low
    rw [MPSCQueue.pushed, sequenceAt_storeSequence, sequenceAt_storeData,
      if_neg (apart p (by omega) high (by omega))]
    exact holds.vacant p (by omega) high

/-- The number at `dequeuePos`: published if a value is held, free else. -/
theorem diff_dequeuePos (holds : q.Holds first held) (exact_ : PositionWord.Exact W c) :
    diff (q.sequenceAt q.dequeuePos) (add q.dequeuePos 1) = if held = [] then -1 else 0 := by
  rw [holds.dequeue, exact_.add_ofNat]
  have positive := c.positive
  cases held with
  | nil =>
    rw [holds.vacant first le_rfl (by omega), exact_.diff_ofNat _ _ (by omega) (by omega)]
    simp only [if_true]
    omega
  | cons value rest =>
    have stamp := (holds.filled 0 value rfl).1
    rw [Nat.add_zero] at stamp
    rw [stamp, exact_.diff_ofNat _ _ (by omega) (by omega)]
    simp only [reduceCtorEq, if_false]
    omega

theorem popped [Movable α] {value : α} {rest : List α} (holds : q.Holds first (value :: rest))
    (exact_ : PositionWord.Exact W c) : q.popped.Holds (first + 1) rest := by
  have dequeue := holds.dequeue
  have bounded := holds.bounded
  rw [List.length_cons] at bounded
  -- of the next lap, the stores reach only the position one lap ahead of the one popped
  have apart : ∀ p, first + 1 ≤ p → p < first + c.size → c.slot (ofNat p : W) ≠ c.slot q.dequeuePos := by
    intro p low high same
    rw [dequeue, exact_.slot_ofNat, exact_.slot_ofNat] at same
    have here := c.slot_injOn (by omega : first ≤ p) high le_rfl (by omega) same
    omega
  have sequence : ∀ p : W, q.popped.sequenceAt p =
      if c.slot p = c.slot q.dequeuePos then add q.dequeuePos c.size else q.sequenceAt p := by
    intro p
    refine (sequenceAt_storeSequence p q.dequeuePos _).trans ?_
    rw [sequenceAt_storeData]
  have data : ∀ p : W, q.popped.dataAt p = if c.slot p = c.slot q.dequeuePos then
      Movable.movedFrom (q.dataAt q.dequeuePos) else q.dataAt p := by
    intro p
    exact (dataAt_storeSequence p q.dequeuePos _).trans (dataAt_storeData p q.dequeuePos _)
  refine ⟨?_, ?_, by omega, ?_, ?_⟩
  · change add q.dequeuePos 1 = ofNat (first + 1)
    rw [dequeue, exact_.add_ofNat]
  · refine holds.enqueue.trans ?_
    rw [List.length_cons, Nat.add_comm rest.length, Nat.add_assoc]
  · intro i entry atI
    have within := (List.getElem?_eq_some_iff.mp atI).1
    have next : first + 1 + i = first + (i + 1) := by omega
    rw [sequence, data, if_neg (apart _ (by omega) (by omega)), if_neg (apart _ (by omega) (by omega)), next]
    exact holds.filled (i + 1) entry (by rw [List.getElem?_cons_succ]; exact atI)
  · intro p low high
    rw [sequence]
    by_cases lap : p = first + c.size
    · subst lap
      rw [if_pos (by rw [dequeue, exact_.slot_ofNat, exact_.slot_ofNat, Capacity.slot_add_size]),
        dequeue, exact_.add_ofNat]
    · rw [if_neg (apart p (by omega) (by omega))]
      exact holds.vacant p (by rw [List.length_cons]; omega) (by omega)

end Holds

/-- The runs of non-overlapping calls, each with the bounded FIFO that is
asked the same. -/
inductive SequentialRun [DecidableEq W] [Movable α] : MPSCQueue W α c → BoundedFifo α c.size → Prop
  | init : SequentialRun (MPSCQueue.init W α c) (.empty α c.size)
  | push {q q' fifo weakFails value accepted} : SequentialRun q fifo →
      q.push weakFails value = some (q', accepted) → SequentialRun q' (fifo.push value).1
  | pop {q q' fifo result} : SequentialRun q fifo → q.pop = some (q', result) → SequentialRun q' fifo.pop.1

section Runs

variable [DecidableEq W] {q q' : MPSCQueue W α c} {fifo : BoundedFifo α c.size} {first : Nat}

theorem Holds.push (holds : q.Holds first fifo.held) (exact_ : PositionWord.Exact W c) (two : 2 ≤ c.size)
    (weakFails : List Bool) (value : α) :
    q.push (weakFails ++ List.replicate 5 false) value =
      some (if fifo.held.length < c.size then (q.pushed value, true) else (q, false)) := by
  have number := holds.diff_enqueuePos exact_
  have settled : diff (q.sequenceAt q.enqueuePos) q.enqueuePos ≤ 0 := by
    rw [number]
    split <;> omega
  have attempt : q.Attempting ⟨(), 0, value⟩ (.loadEnqueuePos ⟨(), 0, value⟩) := rfl
  refine (runPush_attempting settled weakFails attempt).trans ?_
  rw [number]
  by_cases room : fifo.held.length < c.size
  · simp only [if_pos room, if_true]
  · have lap : (1 - (c.size : Int)) ≠ 0 := by omega
    simp only [if_neg room, if_neg lap]

theorem Holds.push_result (holds : q.Holds first fifo.held) (exact_ : PositionWord.Exact W c)
    (two : 2 ≤ c.size) {weakFails : List Bool} {value : α} {accepted : Bool}
    (run : q.push weakFails value = some (q', accepted)) :
    (q', accepted) = if fifo.held.length < c.size then (q.pushed value, true) else (q, false) :=
  Option.some.inj ((runPush_append run).symm.trans (holds.push exact_ two weakFails value))

variable [Movable α]

omit [DecidableEq W] in
theorem Holds.pop (holds : q.Holds first fifo.held) (exact_ : PositionWord.Exact W c) :
    q.pop = some (if fifo.held = [] then (q, none) else (q.popped, fifo.held.head?)) := by
  rw [pop_eq, holds.diff_dequeuePos exact_]
  cases same : fifo.held with
  | nil => simp
  | cons value rest =>
    rw [same] at holds
    have data := (holds.filled 0 value rfl).2
    rw [Nat.add_zero, ← holds.dequeue] at data
    simp [data]

/-- The ring and the bounded FIFO hold the same values after every run. -/
theorem SequentialRun.holds (exact_ : PositionWord.Exact W c) (two : 2 ≤ c.size)
    (run : SequentialRun q fifo) : ∃ first, q.Holds first fifo.held := by
  induction run with
  | init => exact ⟨0, .init exact_⟩
  | @push q q' fifo weakFails value accepted _ call ih =>
    obtain ⟨first, holds⟩ := ih
    have result := holds.push_result exact_ two call
    by_cases room : fifo.held.length < c.size
    · rw [if_pos room] at result
      cases result
      rw [BoundedFifo.push_held_of_room room]
      exact ⟨first, holds.pushed exact_ room value⟩
    · rw [if_neg room] at result
      cases result
      rw [BoundedFifo.push_of_full room]
      exact ⟨first, holds⟩
  | @pop q q' fifo result _ call ih =>
    obtain ⟨first, holds⟩ := ih
    have result := holds.pop exact_
    rw [call] at result
    cases same : fifo.held with
    | nil =>
      rw [same, if_pos rfl] at result
      cases result
      rw [BoundedFifo.pop_of_nil same]
      exact ⟨first, holds⟩
    | cons value rest =>
      rw [same, if_neg (List.cons_ne_nil value rest)] at result
      cases result
      rw [same] at holds
      rw [(BoundedFifo.pop_of_cons same).1]
      exact ⟨first + 1, holds.popped exact_⟩

end Runs

end MPSCQueue

/-- Used without overlap, the queue over machine words is the bounded FIFO of
its capacity for ever: each call returns once its compare-exchange stops failing
spuriously, answers as the FIFO does, and changes nothing when it refuses. -/
theorem mpscQueue_sequential_fifo [Movable α] {k : Nat} (positive : 1 ≤ k) (small : k ≤ 62)
    (size : c.size = 2 ^ k) {q : MPSCQueue (BitVec 64) α c} {fifo : BoundedFifo α c.size}
    (run : q.SequentialRun fifo) :
    (∀ weakFails value, ∃ q',
      q.push (weakFails ++ List.replicate 5 false) value = some (q', (fifo.push value).2)) ∧
    (∀ weakFails value q' accepted, q.push weakFails value = some (q', accepted) →
      (accepted = true ↔ fifo.held.length < c.size) ∧
      (accepted = true → (fifo.push value).1.held = fifo.held ++ [value]) ∧
      (accepted = false → q' = q ∧ (fifo.push value).1 = fifo)) ∧
    (∃ q', q.pop = some (q', fifo.pop.2) ∧ (fifo.pop.2.isSome ↔ 1 ≤ fifo.held.length) ∧
      fifo.held = fifo.pop.2.toList ++ fifo.pop.1.held ∧ (fifo.pop.2 = none → q' = q ∧ fifo.pop.1 = fifo)) := by
  have exact_ := PositionWord.exact_bitVec size (Nat.le_succ_of_le small)
  have two : 2 ≤ c.size := by
    rw [size]
    exact le_trans (by decide : 2 ≤ 2 ^ 1) (Nat.pow_le_pow_right Nat.two_pos positive)
  obtain ⟨first, holds⟩ := run.holds exact_ two
  refine ⟨?_, ?_, ?_⟩
  · intro weakFails value
    rw [holds.push exact_ two]
    by_cases room : fifo.held.length < c.size
    · rw [if_pos room, BoundedFifo.push_accepted.mpr room]
      exact ⟨_, rfl⟩
    · rw [if_neg room, BoundedFifo.push_of_full room]
      exact ⟨_, rfl⟩
  · intro weakFails value q' accepted call
    have result := holds.push_result exact_ two call
    by_cases room : fifo.held.length < c.size
    · rw [if_pos room] at result
      cases result
      exact ⟨by simp only [room], fun _ => BoundedFifo.push_held_of_room room, (nomatch ·)⟩
    · rw [if_neg room] at result
      cases result
      rw [BoundedFifo.push_of_full room]
      exact ⟨by simp only [room, Bool.false_eq_true], (nomatch ·), fun _ => ⟨rfl, rfl⟩⟩
  · rw [holds.pop exact_]
    cases same : fifo.held with
    | nil =>
      rw [BoundedFifo.pop_of_nil same]
      exact ⟨q, by simp, by simp, by simp [same], fun _ => ⟨rfl, rfl⟩⟩
    | cons value rest =>
      obtain ⟨tail, head⟩ := BoundedFifo.pop_of_cons same
      rw [tail, head]
      exact ⟨q.popped, by simp, by simp, by simp, (nomatch ·)⟩

/-- A call whose first compare-exchange fails spuriously, and the `Pop` after it. -/
theorem mpscQueue_sequential_fifo_once :
    ∃ q q' : MPSCQueue (BitVec 64) String .default,
      (MPSCQueue.init (BitVec 64) String .default).push
        ([false, false, true] ++ List.replicate 5 false) "a" = some (q, true) ∧ q.pop = some (q', some "a") := by
  obtain ⟨returns, _⟩ := mpscQueue_sequential_fifo (k := 12) (by decide) (by decide) rfl
    (MPSCQueue.SequentialRun.init : (MPSCQueue.init (BitVec 64) String .default).SequentialRun _)
  obtain ⟨q, pushed⟩ := returns [false, false, true] "a"
  obtain ⟨_, _, q', popped, _⟩ := mpscQueue_sequential_fifo (k := 12) (by decide) (by decide) rfl
    (.push .init pushed)
  exact ⟨q, q', pushed, popped⟩

end ConsolidatedBook
