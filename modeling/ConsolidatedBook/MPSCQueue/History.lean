import ConsolidatedBook.MPSCQueue.Exclusion

namespace ConsolidatedBook

open PositionWord (ofNat toNat add diff)

variable {W ι α : Type} {c : Capacity}

/-- The successful compare-exchanges of a run in order, each with the
position it claimed. -/
def claims (history : List (QueueEvent W ι α)) : List (W × PushCall ι α) :=
  history.filterMap fun
    | .claimed call pos => some (pos, call)
    | _ => none

/-- The positions whose values `Pop` has moved out of their cells, in order. -/
def takenPositions (history : List (QueueEvent W ι α)) : List W :=
  history.filterMap fun
    | .taken pos => some pos
    | _ => none

/-- The positions that the consumer's sequence store has released, in order. -/
def releasedPositions (history : List (QueueEvent W ι α)) : List W :=
  history.filterMap fun
    | .released pos => some pos
    | _ => none

/-- The values that `Pop` has returned, in order. -/
def popped (history : List (QueueEvent W ι α)) : List α :=
  history.filterMap fun
    | .popReturned result => result
    | _ => none

/-- The serial numbers of the calls that thread `i` has begun, in order. -/
def serials [DecidableEq ι] (i : ι) (history : List (QueueEvent W ι α)) : List Nat :=
  history.filterMap fun
    | .pushCalled call => if call.producer = i then some call.serial else none
    | _ => none

@[simp] theorem claims_append (history events : List (QueueEvent W ι α)) :
    claims (history ++ events) = claims history ++ claims events := List.filterMap_append

@[simp] theorem takenPositions_append (history events : List (QueueEvent W ι α)) :
    takenPositions (history ++ events) = takenPositions history ++ takenPositions events :=
  List.filterMap_append

@[simp] theorem releasedPositions_append (history events : List (QueueEvent W ι α)) :
    releasedPositions (history ++ events) = releasedPositions history ++ releasedPositions events :=
  List.filterMap_append

@[simp] theorem popped_append (history events : List (QueueEvent W ι α)) :
    popped (history ++ events) = popped history ++ popped events := List.filterMap_append

@[simp] theorem serials_append [DecidableEq ι] (i : ι) (history events : List (QueueEvent W ι α)) :
    serials i (history ++ events) = serials i history ++ serials i events := List.filterMap_append

theorem mem_claims {history : List (QueueEvent W ι α)} {call : PushCall ι α} {pos : W} :
    (pos, call) ∈ claims history ↔ .claimed call pos ∈ history := by
  simp only [claims, List.mem_filterMap]
  constructor
  · rintro ⟨event, member, same⟩
    cases event with
    | claimed => cases same; exact member
    | _ => cases same
  · intro member
    exact ⟨_, member, rfl⟩

theorem mem_takenPositions {history : List (QueueEvent W ι α)} {pos : W} :
    pos ∈ takenPositions history ↔ .taken pos ∈ history := by
  simp only [takenPositions, List.mem_filterMap]
  constructor
  · rintro ⟨event, member, same⟩
    cases event with
    | taken => cases same; exact member
    | _ => cases same
  · intro member
    exact ⟨_, member, rfl⟩

namespace QueueState

/-- How many values `Pop` has moved out of their cells. -/
def taken (s : QueueState Nat ι α c) : Nat :=
  match s.consumer with
  | .release pos _ | .advance pos _ => pos + 1
  | _ => s.queue.dequeuePos

/-- The three cursors of the machine count the claims, takes and releases
that an observer has seen, each in position order. -/
structure Counted (s : QueueState Nat ι α c) (history : List (QueueEvent Nat ι α)) : Prop where
  claims : (claims history).map Prod.fst = List.range s.queue.enqueuePos
  taken : takenPositions history = List.range s.taken
  released : releasedPositions history = List.range s.released

variable {s t : QueueState Nat ι α c} {history events : List (QueueEvent Nat ι α)}

theorem RingInvariant.taken_le (inv : s.RingInvariant) : s.taken ≤ s.queue.enqueuePos := by
  cases at_ : s.consumer with
  | release pos result =>
    have upper := (inv.reading pos (by rw [at_]; rfl)).2
    simp only [QueueState.taken, at_]
    omega
  | _ => simpa only [QueueState.taken, QueueState.released, at_] using inv.released_le

theorem released_le_taken (inv : s.RingInvariant) : s.released ≤ s.taken := by
  cases at_ : s.consumer with
  | release pos result =>
    have here := inv.position pos (by rw [at_]; rfl)
    simp only [QueueState.taken, QueueState.released, at_, here]
    omega
  | _ => simp only [QueueState.taken, QueueState.released, at_, le_refl]

theorem Counted.length_claims (counted : s.Counted history) :
    (ConsolidatedBook.claims history).length = s.queue.enqueuePos := by
  rw [← List.length_map, counted.claims, List.length_range]

/-- The claim of position `pos` is the `pos`-th of the run. -/
theorem Counted.claims_getElem? (counted : s.Counted history) {call : PushCall ι α} {pos : Nat} :
    .claimed call pos ∈ history ↔ (ConsolidatedBook.claims history)[pos]? = some (pos, call) := by
  rw [← mem_claims]
  constructor
  · intro member
    obtain ⟨k, atK⟩ := List.mem_iff_getElem?.mp member
    have first : ((ConsolidatedBook.claims history).map Prod.fst)[k]? = some pos := by
      rw [List.getElem?_map, atK]
      rfl
    rw [counted.claims] at first
    obtain ⟨_, same⟩ := List.getElem?_eq_some_iff.mp first
    rw [List.getElem_range] at same
    rwa [same] at atK
  · exact List.mem_of_getElem?

theorem Counted.claimed_unique (counted : s.Counted history) {first second : PushCall ι α} {pos : Nat}
    (one : .claimed first pos ∈ history) (two : .claimed second pos ∈ history) : first = second := by
  rw [counted.claims_getElem?] at one two
  simpa only [one, Option.some.injEq, Prod.mk.injEq, true_and] using two

theorem Counted.claimed_lt (counted : s.Counted history) {call : PushCall ι α} {pos : Nat}
    (member : .claimed call pos ∈ history) : pos < s.queue.enqueuePos := by
  rw [← counted.length_claims]
  exact (List.getElem?_eq_some_iff.mp (counted.claims_getElem?.mp member)).1

theorem Counted.exists_claim (counted : s.Counted history) {pos : Nat} (within : pos < s.queue.enqueuePos) :
    ∃ call, .claimed call pos ∈ history := by
  have member : pos ∈ (ConsolidatedBook.claims history).map Prod.fst := by
    rw [counted.claims]
    exact List.mem_range.mpr within
  obtain ⟨⟨_, call⟩, claimed, rfl⟩ := List.mem_map.mp member
  exact ⟨call, mem_claims.mp claimed⟩

/-- One move extends each count by what its events show. -/
theorem Counted.append (counted : s.Counted history)
    (claimed : List.range t.queue.enqueuePos =
      List.range s.queue.enqueuePos ++ (ConsolidatedBook.claims events).map Prod.fst)
    (taken : List.range t.taken = List.range s.taken ++ takenPositions events)
    (released : List.range t.released = List.range s.released ++ releasedPositions events) :
    t.Counted (history ++ events) where
  claims := by rw [claims_append, List.map_append, counted.claims, claimed]
  taken := by rw [takenPositions_append, counted.taken, taken]
  released := by rw [releasedPositions_append, counted.released, released]

theorem Counted.quiet (counted : s.Counted history) (enqueue : t.queue.enqueuePos = s.queue.enqueuePos)
    (taken : t.taken = s.taken) (released : t.released = s.released)
    (quiet : ConsolidatedBook.claims events = [] ∧ takenPositions events = [] ∧
      releasedPositions events = []) : t.Counted (history ++ events) := by
  obtain ⟨noClaim, noTake, noRelease⟩ := quiet
  refine counted.append ?_ ?_ ?_
  · rw [enqueue, noClaim, List.map_nil, List.append_nil]
  · rw [taken, noTake, List.append_nil]
  · rw [released, noRelease, List.append_nil]

variable [DecidableEq ι] [Movable α]

theorem Counted.move (counted : s.Counted history) (inv : s.RingInvariant)
    (move : s.Move t events) : t.Counted (history ++ events) := by
  cases move with
  | claimed phase same =>
    subst same
    exact counted.append List.range_succ (List.append_nil _).symm (List.append_nil _).symm
  | @taken pos consumer =>
    have here := inv.position pos (by rw [consumer]; rfl)
    have before : s.taken = pos := by simp only [QueueState.taken, consumer, here]
    have kept : s.released = pos := by simp only [QueueState.released, consumer, here]
    refine counted.append (List.append_nil _).symm ?_ ?_
    · rw [before]
      exact List.range_succ
    · rw [kept]
      change List.range s.queue.dequeuePos = List.range pos ++ []
      rw [here, List.append_nil]
  | @released pos result consumer =>
    have here := inv.position pos (by rw [consumer]; rfl)
    have before : s.released = pos := by simp only [QueueState.released, consumer, here]
    have kept : s.taken = pos + 1 := by simp only [QueueState.taken, consumer]
    refine counted.append (List.append_nil _).symm ?_ ?_
    · rw [kept]
      exact (List.append_nil _).symm
    · rw [before]
      exact List.range_succ
  | pushCalled | positionLoaded | vacant | full | behind | failed | written | published | pushReturned =>
    exact counted.quiet rfl rfl rfl ⟨rfl, rfl, rfl⟩
  | popCalled consumer | dequeueLoaded consumer | empty consumer | ready consumer | popReturned consumer =>
    exact counted.quiet rfl (by simp only [QueueState.taken, consumer])
      (by simp only [QueueState.released, consumer]) ⟨rfl, rfl, rfl⟩
  | advanced consumer =>
    exact counted.quiet rfl (by simp only [QueueState.taken, consumer, add_nat])
      (by simp only [QueueState.released, consumer, add_nat]) ⟨rfl, rfl, rfl⟩

theorem Counted.reach (two : 2 ≤ c.size) (reach : (queueMachine Nat ι α c).Reach s history) :
    s.Counted history := by
  induction reach with
  | start => exact ⟨rfl, rfl, rfl⟩
  | next before step ih => exact ih.move (.reach two before) (step_move step)

end QueueState

section Exclusive

variable [DecidableEq ι] [Movable α] {s : QueueState Nat ι α c} {history : List (QueueEvent Nat ι α)}

/-- No cell's data is in the hands of two threads: neither of two producers
that have claimed it, nor of a producer and the consumer. The positions that
are claimed and not released therefore never outnumber the cells. -/
theorem mpscQueue_cells_exclusive (two : 2 ≤ c.size) (reach : (queueMachine Nat ι α c).Reach s history) :
    (∀ i j p q a b, i ≠ j → (s.producers i).phase.claim = some (p, a) →
      (s.producers j).phase.claim = some (q, b) → c.slot p ≠ c.slot q) ∧
    (∀ i p q a, (s.producers i).phase.claim = some (p, a) → s.consumer.reading = some q →
      c.slot p ≠ c.slot q) ∧
    (((claims history).map Prod.fst).filter (· ∉ releasedPositions history)).length ≤ c.size := by
  have inv := QueueState.RingInvariant.reach two reach
  have counted := QueueState.Counted.reach two reach
  refine ⟨?_, ?_, ?_⟩
  · intro i j p q a b different first second
    refine inv.claim_slot_ne ⟨a, first⟩ ⟨b, second⟩ ?_
    rintro rfl
    exact different (inv.exclusive i j p ⟨a, first⟩ ⟨b, second⟩)
  · intro i p q a first reading
    exact inv.claim_slot_ne_reading ⟨a, first⟩ reading
  · rw [counted.claims, counted.released]
    have bound := inv.claimed_le
    have low := inv.released_le
    have inside : (List.range s.queue.enqueuePos).filter (· ∉ List.range s.released) ⊆
        List.range' s.released c.size := by
      intro p member
      simp only [List.mem_filter, List.mem_range, decide_eq_true_eq] at member
      exact List.mem_range'_1.mpr (by omega)
    have distinct : ((List.range s.queue.enqueuePos).filter (· ∉ List.range s.released)).Nodup :=
      List.nodup_range.filter _
    simpa only [List.length_range'] using (distinct.subperm inside).length_le

/-- Two producers claim neighbouring positions before either has published. -/
def twoClaims : List (QueueAction Nat String) :=
  [.callPush 0 "a", .callPush 1 "b", .stepPush 0 false, .stepPush 0 false, .stepPush 0 false,
    .stepPush 1 false, .stepPush 1 false, .stepPush 1 false]

theorem mpscQueue_cells_exclusive_twoClaims :
    ∃ s history, (queueMachine Nat Nat String .default).run
        (queueMachine Nat Nat String .default).initial twoClaims = some (s, history) ∧
      (s.producers 0).phase = .writeData ⟨0, 0, "a"⟩ 0 ∧ (s.producers 1).phase = .writeData ⟨1, 0, "b"⟩ 1 ∧
      Capacity.default.slot 0 ≠ Capacity.default.slot 1 := by
  refine ⟨_, _, rfl, rfl, rfl, ?_⟩
  have reached := Machine.Reach.start.run
    (rfl : (queueMachine Nat Nat String .default).run _ twoClaims = some (_, _))
  exact (mpscQueue_cells_exclusive (by decide) reached).1 0 1 0 1 ⟨0, 0, "a"⟩ ⟨1, 0, "b"⟩ (by decide) rfl rfl

end Exclusive

end ConsolidatedBook
