import ConsolidatedBook.MPSCQueue.Calls

namespace ConsolidatedBook

variable {ι α : Type} {c : Capacity}

namespace QueueState

/-- Where the value of every claimed position is: not written yet, in its
cell, in `Pop`'s local result, or returned. -/
structure DataInvariant (s : QueueState Nat ι α c) (history : List (QueueEvent Nat ι α)) : Prop where
  claim : ∀ i pos call, (s.producers i).phase.claim = some (pos, call) → .claimed call pos ∈ history
  written : ∀ i pos call, (s.producers i).phase = .publish call pos → s.queue.dataAt pos = call.value
  intact : ∀ call pos, .claimed call pos ∈ history → s.taken ≤ pos →
    s.queue.sequenceAt pos = pos + 1 → s.queue.dataAt pos = call.value
  published : ∀ call pos, .published call pos ∈ history →
    .claimed call pos ∈ history ∧ ∀ i, ¬ s.Claims i pos
  hand : popped history ++ s.consumer.inHand.toList =
    ((claims history).take s.taken).map fun claim => claim.2.value

variable {s t : QueueState Nat ι α c} {history events : List (QueueEvent Nat ι α)} {i : ι} {pos : Nat}

/-- A step that claims, publishes and takes nothing, and leaves the cells alone. -/
theorem DataInvariant.frame (inv : s.DataInvariant history)
    (claim : ∀ i, (t.producers i).phase.claim = (s.producers i).phase.claim)
    (written : ∀ i call pos, (t.producers i).phase = .publish call pos →
      (s.producers i).phase = .publish call pos)
    (buffer : t.queue.buffer = s.queue.buffer) (taken : t.taken = s.taken)
    (hand : popped events ++ t.consumer.inHand.toList = s.consumer.inHand.toList)
    (claims : claims events = []) (published : ∀ call pos, .published call pos ∉ events) :
    t.DataInvariant (history ++ events) := by
  have claimed : ∀ call pos, .claimed call pos ∈ history ++ events ↔ .claimed call pos ∈ history := by
    intro call pos
    simp only [← mem_claims, claims_append, claims, List.append_nil]
  have data : ∀ p : Nat, t.queue.dataAt p = s.queue.dataAt p := fun p => by
    simp only [MPSCQueue.dataAt, buffer]
  have sequence : ∀ p : Nat, t.queue.sequenceAt p = s.queue.sequenceAt p := fun p => by
    simp only [MPSCQueue.sequenceAt, buffer]
  refine ⟨?_, ?_, ?_, ?_, ?_⟩
  · simpa only [claim, claimed] using inv.claim
  · intro i pos call phase
    rw [data]
    exact inv.written i pos call (written i call pos phase)
  · simpa only [claimed, taken, sequence, data] using inv.intact
  · simpa only [List.mem_append, published, or_false, claimed, Claims, claim] using inv.published
  · rw [popped_append, List.append_assoc, hand, claims_append, claims, List.append_nil, taken]
    exact inv.hand

section Producers

variable [DecidableEq ι]

theorem DataInvariant.setProducer (inv : s.DataInvariant history) {producer : Producer Nat ι α}
    (before : (s.producers i).phase.claim = none) (after : producer.phase.claim = none)
    (quiet : popped events = [] ∧ claims events = [] ∧ ∀ call pos, .published call pos ∉ events) :
    (s.setProducer i producer).DataInvariant (history ++ events) := by
  obtain ⟨pops, claims, published⟩ := quiet
  refine inv.frame ?_ ?_ rfl rfl (by rw [pops]; rfl) claims published
  · intro j
    rw [setProducer_producers]
    split
    · rename_i equal
      rw [equal, before, after]
    · rfl
  · intro j call pos phase
    rw [setProducer_producers] at phase
    split at phase
    · rw [phase] at after
      cases after
    · exact phase

theorem DataInvariant.claimed (inv : s.DataInvariant history) (ring : s.RingInvariant)
    (counted : s.Counted history) {call : PushCall ι α}
    (phase : (s.producers i).phase = .compareExchange call s.queue.enqueuePos) :
    DataInvariant { s.setPhase i (.writeData call s.queue.enqueuePos) with
      queue := { s.queue with enqueuePos := s.queue.enqueuePos + 1 } }
      (history ++ [.claimed call s.queue.enqueuePos]) := by
  have stamp := ring.vacant _ le_rfl (ring.checked i call _ phase)
  refine ⟨?_, ?_, ?_, ?_, ?_⟩
  · intro j pos call' claim
    simp only [setPhase_phase] at claim
    split at claim
    · cases claim
      exact List.mem_append_right _ (List.mem_singleton.mpr rfl)
    · exact List.mem_append_left _ (inv.claim j pos call' claim)
  · intro j pos call' target
    simp only [setPhase_phase] at target
    split at target
    · cases target
    · exact inv.written j pos call' target
  · intro call' pos member above published
    rcases List.mem_append.mp member with old | new
    · exact inv.intact call' pos old above published
    · cases List.mem_singleton.mp new
      exact absurd (stamp.symm.trans published) (Nat.ne_of_lt (Nat.lt_succ_self _))
  · intro call' pos member
    have old : .published call' pos ∈ history := by simpa using member
    obtain ⟨claimed, none⟩ := inv.published call' pos old
    refine ⟨List.mem_append_left _ claimed, ?_⟩
    intro j claims
    have within := counted.claimed_lt claimed
    change (s.setPhase i (.writeData call s.queue.enqueuePos)).Claims j pos at claims
    rw [setPhase, setProducer_claims] at claims
    split at claims
    · obtain ⟨_, same⟩ := claims
      cases same
      exact Nat.lt_irrefl _ within
    · exact none j claims
  · have room : s.taken ≤ (claims history).length := by
      rw [counted.length_claims]
      exact ring.taken_le
    change popped (history ++ _) ++ s.consumer.inHand.toList =
      ((claims (history ++ _)).take s.taken).map _
    rw [popped_append, claims_append, List.take_append_of_le_length room]
    exact (congrArg (· ++ _) (List.append_nil _)).trans inv.hand

theorem DataInvariant.wrote (inv : s.DataInvariant history) (ring : s.RingInvariant)
    {call : PushCall ι α} (phase : (s.producers i).phase = .writeData call pos) :
    DataInvariant { s.setPhase i (.publish call pos) with queue := s.queue.storeData pos call.value }
      (history ++ []) := by
  have claims : s.Claims i pos := ⟨call, by rw [phase]; rfl⟩
  obtain ⟨lower, upper, stamp⟩ := ring.claim i pos claims
  have bound := ring.claimed_le
  rw [List.append_nil]
  refine ⟨?_, ?_, ?_, ?_, inv.hand⟩
  · intro j pos' call' claim
    simp only [setPhase_phase] at claim
    split at claim
    · cases claim
      exact inv.claim i pos call (by rw [phase]; rfl)
    · exact inv.claim j pos' call' claim
  · intro j pos' call' target
    simp only [setPhase_phase] at target
    change (s.queue.storeData pos call.value).dataAt pos' = call'.value
    rw [MPSCQueue.dataAt_storeData]
    split at target
    · cases target
      exact if_pos rfl
    · rename_i other
      have claims' : s.Claims j pos' := ⟨call', by rw [target]; rfl⟩
      have apart : pos' ≠ pos := by
        rintro rfl
        exact other (ring.exclusive j i _ claims' claims)
      rw [if_neg (ring.claim_slot_ne claims' claims apart)]
      exact inv.written j pos' call' target
  · intro call' pos' member above published
    change (s.queue.storeData pos call.value).sequenceAt pos' = pos' + 1 at published
    change (s.queue.storeData pos call.value).dataAt pos' = call'.value
    rw [MPSCQueue.sequenceAt_storeData] at published
    rw [MPSCQueue.dataAt_storeData]
    split
    · rename_i same
      -- the cell being written is claimed, so it cannot carry a published number
      have equal : s.queue.sequenceAt pos' = s.queue.sequenceAt pos := by
        simp only [MPSCQueue.sequenceAt, same]
      have successor : pos = pos' + 1 := by omega
      have low : s.released ≤ pos' := (released_le_taken ring).trans above
      have here := c.slot_injOn low (by omega) lower (by omega) same
      omega
    · exact inv.intact call' pos' member above published
  · intro call' pos' member
    obtain ⟨claimed, none⟩ := inv.published call' pos' member
    refine ⟨claimed, fun j claims' => none j ?_⟩
    change (s.setPhase i (.publish call pos)).Claims j pos' at claims'
    rw [setPhase, setProducer_claims] at claims'
    split at claims'
    · rename_i equal
      obtain ⟨_, same⟩ := claims'
      cases same
      rwa [equal]
    · exact claims'

theorem DataInvariant.publish (inv : s.DataInvariant history) (ring : s.RingInvariant)
    (counted : s.Counted history) {call : PushCall ι α}
    (phase : (s.producers i).phase = .publish call pos) :
    DataInvariant { s.setPhase i (.returns call true) with
      queue := s.queue.storeSequence pos (pos + 1) } (history ++ [.published call pos]) := by
  have claims : s.Claims i pos := ⟨call, by rw [phase]; rfl⟩
  have claimed := inv.claim i pos call (by rw [phase]; rfl)
  obtain ⟨lower, upper, stamp⟩ := ring.claim i pos claims
  have bound := ring.claimed_le
  have others : ∀ {j p}, (s.setPhase i (.returns call true)).Claims j p → j ≠ i ∧ s.Claims j p :=
    (setPhase_claims_of_none rfl).mp
  refine ⟨?_, ?_, ?_, ?_, ?_⟩
  · intro j pos' call' claim
    simp only [setPhase_phase] at claim
    split at claim
    · cases claim
    · exact List.mem_append_left _ (inv.claim j pos' call' claim)
  · intro j pos' call' target
    simp only [setPhase_phase] at target
    split at target
    · cases target
    · exact (MPSCQueue.dataAt_storeSequence pos' pos _).trans (inv.written j pos' call' target)
  · intro call' pos' member above published
    have old : .claimed call' pos' ∈ history := by simpa using member
    have within := counted.claimed_lt old
    have low : s.released ≤ pos' := (released_le_taken ring).trans above
    change (s.queue.storeSequence pos (pos + 1)).sequenceAt pos' = pos' + 1 at published
    refine (MPSCQueue.dataAt_storeSequence pos' pos _).trans ?_
    rw [MPSCQueue.sequenceAt_storeSequence] at published
    split at published
    · rename_i same
      cases c.slot_injOn low (by omega) lower (by omega) same
      rw [counted.claimed_unique old claimed]
      exact inv.written i pos call phase
    · exact inv.intact call' pos' old above published
  · intro call' pos' member
    rcases List.mem_append.mp member with old | new
    · obtain ⟨claimed', none⟩ := inv.published call' pos' old
      exact ⟨List.mem_append_left _ claimed', fun j claims' => none j (others claims').2⟩
    · cases List.mem_singleton.mp new
      refine ⟨List.mem_append_left _ claimed, fun j claims' => ?_⟩
      obtain ⟨other, old⟩ := others claims'
      exact other (ring.exclusive j i pos old claims)
  · change popped (history ++ _) ++ s.consumer.inHand.toList =
      ((ConsolidatedBook.claims (history ++ _)).take s.taken).map _
    rw [popped_append, claims_append]
    exact (congrArg (· ++ _) (List.append_nil _)).trans
      (inv.hand.trans (by rw [show ConsolidatedBook.claims [.published call pos] = [] from rfl,
        List.append_nil]))

end Producers

section Consumer

theorem DataInvariant.take (inv : s.DataInvariant history) (ring : s.RingInvariant)
    (counted : s.Counted history) (consumer : s.consumer = .moveData pos) (blank : α) :
    DataInvariant { s with
      queue := s.queue.storeData pos blank
      consumer := .release pos (s.queue.dataAt pos) } (history ++ [.taken pos]) := by
  have reading : s.consumer.reading = some pos := by rw [consumer]; rfl
  have first := ring.released_of_reading reading
  have here := ring.position pos (by rw [consumer]; rfl)
  obtain ⟨stamp, upper⟩ := ring.reading pos reading
  have bound := ring.claimed_le
  have taken : s.taken = pos := by simp only [QueueState.taken, consumer, here]
  obtain ⟨call, claimed⟩ := counted.exists_claim upper
  refine ⟨?_, ?_, ?_, ?_, ?_⟩
  · intro j pos' call' claim
    exact List.mem_append_left _ (inv.claim j pos' call' claim)
  · intro j pos' call' phase
    have claims' : s.Claims j pos' := ⟨call', by rw [phase]; rfl⟩
    change (s.queue.storeData pos blank).dataAt pos' = call'.value
    rw [MPSCQueue.dataAt_storeData, if_neg (ring.claim_slot_ne_reading claims' reading)]
    exact inv.written j pos' call' phase
  · intro call' pos' member above published
    have old : .claimed call' pos' ∈ history := by simpa using member
    have within := counted.claimed_lt old
    have beyond : pos + 1 ≤ pos' := above
    change (s.queue.storeData pos blank).sequenceAt pos' = pos' + 1 at published
    change (s.queue.storeData pos blank).dataAt pos' = call'.value
    rw [MPSCQueue.sequenceAt_storeData] at published
    rw [MPSCQueue.dataAt_storeData, if_neg]
    · exact inv.intact call' pos' old (by omega) published
    · intro same
      have equal := c.slot_injOn (by omega : pos ≤ pos') (by omega) le_rfl (by omega) same
      omega
  · intro call' pos' member
    obtain ⟨claimed', none⟩ := inv.published call' pos' (by simpa using member)
    exact ⟨List.mem_append_left _ claimed', none⟩
  · have value := inv.intact call pos claimed taken.le stamp
    have before := inv.hand
    rw [taken, consumer] at before
    have entry := counted.claims_getElem?.mp claimed
    change popped (history ++ _) ++ [s.queue.dataAt pos] =
      ((claims (history ++ _)).take (pos + 1)).map _
    rw [popped_append, claims_append, show popped [.taken pos] = ([] : List α) from rfl,
      show claims [.taken pos] = ([] : List (Nat × PushCall ι α)) from rfl, List.append_nil, List.append_nil,
      List.take_add_one, List.map_append, entry, ← before, value]
    simp [PopPhase.inHand]

theorem DataInvariant.release (inv : s.DataInvariant history) (ring : s.RingInvariant)
    (counted : s.Counted history) {result : α} (consumer : s.consumer = .release pos result) :
    DataInvariant { s with
      queue := s.queue.storeSequence pos (pos + c.size)
      consumer := .advance pos result } (history ++ [.released pos]) := by
  have first := ring.released_of_reading (show s.consumer.reading = some pos by rw [consumer]; rfl)
  have bound := ring.claimed_le
  have taken : s.taken = pos + 1 := by simp only [QueueState.taken, consumer]
  refine ⟨?_, ?_, ?_, ?_, ?_⟩
  · intro j pos' call' claim
    exact List.mem_append_left _ (inv.claim j pos' call' claim)
  · intro j pos' call' phase
    exact (MPSCQueue.dataAt_storeSequence pos' pos _).trans (inv.written j pos' call' phase)
  · intro call' pos' member above published
    have old : .claimed call' pos' ∈ history := by simpa using member
    have within := counted.claimed_lt old
    have beyond : pos + 1 ≤ pos' := above
    change (s.queue.storeSequence pos (pos + c.size)).sequenceAt pos' = pos' + 1 at published
    refine (MPSCQueue.dataAt_storeSequence pos' pos _).trans ?_
    rw [MPSCQueue.sequenceAt_storeSequence, if_neg] at published
    · exact inv.intact call' pos' old (by omega) published
    · intro same
      have equal := c.slot_injOn (by omega : pos ≤ pos') (by omega) le_rfl (by have := c.positive; omega) same
      omega
  · intro call' pos' member
    obtain ⟨claimed', none⟩ := inv.published call' pos' (by simpa using member)
    exact ⟨List.mem_append_left _ claimed', none⟩
  · have before := inv.hand
    rw [taken, consumer] at before
    change popped (history ++ _) ++ [result] = ((claims (history ++ _)).take (pos + 1)).map _
    rw [popped_append, claims_append, show popped [.released pos] = ([] : List α) from rfl,
      show claims [.released pos] = ([] : List (Nat × PushCall ι α)) from rfl, List.append_nil, List.append_nil]
    exact before

end Consumer

section Runs

variable [DecidableEq ι] [Movable α]

theorem DataInvariant.move (inv : s.DataInvariant history) (ring : s.RingInvariant)
    (counted : s.Counted history) (move : s.Move t events) : t.DataInvariant (history ++ events) := by
  cases move with
  | pushCalled phase | positionLoaded phase | vacant phase _ | full phase _ | behind phase _ | failed phase
  | pushReturned phase =>
    exact inv.setProducer (by rw [phase]; rfl) rfl ⟨rfl, rfl, by simp⟩
  | claimed phase same =>
    subst same
    exact inv.claimed ring counted phase
  | written phase => exact inv.wrote ring phase
  | published phase => exact inv.publish ring counted phase
  | popCalled consumer | dequeueLoaded consumer | empty consumer _ | ready consumer _ =>
    exact inv.frame (fun _ => rfl) (fun _ _ _ h => h) rfl (by simp only [QueueState.taken, consumer])
      (by rw [consumer]; rfl) rfl (by simp)
  | advanced consumer =>
    exact inv.frame (fun _ => rfl) (fun _ _ _ h => h) rfl (by simp only [QueueState.taken, consumer, add_nat])
      (by rw [consumer]; rfl) rfl (by simp)
  | @popReturned result consumer =>
    refine inv.frame (fun _ => rfl) (fun _ _ _ h => h) rfl (by simp only [QueueState.taken, consumer]) ?_ rfl
      (by simp)
    cases result <;> simp [consumer, popped, PopPhase.inHand]
  | taken consumer => exact inv.take ring counted consumer _
  | released consumer => exact inv.release ring counted consumer

theorem DataInvariant.reach (two : 2 ≤ c.size) (reach : (queueMachine Nat ι α c).Reach s history) :
    s.DataInvariant history := by
  induction reach with
  | start =>
    refine ⟨?_, ?_, ?_, ?_, rfl⟩
    · intro i pos call claim
      cases claim
    · intro i pos call phase
      cases phase
    · intro call pos member
      cases member
    · intro call pos member
      cases member
  | next before step ih => exact ih.move (.reach two before) (.reach two before) (step_move step)

end Runs

/-- What the queue owes its producers and its consumer, over all that a run
has shown so far. -/
structure Lossless [DecidableEq ι] (s : QueueState Nat ι α c)
    (history : List (QueueEvent Nat ι α)) : Prop where
  /-- The `k`-th value popped is the argument of the one call that claimed `k`. -/
  popped_claim : ∀ k v, (popped history)[k]? = some v →
    ∃ call, (∀ other, .claimed other k ∈ history ↔ other = call) ∧ v = call.value
  /-- The claims are of the positions `0, 1, 2, ...` in this order, and the
  values popped are a prefix of theirs. -/
  claim_order : (claims history).map Prod.fst = List.range (claims history).length
  popped_prefix : popped history <+: (claims history).map fun claim => claim.2.value
  /-- The calls of one thread claim in the order in which the thread makes them. -/
  serials : ∀ i, ∃ n, serials i history = List.range n
  program_order : ∀ a b j k, .claimed a j ∈ history → .claimed b k ∈ history → a.producer = b.producer →
    (j < k ↔ a.serial < b.serial)
  accepted : ∀ call, .pushReturned call true ∈ history → ∃! pos, .claimed call pos ∈ history
  refused : ∀ call, .pushReturned call false ∈ history → ∀ pos, .claimed call pos ∉ history
  /-- A published value is in its cell until `Pop` moves it out, and then in
  the hands of `Pop` until it is returned. -/
  intact : ∀ call pos, .published call pos ∈ history → .taken pos ∉ history →
    s.queue.sequenceAt pos = pos + 1 ∧ s.queue.dataAt pos = call.value
  in_hand : popped history ++ s.consumer.inHand.toList =
    ((claims history).take (takenPositions history).length).map fun claim => claim.2.value

end QueueState

section Lossless

variable [DecidableEq ι] {s : QueueState Nat ι α c} {history : List (QueueEvent Nat ι α)}

/-- Claims of one thread are ordered alike by position and by serial number. -/
theorem QueueState.CallInvariant.program_order {producers : ι → Producer Nat ι α}
    (inv : CallInvariant producers history) (counted : s.Counted history) {a b : PushCall ι α} {j k : Nat}
    (first : .claimed a j ∈ history) (second : .claimed b k ∈ history) (same : a.producer = b.producer) :
    j < k ↔ a.serial < b.serial := by
  have forward : ∀ {a b : PushCall ι α} {j k : Nat}, .claimed a j ∈ history → .claimed b k ∈ history →
      a.producer = b.producer → j < k → a.serial < b.serial := by
    intro a b j k first second same before
    obtain ⟨within, atJ⟩ := List.getElem?_eq_some_iff.mp (counted.claims_getElem?.mp first)
    obtain ⟨within', atK⟩ := List.getElem?_eq_some_iff.mp (counted.claims_getElem?.mp second)
    have ordered := List.pairwise_iff_getElem.mp inv.order j k within within' before
    rw [atJ, atK] at ordered
    exact ordered same
  constructor
  · exact forward first second same
  · intro smaller
    rcases Nat.lt_trichotomy j k with before | rfl | after
    · exact before
    · rw [counted.claimed_unique first second] at smaller
      exact absurd smaller (Nat.lt_irrefl _)
    · exact absurd smaller (Nat.lt_asymm (forward second first same.symm after))

/-- The queue loses, duplicates and reorders nothing, whatever the
interleaving of its producers and its consumer. -/
theorem mpscQueue_lossless [Movable α] (two : 2 ≤ c.size) (reach : (queueMachine Nat ι α c).Reach s history) :
    s.Lossless history := by
  have ring := QueueState.RingInvariant.reach two reach
  have counted := QueueState.Counted.reach two reach
  have calls := QueueState.CallInvariant.reach reach
  have data := QueueState.DataInvariant.reach two reach
  have values : popped history <+: (claims history).map fun claim => claim.2.value := by
    have part := List.prefix_append (popped history) s.consumer.inHand.toList
    rw [data.hand, List.map_take] at part
    exact part.trans (List.take_prefix _ _)
  refine ⟨?_, ?_, values, ?_, ?_, ?_, calls.refused, ?_, ?_⟩
  · intro k v atK
    obtain ⟨rest, whole⟩ := values
    have entry : ((claims history).map fun claim => claim.2.value)[k]? = some v := by
      rw [← whole, List.getElem?_append_left (List.getElem?_eq_some_iff.mp atK).1, atK]
    rw [List.getElem?_map, Option.map_eq_some_iff] at entry
    obtain ⟨⟨pos, call⟩, claim, rfl⟩ := entry
    have position : ((claims history).map Prod.fst)[k]? = some pos := by
      rw [List.getElem?_map, claim]
      rfl
    rw [counted.claims] at position
    obtain ⟨_, same⟩ := List.getElem?_eq_some_iff.mp position
    rw [List.getElem_range] at same
    subst same
    have claimed := counted.claims_getElem?.mpr claim
    refine ⟨call, fun other => ⟨fun member => counted.claimed_unique member claimed, ?_⟩, rfl⟩
    rintro rfl
    exact claimed
  · rw [counted.claims, counted.length_claims]
  · intro i
    exact ⟨_, calls.numbered i⟩
  · intro a b j k first second same
    exact calls.program_order counted first second same
  · intro call returned
    obtain ⟨pos, claimed⟩ := calls.accepted call returned
    refine ⟨pos, claimed, fun pos' claimed' => ?_⟩
    have order := calls.program_order counted claimed claimed' rfl
    have order' := calls.program_order counted claimed' claimed rfl
    omega
  · intro call pos published untaken
    obtain ⟨claimed, none⟩ := data.published call pos published
    have above : s.taken ≤ pos := by
      rw [← mem_takenPositions, counted.taken, List.mem_range] at untaken
      exact not_lt.mp untaken
    have low := (QueueState.released_le_taken ring).trans above
    rcases ring.filled pos low (counted.claimed_lt claimed) with stamp | ⟨i, claims⟩
    · exact ⟨stamp, data.intact call pos claimed above stamp⟩
    · exact absurd claims (none i)
  · rw [data.hand, counted.taken, List.length_range]

/-- Two producers race for position 0; the loser retries and takes 1; both
publish and one value is popped. -/
def racedPush : List (QueueAction Nat String) :=
  [.callPush 0 "a", .callPush 1 "b", .stepPush 0 false, .stepPush 0 false, .stepPush 1 false,
    .stepPush 1 false, .stepPush 1 false, .stepPush 0 false, .stepPush 0 false, .stepPush 0 false,
    .stepPush 0 false, .stepPush 0 false, .stepPush 0 false, .stepPush 1 false, .stepPush 1 false,
    .stepPush 1 false, .callPop, .stepPop, .stepPop, .stepPop, .stepPop, .stepPop, .stepPop]

theorem mpscQueue_lossless_racedPush :
    ∃ s history, (queueMachine Nat Nat String .default).run
        (queueMachine Nat Nat String .default).initial racedPush = some (s, history) ∧
      claims history = [(0, ⟨1, 0, "b"⟩), (1, ⟨0, 0, "a"⟩)] ∧ popped history = ["b"] ∧ s.Lossless history := by
  refine ⟨_, _, rfl, rfl, rfl, ?_⟩
  exact mpscQueue_lossless (by decide) (Machine.Reach.start.run
    (rfl : (queueMachine Nat Nat String .default).run _ racedPush = some (_, _)))

end Lossless

end ConsolidatedBook
