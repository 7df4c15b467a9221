import ConsolidatedBook.Machine.Simulation
import ConsolidatedBook.MPSCQueue.Delivery
import ConsolidatedBook.MPSCQueue.Words

namespace ConsolidatedBook

open PositionWord (ofNat toNat add diff)

variable {W ι α : Type} {c : Capacity}

/-- For each thread, how many positions have been claimed since it last
loaded `enqueuePos`, by the load or by a failing compare-exchange. -/
def QueueState.ages [DecidableEq W] [DecidableEq ι] (ages : ι → Nat) (s : QueueState W ι α c) :
    QueueAction ι α → ι → Nat
  | .stepPush i weakFails =>
    match (s.producers i).phase with
    | .loadEnqueuePos _ => Function.update ages i 0
    | .compareExchange _ pos =>
      if s.queue.enqueuePos = pos ∧ weakFails = false then fun j => ages j + 1 else Function.update ages i 0
    | _ => ages
  | _ => ages

/-- The queue with each thread's age beside it, which the code does not keep. -/
def agedMachine (W ι α : Type) [PositionWord W] [DecidableEq W] [DecidableEq ι] [Movable α] (c : Capacity) :
    Machine (QueueState W ι α c × (ι → Nat)) (QueueAction ι α) (QueueEvent W ι α × (ι → Nat)) :=
  (queueMachine W ι α c).noted (fun _ => 0) QueueState.ages

/-- No producer uses a position that it loaded `span - Capacity` or more claims ago. -/
def timely (span : Nat) (s : QueueState W ι α c × (ι → Nat)) : QueueAction ι α → Bool
  | .stepPush i _ => !(s.1.producers i).phase.aim.isSome || decide (s.2 i + c.size < span)
  | _ => true

/-- The queue, as long as no producer falls asleep for that long. -/
def timelyMachine (W ι α : Type) [PositionWord W] [DecidableEq W] [DecidableEq ι] [Movable α] (c : Capacity)
    (span : Nat) : Machine (QueueState W ι α c × (ι → Nat)) (QueueAction ι α) (QueueEvent W ι α × (ι → Nat)) :=
  (agedMachine W ι α c).restrict (timely span)

section Aged

variable [DecidableEq ι] {s t : QueueState Nat ι α c} {ages : ι → Nat}

/-- A thread's position is as many behind `enqueuePos` as the thread's age says. -/
def QueueState.Aged (s : QueueState Nat ι α c) (ages : ι → Nat) : Prop :=
  ∀ i pos, (s.producers i).phase.aim = some pos → s.queue.enqueuePos = pos + ages i

theorem QueueState.Aged.setPhase (aged : s.Aged ages) {i : ι} {phase : PushPhase Nat ι α} {later : ι → Nat}
    (others : ∀ j, j ≠ i → later j = ages j)
    (own : ∀ pos, phase.aim = some pos → s.queue.enqueuePos = pos + later i) : (s.setPhase i phase).Aged later := by
  intro j pos aim
  rw [setPhase_phase] at aim
  split at aim
  · rename_i equal
    subst equal
    exact own pos aim
  · rename_i other
    have before := aged j pos aim
    change s.queue.enqueuePos = pos + later j
    rw [others j other]
    exact before

variable [Movable α]

theorem QueueState.Aged.step (aged : s.Aged ages) {action : QueueAction ι α} {events : List (QueueEvent Nat ι α)}
    (step : s.step action = some (t, events)) : t.Aged (s.ages ages action) := by
  cases action with
  | callPush i value =>
    simp only [QueueState.step, Option.ite_none_right_eq_some] at step
    obtain ⟨_, same⟩ := step
    cases same
    intro j pos aim
    rw [setProducer_producers] at aim
    split at aim
    · cases aim
    · exact aged j pos aim
  | callPop =>
    simp only [QueueState.step, Option.ite_none_right_eq_some] at step
    obtain ⟨_, same⟩ := step
    cases same
    exact aged
  | stepPop =>
    obtain ⟨_, rfl, -⟩ := stepPop_eq step
    intro j pos aim
    exact (MPSCQueue.popStep_enqueuePos (ι := ι) s.queue s.consumer).trans (aged j pos aim)
  | stepPush i weakFails =>
    obtain ⟨_, rfl, -⟩ := stepPush_eq step
    cases at_ : (s.producers i).phase with
    | idle | returns call accepted =>
      simp only [QueueState.ages, at_]
      exact aged.setPhase (fun _ _ => rfl) (fun _ aim => by cases aim)
    | writeData call pos | publish call pos =>
      simp only [QueueState.ages, at_]
      exact aged.setPhase (fun _ _ => rfl) (fun _ aim => by cases aim)
    | loadEnqueuePos call =>
      simp only [QueueState.ages, at_]
      refine aged.setPhase (fun j other => Function.update_of_ne other 0 ages) ?_
      intro pos aim
      cases aim
      rw [Function.update_self, Nat.add_zero]
    | loadSequence call pos =>
      have own := aged i pos (by rw [at_]; rfl)
      simp only [QueueState.ages, at_, MPSCQueue.pushImplStep]
      split
      · refine aged.setPhase (fun _ _ => rfl) ?_
        intro target aim
        cases aim
        exact own
      · split
        · exact aged.setPhase (fun _ _ => rfl) (fun _ aim => by cases aim)
        · exact aged.setPhase (fun _ _ => rfl) (fun _ aim => by cases aim)
    | compareExchange call pos =>
      simp only [QueueState.ages, at_, MPSCQueue.pushImplStep]
      split
      · intro j target aim
        change ((s.setPhase i (.writeData call pos)).producers j).phase.aim = some target at aim
        rw [setPhase_phase] at aim
        split at aim
        · cases aim
        · have before := aged j target aim
          rename_i won _
          change pos + 1 = target + (ages j + 1)
          omega
      · refine aged.setPhase (fun j other => Function.update_of_ne other 0 ages) ?_
        intro target aim
        cases aim
        rw [Function.update_self, Nat.add_zero]

theorem QueueState.Aged.reach {s : QueueState Nat ι α c × (ι → Nat)} {history : List (QueueEvent Nat ι α × (ι → Nat))}
    (reach : (agedMachine Nat ι α c).Reach s history) : s.1.Aged s.2 := by
  induction reach with
  | start =>
    intro i pos aim
    cases aim
  | next _ step ih =>
    obtain ⟨⟨next, observed⟩, literal, same⟩ := Option.map_eq_some_iff.mp step
    cases same
    exact ih.step literal

end Aged

section Simulated

variable [PositionWord W] [DecidableEq W] [DecidableEq ι] {span : Nat}

theorem QueueState.ages_map (spans : PositionWord.Spans W c span) {s : QueueState Nat ι α c} {ages : ι → Nat}
    {action : QueueAction ι α}
    (near : ∀ i weakFails, action = .stepPush i weakFails → ∀ pos, (s.producers i).phase.aim = some pos →
      pos ≤ s.queue.enqueuePos ∧ s.queue.enqueuePos < pos + span) :
    QueueState.ages ages (s.map (ofNat : Nat → W)) action = s.ages ages action := by
  cases action with
  | callPush | callPop | stepPop => rfl
  | stepPush i weakFails =>
    cases at_ : (s.producers i).phase with
    | compareExchange call pos =>
      obtain ⟨order, below⟩ := near i weakFails rfl pos (by rw [at_]; rfl)
      have same : (ofNat s.queue.enqueuePos : W) = ofNat pos ↔ s.queue.enqueuePos = pos :=
        spans.ofNat_inj order below
      simp only [QueueState.ages, QueueState.map, at_, PushPhase.map, MPSCQueue.map, same]
    | _ => simp only [QueueState.ages, QueueState.map, at_, PushPhase.map]

variable [Movable α]

/-- What a run with words and a run with naturals have in common. -/
structure Counterpart (s : QueueState W ι α c × (ι → Nat)) (history : List (QueueEvent W ι α × (ι → Nat)))
    (t : QueueState Nat ι α c × (ι → Nat)) (past : List (QueueEvent Nat ι α × (ι → Nat))) : Prop where
  state : s.1 = t.1.map ofNat
  ages : s.2 = t.2
  events : history.map Prod.fst = (past.map Prod.fst).map (QueueEvent.map ofNat)

theorem timelyMachine_simulation (spans : PositionWord.Spans W c span) (two : 2 ≤ c.size) :
    Machine.Simulation (timelyMachine W ι α c span) (agedMachine Nat ι α c) Counterpart where
  start := ⟨rfl, rfl, rfl⟩
  next := by
    rintro ⟨s, ages⟩ u history action events ⟨t, ages'⟩ past _ reached ⟨state, agree, observed⟩ step
    change s = t.map ofNat at state
    change ages = ages' at agree
    subst state agree
    obtain ⟨inTime, step⟩ := Machine.step_restrict.mp step
    have inv := QueueState.RingInvariant.reach two reached.forget
    have aged := QueueState.Aged.reach reached
    have near : ∀ i weakFails, action = .stepPush i weakFails → ∀ pos, (t.producers i).phase.aim = some pos →
        t.queue.enqueuePos + c.size < pos + span := by
      rintro i weakFails rfl pos aim
      have distance := aged i pos aim
      have young : ages i + c.size < span := by
        simpa [timely, QueueState.map, aim] using inTime
      change t.queue.enqueuePos = pos + ages i at distance
      omega
    obtain ⟨⟨next, shown⟩, literal, same⟩ := Option.map_eq_some_iff.mp step
    cases same
    obtain ⟨⟨next', shown'⟩, literal', same⟩ :=
      Option.map_eq_some_iff.mp ((QueueState.step_map spans inv near).symm.trans literal)
    cases same
    have notes : QueueState.ages ages (t.map (ofNat : Nat → W)) action = t.ages ages action := by
      refine QueueState.ages_map spans ?_
      intro i weakFails same pos aim
      have distance := near i weakFails same pos aim
      have target : pos ≤ t.queue.enqueuePos := inv.aim_le i pos aim
      omega
    have matching : (agedMachine Nat ι α c).step (t, ages) action = some ((next', t.ages ages action),
        shown'.map fun event => (event, t.ages ages action)) :=
      congrArg (Option.map _) literal'
    refine ⟨_, _, .one matching, rfl, notes, ?_⟩
    rw [List.map_append, List.map_append, List.map_append, observed]
    simp only [List.map_map, Function.comp_def]

end Simulated

/-- What the queue owes over positions that come round again. -/
structure QueueState.LosslessInWords [PositionWord W] (s : QueueState W ι α c)
    (history : List (QueueEvent W ι α)) : Prop where
  /-- The `k`-th claim is of the word of `k`, and the values popped are a
  prefix of the values claimed. -/
  claim_order : (claims history).map Prod.fst = (List.range (claims history).length).map ofNat
  popped_prefix : popped history <+: (claims history).map fun claim => claim.2.value
  program_order : (claims history).Pairwise fun a b => a.2.producer = b.2.producer → a.2.serial < b.2.serial
  accepted : ∀ call, .pushReturned call true ∈ history → call ∈ (claims history).map Prod.snd
  refused : ∀ call, .pushReturned call false ∈ history → call ∉ (claims history).map Prod.snd
  /-- No cell is in the hands of two threads. -/
  producers_apart : ∀ i j p q a b, i ≠ j → (s.producers i).phase.claim = some (p, a) →
    (s.producers j).phase.claim = some (q, b) → c.slot p ≠ c.slot q
  consumer_apart : ∀ i p q a, (s.producers i).phase.claim = some (p, a) → s.consumer.reading = some q →
    c.slot p ≠ c.slot q

section Lossless

variable [DecidableEq ι]

theorem QueueState.CallInvariant.mem_claims {producers : ι → Producer W ι α} {history : List (QueueEvent W ι α)}
    (inv : CallInvariant producers history) {call : PushCall ι α} :
    (.pushReturned call true ∈ history → call ∈ (claims history).map Prod.snd) ∧
    (.pushReturned call false ∈ history → call ∉ (claims history).map Prod.snd) := by
  constructor
  · intro returned
    obtain ⟨pos, claimed⟩ := inv.accepted call returned
    exact List.mem_map.mpr ⟨(pos, call), ConsolidatedBook.mem_claims.mpr claimed, rfl⟩
  · intro returned member
    obtain ⟨⟨pos, other⟩, claimed, same⟩ := List.mem_map.mp member
    have first : .claimed other pos ∈ history := ConsolidatedBook.mem_claims.mp claimed
    change other = call at same
    exact inv.refused call returned pos (same ▸ first)

variable [PositionWord W] [DecidableEq W] [Movable α] {span : Nat} {s : QueueState W ι α c}
  {ages : ι → Nat} {history : List (QueueEvent W ι α × (ι → Nat))}

theorem losslessInWords_of_timely (spans : PositionWord.Spans W c span) (two : 2 ≤ c.size)
    (reach : (timelyMachine W ι α c span).Reach (s, ages) history) :
    s.LosslessInWords (history.map Prod.fst) := by
  have calls := QueueState.CallInvariant.reach reach.unrestrict.forget
  obtain ⟨⟨t, _⟩, past, reached, state, _, events⟩ := (timelyMachine_simulation spans two).reach reach
  change s = t.map ofNat at state
  subst state
  have literal := reached.forget
  have ring := QueueState.RingInvariant.reach two literal
  have counted := QueueState.Counted.reach two literal
  have data := QueueState.DataInvariant.reach two literal
  have claimed : claims (history.map Prod.fst) =
      (claims (past.map Prod.fst)).map fun claim => ((ofNat claim.1 : W), claim.2) := by
    rw [events, claims_map]
  have of_claim : ∀ {i} {p : W} {a}, ((t.map (ofNat : Nat → W)).producers i).phase.claim = some (p, a) →
      ∃ p', p = ofNat p' ∧ (t.producers i).phase.claim = some (p', a) := by
    intro i p a claim
    have mapped : (t.producers i).phase.claim.map (fun claim => ((ofNat claim.1 : W), claim.2)) = some (p, a) :=
      (PushPhase.claim_map _ _).symm.trans claim
    obtain ⟨⟨p', a'⟩, here, same⟩ := Option.map_eq_some_iff.mp mapped
    cases same
    exact ⟨p', rfl, here⟩
  refine ⟨?_, ?_, calls.order, fun _ => calls.mem_claims.1, fun _ => calls.mem_claims.2, ?_, ?_⟩
  · rw [claimed, List.map_map, List.length_map, counted.length_claims]
    change (claims (past.map Prod.fst)).map (fun claim => ofNat claim.1) = _
    rw [← counted.claims, List.map_map]
    rfl
  · have values : (claims (history.map Prod.fst)).map (fun claim => claim.2.value) =
        (claims (past.map Prod.fst)).map fun claim => claim.2.value := by
      rw [claimed, List.map_map]
      rfl
    have part := List.prefix_append (popped (past.map Prod.fst)) t.consumer.inHand.toList
    rw [data.hand, List.map_take] at part
    rw [values, events, popped_map]
    exact part.trans (List.take_prefix _ _)
  · intro i j p q a b different first second
    obtain ⟨p', rfl, one⟩ := of_claim first
    obtain ⟨q', rfl, other⟩ := of_claim second
    rw [spans.slot_ofNat, spans.slot_ofNat]
    refine ring.claim_slot_ne ⟨a, one⟩ ⟨b, other⟩ ?_
    rintro rfl
    exact different (ring.exclusive i j p' ⟨a, one⟩ ⟨b, other⟩)
  · intro i p q a first reading
    obtain ⟨p', rfl, one⟩ := of_claim first
    have mapped : t.consumer.reading.map (ofNat : Nat → W) = some q :=
      (PopPhase.reading_map _ _).symm.trans reading
    obtain ⟨q', here, rfl⟩ := Option.map_eq_some_iff.mp mapped
    rw [spans.slot_ofNat, spans.slot_ofNat]
    exact ring.claim_slot_ne_reading ⟨a, one⟩ here

end Lossless

section SizeT

variable [DecidableEq ι] [Movable α] {s : QueueState (BitVec 64) ι α c} {ages : ι → Nat}
  {history : List (QueueEvent (BitVec 64) ι α × (ι → Nat))}

/-- However often the `size_t` positions have come round, a run of the queue
is a run over positions that never do, as long as no producer sleeps through
`2 ^ 63 - Capacity` claims between loading its position and using it. -/
theorem mpscQueue_wraps (two : 2 ≤ c.size) (word : c.size < 2 ^ 64)
    (reach : (timelyMachine (BitVec 64) ι α c (2 ^ 63)).Reach (s, ages) history) :
    ∃ t past, (queueMachine Nat ι α c).Reach t past ∧ s = t.map ofNat ∧
      history.map Prod.fst = past.map (QueueEvent.map ofNat) := by
  have simulated := timelyMachine_simulation (ι := ι) (α := α) (PositionWord.spans_bitVec word) two
  obtain ⟨⟨t, _⟩, past, reached, state, _, events⟩ := simulated.reach reach
  exact ⟨t, past.map Prod.fst, reached.forget, state, events⟩

theorem mpscQueue_wraps_racedPush :
    ∃ s history, (timelyMachine (BitVec 64) Nat String .default (2 ^ 63)).run
        (timelyMachine (BitVec 64) Nat String .default (2 ^ 63)).initial racedPush = some (s, history) ∧
      popped (history.map Prod.fst) = ["b"] ∧
      ∃ t past, (queueMachine Nat Nat String .default).Reach t past ∧ s.1 = t.map ofNat ∧
        history.map Prod.fst = past.map (QueueEvent.map ofNat) := by
  refine ⟨_, _, rfl, rfl, ?_⟩
  exact mpscQueue_wraps (by decide) (by decide) (Machine.Reach.start.run
    (rfl : (timelyMachine (BitVec 64) Nat String .default (2 ^ 63)).run _ racedPush = some (_, _)))

/-- So the queue loses, duplicates and reorders nothing over `size_t` positions either. -/
theorem mpscQueue_lossless_sizeT (two : 2 ≤ c.size) (word : c.size < 2 ^ 64)
    (reach : (timelyMachine (BitVec 64) ι α c (2 ^ 63)).Reach (s, ages) history) :
    s.LosslessInWords (history.map Prod.fst) :=
  losslessInWords_of_timely (PositionWord.spans_bitVec word) two reach

theorem mpscQueue_lossless_sizeT_racedPush :
    ∃ s history, (timelyMachine (BitVec 64) Nat String .default (2 ^ 63)).run
        (timelyMachine (BitVec 64) Nat String .default (2 ^ 63)).initial racedPush = some (s, history) ∧
      claims (history.map Prod.fst) = [(0, ⟨1, 0, "b"⟩), (1, ⟨0, 0, "a"⟩)] ∧
      s.1.LosslessInWords (history.map Prod.fst) := by
  refine ⟨_, _, rfl, rfl, ?_⟩
  exact mpscQueue_lossless_sizeT (by decide) (by decide) (Machine.Reach.start.run
    (rfl : (timelyMachine (BitVec 64) Nat String .default (2 ^ 63)).run _ racedPush = some (_, _)))

end SizeT

end ConsolidatedBook
