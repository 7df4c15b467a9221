import ConsolidatedBook.MPSCQueue.Delivery
import ConsolidatedBook.LatestEvent

namespace ConsolidatedBook

variable {ι α : Type} {c : Capacity}

def QueueEvent.isPopCalled {W : Type} : QueueEvent W ι α → Bool
  | .popCalled => true
  | _ => false

/-- What had been observed when the latest `Pop` was called. -/
def beforePop {W : Type} (history : List (QueueEvent W ι α)) : List (QueueEvent W ι α) :=
  LatestEvent.past QueueEvent.isPopCalled history

theorem beforePop_called {W : Type} (history : List (QueueEvent W ι α)) :
    beforePop (history ++ [.popCalled]) = history := LatestEvent.past_marked _ rfl history

/-- Of the calls that had returned `true` when the latest `Pop` was called,
each has had its value returned by an earlier `Pop`. -/
def EmptyForPop (history : List (QueueEvent Nat ι α)) : Prop :=
  ∀ call, .pushReturned call true ∈ beforePop history →
    ∃ pos, .claimed call pos ∈ beforePop history ∧ (popped (beforePop history))[pos]? = some call.value

/-- Neither the call of a `Pop` nor its return. -/
def QueueEvent.withinPop {W : Type} : QueueEvent W ι α → Bool
  | .popCalled | .popReturned _ => false
  | _ => true

theorem beforePop_within {events : List (QueueEvent Nat ι α)} (within : ∀ event ∈ events, event.withinPop = true)
    (history : List (QueueEvent Nat ι α)) : beforePop (history ++ events) = beforePop history := by
  refine LatestEvent.past_append _ (fun event member => ?_) history
  have inside := within event member
  cases event <;> first | rfl | cases inside

theorem emptyForPop_within {events : List (QueueEvent Nat ι α)}
    (within : ∀ event ∈ events, event.withinPop = true) {history : List (QueueEvent Nat ι α)} :
    EmptyForPop (history ++ events) ↔ EmptyForPop history := by
  unfold EmptyForPop
  rw [beforePop_within within]

theorem popped_within {events : List (QueueEvent Nat ι α)} (within : ∀ event ∈ events, event.withinPop = true)
    (history : List (QueueEvent Nat ι α)) : popped (history ++ events) = popped history := by
  have none : popped events = [] := by
    refine List.filterMap_eq_nil_iff.mpr fun event member => ?_
    have inside := within event member
    cases event <;> first | rfl | cases inside
  rw [popped_append, none, List.append_nil]

namespace QueueState

/-- `Pop` has reported empty, or is about to, only when the queue was empty for it. -/
structure ReportsEmptyRightly (s : QueueState Nat ι α c) (history : List (QueueEvent Nat ι α)) : Prop where
  reports : s.consumer = .returns none → EmptyForPop history
  reported : ∀ before, before ++ [.popReturned none] <+: history → EmptyForPop before

/-- The position is claimed and not published, and a `Push` that claimed a
later one had returned `true` when the latest `Pop` was called. -/
def StalledBefore (s : QueueState Nat ι α c) (history : List (QueueEvent Nat ι α)) (pos : Nat) : Prop :=
  (∃ i, s.Claims i pos) ∧ ∃ call later, .pushReturned call true ∈ beforePop history ∧
    .claimed call later ∈ beforePop history ∧ pos < later

/-- Where `Pop` loads the sequence number, no stalled `Push` keeps a completed one from it. -/
def LoadsPastNoStall (s : QueueState Nat ι α c) (history : List (QueueEvent Nat ι α))
    (action : QueueAction ι α) : Prop :=
  action = .stepPop → ∀ pos, s.consumer = .loadSequence pos → ¬ s.StalledBefore history pos

/-- What `Pop` relies on between its call and its return. -/
structure PopInvariant (s : QueueState Nat ι α c) (history : List (QueueEvent Nat ι α)) : Prop where
  claimed : ∀ call, .pushReturned call true ∈ beforePop history → ∃ pos, .claimed call pos ∈ beforePop history
  popped : s.consumer ≠ .idle → popped (beforePop history) = popped history

/-- What one step can do to the `Pop` under way. -/
inductive PopTurn (s t : QueueState Nat ι α c) : QueueAction ι α → List (QueueEvent Nat ι α) → Prop
  | aside {action events} : action ≠ .stepPop → t.consumer = s.consumer →
      (∀ event ∈ events, event.withinPop = true) → PopTurn s t action events
  | called : s.consumer = .idle → t.consumer = .loadDequeuePos → PopTurn s t .callPop [.popCalled]
  | empty {pos} : s.consumer = .loadSequence pos → s.queue.sequenceAt pos ≠ pos + 1 →
      t.consumer = .returns none → PopTurn s t .stepPop []
  | ready {pos} : s.consumer = .loadSequence pos → s.queue.sequenceAt pos = pos + 1 →
      t.consumer = .moveData pos → PopTurn s t .stepPop []
  | inside {events} : s.consumer ≠ .idle → (∀ pos, s.consumer ≠ .loadSequence pos) →
      s.consumer ≠ .returns none → t.consumer ≠ .returns none →
      (∀ event ∈ events, event.withinPop = true) → PopTurn s t .stepPop events
  | returned {result} : s.consumer = .returns result → t.consumer = .idle →
      PopTurn s t .stepPop [.popReturned result]

section Steps

variable [DecidableEq ι] [Movable α] {s t : QueueState Nat ι α c} {history events : List (QueueEvent Nat ι α)}

theorem stepPush_popTurn {i : ι} {weakFails : Bool} (step : s.step (.stepPush i weakFails) = some (t, events)) :
    PopTurn s t (.stepPush i weakFails) events := by
  simp only [QueueState.step] at step
  split at step
  · cases step
  · cases step
    refine .aside (by simp) rfl fun event member => ?_
    cases at_ : (s.producers i).phase <;> simp only [at_, MPSCQueue.pushImplStep] at member
    case idle => cases member
    case loadEnqueuePos => cases member
    case loadSequence =>
      split at member
      · cases member
      · split at member <;> cases member
    case compareExchange =>
      split at member
      · cases List.mem_singleton.mp member
        rfl
      · cases member
    case writeData => cases member
    case publish =>
      cases List.mem_singleton.mp member
      rfl
    case returns =>
      cases List.mem_singleton.mp member
      rfl

theorem stepPop_popTurn (step : s.step .stepPop = some (t, events)) : PopTurn s t .stepPop events := by
  simp only [QueueState.step] at step
  cases at_ : s.consumer <;>
    simp only [at_, PopPhase.isIdle, MPSCQueue.popStep, Bool.false_eq_true, if_false, if_true] at step
  case idle => cases step
  case loadDequeuePos =>
    cases step
    exact .inside (by simp [at_]) (by simp [at_]) (by simp [at_]) (by simp) (by simp)
  case loadSequence pos =>
    split at step
    · rename_i unpublished
      cases step
      refine .empty at_ (fun stamp => unpublished ?_) rfl
      rw [stamp, diff_nat, add_nat]
      omega
    · rename_i published
      cases step
      refine .ready at_ ?_ rfl
      rw [not_not, diff_nat, add_nat] at published
      omega
  case moveData =>
    cases step
    exact .inside (by simp [at_]) (by simp [at_]) (by simp [at_]) (by simp) (by simp [QueueEvent.withinPop])
  case release =>
    cases step
    exact .inside (by simp [at_]) (by simp [at_]) (by simp [at_]) (by simp) (by simp [QueueEvent.withinPop])
  case advance =>
    cases step
    exact .inside (by simp [at_]) (by simp [at_]) (by simp [at_]) (by simp) (by simp)
  case returns =>
    cases step
    exact .returned at_ rfl

theorem step_popTurn {action : QueueAction ι α} (step : s.step action = some (t, events)) :
    PopTurn s t action events := by
  cases action with
  | callPush i value =>
    simp only [QueueState.step, Option.ite_none_right_eq_some] at step
    obtain ⟨_, same⟩ := step
    cases same
    exact .aside (by simp) rfl (by simp [QueueEvent.withinPop])
  | stepPush i weakFails => exact stepPush_popTurn step
  | callPop =>
    simp only [QueueState.step, Option.ite_none_right_eq_some] at step
    obtain ⟨idle, same⟩ := step
    cases same
    exact .called (PopPhase.isIdle_iff.mp idle) rfl
  | stepPop => exact stepPop_popTurn step

theorem PopInvariant.reach (reach : (queueMachine Nat ι α c).Reach s history) : s.PopInvariant history := by
  induction reach with
  | start => exact ⟨nofun, nofun⟩
  | @next s t history action events before step ih =>
    have within : (∀ event ∈ events, event.withinPop = true) → (t.consumer ≠ .idle → s.consumer ≠ .idle) →
        t.PopInvariant (history ++ events) := by
      intro within busy
      constructor
      · rw [beforePop_within within]
        exact ih.claimed
      · rw [beforePop_within within, popped_within within]
        exact fun away => ih.popped (busy away)
    cases step_popTurn step with
    | aside _ same inside => exact within inside (by rw [same]; exact id)
    | called =>
      constructor
      · rw [beforePop_called]
        exact (CallInvariant.reach before).accepted
      · rw [beforePop_called, popped_append]
        exact fun _ => (List.append_nil _).symm
    | empty at_ | ready at_ => exact within (by simp) (by simp [at_])
    | inside busy _ _ _ inside => exact within inside (fun _ => busy)
    | @returned result _ idle =>
      have same : beforePop (history ++ [.popReturned result]) = beforePop history :=
        LatestEvent.past_append _ (by simp [QueueEvent.isPopCalled]) history
      exact ⟨by rw [same]; exact ih.claimed, fun busy => absurd idle busy⟩

omit [Movable α] in
/-- A call between its compare-exchange and its publishing store has not returned. -/
theorem CallInvariant.not_returned (inv : CallInvariant s.producers history) {i : ι} {call : PushCall ι α}
    {pos : Nat} (claim : (s.producers i).phase.claim = some (pos, call)) (accepted : Bool) :
    .pushReturned call accepted ∉ history := by
  have under : (s.producers i).phase.call = some call := by
    cases at_ : (s.producers i).phase <;>
      simp only [at_, PushPhase.claim, reduceCtorEq] at claim <;> cases claim <;> rfl
  intro returned
  have done := inv.returned call accepted returned
  rw [(inv.current i call under).1, Producer.finished, under] at done
  exact Nat.lt_irrefl _ done

/-- The values popped are those of the positions before the one that `Pop` looks at. -/
theorem popped_of_loading (two : 2 ≤ c.size) (reach : (queueMachine Nat ι α c).Reach s history) {pos : Nat}
    (loads : s.consumer = .loadSequence pos) :
    popped history = ((claims history).take pos).map fun claim => claim.2.value := by
  have here := (RingInvariant.reach two reach).position pos (by rw [loads]; rfl)
  have hand := (DataInvariant.reach two reach).hand
  simp only [loads, PopPhase.inHand, Option.toList_none, List.append_nil, taken, ← here] at hand
  exact hand

/-- An unpublished position is empty for `Pop` unless it is claimed and a
later one was completed before. -/
theorem emptyForPop_iff (two : 2 ≤ c.size) (reach : (queueMachine Nat ι α c).Reach s history) {pos : Nat}
    (loads : s.consumer = .loadSequence pos) (unpublished : s.queue.sequenceAt pos ≠ pos + 1) :
    EmptyForPop history ↔ ¬ s.StalledBefore history pos := by
  have ring := RingInvariant.reach two reach
  have counted := Counted.reach two reach
  have calls := CallInvariant.reach reach
  have inv := PopInvariant.reach reach
  have here := ring.position pos (by rw [loads]; rfl)
  have front : s.released = pos := by simp only [released, loads, here]
  have values := popped_of_loading two reach loads
  have earlier := inv.popped (by simp [loads])
  have past : ∀ {event}, event ∈ beforePop history → event ∈ history := fun member =>
    (LatestEvent.past_prefix _ history).subset member
  unfold EmptyForPop
  rw [earlier, values]
  constructor
  · rintro empty ⟨_, call, later, returned, claimed, beyond⟩
    obtain ⟨own, ownClaim, atOwn⟩ := empty call returned
    have before := (List.getElem?_eq_some_iff.mp atOwn).1
    rw [List.length_map, List.length_take] at before
    have order := calls.program_order counted (past ownClaim) (past claimed) rfl
    have order' := calls.program_order counted (past claimed) (past ownClaim) rfl
    omega
  · intro clear call returned
    obtain ⟨own, claimed⟩ := inv.claimed call returned
    have within := counted.claimed_lt (past claimed)
    have before : own < pos := by
      by_contra beyond
      rcases ring.filled pos front.le (by omega) with published | ⟨i, other, stalled⟩
      · exact unpublished published
      · have otherClaimed := (DataInvariant.reach two reach).claim i pos other stalled
        rcases Nat.lt_or_eq_of_le (not_lt.mp beyond) with after | same
        · exact clear ⟨⟨i, other, stalled⟩, call, own, returned, claimed, after⟩
        · subst same
          cases counted.claimed_unique otherClaimed (past claimed)
          exact calls.not_returned stalled true (past returned)
    refine ⟨own, claimed, ?_⟩
    rw [List.getElem?_map, List.getElem?_take_of_lt before, counted.claims_getElem?.mp (past claimed)]
    rfl

namespace ReportsEmptyRightly

omit [DecidableEq ι] [Movable α] in
/-- A step that returns no `nullopt`. -/
theorem quiet_iff (absent : .popReturned none ∉ events)
    (reports : (t.consumer = .returns none → EmptyForPop (history ++ events)) ↔
      (s.consumer = .returns none → EmptyForPop history)) :
    t.ReportsEmptyRightly (history ++ events) ↔ s.ReportsEmptyRightly history := by
  constructor
  · rintro ⟨pending, reported⟩
    refine ⟨reports.mp pending, fun before past => ?_⟩
    exact reported before ((LatestEvent.prefix_append_of_notMem absent).mpr past)
  · rintro ⟨pending, reported⟩
    refine ⟨reports.mpr pending, fun before past => ?_⟩
    exact reported before ((LatestEvent.prefix_append_of_notMem absent).mp past)

/-- What a step makes of the past depends on the state in which `Pop` loads the sequence number. -/
theorem step_iff (two : 2 ≤ c.size) {action : QueueAction ι α} (reach : (queueMachine Nat ι α c).Reach s history)
    (step : (queueMachine Nat ι α c).step s action = some (t, events)) :
    t.ReportsEmptyRightly (history ++ events) ↔
      s.ReportsEmptyRightly history ∧ s.LoadsPastNoStall history action := by
  unfold LoadsPastNoStall
  cases step_popTurn step with
  | aside other same within =>
    rw [and_iff_left (fun pops => absurd pops other)]
    exact quiet_iff (fun member => nomatch within _ member) (by rw [same, emptyForPop_within within])
  | called idle next =>
    rw [and_iff_left nofun]
    exact quiet_iff (by simp) (by simp [idle, next])
  | @empty pos loads unpublished next =>
    have allowed : (QueueAction.stepPop (ι := ι) (α := α) = .stepPop → ∀ at_, s.consumer = .loadSequence at_ →
        ¬ s.StalledBefore history at_) ↔ EmptyForPop history := by
      rw [emptyForPop_iff two reach loads unpublished]
      constructor
      · exact fun clear => clear rfl pos loads
      · intro clear _ at_ here
        cases loads.symm.trans here
        exact clear
    rw [allowed, List.append_nil]
    constructor
    · rintro ⟨pending, reported⟩
      exact ⟨⟨by simp [loads], reported⟩, pending next⟩
    · rintro ⟨⟨_, reported⟩, empty⟩
      exact ⟨fun _ => empty, reported⟩
  | @ready pos loads published next =>
    rw [and_iff_left]
    · exact quiet_iff (by simp) (by simp [loads, next])
    · rintro _ at_ here ⟨⟨i, stalled⟩, _⟩
      cases loads.symm.trans here
      have own := ((RingInvariant.reach two reach).claim i pos stalled).2.2
      omega
  | inside busy elsewhere reports next within =>
    rw [and_iff_left (fun _ pos loads => absurd loads (elsewhere pos))]
    exact quiet_iff (fun member => nomatch within _ member) (by simp [reports, next])
  | @returned result reports idle =>
    rw [and_iff_left (by simp [reports])]
    cases result with
    | some value => exact quiet_iff (by simp) (by simp [reports, idle])
    | none =>
      constructor
      · rintro ⟨_, reported⟩
        obtain ⟨earlier, now⟩ := LatestEvent.forall_prefix_concat.mp reported
        exact ⟨fun _ => now rfl, earlier⟩
      · rintro ⟨pending, reported⟩
        exact ⟨by simp [idle], LatestEvent.forall_prefix_concat.mpr ⟨reported, fun _ => pending reports⟩⟩

end ReportsEmptyRightly

end Steps

end QueueState

section Emptiness

variable [DecidableEq ι] [Movable α] {s : QueueState Nat ι α c} {history : List (QueueEvent Nat ι α)}

/-- `Pop` reports empty only when the queue is empty for it in exactly the
runs in which it never looks at a position whose producer is stalled while a
later one is complete. -/
theorem mpscQueue_reportsEmptyRightly_iff (two : 2 ≤ c.size) (reach : (queueMachine Nat ι α c).Reach s history) :
    s.ReportsEmptyRightly history ↔
      (queueMachine Nat ι α c).ReachWhile QueueState.LoadsPastNoStall s history :=
  reach.iff_reachWhile ⟨nofun, fun _ past => absurd (List.prefix_nil.mp past) (List.concat_ne_nil _ _)⟩
    (QueueState.ReportsEmptyRightly.step_iff two)

/-- A value is pushed and popped, and the next `Pop` finds nothing. -/
def drained : List (QueueAction Nat String) :=
  .callPush 0 "a" :: List.replicate 6 (.stepPush 0 false) ++ .callPop :: List.replicate 6 .stepPop ++
    .callPop :: List.replicate 3 .stepPop

theorem mpscQueue_reportsEmptyRightly_iff_drained :
    ∃ s history, (queueMachine Nat Nat String .default).run
        (queueMachine Nat Nat String .default).initial drained = some (s, history) ∧
      popped history = ["a"] ∧ history.getLast? = some (.popReturned none) ∧
      (s.ReportsEmptyRightly history ↔
        (queueMachine Nat Nat String .default).ReachWhile QueueState.LoadsPastNoStall s history) := by
  refine ⟨_, _, rfl, rfl, rfl, ?_⟩
  exact mpscQueue_reportsEmptyRightly_iff (by decide) (Machine.Reach.start.run
    (rfl : (queueMachine Nat Nat String .default).run _ drained = some (_, _)))

/-- The first producer claims position 0 and stalls, the second one completes
its `Push`, and the consumer pops. -/
def stalledPush : List (QueueAction Nat String) :=
  .callPush 0 "a" :: List.replicate 3 (.stepPush 0 false) ++ .callPush 1 "b" :: List.replicate 6 (.stepPush 1 false) ++
    .callPop :: List.replicate 3 .stepPop

/-- What is observed of it before `Pop` is called. -/
def stalledHistory : List (QueueEvent Nat Nat String) :=
  [.pushCalled ⟨0, 0, "a"⟩, .claimed ⟨0, 0, "a"⟩ 0, .pushCalled ⟨1, 0, "b"⟩, .claimed ⟨1, 0, "b"⟩ 1,
    .published ⟨1, 0, "b"⟩ 1, .pushReturned ⟨1, 0, "b"⟩ true]

theorem not_emptyForPop_stalledHistory : ¬ EmptyForPop (stalledHistory ++ [.popCalled]) := by
  unfold EmptyForPop
  rw [beforePop_called]
  intro empty
  obtain ⟨pos, _, returned⟩ := empty ⟨1, 0, "b"⟩ (by simp [stalledHistory])
  cases returned

theorem mpscQueue_not_reportsEmptyRightly :
    ∃ s, (queueMachine Nat Nat String .default).run (queueMachine Nat Nat String .default).initial stalledPush =
        some (s, stalledHistory ++ [.popCalled] ++ [.popReturned none]) ∧
      ¬ s.ReportsEmptyRightly (stalledHistory ++ [.popCalled] ++ [.popReturned none]) :=
  ⟨_, rfl, fun right => not_emptyForPop_stalledHistory (right.reported _ (List.prefix_refl _))⟩

end Emptiness

end ConsolidatedBook
