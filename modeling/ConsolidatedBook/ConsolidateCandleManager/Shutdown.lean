import ConsolidatedBook.Machine
import ConsolidatedBook.LatestEvent
import ConsolidatedBook.ConsolidateCandleManager.Routing

namespace ConsolidatedBook

/-- Where the worker thread stands in `Run`: at the access that it makes next. -/
inductive ConsumerPhase
  | absent
  | testRunning
  | popTrade
  | processTrade (trade : Trade)
  | sleep
  | finished

/-- Where the thread that owns the manager stands in `Stop`. -/
inductive StopPhase
  | idle
  | exchangeRunning
  | join
  | emitFinalCandles
deriving DecidableEq

/-- The manager with its two threads and the pipe, which is a FIFO queue. -/
structure ManagerState (σ : Type) where
  manager : ConsolidateCandleManager σ
  pipe : List Trade
  worker : ConsumerPhase
  owner : StopPhase

inductive ManagerEvent
  | pushed (trade : Trade)
  | stopCalled
  | handed (trade : Trade)
  | finalCandles (calls : List CandleCall)

inductive ManagerAction
  | push (trade : Trade)
  | callStart
  | callStop
  | stepOwner (keys : List String)
  | stepWorker

variable {σ : Type} (builder : CandleBuilder σ)

namespace ManagerState

/-- One access of `Run` by the worker. -/
def stepWorker (s : ManagerState σ) : Option (ManagerState σ × List ManagerEvent) :=
  match s.worker with
  | .absent | .finished => none
  | .testRunning => some ({ s with worker := if s.manager.running then .popTrade else .finished }, [])
  | .popTrade =>
    match s.pipe with
    | [] => some ({ s with worker := .sleep }, [])
    | trade :: rest => some ({ s with pipe := rest, worker := .processTrade trade }, [])
  | .processTrade trade =>
    some ({ s with
      manager := (s.manager.processTrade builder trade).1
      worker := .testRunning }, [.handed trade])
  | .sleep => some ({ s with worker := .testRunning }, [])

/-- One access of `Stop` by the owner; `keys` is the order of its loop over the builders. -/
def stepOwner (s : ManagerState σ) (keys : List String) : Option (ManagerState σ × List ManagerEvent) :=
  match s.owner with
  | .idle => none
  | .exchangeRunning =>
    some ({ s with
      manager := { s.manager with running := false }
      owner := if s.manager.running then .join else .idle }, [])
  | .join =>
    match s.worker with
    | .absent | .finished => some ({ s with worker := .absent, owner := .emitFinalCandles }, [])
    | _ => none
  | .emitFinalCandles =>
    if ConsolidateCandleManager.Enumerates keys s.manager.builders then
      let (manager, calls) := s.manager.emitFinalCandles builder keys
      some ({ s with manager := manager, owner := .idle }, [.finalCandles calls])
    else none

/-- Trades are pushed at any time; `Start` and `Stop` are called by one thread. -/
def step (s : ManagerState σ) : ManagerAction → Option (ManagerState σ × List ManagerEvent)
  | .push trade => some ({ s with pipe := s.pipe ++ [trade] }, [.pushed trade])
  | .callStart =>
    if s.owner = .idle then
      if s.manager.running then some (s, [])
      else some ({ s with manager := s.manager.start, worker := .testRunning }, [])
    else none
  | .callStop => if s.owner = .idle then some ({ s with owner := .exchangeRunning }, [.stopCalled]) else none
  | .stepOwner keys => s.stepOwner builder keys
  | .stepWorker => s.stepWorker builder

end ManagerState

/-- A manager that is constructed, given its callback, and started and stopped any number of times. -/
def managerMachine (intervalMs : Int) (instruments : List String) :
    Machine (ManagerState σ) ManagerAction ManagerEvent where
  initial := {
    manager := (ConsolidateCandleManager.create builder intervalMs instruments).setCandleCallback
    pipe := []
    worker := .absent
    owner := .idle }
  step := ManagerState.step builder

/-- The trades that were pushed into the pipe, in order. -/
def pushedTrades (history : List ManagerEvent) : List Trade :=
  history.filterMap fun
    | .pushed trade => some trade
    | _ => none

/-- The trades that `ProcessTrade` has handed to their builders, in order. -/
def handedTrades (history : List ManagerEvent) : List Trade :=
  history.filterMap fun
    | .handed trade => some trade
    | _ => none

def ManagerEvent.isStopCalled : ManagerEvent → Bool
  | .stopCalled => true
  | _ => false

/-- What had been observed when `Stop` was called last. -/
def beforeStop (history : List ManagerEvent) : List ManagerEvent :=
  LatestEvent.past ManagerEvent.isStopCalled history

/-- Wherever `Stop` emits the final candles, the trades pushed before its
call have all been handed to their builders. -/
def StopLosesNoTrade (history : List ManagerEvent) : Prop :=
  ∀ before calls, before ++ [.finalCandles calls] <+: history →
    pushedTrades (beforeStop before) <+: handedTrades before

/-- The trade that the worker has popped and not handed over yet. -/
def ConsumerPhase.inHand : ConsumerPhase → List Trade
  | .processTrade trade => [trade]
  | _ => []

/-- How many trades the worker hands over, at most, before it tests `running` again. -/
def ConsumerPhase.carried : ConsumerPhase → Nat
  | .popTrade | .processTrade _ => 1
  | _ => 0

namespace ManagerState

/-- Where `Stop` clears `running`, the trades that were pushed before its
call and are not handed over yet are no more than the worker still hands over. -/
def StopsDrained (s : ManagerState σ) (history : List ManagerEvent) : ManagerAction → Prop
  | .stepOwner _ => s.owner = .exchangeRunning → s.manager.running = true →
      (pushedTrades (beforeStop history)).length ≤ (handedTrades history).length + s.worker.carried
  | _ => True

/-- No trade leaves the pipe but for its builder, and the thread object is
joinable only while `running` is set or `Stop` is about to join it. -/
structure PipeInvariant (s : ManagerState σ) (history : List ManagerEvent) : Prop where
  conserved : pushedTrades history = handedTrades history ++ s.worker.inHand ++ s.pipe
  stopped : s.owner = .join ∨ s.owner = .emitFinalCandles → s.manager.running = false
  joined : s.manager.running = false → s.owner ≠ .join → s.worker = .absent

/-- `Stop` has cleared `running` and not emitted the final candles yet. -/
def Stopping (s : ManagerState σ) : Prop := s.owner = .join ∨ s.owner = .emitFinalCandles

/-- What is owed at a `Stop`, under way or over: the trades pushed before its
call are handed over before the final candles. -/
structure Settles (s : ManagerState σ) (history : List ManagerEvent) : Prop where
  pending : s.Stopping →
    (pushedTrades (beforeStop history)).length ≤ (handedTrades history).length + s.worker.carried
  emitted : StopLosesNoTrade history

/-- Everything that one step can do, one case for each access and each outcome of it. -/
inductive Move (s : ManagerState σ) : ManagerAction → ManagerState σ → List ManagerEvent → Prop
  | pushed {trade} : Move s (.push trade) { s with pipe := s.pipe ++ [trade] } [.pushed trade]
  | startIgnored : s.owner = .idle → s.manager.running = true → Move s .callStart s []
  | started : s.owner = .idle → s.manager.running = false →
      Move s .callStart { s with manager := s.manager.start, worker := .testRunning } []
  | stopCalled : s.owner = .idle → Move s .callStop { s with owner := .exchangeRunning } [.stopCalled]
  | cleared {keys} : s.owner = .exchangeRunning → s.manager.running = true →
      Move s (.stepOwner keys) { s with manager := { s.manager with running := false }, owner := .join } []
  | stopIgnored {keys} : s.owner = .exchangeRunning → s.manager.running = false →
      Move s (.stepOwner keys) { s with owner := .idle } []
  | joined {keys} : s.owner = .join → s.worker = .absent ∨ s.worker = .finished →
      Move s (.stepOwner keys) { s with worker := .absent, owner := .emitFinalCandles } []
  | emitted {keys} : s.owner = .emitFinalCandles →
      Move s (.stepOwner keys) { s with
        manager := (s.manager.emitFinalCandles builder keys).1
        owner := .idle } [.finalCandles (s.manager.emitFinalCandles builder keys).2]
  | continued : s.worker = .testRunning → s.manager.running = true →
      Move s .stepWorker { s with worker := .popTrade } []
  | finished : s.worker = .testRunning → s.manager.running = false →
      Move s .stepWorker { s with worker := .finished } []
  | foundEmpty : s.worker = .popTrade → s.pipe = [] → Move s .stepWorker { s with worker := .sleep } []
  | popped {trade rest} : s.worker = .popTrade → s.pipe = trade :: rest →
      Move s .stepWorker { s with pipe := rest, worker := .processTrade trade } []
  | handed {trade} : s.worker = .processTrade trade →
      Move s .stepWorker { s with
        manager := (s.manager.processTrade builder trade).1
        worker := .testRunning } [.handed trade]
  | woken : s.worker = .sleep → Move s .stepWorker { s with worker := .testRunning } []

variable {builder} {s t : ManagerState σ} {history events : List ManagerEvent}

theorem stepWorker_move (step : s.stepWorker builder = some (t, events)) : s.Move builder .stepWorker t events := by
  unfold stepWorker at step
  cases at_ : s.worker with
  | absent | finished => simp [at_] at step
  | testRunning =>
    cases running : s.manager.running <;> simp only [at_, running, Bool.false_eq_true, if_false, if_true] at step <;>
      cases step
    · exact .finished at_ running
    · exact .continued at_ running
  | popTrade =>
    cases pipe : s.pipe <;> simp only [at_, pipe] at step <;> cases step
    · rw [← pipe]
      exact .foundEmpty at_ pipe
    · exact .popped at_ pipe
  | processTrade trade =>
    simp only [at_] at step
    cases step
    exact .handed at_
  | sleep =>
    simp only [at_] at step
    cases step
    exact .woken at_

theorem stepOwner_move {keys : List String} (step : s.stepOwner builder keys = some (t, events)) :
    s.Move builder (.stepOwner keys) t events := by
  unfold stepOwner at step
  cases at_ : s.owner with
  | idle => simp [at_] at step
  | exchangeRunning =>
    cases running : s.manager.running <;> simp only [at_, running, Bool.false_eq_true, if_false, if_true] at step <;>
      cases step
    · rw [← running]
      exact .stopIgnored at_ running
    · exact .cleared at_ running
  | join =>
    cases worker : s.worker <;> simp only [at_, worker, reduceCtorEq] at step <;> cases step
    · exact .joined at_ (Or.inl worker)
    · exact .joined at_ (Or.inr worker)
  | emitFinalCandles =>
    simp only [at_, Option.ite_none_right_eq_some] at step
    obtain ⟨_, same⟩ := step
    cases same
    exact .emitted at_

theorem step_move {action : ManagerAction} (step : s.step builder action = some (t, events)) :
    s.Move builder action t events := by
  cases action with
  | push trade =>
    cases step
    exact .pushed
  | callStart =>
    simp only [ManagerState.step, Option.ite_none_right_eq_some] at step
    obtain ⟨idle, step⟩ := step
    split at step
    · rename_i running
      cases step
      exact .startIgnored idle running
    · rename_i stopped
      cases step
      exact .started idle (Bool.eq_false_iff.mpr stopped)
  | callStop =>
    simp only [ManagerState.step, Option.ite_none_right_eq_some] at step
    obtain ⟨idle, same⟩ := step
    cases same
    exact .stopCalled idle
  | stepOwner keys => exact stepOwner_move step
  | stepWorker => exact stepWorker_move step

theorem emit_running (manager : ConsolidateCandleManager σ) (instrument : String) (candle : Option Candle) :
    (manager.emit instrument candle).1.running = manager.running := by
  cases candle with
  | none => rfl
  | some candle =>
    simp only [ConsolidateCandleManager.emit]
    split <;> rfl

theorem getOrCreateBuilder_running (manager : ConsolidateCandleManager σ) (instrument : String) :
    (manager.getOrCreateBuilder builder instrument).1.running = manager.running := by
  unfold ConsolidateCandleManager.getOrCreateBuilder
  split <;> rfl

theorem processTrade_running (manager : ConsolidateCandleManager σ) (trade : Trade) :
    (manager.processTrade builder trade).1.running = manager.running :=
  (emit_running _ _ _).trans (getOrCreateBuilder_running _ _)

theorem pushedTrades_append (history events : List ManagerEvent) :
    pushedTrades (history ++ events) = pushedTrades history ++ pushedTrades events := List.filterMap_append

theorem handedTrades_append (history events : List ManagerEvent) :
    handedTrades (history ++ events) = handedTrades history ++ handedTrades events := List.filterMap_append

theorem PipeInvariant.move (inv : s.PipeInvariant history) {action : ManagerAction}
    (move : s.Move builder action t events) : t.PipeInvariant (history ++ events) := by
  have conserved := inv.conserved
  cases move with
  | @pushed trade =>
    refine ⟨?_, inv.stopped, inv.joined⟩
    rw [pushedTrades_append, handedTrades_append, conserved]
    simp [pushedTrades, handedTrades]
  | startIgnored => simpa using inv
  | started idle stopped =>
    have absent := inv.joined stopped (by simp [idle])
    refine ⟨by simpa [absent, ConsumerPhase.inHand] using conserved, by simp [idle], fun running => ?_⟩
    cases running
  | stopCalled idle =>
    refine ⟨by simpa [pushedTrades, handedTrades] using conserved, by simp, fun stopped _ => ?_⟩
    exact inv.joined stopped (by simp [idle])
  | cleared => exact ⟨by simpa using conserved, by simp, by simp⟩
  | stopIgnored owner stopped =>
    exact ⟨by simpa using conserved, by simp, fun _ _ => inv.joined stopped (by simp [owner])⟩
  | joined owner ended =>
    refine ⟨?_, fun _ => inv.stopped (Or.inl owner), fun _ _ => rfl⟩
    rcases ended with absent | finished
    · simpa [absent, ConsumerPhase.inHand] using conserved
    · simpa [finished, ConsumerPhase.inHand] using conserved
  | @emitted keys owner =>
    have stopped := inv.stopped (Or.inr owner)
    refine ⟨by simpa [pushedTrades, handedTrades] using conserved, by simp, fun _ _ => ?_⟩
    exact inv.joined stopped (by simp [owner])
  | continued worker running =>
    refine ⟨by simpa [worker, ConsumerPhase.inHand] using conserved, inv.stopped, fun stopped => ?_⟩
    exact absurd stopped (by simp [running])
  | finished worker stopped =>
    refine ⟨by simpa [worker, ConsumerPhase.inHand] using conserved, inv.stopped, fun _ apart => ?_⟩
    exact absurd (inv.joined stopped apart) (by simp [worker])
  | foundEmpty worker empty =>
    refine ⟨by simpa [worker, ConsumerPhase.inHand] using conserved, inv.stopped, fun stopped apart => ?_⟩
    exact absurd (inv.joined stopped apart) (by simp [worker])
  | popped worker pipe =>
    refine ⟨by simpa [worker, pipe, ConsumerPhase.inHand] using conserved, inv.stopped, fun stopped apart => ?_⟩
    exact absurd (inv.joined stopped apart) (by simp [worker])
  | handed worker =>
    refine ⟨?_, ?_, ?_⟩
    · rw [pushedTrades_append, handedTrades_append, conserved, worker]
      simp [pushedTrades, handedTrades, ConsumerPhase.inHand]
    · rw [processTrade_running]
      exact inv.stopped
    · rw [processTrade_running]
      intro stopped apart
      exact absurd (inv.joined stopped apart) (by simp [worker])
  | woken worker =>
    refine ⟨by simpa [worker, ConsumerPhase.inHand] using conserved, inv.stopped, fun stopped apart => ?_⟩
    exact absurd (inv.joined stopped apart) (by simp [worker])

theorem PipeInvariant.reach {intervalMs : Int} {instruments : List String}
    (reach : (managerMachine builder intervalMs instruments).Reach s history) : s.PipeInvariant history := by
  induction reach with
  | start => exact ⟨rfl, by simp [managerMachine], fun _ _ => rfl⟩
  | next _ step ih => exact ih.move (step_move step)

theorem beforeStop_append (others : ∀ event ∈ events, event.isStopCalled = false) (history : List ManagerEvent) :
    beforeStop (history ++ events) = beforeStop history := LatestEvent.past_append _ others history

theorem pushedTrades_beforeStop (history : List ManagerEvent) :
    pushedTrades (beforeStop history) <+: pushedTrades history :=
  (LatestEvent.past_prefix _ history).filterMap _

/-- As trades are handed over in the order in which they were pushed, it is
enough to count them. -/
theorem PipeInvariant.prefix_iff (inv : s.PipeInvariant history) :
    pushedTrades (beforeStop history) <+: handedTrades history ↔
      (pushedTrades (beforeStop history)).length ≤ (handedTrades history).length := by
  have handed : handedTrades history <+: pushedTrades history := by
    rw [inv.conserved, List.append_assoc]
    exact List.prefix_append _ _
  exact ⟨List.IsPrefix.length_le, List.prefix_of_prefix_length_le (pushedTrades_beforeStop history) handed⟩

theorem stopLosesNoTrade_append (none : ∀ calls, .finalCandles calls ∉ events) :
    StopLosesNoTrade (history ++ events) ↔ StopLosesNoTrade history := by
  constructor
  · intro loses before calls past
    exact loses before calls ((LatestEvent.prefix_append_of_notMem (none calls)).mpr past)
  · intro loses before calls past
    exact loses before calls ((LatestEvent.prefix_append_of_notMem (none calls)).mp past)

/-- A step of which `StopsDrained` asks nothing, and which emits no final candles. -/
theorem Settles.quiet_iff {action : ManagerAction} (none : ∀ calls, .finalCandles calls ∉ events)
    (free : s.StopsDrained history action)
    (pending : (t.Stopping → (pushedTrades (beforeStop (history ++ events))).length ≤
        (handedTrades (history ++ events)).length + t.worker.carried) ↔
      (s.Stopping → (pushedTrades (beforeStop history)).length ≤
        (handedTrades history).length + s.worker.carried)) :
    t.Settles (history ++ events) ↔ s.Settles history ∧ s.StopsDrained history action := by
  rw [and_iff_left free]
  constructor
  · exact fun settles => ⟨pending.mp settles.pending, (stopLosesNoTrade_append none).mp settles.emitted⟩
  · exact fun settles => ⟨pending.mpr settles.pending, (stopLosesNoTrade_append none).mpr settles.emitted⟩

/-- What a step makes of the account depends on the backlog at which `running` is cleared. -/
theorem Settles.move_iff (inv : s.PipeInvariant history) {action : ManagerAction}
    (move : s.Move builder action t events) :
    t.Settles (history ++ events) ↔ s.Settles history ∧ s.StopsDrained history action := by
  have idle : s.owner = .idle ∨ s.owner = .exchangeRunning → ¬ s.Stopping := by
    rintro (owner | owner) (stopping | stopping) <;> simp [owner] at stopping
  cases move with
  | pushed =>
    refine quiet_iff (by simp) trivial ?_
    rw [beforeStop_append (by simp [ManagerEvent.isStopCalled]), handedTrades_append]
    simp [handedTrades, Stopping]
  | startIgnored => exact quiet_iff (by simp) trivial (by rw [List.append_nil])
  | started owner =>
    refine quiet_iff (by simp) trivial ?_
    simp [Stopping, owner]
  | stopCalled owner =>
    refine quiet_iff (by simp) trivial ?_
    simp [Stopping, owner]
  | cleared owner running =>
    have before := idle (Or.inr owner)
    rw [List.append_nil]
    constructor
    · exact fun settles => ⟨⟨fun stopping => absurd stopping before, settles.emitted⟩,
        fun _ _ => settles.pending (Or.inl rfl)⟩
    · exact fun ⟨settles, drained⟩ => ⟨fun _ => drained owner running, settles.emitted⟩
  | stopIgnored owner stopped =>
    refine quiet_iff (by simp) (fun _ running => ?_) ?_
    · exact absurd running (by simp [stopped])
    · simp [Stopping, owner]
  | joined owner ended =>
    refine quiet_iff (by simp) (fun clears => ?_) ?_
    · exact absurd clears (by simp [owner])
    · rcases ended with absent | finished
      · simp [Stopping, owner, absent]
      · simp [Stopping, owner, finished, ConsumerPhase.carried]
  | @emitted keys owner =>
    have stopped := inv.stopped (Or.inr owner)
    have absent := inv.joined stopped (by simp [owner])
    have settled : (s.Stopping → (pushedTrades (beforeStop history)).length ≤
          (handedTrades history).length + s.worker.carried) ↔
        pushedTrades (beforeStop history) <+: handedTrades history := by
      rw [inv.prefix_iff, absent]
      exact ⟨fun pending => pending (Or.inr owner), fun bound _ => bound⟩
    have free : s.StopsDrained history (.stepOwner keys) := fun clears => absurd clears (by simp [owner])
    rw [and_iff_left free]
    constructor
    · intro settles
      refine ⟨settled.mpr (settles.emitted history _ (List.prefix_refl _)), fun before calls past => ?_⟩
      exact settles.emitted before calls (past.trans (List.prefix_append _ _))
    · intro settles
      refine ⟨by simp [Stopping], fun before calls past => ?_⟩
      revert before
      refine LatestEvent.forall_prefix_concat.mpr ⟨fun before => ?_, fun _ => ?_⟩
      · exact settles.emitted before calls
      · exact settled.mp settles.pending
  | continued worker running =>
    have before : ¬ s.Stopping := fun stopping => absurd (inv.stopped stopping) (by simp [running])
    refine quiet_iff (by simp) trivial ?_
    exact ⟨fun _ stopping => absurd stopping before, fun _ stopping => absurd stopping before⟩
  | finished worker =>
    refine quiet_iff (by simp) trivial ?_
    simp [Stopping, worker, ConsumerPhase.carried]
  | foundEmpty worker empty =>
    refine quiet_iff (by simp) trivial ?_
    -- nothing is left, so all that was pushed is handed over
    have conserved := inv.conserved
    simp only [worker, empty, ConsumerPhase.inHand, List.append_nil] at conserved
    have all := (pushedTrades_beforeStop history).length_le
    rw [conserved] at all
    rw [List.append_nil]
    exact ⟨fun _ _ => all.trans (Nat.le_add_right _ _), fun _ _ => all⟩
  | popped worker pipe =>
    refine quiet_iff (by simp) trivial ?_
    simp [Stopping, worker, ConsumerPhase.carried]
  | handed worker =>
    refine quiet_iff (by simp) trivial ?_
    rw [beforeStop_append (by simp [ManagerEvent.isStopCalled]), handedTrades_append, worker]
    simp [handedTrades, Stopping, ConsumerPhase.carried]
  | woken worker =>
    refine quiet_iff (by simp) trivial ?_
    simp [Stopping, worker, ConsumerPhase.carried]

/-- The builders are those that the trades handed over so far have made, each from its own. -/
structure Routed (s : ManagerState σ) (builder : CandleBuilder σ) (intervalMs : Int) (instruments : List String)
    (trades : List Trade) : Prop where
  set : s.manager.candleCallback = true
  interval : s.manager.intervalMs = intervalMs
  builders : s.manager.builders = (KeyedMachine.feed
    (KeyedMachine.route Trade.instrument (builder.construct · intervalMs) builder.step)
    (ConsolidateCandleManager.create builder intervalMs instruments).builders trades).1

theorem Routed.move {intervalMs : Int} {instruments : List String}
    (routed : s.Routed builder intervalMs instruments (handedTrades history)) {action : ManagerAction}
    (move : s.Move builder action t events) :
    t.Routed builder intervalMs instruments (handedTrades (history ++ events)) := by
  obtain ⟨set, interval, builders⟩ := routed
  have quiet : handedTrades events = [] → handedTrades (history ++ events) = handedTrades history := by
    intro none
    rw [handedTrades_append, none, List.append_nil]
  cases move with
  | pushed | startIgnored | started | stopCalled | cleared | stopIgnored | joined | continued | finished
  | foundEmpty | popped | woken =>
    rw [quiet rfl]
    exact ⟨set, interval, builders⟩
  | emitted =>
    rw [quiet rfl, ConsolidateCandleManager.emitFinalCandles_eq builder set]
    exact ⟨set, interval, builders⟩
  | @handed trade =>
    rw [handedTrades_append, ConsolidateCandleManager.processTrade_eq builder set]
    refine ⟨set, interval, ?_⟩
    rw [KeyedMachine.feed_append, ← builders, interval]
    rfl

end ManagerState

section Shutdown

variable {builder} {intervalMs : Int} {instruments : List String} {s : ManagerState σ} {history : List ManagerEvent}

/-- In every interleaving, each builder is as if it had been handed its
instrument's trades alone. -/
theorem lookup_builders (reach : (managerMachine builder intervalMs instruments).Reach s history)
    (instrument : String) :
    s.manager.builders.lookup instrument =
      if instrument ∈ instruments ∨ tradesOf instrument (handedTrades history) ≠ [] then
        some (builder.fed intervalMs instrument (tradesOf instrument (handedTrades history))).1
      else none := by
  have routed : s.Routed builder intervalMs instruments (handedTrades history) := by
    induction reach with
    | start => exact ⟨rfl, rfl, rfl⟩
    | next _ step ih => exact ih.move (ManagerState.step_move step)
  rw [routed.builders]
  exact ConsolidateCandleManager.lookup_routed builder _ instrument

theorem settles_iff (reach : (managerMachine builder intervalMs instruments).Reach s history) :
    s.Settles history ↔
      (managerMachine builder intervalMs instruments).ReachWhile ManagerState.StopsDrained s history := by
  have start : (managerMachine builder intervalMs instruments).initial.Settles [] := by
    refine ⟨by simp [managerMachine, ManagerState.Stopping], fun before calls past => ?_⟩
    exact absurd (List.prefix_nil.mp past) (List.concat_ne_nil _ _)
  exact reach.iff_reachWhile start fun before step =>
    ManagerState.Settles.move_iff (.reach before) (ManagerState.step_move step)

/-- Where `running` is cleared on a backlog no greater than what the worker
still hands over, and only there, `Stop` loses no trade. -/
theorem consolidateCandleManager_stopLosesNoTrade_iff
    (reach : (managerMachine builder intervalMs instruments).Reach s history) :
    ((managerMachine builder intervalMs instruments).ReachWhile ManagerState.StopsDrained s history →
      StopLosesNoTrade history) ∧
    (s.owner = .idle → StopLosesNoTrade history →
      (managerMachine builder intervalMs instruments).ReachWhile ManagerState.StopsDrained s history) := by
  rw [← settles_iff reach]
  refine ⟨ManagerState.Settles.emitted, fun idle loses => ⟨fun stopping => ?_, loses⟩⟩
  rcases stopping with join | emit
  · cases idle.symm.trans join
  · cases idle.symm.trans emit

/-- A trade is pushed, handed over, and only then the manager is stopped. -/
def stopAfterTrade : List ManagerAction :=
  [.callStart, .push default, .stepWorker, .stepWorker, .stepWorker, .callStop, .stepOwner [], .stepWorker,
    .stepOwner [], .stepOwner [""]]

theorem consolidateCandleManager_stopLosesNoTrade_iff_stopAfterTrade :
    ∃ s history, (managerMachine everyTrade 1000 []).run (managerMachine everyTrade 1000 []).initial stopAfterTrade =
        some (s, history) ∧
      (StopLosesNoTrade history ↔ (managerMachine everyTrade 1000 []).ReachWhile ManagerState.StopsDrained s history) := by
  obtain ⟨s, history, run, idle⟩ : ∃ s history, (managerMachine everyTrade 1000 []).run
      (managerMachine everyTrade 1000 []).initial stopAfterTrade = some (s, history) ∧ s.owner = .idle :=
    ⟨_, _, rfl, rfl⟩
  have settled := consolidateCandleManager_stopLosesNoTrade_iff (Machine.Reach.start.run run)
  exact ⟨s, history, run, settled.2 idle, settled.1⟩

/-- A trade is in the pipe when the manager is stopped before its worker has
made its first test of `running`. -/
def stopOnBacklog : List ManagerAction :=
  [.push default, .callStart, .callStop, .stepOwner [], .stepWorker, .stepOwner [], .stepOwner []]

theorem consolidateCandleManager_stop_loses_trade :
    ∃ s, (managerMachine everyTrade 1000 []).run (managerMachine everyTrade 1000 []).initial stopOnBacklog =
        some (s, [.pushed default, .stopCalled, .finalCandles []]) ∧
      ¬ StopLosesNoTrade [.pushed default, .stopCalled, .finalCandles []] := by
  refine ⟨_, rfl, fun loses => ?_⟩
  have handed := loses [.pushed default, .stopCalled] [] (List.prefix_refl _)
  have past : beforeStop [.pushed default, .stopCalled] = [.pushed default] := LatestEvent.past_marked _ rfl [_]
  rw [past] at handed
  exact absurd (List.prefix_nil.mp handed) (List.cons_ne_nil _ _)

end Shutdown

end ConsolidatedBook
