import ConsolidatedBook.ConsolidateCandleManager.Shutdown

namespace ConsolidatedBook

open KeyedMachine (feed route machineOf outputsOf)

variable {σ : Type} (builder : CandleBuilder σ)

/-- What a run holds for the builder of one instrument: its trades as they
are handed over, and `none` wherever `Stop` asks for the current candle. -/
def itemsOf (instrument : String) (history : List ManagerEvent) : List (Option Trade) :=
  history.filterMap fun
    | .handed trade => if trade.instrument = instrument then some (some trade) else none
    | .finalCandles _ => some none
    | _ => none

theorem itemsOf_append (instrument : String) (history events : List ManagerEvent) :
    itemsOf instrument (history ++ events) = itemsOf instrument history ++ itemsOf instrument events :=
  List.filterMap_append

namespace CandleBuilder

/-- One builder on its own, made at its first trade if it was not listed. -/
def turn (intervalMs : Int) (instrument : String) (state : Option σ) : Option Trade → Option σ × List Candle
  | some trade =>
    let (next, completed) := builder.step (state.getD (builder.construct instrument intervalMs)) trade
    (some next, completed)
  | none => (state, (state.bind builder.getCurrentCandle).toList)

/-- The builder of one instrument after a run, and the candles that it gives in it. -/
def life (intervalMs : Int) (instruments : List String) (instrument : String) (history : List ManagerEvent) :
    Option σ × List Candle :=
  feed (builder.turn intervalMs instrument)
    (if instrument ∈ instruments then some (builder.construct instrument intervalMs) else none)
    (itemsOf instrument history)

theorem life_append (intervalMs : Int) (instruments : List String) (instrument : String)
    (history events : List ManagerEvent) :
    builder.life intervalMs instruments instrument (history ++ events) =
      ((feed (builder.turn intervalMs instrument) (builder.life intervalMs instruments instrument history).1
          (itemsOf instrument events)).1,
        (builder.life intervalMs instruments instrument history).2 ++
          (feed (builder.turn intervalMs instrument) (builder.life intervalMs instruments instrument history).1
            (itemsOf instrument events)).2) := by
  simp only [life, itemsOf_append, KeyedMachine.feed_append]

end CandleBuilder

/-- The calls of `candle_callback` in one step. -/
def ManagerState.callsOf (s : ManagerState σ) : ManagerAction → List CandleCall
  | .stepWorker =>
    match s.worker with
    | .processTrade trade => (s.manager.processTrade builder trade).2
    | _ => []
  | .stepOwner keys =>
    match s.owner with
    | .emitFinalCandles => (s.manager.emitFinalCandles builder keys).2
    | _ => []
  | _ => []

/-- The manager with the calls of its callback on record. -/
def callingMachine (intervalMs : Int) (instruments : List String) :
    Machine (ManagerState σ × List CandleCall) ManagerAction (ManagerEvent × List CandleCall) :=
  (managerMachine builder intervalMs instruments).noted [] fun calls s action => calls ++ s.callsOf builder action

namespace ConsolidateCandleManager

/-- The manager's callbacks, builders and counters against what each
instrument's builder does on its own. -/
structure AccountsFor (manager : ConsolidateCandleManager σ) (builder : CandleBuilder σ) (intervalMs : Int)
    (instruments : List String) (calls : List CandleCall) (history : List ManagerEvent) : Prop where
  callback : manager.candleCallback = true
  interval : manager.intervalMs = intervalMs
  called : ∀ instrument, outputsOf instrument calls = (builder.life intervalMs instruments instrument history).2
  builders : ∀ instrument, manager.builders.lookup instrument =
    (builder.life intervalMs instruments instrument history).1
  tradesProcessed : manager.tradesProcessed = (handedTrades history).length
  candlesEmitted : manager.candlesEmitted = calls.length

variable {builder} {manager : ConsolidateCandleManager σ} {intervalMs : Int} {instruments : List String}
  {calls : List CandleCall} {history events : List ManagerEvent}

/-- Between two trades `running` alone changes. -/
theorem AccountsFor.quiet (account : manager.AccountsFor builder intervalMs instruments calls history)
    (running : Bool) (handed : handedTrades events = []) (none : ∀ instrument, itemsOf instrument events = []) :
    AccountsFor { manager with running := running } builder intervalMs instruments (calls ++ []) (history ++ events) := by
  have life : ∀ instrument, builder.life intervalMs instruments instrument (history ++ events) =
      builder.life intervalMs instruments instrument history := by
    intro instrument
    rw [CandleBuilder.life_append, none]
    simp only [feed, List.append_nil]
  have trades : handedTrades (history ++ events) = handedTrades history := by
    rw [ManagerState.handedTrades_append, handed, List.append_nil]
  rw [List.append_nil]
  refine ⟨account.callback, account.interval, ?_, ?_, ?_, account.candlesEmitted⟩
  · intro instrument
    rw [life]
    exact account.called instrument
  · intro instrument
    rw [life]
    exact account.builders instrument
  · rw [trades]
    exact account.tradesProcessed

/-- The worker hands a trade to the builder of its instrument. -/
theorem AccountsFor.handed (account : manager.AccountsFor builder intervalMs instruments calls history)
    (trade : Trade) :
    (manager.processTrade builder trade).1.AccountsFor builder intervalMs instruments
      (calls ++ (manager.processTrade builder trade).2) (history ++ [.handed trade]) := by
  have machine : machineOf (builder.construct · manager.intervalMs) manager.builders trade.instrument =
      (builder.life intervalMs instruments trade.instrument history).1.getD
        (builder.construct trade.instrument intervalMs) := by
    rw [machineOf, account.builders, account.interval]
  have own : itemsOf trade.instrument [.handed trade] = [some trade] := by simp [itemsOf]
  have other : ∀ instrument, instrument ≠ trade.instrument → itemsOf instrument [.handed trade] = [] := by
    intro instrument different
    simp [itemsOf, Ne.symm different]
  rw [processTrade_eq builder account.callback trade]
  refine ⟨account.callback, account.interval, ?_, ?_, ?_, ?_⟩
  · intro instrument
    rw [KeyedMachine.outputsOf_append, account.called, CandleBuilder.life_append]
    by_cases here : instrument = trade.instrument
    · subst here
      simp only [route, machine, KeyedMachine.outputsOf_self, own, feed, CandleBuilder.turn, List.append_nil]
    · simp only [route, KeyedMachine.outputsOf_of_ne (Ne.symm here), other instrument here, feed]
  · intro instrument
    rw [CandleBuilder.life_append]
    by_cases here : instrument = trade.instrument
    · subst here
      simp only [route, machine, Finmap.lookup_insert, own, feed, CandleBuilder.turn]
    · simp only [route, Finmap.lookup_insert_of_ne _ here, other instrument here, feed]
      exact account.builders instrument
  · rw [ManagerState.handedTrades_append, List.length_append, ← account.tradesProcessed]
    rfl
  · simp only [List.length_append, account.candlesEmitted]

/-- `Stop` asks every builder there is for its current candle. -/
theorem AccountsFor.emitted (account : manager.AccountsFor builder intervalMs instruments calls history)
    {keys : List String} (order : Enumerates keys manager.builders) (shown : List CandleCall) :
    (manager.emitFinalCandles builder keys).1.AccountsFor builder intervalMs instruments
      (calls ++ (manager.emitFinalCandles builder keys).2) (history ++ [.finalCandles shown]) := by
  obtain ⟨distinct, all⟩ := order
  have items : ∀ instrument, itemsOf instrument [.finalCandles shown] = [none] := fun _ => rfl
  rw [emitFinalCandles_eq builder account.callback keys]
  refine ⟨account.callback, account.interval, ?_, ?_, ?_, ?_⟩
  · intro instrument
    rw [KeyedMachine.outputsOf_append, account.called, CandleBuilder.life_append, items,
      KeyedMachine.outputsOf_flatMap distinct]
    simp only [feed, CandleBuilder.turn, List.append_nil, ← account.builders]
    have listed : instrument ∈ keys ↔ instrument ∈ manager.builders := by
      rw [← List.mem_toFinset, all, Finmap.mem_keys]
    by_cases present : instrument ∈ keys
    · rw [if_pos present]
    · have absent := Finmap.lookup_eq_none.mpr fun member => present (listed.mpr member)
      rw [if_neg present, absent]
      rfl
  · intro instrument
    rw [CandleBuilder.life_append, items]
    exact account.builders instrument
  · rw [ManagerState.handedTrades_append, List.length_append, ← account.tradesProcessed]
    rfl
  · simp only [List.length_append, account.candlesEmitted]

end ConsolidateCandleManager

namespace ManagerState

variable {builder} {s t : ManagerState σ} {intervalMs : Int} {instruments : List String} {calls : List CandleCall}
  {history events : List ManagerEvent}

/-- The loop of `Stop` visits each builder once. -/
theorem enumerates_of_stepOwner {keys : List String} (owner : s.owner = .emitFinalCandles)
    (step : s.stepOwner builder keys = some (t, events)) :
    ConsolidateCandleManager.Enumerates keys s.manager.builders := by
  simp only [stepOwner, owner, Option.ite_none_right_eq_some] at step
  exact step.1

theorem accountsFor_step (account : s.manager.AccountsFor builder intervalMs instruments calls history)
    {action : ManagerAction} (step : s.step builder action = some (t, events)) :
    t.manager.AccountsFor builder intervalMs instruments (calls ++ s.callsOf builder action) (history ++ events) := by
  have none : ∀ instrument : String, itemsOf instrument [] = [] := fun _ => rfl
  cases step_move step with
  | pushed | stopCalled => exact account.quiet _ rfl fun _ => rfl
  | startIgnored | started => exact account.quiet _ rfl none
  | cleared owner | stopIgnored owner | joined owner =>
    simp only [callsOf, owner]
    exact account.quiet _ rfl none
  | emitted owner =>
    simp only [callsOf, owner]
    exact account.emitted (enumerates_of_stepOwner owner step) _
  | continued worker | finished worker | foundEmpty worker | popped worker | woken worker =>
    simp only [callsOf, worker]
    exact account.quiet _ rfl none
  | handed worker =>
    simp only [callsOf, worker]
    exact account.handed _

theorem accountsFor_reach {s : ManagerState σ × List CandleCall} {history : List (ManagerEvent × List CandleCall)}
    (reach : (callingMachine builder intervalMs instruments).Reach s history) :
    s.1.manager.AccountsFor builder intervalMs instruments s.2 (history.map Prod.fst) := by
  induction reach with
  | start =>
    refine ⟨rfl, rfl, fun _ => rfl, fun instrument => ?_, rfl, rfl⟩
    exact ConsolidateCandleManager.lookup_create builder instrument
  | @next s t history action events _ step ih =>
    obtain ⟨⟨next, observed⟩, literal, same⟩ := Option.map_eq_some_iff.mp step
    cases same
    have observe : (observed.map fun event => (event, s.2 ++ s.1.callsOf builder action)).map Prod.fst = observed := by
      rw [List.map_map]
      exact List.map_id observed
    rw [List.map_append, observe]
    exact accountsFor_step ih literal

end ManagerState

/-- Through any number of starts and stops and in every interleaving, each
instrument's callbacks are those of one builder on its own, the candles its
trades complete and its current candle at each `Stop`; trades are handed over
in the order in which they were pushed; and both counters are right throughout. -/
theorem consolidateCandleManager_accountsForCalls {intervalMs : Int} {instruments : List String}
    {s : ManagerState σ × List CandleCall} {history : List (ManagerEvent × List CandleCall)}
    (reach : (callingMachine builder intervalMs instruments).Reach s history) :
    (∀ instrument, outputsOf instrument s.2 =
      (builder.life intervalMs instruments instrument (history.map Prod.fst)).2) ∧
    (∀ instrument, s.1.manager.builders.lookup instrument =
      (builder.life intervalMs instruments instrument (history.map Prod.fst)).1) ∧
    handedTrades (history.map Prod.fst) <+: pushedTrades (history.map Prod.fst) ∧
    s.1.manager.tradesProcessed = (handedTrades (history.map Prod.fst)).length ∧
    s.1.manager.candlesEmitted = s.2.length := by
  have account := ManagerState.accountsFor_reach reach
  have inv := ManagerState.PipeInvariant.reach reach.forget
  refine ⟨account.called, account.builders, ?_, account.tradesProcessed, account.candlesEmitted⟩
  rw [inv.conserved, List.append_assoc]
  exact List.prefix_append _ _

/-- A trade is handed over between a `Start` and a `Stop`, and the manager is
started and stopped once more. -/
def startedTwice : List ManagerAction :=
  [.callStart, .push default, .stepWorker, .stepWorker, .stepWorker, .callStop, .stepOwner [], .stepWorker,
    .stepOwner [], .stepOwner [""], .callStart, .callStop, .stepOwner [], .stepWorker, .stepOwner [], .stepOwner [""]]

theorem consolidateCandleManager_accountsForCalls_startedTwice :
    ∃ s history, (callingMachine everyTrade 1000 []).run (callingMachine everyTrade 1000 []).initial startedTwice =
        some (s, history) ∧
      outputsOf "" s.2 = (everyTrade.life 1000 [] "" (history.map Prod.fst)).2 ∧ s.2.length = 3 := by
  refine ⟨_, _, rfl, ?_, rfl⟩
  exact (consolidateCandleManager_accountsForCalls everyTrade (Machine.Reach.start.run
    (rfl : (callingMachine everyTrade 1000 []).run _ startedTwice = some (_, _)))).1 ""

/-- How many steps the worker has left once `running` is cleared. -/
def ConsumerPhase.stepsLeft : ConsumerPhase → Nat
  | .absent | .finished => 0
  | .testRunning => 1
  | .sleep | .processTrade _ => 2
  | .popTrade => 3

def ManagerAction.isStepWorker : ManagerAction → Bool
  | .stepWorker => true
  | _ => false

namespace ManagerState

variable {builder} {s t : ManagerState σ} {intervalMs : Int} {instruments : List String}
  {history events : List ManagerEvent}

/-- One step while `Stop` waits in `join`, not its own. -/
theorem waiting_step (joining : s.owner = .join) (stopped : s.manager.running = false) {action : ManagerAction}
    (other : ∀ keys, action ≠ .stepOwner keys) (step : s.step builder action = some (t, events)) :
    t.owner = .join ∧ t.manager.running = false ∧
      t.worker.stepsLeft + (if action.isStepWorker then 1 else 0) = s.worker.stepsLeft ∧
      (handedTrades events).length + t.worker.carried ≤ s.worker.carried := by
  cases step_move step with
  | pushed => exact ⟨joining, stopped, rfl, by simp [handedTrades]⟩
  | startIgnored owner | started owner | stopCalled owner => cases joining.symm.trans owner
  | cleared | stopIgnored | joined | emitted => exact absurd rfl (other _)
  | continued worker running => cases stopped.symm.trans running
  | finished worker | foundEmpty worker | popped worker | woken worker =>
    refine ⟨joining, stopped, ?_, ?_⟩
    · rw [worker]
      rfl
    · simp [worker, handedTrades, ConsumerPhase.carried]
  | @handed trade worker =>
    refine ⟨joining, (processTrade_running _ _).trans stopped, ?_, ?_⟩
    · rw [worker]
      rfl
    · simp [worker, handedTrades, ConsumerPhase.carried]

theorem waiting_run (joining : s.owner = .join) (stopped : s.manager.running = false)
    {schedule : List ManagerAction} (others : ∀ action ∈ schedule, ∀ keys, action ≠ .stepOwner keys)
    (run : (managerMachine builder intervalMs instruments).run s schedule = some (t, events)) :
    t.owner = .join ∧ t.manager.running = false ∧
      t.worker.stepsLeft + schedule.countP ManagerAction.isStepWorker = s.worker.stepsLeft ∧
      (handedTrades events).length + t.worker.carried ≤ s.worker.carried := by
  induction schedule generalizing s events with
  | nil =>
    cases Option.some.inj run
    exact ⟨joining, stopped, rfl, by simp [handedTrades]⟩
  | cons action schedule ih =>
    obtain ⟨⟨u, first⟩, step, run⟩ := Option.bind_eq_some_iff.mp run
    obtain ⟨⟨v, rest⟩, later, same⟩ := Option.map_eq_some_iff.mp run
    cases same
    obtain ⟨joining', stopped', left, handed⟩ :=
      waiting_step joining stopped (others action (List.mem_cons_self ..)) step
    obtain ⟨joining'', stopped'', left', handed'⟩ :=
      ih joining' stopped' (fun later member => others later (List.mem_cons_of_mem _ member)) later
    refine ⟨joining'', stopped'', ?_, ?_⟩
    · rw [List.countP_cons]
      omega
    · rw [handedTrades_append, List.length_append]
      omega

/-- While `Stop` waits, the worker can step or has ended, and in the latter case `join` returns. -/
theorem waiting_enabled (joining : s.owner = .join) :
    (0 < s.worker.stepsLeft → (s.step builder .stepWorker).isSome) ∧
      (s.worker.stepsLeft = 0 → ∀ keys, (s.step builder (.stepOwner keys)).isSome) := by
  cases at_ : s.worker with
  | absent | finished =>
    refine ⟨fun left => ?_, fun _ keys => ?_⟩
    · exact absurd left (Nat.lt_irrefl 0)
    · simp only [step, stepOwner, joining, at_, Option.isSome_some]
  | testRunning | processTrade | sleep =>
    refine ⟨fun _ => ?_, fun none => ?_⟩
    · simp only [step, stepWorker, at_, Option.isSome_some]
    · cases none
  | popTrade =>
    refine ⟨fun _ => ?_, fun none => ?_⟩
    · cases pipe : s.pipe <;> simp only [step, stepWorker, at_, pipe, Option.isSome_some]
    · cases none

end ManagerState

/-- Wherever `Stop` has come to `join`, it returns from there: whatever is
pushed meanwhile, the worker takes three steps more at most, hands over one
trade more at most, is never stuck before it ends, and then `join` returns. -/
theorem consolidateCandleManager_stopReturns {intervalMs : Int} {instruments : List String} {s t : ManagerState σ}
    {history events : List ManagerEvent} (reach : (managerMachine builder intervalMs instruments).Reach s history)
    (joining : s.owner = .join) {schedule : List ManagerAction}
    (others : ∀ action ∈ schedule, ∀ keys, action ≠ .stepOwner keys)
    (run : (managerMachine builder intervalMs instruments).run s schedule = some (t, events)) :
    schedule.countP ManagerAction.isStepWorker ≤ 3 ∧ (handedTrades events).length ≤ 1 ∧
      (schedule.countP ManagerAction.isStepWorker < s.worker.stepsLeft → (t.step builder .stepWorker).isSome) ∧
      (schedule.countP ManagerAction.isStepWorker = s.worker.stepsLeft →
        ∀ keys, (t.step builder (.stepOwner keys)).isSome) := by
  have stopped := (ManagerState.PipeInvariant.reach reach).stopped (Or.inl joining)
  obtain ⟨joining', _, left, handed⟩ := ManagerState.waiting_run joining stopped others run
  obtain ⟨worker, owner⟩ := ManagerState.waiting_enabled joining'
  have steps : s.worker.stepsLeft ≤ 3 := by
    cases s.worker <;> simp [ConsumerPhase.stepsLeft]
  have carried : s.worker.carried ≤ 1 := by
    cases s.worker <;> simp [ConsumerPhase.carried]
  refine ⟨by omega, by omega, fun more => worker (by omega), fun all => owner (by omega)⟩

/-- `Stop` clears `running` where the worker is about to pop, with two trades in the pipe. -/
theorem consolidateCandleManager_stopReturns_twoTrades :
    ∃ s t history events, (managerMachine everyTrade 1000 []).run (managerMachine everyTrade 1000 []).initial
        [.callStart, .push default, .push default, .stepWorker, .callStop, .stepOwner []] = some (s, history) ∧
      (managerMachine everyTrade 1000 []).run s [.stepWorker, .push default, .stepWorker, .stepWorker] =
        some (t, events) ∧
      (handedTrades events).length ≤ 1 ∧ ∀ keys, (t.step everyTrade (.stepOwner keys)).isSome := by
  refine ⟨_, _, _, _, rfl, rfl, ?_⟩
  have returns := consolidateCandleManager_stopReturns everyTrade (Machine.Reach.start.run
      (rfl : (managerMachine everyTrade 1000 []).run _
        [.callStart, .push default, .push default, .stepWorker, .callStop, .stepOwner []] = some (_, _)))
    rfl (by simp) (rfl : (managerMachine everyTrade 1000 []).run _
      [.stepWorker, .push default, .stepWorker, .stepWorker] = some (_, _))
  exact ⟨returns.2.1, returns.2.2.2 rfl⟩

namespace ManagerState

variable {builder} {s t : ManagerState σ} {intervalMs : Int} {instruments : List String}
  {history events : List ManagerEvent}

end ManagerState

end ConsolidatedBook
