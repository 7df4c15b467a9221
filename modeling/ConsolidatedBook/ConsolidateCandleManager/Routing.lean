import ConsolidatedBook.ConsolidateCandleManager
import ConsolidatedBook.CandleManager

namespace ConsolidatedBook

open KeyedMachine (feed route machineOf outputsOf)

variable {σ : Type} (builder : CandleBuilder σ)

namespace CandleBuilder

def step (state : σ) (trade : Trade) : σ × List Candle :=
  ((builder.processTrade state trade).1, (builder.processTrade state trade).2.toList)

/-- One fresh builder, fed with these trades: its last state, and the candles it completes. -/
def fed (intervalMs : Int) (instrument : String) (trades : List Trade) : σ × List Candle :=
  feed builder.step (builder.construct instrument intervalMs) trades

end CandleBuilder

namespace ConsolidateCandleManager

variable {manager : ConsolidateCandleManager σ} {intervalMs : Int} {instruments : List String}

theorem emit_eq (set : manager.candleCallback = true) (instrument : String) (candle : Option Candle) :
    manager.emit instrument candle =
      ({ manager with candlesEmitted := manager.candlesEmitted + candle.toList.length },
        candle.toList.map (instrument, ·)) := by
  cases candle with
  | none => rfl
  | some candle =>
    rw [emit, if_pos set]
    rfl

/-- What `ProcessTrade` does with its counters aside: it hands the trade to
the builder of its instrument. -/
theorem processTrade_eq (set : manager.candleCallback = true) (trade : Trade) :
    processTrade builder manager trade =
      let routed := route Trade.instrument (builder.construct · manager.intervalMs) builder.step manager.builders trade
      ({ manager with
          builders := routed.1
          tradesProcessed := manager.tradesProcessed + 1
          candlesEmitted := manager.candlesEmitted + routed.2.length }, routed.2) := by
  cases found : manager.builders.lookup trade.instrument with
  | some current =>
    simp only [processTrade, getOrCreateBuilder, found, route, machineOf, Option.getD_some]
    refine (emit_eq (by exact set) _ _).trans ?_
    simp only [CandleBuilder.step, List.length_map]
  | none =>
    simp only [processTrade, getOrCreateBuilder, found, route, machineOf, Option.getD_none, Finmap.insert_insert]
    refine (emit_eq (by exact set) _ _).trans ?_
    simp only [CandleBuilder.step, List.length_map]

theorem feed_processTrade (set : manager.candleCallback = true) (trades : List Trade) :
    feed (processTrade builder) manager trades =
      let routed := feed (route Trade.instrument (builder.construct · manager.intervalMs) builder.step)
        manager.builders trades
      ({ manager with
          builders := routed.1
          tradesProcessed := manager.tradesProcessed + trades.length
          candlesEmitted := manager.candlesEmitted + routed.2.length }, routed.2) := by
  induction trades generalizing manager with
  | nil => rfl
  | cons trade trades ih =>
    simp only [feed, processTrade_eq builder set]
    rw [ih (by exact set)]
    simp only [List.length_cons, List.length_append, Nat.add_assoc, Nat.add_comm 1]

theorem emitFinalCandles_eq (set : manager.candleCallback = true) (keys : List String) :
    emitFinalCandles builder manager keys =
      let calls := keys.flatMap fun instrument =>
        ((manager.builders.lookup instrument).bind builder.getCurrentCandle).toList.map (instrument, ·)
      ({ manager with candlesEmitted := manager.candlesEmitted + calls.length }, calls) := by
  induction keys generalizing manager with
  | nil => rfl
  | cons instrument rest ih =>
    simp only [emitFinalCandles, emit_eq set]
    rw [ih (by exact set)]
    simp only [List.flatMap_cons, List.length_append, List.length_map, Nat.add_assoc]

/-- The builders of the constructor, one for each name listed. -/
theorem lookup_create (instrument : String) :
    (create builder intervalMs instruments).builders.lookup instrument =
      if instrument ∈ instruments then some (builder.construct instrument intervalMs) else none := by
  suffices general : ∀ builders : Finmap fun _ : String => σ,
      (instruments.foldl (fun builders instrument =>
        builders.insert instrument (builder.construct instrument intervalMs)) builders).lookup instrument =
      if instrument ∈ instruments then some (builder.construct instrument intervalMs)
      else builders.lookup instrument from
    (general ∅).trans (by rw [Finmap.lookup_empty])
  induction instruments with
  | nil => exact fun builders => rfl
  | cons first rest ih =>
    intro builders
    rw [List.foldl_cons, ih]
    by_cases here : instrument = first
    · subst here
      rw [Finmap.lookup_insert, ite_self, if_pos (List.mem_cons_self ..)]
    · rw [Finmap.lookup_insert_of_ne _ here]
      simp only [List.mem_cons, here, false_or]

theorem mem_create {instrument : String} :
    instrument ∈ (create builder intervalMs instruments).builders ↔ instrument ∈ instruments := by
  rw [Finmap.mem_iff, lookup_create]
  by_cases listed : instrument ∈ instruments <;> simp [listed]

theorem machineOf_create (instrument : String) :
    machineOf (builder.construct · intervalMs) (create builder intervalMs instruments).builders instrument =
      builder.construct instrument intervalMs := by
  rw [machineOf, lookup_create]
  split <;> rfl

theorem handleTrades_eq (trades : List Trade) :
    handleTrades builder intervalMs instruments trades =
      let routed := feed (route Trade.instrument (builder.construct · intervalMs) builder.step)
        (create builder intervalMs instruments).builders trades
      ({ (create builder intervalMs instruments).setCandleCallback.start with
          builders := routed.1
          tradesProcessed := trades.length
          candlesEmitted := routed.2.length }, routed.2) := by
  refine (feed_processTrade builder rfl trades).trans ?_
  simp only [start, setCandleCallback, create, Nat.zero_add]

/-- Each builder is as if it had been alone. -/
theorem lookup_routed (trades : List Trade) (instrument : String) :
    (feed (route Trade.instrument (builder.construct · intervalMs) builder.step)
        (create builder intervalMs instruments).builders trades).1.lookup instrument =
      if instrument ∈ instruments ∨ tradesOf instrument trades ≠ [] then
        some (builder.fed intervalMs instrument (tradesOf instrument trades)).1
      else none := by
  refine (KeyedMachine.lookup_feed_route Trade.instrument _ builder.step _ trades instrument).trans ?_
  rw [machineOf_create]
  exact if_congr (or_congr (mem_create builder) Iff.rfl) rfl rfl

theorem lookup_handleTrades (trades : List Trade) (instrument : String) :
    (handleTrades builder intervalMs instruments trades).1.builders.lookup instrument =
      if instrument ∈ instruments ∨ tradesOf instrument trades ≠ [] then
        some (builder.fed intervalMs instrument (tradesOf instrument trades)).1
      else none := by
  rw [handleTrades_eq]
  exact lookup_routed builder trades instrument

theorem outputsOf_handleTrades (trades : List Trade) (instrument : String) :
    outputsOf instrument (handleTrades builder intervalMs instruments trades).2 =
      (builder.fed intervalMs instrument (tradesOf instrument trades)).2 := by
  rw [handleTrades_eq]
  refine (KeyedMachine.feed_route Trade.instrument _ builder.step _ trades instrument).2.trans ?_
  rw [machineOf_create]
  rfl

theorem session_eq (trades : List Trade) (keys : List String) :
    session builder intervalMs instruments trades keys =
      let handled := handleTrades builder intervalMs instruments trades
      let final := keys.flatMap fun instrument =>
        ((handled.1.builders.lookup instrument).bind builder.getCurrentCandle).toList.map (instrument, ·)
      ({ handled.1 with
          running := false
          candlesEmitted := handled.1.candlesEmitted + final.length }, handled.2 ++ final) := by
  have started : (handleTrades builder intervalMs instruments trades).1.running = true := by
    rw [handleTrades_eq]
    rfl
  have set : (handleTrades builder intervalMs instruments trades).1.candleCallback = true := by
    rw [handleTrades_eq]
    rfl
  simp only [session, stop, started, if_true]
  rw [emitFinalCandles_eq builder (by exact set)]

end ConsolidateCandleManager

open ConsolidateCandleManager in
/-- Each instrument's callbacks are those of one fresh builder fed with that
instrument's trades alone, and its current candle at `Stop`; no builder is
shared or lost, and the two counters are right. -/
theorem consolidateCandleManager_routes (intervalMs : Int) (instruments : List String) (trades : List Trade)
    {keys : List String} (order : Enumerates keys (handleTrades builder intervalMs instruments trades).1.builders) :
    (∀ instrument, outputsOf instrument (session builder intervalMs instruments trades keys).2 =
      (builder.fed intervalMs instrument (tradesOf instrument trades)).2 ++
        if instrument ∈ instruments ∨ tradesOf instrument trades ≠ [] then
          (builder.getCurrentCandle (builder.fed intervalMs instrument (tradesOf instrument trades)).1).toList
        else []) ∧
    (∀ instrument, (session builder intervalMs instruments trades keys).1.builders.lookup instrument =
      if instrument ∈ instruments ∨ tradesOf instrument trades ≠ [] then
        some (builder.fed intervalMs instrument (tradesOf instrument trades)).1
      else none) ∧
    (session builder intervalMs instruments trades keys).1.tradesProcessed = trades.length ∧
    (session builder intervalMs instruments trades keys).1.candlesEmitted =
      (session builder intervalMs instruments trades keys).2.length := by
  obtain ⟨distinct, all⟩ := order
  have every : ∀ instrument, instrument ∈ keys ↔
      instrument ∈ (handleTrades builder intervalMs instruments trades).1.builders := by
    intro instrument
    rw [← List.mem_toFinset, all, Finmap.mem_keys]
  rw [session_eq]
  refine ⟨fun instrument => ?_, lookup_handleTrades builder trades, ?_, ?_⟩
  · rw [KeyedMachine.outputsOf_append, outputsOf_handleTrades, KeyedMachine.outputsOf_flatMap distinct]
    congr 1
    have found : (handleTrades builder intervalMs instruments trades).1.builders.lookup instrument = _ :=
      lookup_handleTrades builder trades instrument
    by_cases known : instrument ∈ instruments ∨ tradesOf instrument trades ≠ []
    · rw [if_pos known] at found ⊢
      rw [if_pos ((every instrument).mpr (Finmap.mem_of_lookup_eq_some found)), found, Option.bind_some]
    · rw [if_neg known] at found ⊢
      rw [if_neg]
      intro listed
      exact Finmap.lookup_eq_none.mp found ((every instrument).mp listed)
  · rw [handleTrades_eq]
  · rw [List.length_append, handleTrades_eq]

/-- A builder that completes a candle at each trade and has one at hand from then on. -/
def everyTrade : CandleBuilder (Option Candle) where
  construct _ _ := none
  processTrade _ trade :=
    let candle := { (default : Candle) with opening := trade.price, close := trade.price }
    (some candle, some candle)
  getCurrentCandle state := state

/-- One instrument is listed twice, another one turns up between its trades. -/
theorem consolidateCandleManager_routes_everyTrade :
    let trade (instrument : String) (price : Rat) : Trade := { (default : Trade) with instrument, price }
    let trades := [trade "BTCUSDT" 1, trade "XRPUSDT" 2, trade "BTCUSDT" 3]
    outputsOf "BTCUSDT" (ConsolidateCandleManager.session everyTrade 1000 ["BTCUSDT", "BTCUSDT"] trades
      ["XRPUSDT", "BTCUSDT"]).2 = ([1, 3, 3] : List Rat).map fun price =>
        { (default : Candle) with opening := price, close := price } := by
  intro trade trades
  have order : ConsolidateCandleManager.Enumerates ["XRPUSDT", "BTCUSDT"]
      (ConsolidateCandleManager.handleTrades everyTrade 1000 ["BTCUSDT", "BTCUSDT"] trades).1.builders := by decide
  exact (consolidateCandleManager_routes everyTrade 1000 ["BTCUSDT", "BTCUSDT"] trades order).1 "BTCUSDT"

end ConsolidatedBook
