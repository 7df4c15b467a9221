import ConsolidatedBook.CandleManager
import Mathlib.Order.Bounds.Basic
import Mathlib.Algebra.BigOperators.Group.List.Basic
import Mathlib.Algebra.Field.Rat

namespace ConsolidatedBook

/-- What a candle says of the trades it was made of, all of one instrument. -/
structure Aggregates (intervalMs : Nat) (instrument : String) (trades : List Trade) (candle : Candle) :
    Prop where
  instrumentId : candle.instrumentId = toInstrumentId instrument
  interval : candle.intervalMs = intervalMs
  first : ∃ trade, trades.head? = some trade ∧ candle.opening = trade.price ∧
    candle.exchange = trade.exchange ∧
    IsGreatest {start | intervalMs ∣ start ∧ start ≤ trade.eventTs} candle.windowStartMs
  last : ∃ trade, trades.getLast? = some trade ∧ candle.close = trade.price
  high : IsGreatest {price | price ∈ trades.map Trade.price} candle.high
  low : IsLeast {price | price ∈ trades.map Trade.price} candle.low
  baseVolume : candle.baseVolume = (trades.map Trade.qty).sum
  quoteVolume : candle.quoteVolume = (trades.map fun trade => trade.price * trade.qty).sum

/-- The start of a window is a multiple of its length, and no later one fits
before the time. -/
theorem windowStart_isGreatest {intervalMs : Nat} (positive : 0 < intervalMs) (time : Nat) :
    IsGreatest {start | intervalMs ∣ start ∧ start ≤ time} (time - time % intervalMs) := by
  constructor
  · exact ⟨Nat.dvd_sub_mod time, Nat.sub_le _ _⟩
  · rintro start ⟨⟨count, rfl⟩, before⟩
    have whole : count ≤ time / intervalMs :=
      (Nat.le_div_iff_mul_le positive).mpr (Nat.mul_comm intervalMs count ▸ before)
    calc intervalMs * count ≤ intervalMs * (time / intervalMs) := Nat.mul_le_mul_left _ whole
      _ = time - time % intervalMs := (Nat.sub_eq_of_eq_add (Nat.div_add_mod time intervalMs).symm).symm

theorem Aggregates.created {intervalMs : Nat} (positive : 0 < intervalMs) (trade : Trade) :
    Aggregates intervalMs trade.instrument [trade] (createCandle intervalMs trade) where
  instrumentId := rfl
  interval := rfl
  first := ⟨trade, rfl, rfl, rfl, windowStart_isGreatest positive trade.eventTs⟩
  last := ⟨trade, rfl, rfl⟩
  high := by simp [createCandle]
  low := by simp [createCandle]
  baseVolume := by simp [createCandle]
  quoteVolume := by simp [createCandle]

theorem Aggregates.close_mem {intervalMs : Nat} {instrument : String} {trades : List Trade}
    {candle : Candle} (aggregates : Aggregates intervalMs instrument trades candle) :
    candle.close ∈ trades.map Trade.price := by
  obtain ⟨trade, last, close⟩ := aggregates.last
  rw [close]
  exact List.mem_map_of_mem (List.mem_of_getLast? last)

/-- `UpdateCandle` skips the extremes when the price is the current close,
which then lies between them. -/
theorem Aggregates.high_updateCandle {intervalMs : Nat} {instrument : String} {trades : List Trade}
    {candle : Candle} (aggregates : Aggregates intervalMs instrument trades candle) (trade : Trade) :
    (updateCandle candle trade).high = max candle.high trade.price := by
  unfold updateCandle
  split
  · rfl
  · rename_i same
    rw [Bool.not_eq_true, bne_eq_false_iff_eq] at same
    exact (max_eq_left (same ▸ aggregates.high.2 aggregates.close_mem)).symm

theorem Aggregates.low_updateCandle {intervalMs : Nat} {instrument : String} {trades : List Trade}
    {candle : Candle} (aggregates : Aggregates intervalMs instrument trades candle) (trade : Trade) :
    (updateCandle candle trade).low = min candle.low trade.price := by
  unfold updateCandle
  split
  · rfl
  · rename_i same
    rw [Bool.not_eq_true, bne_eq_false_iff_eq] at same
    exact (min_eq_left (same ▸ aggregates.low.2 aggregates.close_mem)).symm

theorem updateCandle_close (candle : Candle) (trade : Trade) :
    (updateCandle candle trade).close = trade.price := by
  unfold updateCandle
  split
  · rfl
  · rename_i same
    rwa [Bool.not_eq_true, bne_eq_false_iff_eq] at same

theorem Aggregates.updated {intervalMs : Nat} {instrument : String} {trades : List Trade}
    {candle : Candle} (aggregates : Aggregates intervalMs instrument trades candle) (trade : Trade) :
    Aggregates intervalMs instrument (trades ++ [trade]) (updateCandle candle trade) := by
  obtain ⟨instrumentId, exchange, interval, windowStart, opening, base, quote⟩ :=
    updateCandle_frame candle trade
  have prices : {price | price ∈ (trades ++ [trade]).map Trade.price} =
      insert trade.price {price | price ∈ trades.map Trade.price} := by
    ext price
    simp only [List.map_append, List.map_cons, List.map_nil, List.mem_append, List.mem_singleton,
      Set.mem_ofPred_eq, Set.mem_insert_iff, or_comm]
  constructor
  · exact instrumentId.trans aggregates.instrumentId
  · exact interval.trans aggregates.interval
  · obtain ⟨first, head, isOpening, isExchange, start⟩ := aggregates.first
    refine ⟨first, ?_, opening.trans isOpening, exchange.trans isExchange, windowStart ▸ start⟩
    rw [List.head?_append, head, Option.some_or]
  · exact ⟨trade, List.getLast?_concat, updateCandle_close candle trade⟩
  · rw [prices, aggregates.high_updateCandle trade, max_comm]
    exact aggregates.high.insert trade.price
  · rw [prices, aggregates.low_updateCandle trade, min_comm]
    exact aggregates.low.insert trade.price
  · rw [base, aggregates.baseVolume, List.map_append, List.sum_append, List.map_singleton,
      List.sum_singleton]
  · rw [quote, aggregates.quoteVolume, List.map_append, List.sum_append, List.map_singleton,
      List.sum_singleton]

theorem Aggregates.foldl {intervalMs : Nat} {instrument : String} {earlier : List Trade}
    {candle : Candle} (aggregates : Aggregates intervalMs instrument earlier candle) (later : List Trade) :
    Aggregates intervalMs instrument (earlier ++ later)
      (later.foldl updateCandle candle) := by
  induction later generalizing earlier candle with
  | nil => simpa only [List.append_nil, List.foldl_nil] using aggregates
  | cons trade later ih =>
    have next := ih (aggregates.updated trade)
    rwa [List.append_assoc, List.singleton_append] at next

theorem candleOf_aggregates {intervalMs : Nat} (positive : 0 < intervalMs) {instrument : String}
    {trades : List Trade} (seen : trades ≠ []) (own : ∀ trade ∈ trades, trade.instrument = instrument) :
    ∃ candle, candleOf intervalMs trades = some candle ∧ Aggregates intervalMs instrument trades candle := by
  cases trades with
  | nil => exact absurd rfl seen
  | cons first rest =>
    have created := Aggregates.created positive first
    rw [own first List.mem_cons_self] at created
    exact ⟨_, rfl, created.foldl rest⟩

/-- The candle found for an instrument aggregates that instrument's trades. -/
theorem CandleManager.aggregates_of_lookup {intervalMs : Nat} (positive : 0 < intervalMs)
    {trades : List Trade} {instrument : String} {candle : Candle}
    (found : ((create intervalMs).handleTrades trades).candles.lookup instrument = some candle) :
    Aggregates intervalMs instrument (tradesOf instrument trades) candle := by
  rw [lookup_handleTrades] at found
  have seen : tradesOf instrument trades ≠ [] := by
    intro none
    rw [none] at found
    cases found
  obtain ⟨made, isMade, aggregates⟩ := candleOf_aggregates positive seen
    fun trade member => (mem_tradesOf.mp member).2
  cases Option.some.inj (found.symm.trans isMade)
  exact aggregates

/-- The snapshot holds one candle for each instrument seen, a function of
that instrument's own trades whatever the others are and wherever they stand. -/
theorem candleManager_aggregates (intervalMs : Nat) (positive : 0 < intervalMs) :
    ∃ candle : List Trade → Candle, ∀ trades : List Trade,
      ((CandleManager.create intervalMs).handleTrades trades).getCandlesSnapshot =
        ((trades.map Trade.instrument).dedup.map fun instrument => candle (tradesOf instrument trades) :
          Multiset Candle) ∧
      ∀ instrument ∈ trades.map Trade.instrument,
        ((CandleManager.create intervalMs).handleTrades trades).candles.lookup instrument =
          some (candle (tradesOf instrument trades)) ∧
        Aggregates intervalMs instrument (tradesOf instrument trades)
          (candle (tradesOf instrument trades)) := by
  refine ⟨fun trades => (candleOf intervalMs trades).getD default, fun trades => ⟨?_, ?_⟩⟩
  · exact CandleManager.getCandlesSnapshot_handleTrades intervalMs trades
  · intro instrument seen
    obtain ⟨candle, made, aggregates⟩ := candleOf_aggregates positive (mem_instruments.mp seen)
      fun trade member => (mem_tradesOf.mp member).2
    simpa only [CandleManager.lookup_handleTrades, made, Option.getD_some, true_and] using aggregates

theorem candleManager_aggregates_interleaved :
    let btc (price : Rat) : Trade := ⟨.BINANCE, "BTCUSDT", 1, price, 1, 1770000000123, 1770000000123, 0⟩
    let eth : Trade := ⟨.BYBIT, "ETHUSDT", 2, 7, 3, 1770000007000, 1770000007000, 0⟩
    0 < 5000 ∧ ∃ candle,
      ((CandleManager.create 5000).handleTrades [btc 100, eth, btc 90]).candles.lookup "BTCUSDT" =
        some candle ∧
      Aggregates 5000 "BTCUSDT" [btc 100, btc 90] candle := by
  intro btc eth
  obtain ⟨candle, all⟩ := candleManager_aggregates 5000 (by decide)
  exact ⟨by decide, _, (all [btc 100, eth, btc 90]).2 "BTCUSDT" (List.mem_cons_self)⟩

end ConsolidatedBook
