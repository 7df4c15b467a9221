import ConsolidatedBook.CandleManager.Aggregation
import ConsolidatedBook.CandleManager.Snapshot
import ConsolidatedBook.KeyedFold.Merging
import Mathlib.Algebra.BigOperators.Ring.List
import Mathlib.Algebra.Order.BigOperators.Group.List
import Mathlib.Algebra.Order.Ring.Rat

namespace ConsolidatedBook

/-- One candle over two stretches of trades, the earlier stretch first. -/
def Candle.followedBy (earlier later : Candle) : Candle :=
  { earlier with
    high := max earlier.high later.high
    low := min earlier.low later.low
    close := later.close
    baseVolume := earlier.baseVolume + later.baseVolume
    quoteVolume := earlier.quoteVolume + later.quoteVolume }

theorem Candle.followedBy_assoc (first second third : Candle) :
    (first.followedBy second).followedBy third = first.followedBy (second.followedBy third) := by
  simp only [followedBy, max_assoc, min_assoc, add_assoc]

/-- The close lies between the extremes, which is all that `UpdateCandle` relies on. -/
def Candle.ClosesWithin (candle : Candle) : Prop := candle.low ≤ candle.close ∧ candle.close ≤ candle.high

theorem updateCandle_eq {candle : Candle} (within : candle.ClosesWithin) (intervalMs : Nat) (trade : Trade) :
    updateCandle candle trade = candle.followedBy (createCandle intervalMs trade) := by
  by_cases moved : candle.close != trade.price
  · simp only [updateCandle, if_pos moved, Candle.followedBy, createCandle]
  · -- the extremes are left alone at the price of the close, and need no change there
    have same : candle.close = trade.price := by
      rwa [Bool.not_eq_true, bne_eq_false_iff_eq] at moved
    have high : max candle.high trade.price = candle.high := max_eq_left (same ▸ within.2)
    have low : min candle.low trade.price = candle.low := min_eq_left (same ▸ within.1)
    rw [updateCandle, if_neg moved, Candle.followedBy]
    simp only [createCandle, high, low, same]

theorem candles_merge (intervalMs : Nat) :
    KeyedFold.Merges (createCandle intervalMs) updateCandle Candle.followedBy Candle.ClosesWithin where
  assoc := Candle.followedBy_assoc
  created _ := ⟨le_rfl, le_rfl⟩
  updated {candle} trade within := by
    rw [updateCandle_eq within intervalMs]
    exact ⟨min_le_right _ _, le_max_right _ _⟩
  update_eq trade within := updateCandle_eq within intervalMs trade

/-- Cut the trades into any number of segments, and give each to a manager of
its own: one after the other, their candles make the candle of one manager
that handles all the trades, and an instrument that a segment lacks counts for nothing there. -/
theorem candleManager_consolidates (intervalMs : Nat) (_positive : 0 < intervalMs) (segments : List (List Trade))
    (instrument : String) :
    ((CandleManager.create intervalMs).handleTrades segments.flatten).candles.lookup instrument =
      candleOf intervalMs (tradesOf instrument segments.flatten) ∧
    ((CandleManager.create intervalMs).handleTrades segments.flatten).candles.lookup instrument =
      segments.foldl (fun candle segment => Option.merge Candle.followedBy candle
        (((CandleManager.create intervalMs).handleTrades segment).candles.lookup instrument)) none := by
  refine ⟨CandleManager.lookup_handleTrades intervalMs segments.flatten instrument, ?_⟩
  simp only [CandleManager.handleTrades_candles]
  exact (candles_merge intervalMs).lookup_flatten Trade.instrument segments instrument

theorem candleManager_consolidates_twoSegments :
    let btc (price : Rat) : Trade := ⟨.BINANCE, "BTCUSDT", 1, price, 1, 1770000000123, 1770000000123, 0⟩
    ∃ candle, ((CandleManager.create 5000).handleTrades [btc 100, btc 90, btc 110]).candles.lookup "BTCUSDT" =
        some candle ∧
      some candle = [[btc 100], [btc 90, btc 110]].foldl (fun candle segment => Option.merge Candle.followedBy candle
        (((CandleManager.create 5000).handleTrades segment).candles.lookup "BTCUSDT")) none := by
  intro btc
  obtain ⟨whole, merged⟩ := candleManager_consolidates 5000 (by decide) [[btc 100], [btc 90, btc 110]] "BTCUSDT"
  exact ⟨_, whole, whole.symm.trans merged⟩

/-- What a candle says whatever the order of its trades. -/
def Candle.extent (candle : Candle) : InstrumentId × Nat × Rat × Rat × Rat × Rat :=
  (candle.instrumentId, candle.intervalMs, candle.high, candle.low, candle.baseVolume, candle.quoteVolume)

theorem Aggregates.extent_eq {intervalMs : Nat} {instrument : String} {trades trades' : List Trade}
    {candle candle' : Candle} (perm : trades.Perm trades') (aggregates : Aggregates intervalMs instrument trades candle)
    (aggregates' : Aggregates intervalMs instrument trades' candle') : candle.extent = candle'.extent := by
  have prices : {price | price ∈ trades.map Trade.price} = {price | price ∈ trades'.map Trade.price} := by
    ext price
    exact (perm.map Trade.price).mem_iff
  have high := aggregates.high
  have low := aggregates.low
  rw [prices] at high low
  have base := (perm.map Trade.qty).sum_eq
  have quote := (perm.map fun trade => trade.price * trade.qty).sum_eq
  simp only [Candle.extent, Prod.mk.injEq]
  refine ⟨?_, ?_, ?_, ?_, ?_, ?_⟩
  · exact aggregates.instrumentId.trans aggregates'.instrumentId.symm
  · exact aggregates.interval.trans aggregates'.interval.symm
  · exact high.unique aggregates'.high
  · exact low.unique aggregates'.low
  · rw [aggregates.baseVolume, aggregates'.baseVolume, base]
  · rw [aggregates.quoteVolume, aggregates'.quoteVolume, quote]

/-- Trades that arrive in another order make candles of the same extremes and
volumes, one for each instrument that is traded. -/
theorem candleManager_orderIndependent {intervalMs : Nat} (positive : 0 < intervalMs) {trades trades' : List Trade}
    (perm : trades.Perm trades') (instrument : String) :
    ((((CandleManager.create intervalMs).handleTrades trades).candles.lookup instrument).isSome ↔
      instrument ∈ trades.map Trade.instrument) ∧
    (((CandleManager.create intervalMs).handleTrades trades).candles.lookup instrument).map Candle.extent =
      (((CandleManager.create intervalMs).handleTrades trades').candles.lookup instrument).map Candle.extent := by
  have own : (tradesOf instrument trades).Perm (tradesOf instrument trades') := perm.filter _
  have ofInstrument : ∀ trades : List Trade, ∀ trade ∈ tradesOf instrument trades, trade.instrument = instrument :=
    fun _ _ member => (mem_tradesOf.mp member).2
  rw [mem_instruments]
  simp only [CandleManager.lookup_handleTrades]
  by_cases none : tradesOf instrument trades = []
  · have none' : tradesOf instrument trades' = [] := by
      rw [none] at own
      exact own.nil_eq.symm
    rw [none, none']
    exact ⟨iff_of_false Bool.false_ne_true (not_not.mpr rfl), rfl⟩
  · have some' : tradesOf instrument trades' ≠ [] := by
      intro none'
      rw [none'] at own
      exact none own.eq_nil
    obtain ⟨candle, made, aggregates⟩ := candleOf_aggregates positive none (ofInstrument trades)
    obtain ⟨candle', made', aggregates'⟩ := candleOf_aggregates positive some' (ofInstrument trades')
    rw [made, made', Option.map_some, Option.map_some, aggregates.extent_eq own aggregates']
    exact ⟨iff_of_true rfl none, rfl⟩

theorem candleManager_orderIndependent_interleaved :
    let btc (price : Rat) : Trade := ⟨.BINANCE, "BTCUSDT", 1, price, 1, 1770000000123, 1770000000123, 0⟩
    (((CandleManager.create 5000).handleTrades [btc 100, btc 90, btc 110]).candles.lookup "BTCUSDT").isSome ∧
    (((CandleManager.create 5000).handleTrades [btc 100, btc 90, btc 110]).candles.lookup "BTCUSDT").map
        Candle.extent =
      (((CandleManager.create 5000).handleTrades [btc 90, btc 110, btc 100]).candles.lookup "BTCUSDT").map
        Candle.extent := by
  intro btc
  have perm : [btc 100, btc 90, btc 110].Perm [btc 90, btc 110, btc 100] := by decide
  obtain ⟨traded, same⟩ := candleManager_orderIndependent (by decide : 0 < 5000) perm "BTCUSDT"
  exact ⟨traded.mpr List.mem_cons_self, same⟩

theorem sum_price_mul_qty_le {trades : List Trade} {bound : Rat} (bounded : ∀ trade ∈ trades, trade.price ≤ bound)
    (nonneg : ∀ trade ∈ trades, 0 ≤ trade.qty) :
    (trades.map fun trade => trade.price * trade.qty).sum ≤ bound * (trades.map Trade.qty).sum := by
  rw [← List.sum_map_mul_left]
  exact List.sum_le_sum fun trade member => mul_le_mul_of_nonneg_right (bounded trade member) (nonneg trade member)

theorem le_sum_price_mul_qty {trades : List Trade} {bound : Rat} (bounded : ∀ trade ∈ trades, bound ≤ trade.price)
    (nonneg : ∀ trade ∈ trades, 0 ≤ trade.qty) :
    bound * (trades.map Trade.qty).sum ≤ (trades.map fun trade => trade.price * trade.qty).sum := by
  rw [← List.sum_map_mul_left]
  exact List.sum_le_sum fun trade member => mul_le_mul_of_nonneg_right (bounded trade member) (nonneg trade member)

/-- What holds of the numbers of any candle that is shown. -/
structure Candle.Coherent (candle : Candle) : Prop where
  opening : candle.low ≤ candle.opening ∧ candle.opening ≤ candle.high
  close : candle.low ≤ candle.close ∧ candle.close ≤ candle.high
  volume : 0 ≤ candle.baseVolume
  /-- The volume-weighted mean price lies between the extremes. -/
  quote : candle.low * candle.baseVolume ≤ candle.quoteVolume ∧
    candle.quoteVolume ≤ candle.high * candle.baseVolume

theorem Aggregates.coherent {intervalMs : Nat} {instrument : String} {trades : List Trade} {candle : Candle}
    (aggregates : Aggregates intervalMs instrument trades candle) (nonneg : ∀ trade ∈ trades, 0 ≤ trade.qty) :
    candle.Coherent := by
  have above : ∀ trade ∈ trades, trade.price ≤ candle.high := fun trade member =>
    aggregates.high.2 (List.mem_map_of_mem member)
  have below : ∀ trade ∈ trades, candle.low ≤ trade.price := fun trade member =>
    aggregates.low.2 (List.mem_map_of_mem member)
  obtain ⟨first, head, opens, _⟩ := aggregates.first
  obtain ⟨last, atEnd, closes⟩ := aggregates.last
  have isFirst := List.mem_of_mem_head? head
  have isLast := List.mem_of_getLast? atEnd
  refine ⟨?_, ?_, ?_, ?_⟩
  · rw [opens]
    exact ⟨below first isFirst, above first isFirst⟩
  · rw [closes]
    exact ⟨below last isLast, above last isLast⟩
  · rw [aggregates.baseVolume]
    exact List.sum_nonneg (by simpa using nonneg)
  · rw [aggregates.baseVolume, aggregates.quoteVolume]
    exact ⟨le_sum_price_mul_qty below nonneg, sum_price_mul_qty_le above nonneg⟩

/-- As long as no quantity is negative, every candle of every snapshot is coherent. -/
theorem candleManager_candlesCoherent {intervalMs : Nat} (positive : 0 < intervalMs) {trades : List Trade}
    (nonneg : ∀ trade ∈ trades, 0 ≤ trade.qty) :
    ∀ candle ∈ ((CandleManager.create intervalMs).handleTrades trades).getCandlesSnapshot, candle.Coherent := by
  intro candle member
  obtain ⟨instrument, found⟩ := CandleManager.mem_getCandlesSnapshot.mp member
  have aggregates := CandleManager.aggregates_of_lookup positive found
  exact aggregates.coherent fun trade own => nonneg trade (mem_tradesOf.mp own).1

theorem candleManager_candlesCoherent_twoInstruments :
    ∃ candle ∈ ((CandleManager.create 5000).handleTrades (tradesOfTwo "BTCUSDT" "XRPUSDT")).getCandlesSnapshot,
      candle.instrumentId = .BTCUSDT ∧ candle.Coherent := by
  have found := CandleManager.lookup_handleTrades 5000 (tradesOfTwo "BTCUSDT" "XRPUSDT") "BTCUSDT"
  have shown := CandleManager.mem_getCandlesSnapshot.mpr ⟨_, found⟩
  exact ⟨_, shown, rfl, candleManager_candlesCoherent (by decide) (by decide) _ shown⟩

end ConsolidatedBook
