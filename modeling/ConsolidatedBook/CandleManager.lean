import ConsolidatedBook.Types
import ConsolidatedBook.KeyedFold
import Mathlib.Algebra.Order.Ring.Unbundled.Rat

namespace ConsolidatedBook

/-- `CandleManager`, with the candles it holds for each instrument string. -/
structure CandleManager (Double : Type := Rat) where
  intervalMs : Nat
  candles : Finmap fun _ : String => Candle Double

variable {Double : Type}

/-- The trades of one instrument, in their order. -/
def tradesOf (instrument : String) (trades : List (Trade Double)) : List (Trade Double) :=
  trades.filter (·.instrument = instrument)

theorem mem_tradesOf {instrument : String} {trades : List (Trade Double)} {trade : Trade Double} :
    trade ∈ tradesOf instrument trades ↔ trade ∈ trades ∧ trade.instrument = instrument := by
  simp only [tradesOf, List.mem_filter, decide_eq_true_eq]

theorem mem_instruments {instrument : String} {trades : List (Trade Double)} :
    instrument ∈ trades.map Trade.instrument ↔ tradesOf instrument trades ≠ [] := by
  rw [List.mem_map, Ne, List.eq_nil_iff_forall_not_mem]
  simp only [mem_tradesOf, not_forall, not_not]

-- `!=`, `std::max`, `std::min`, `+` and `*` on doubles; none of their laws is assumed.
variable [BEq Double] [Max Double] [Min Double] [Add Double] [Mul Double]

/-- `CandleManager::UpdateCandle`. -/
def updateCandle (candle : Candle Double) (trade : Trade Double) : Candle Double :=
  let priced := if candle.close != trade.price then
      { candle with
        high := max candle.high trade.price
        low := min candle.low trade.price
        close := trade.price }
    else candle
  { priced with
    baseVolume := priced.baseVolume + trade.qty
    quoteVolume := priced.quoteVolume + trade.price * trade.qty }

/-- `CandleManager::CreateCandle`. -/
def createCandle (intervalMs : Nat) (trade : Trade Double) : Candle Double where
  instrumentId := toInstrumentId trade.instrument
  exchange := trade.exchange
  intervalMs := intervalMs
  windowStartMs := trade.eventTs - trade.eventTs % intervalMs
  windowEndMs := 0
  opening := trade.price
  high := trade.price
  low := trade.price
  close := trade.price
  baseVolume := trade.qty
  quoteVolume := trade.price * trade.qty

/-- Everything that `UpdateCandle` keeps or adds to whatever the price is. -/
theorem updateCandle_frame (candle : Candle Double) (trade : Trade Double) :
    (updateCandle candle trade).instrumentId = candle.instrumentId ∧
      (updateCandle candle trade).exchange = candle.exchange ∧
      (updateCandle candle trade).intervalMs = candle.intervalMs ∧
      (updateCandle candle trade).windowStartMs = candle.windowStartMs ∧
      (updateCandle candle trade).opening = candle.opening ∧
      (updateCandle candle trade).baseVolume = candle.baseVolume + trade.qty ∧
      (updateCandle candle trade).quoteVolume = candle.quoteVolume + trade.price * trade.qty := by
  unfold updateCandle
  split <;> exact ⟨rfl, rfl, rfl, rfl, rfl, rfl, rfl⟩

namespace CandleManager

/-- The constructor, which leaves `candles` empty. -/
def create (intervalMs : Nat) : CandleManager Double where
  intervalMs := intervalMs
  candles := ∅

/-- `CandleManager::HandleTrade`. -/
def handleTrade (manager : CandleManager Double) (trade : Trade Double) : CandleManager Double :=
  match manager.candles.lookup trade.instrument with
  | some candle =>
    { manager with candles := manager.candles.insert trade.instrument (updateCandle candle trade) }
  | none =>
    { manager with
      candles := manager.candles.insert trade.instrument (createCandle manager.intervalMs trade) }

/-- `CandleManager::GetCandlesSnapshot`. The order of an `unordered_map` is unspecified. -/
def getCandlesSnapshot (manager : CandleManager Double) : Multiset (Candle Double) :=
  manager.candles.entries.map Sigma.snd

/-- The loop of `HandleMessage`: `HandleTrade` on each trade in turn. -/
def handleTrades (manager : CandleManager Double) (trades : List (Trade Double)) : CandleManager Double :=
  trades.foldl handleTrade manager

/-- `CandleManager::HandleMessage`, with the parser that the manager holds. -/
def handleMessage {Message Failure : Type} (parser : Message → Except Failure (Option (List (Trade Double))))
    (manager : CandleManager Double) (message : Message) : Except Failure (CandleManager Double) := do
  match ← parser message with
  | some trades => return manager.handleTrades trades
  | none => return manager

theorem handleTrade_intervalMs (manager : CandleManager Double) (trade : Trade Double) :
    (manager.handleTrade trade).intervalMs = manager.intervalMs := by
  unfold handleTrade
  split <;> rfl

theorem handleTrade_candles (manager : CandleManager Double) (trade : Trade Double) :
    (manager.handleTrade trade).candles =
      KeyedFold.step Trade.instrument (createCandle manager.intervalMs) updateCandle manager.candles trade := by
  unfold handleTrade KeyedFold.step
  cases manager.candles.lookup trade.instrument <;> rfl

theorem handleTrades_candles (manager : CandleManager Double) (trades : List (Trade Double)) :
    (manager.handleTrades trades).candles =
      trades.foldl (KeyedFold.step Trade.instrument (createCandle manager.intervalMs) updateCandle)
        manager.candles := by
  unfold handleTrades
  induction trades generalizing manager with
  | nil => simp only [List.foldl_nil]
  | cons trade trades ih =>
    simp only [List.foldl_cons, ih, handleTrade_candles, handleTrade_intervalMs]

theorem handleTrades_append (manager : CandleManager Double) (earlier later : List (Trade Double)) :
    manager.handleTrades (earlier ++ later) = (manager.handleTrades earlier).handleTrades later := by
  simp only [handleTrades, List.foldl_append]

end CandleManager

/-- The candle that a sequence of trades of one instrument makes. -/
def candleOf (intervalMs : Nat) (trades : List (Trade Double)) : Option (Candle Double) :=
  KeyedFold.single (createCandle intervalMs) updateCandle trades

/-- Updates leave a candle its identifier and its window. -/
theorem foldl_updateCandle_frame (trades : List (Trade Double)) (candle : Candle Double) :
    (trades.foldl updateCandle candle).instrumentId = candle.instrumentId ∧
      (trades.foldl updateCandle candle).intervalMs = candle.intervalMs ∧
      (trades.foldl updateCandle candle).windowStartMs = candle.windowStartMs := by
  induction trades generalizing candle with
  | nil => exact ⟨rfl, rfl, rfl⟩
  | cons trade trades ih =>
    obtain ⟨instrumentId, _, interval, windowStart, _⟩ := updateCandle_frame candle trade
    obtain ⟨sameId, sameInterval, sameStart⟩ := ih (updateCandle candle trade)
    exact ⟨sameId.trans instrumentId, sameInterval.trans interval, sameStart.trans windowStart⟩

/-- The first trade of a candle decides its identifier and its window. -/
theorem candleOf_frame {intervalMs : Nat} {trades : List (Trade Double)} {candle : Candle Double}
    (made : candleOf intervalMs trades = some candle) :
    ∃ first, trades.head? = some first ∧ candle.instrumentId = toInstrumentId first.instrument ∧
      candle.intervalMs = intervalMs ∧ candle.windowStartMs = first.eventTs - first.eventTs % intervalMs := by
  cases trades with
  | nil => cases made
  | cons first rest =>
    cases made
    exact ⟨first, rfl, foldl_updateCandle_frame rest (createCandle intervalMs first)⟩

theorem candleOf_isSome (intervalMs : Nat) {trades : List (Trade Double)} (seen : trades ≠ []) :
    ∃ candle, candleOf intervalMs trades = some candle := by
  obtain ⟨first, rest, rfl⟩ := List.exists_cons_of_ne_nil seen
  exact ⟨_, rfl⟩

namespace CandleManager

theorem lookup_handleTrades (intervalMs : Nat) (trades : List (Trade Double)) (instrument : String) :
    ((create intervalMs).handleTrades trades).candles.lookup instrument =
      candleOf intervalMs (tradesOf instrument trades) := by
  rw [handleTrades_candles]
  exact KeyedFold.lookup_foldl Trade.instrument (createCandle intervalMs) updateCandle trades instrument

theorem getCandlesSnapshot_handleTrades [Inhabited Double] (intervalMs : Nat) (trades : List (Trade Double)) :
    ((create intervalMs).handleTrades trades).getCandlesSnapshot =
      ((trades.map Trade.instrument).dedup.map fun instrument =>
        (candleOf intervalMs (tradesOf instrument trades)).getD default : Multiset (Candle Double)) := by
  rw [getCandlesSnapshot, handleTrades_candles]
  exact KeyedFold.values_foldl Trade.instrument (createCandle intervalMs) updateCandle trades

end CandleManager

end ConsolidatedBook
