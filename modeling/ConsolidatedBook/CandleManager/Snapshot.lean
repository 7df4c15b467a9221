import ConsolidatedBook.CandleManager

namespace ConsolidatedBook

/-- The names that have an `InstrumentId` of their own. -/
def knownInstruments : List String := ["BTCUSDT", "ETHUSDT", "SOLUSDT"]

theorem toInstrumentId_eq_unknown_iff {instrument : String} :
    toInstrumentId instrument = .UNKNOWN ↔ instrument ∉ knownInstruments := by
  unfold toInstrumentId knownInstruments
  simp only [List.mem_cons, List.not_mem_nil, or_false, not_or]
  split_ifs <;> simp_all

/-- Only names without an identifier of their own share one. -/
theorem toInstrumentId_inj_iff {first second : String} (different : first ≠ second) :
    toInstrumentId first = toInstrumentId second ↔ first ∉ knownInstruments ∧ second ∉ knownInstruments := by
  rw [← toInstrumentId_eq_unknown_iff, ← toInstrumentId_eq_unknown_iff]
  constructor
  · intro same
    unfold toInstrumentId at same ⊢
    split_ifs at same ⊢ <;> simp_all
  · rintro ⟨unknown, unknown'⟩
    rw [unknown, unknown']

variable {Double : Type} [BEq Double] [Max Double] [Min Double] [Add Double] [Mul Double]

namespace CandleManager

variable {intervalMs : Nat} {trades : List (Trade Double)}

/-- Whatever is traded, a candle is identified by the string it is kept under. -/
theorem instrumentId_of_lookup {instrument : String} {candle : Candle Double}
    (found : ((create intervalMs).handleTrades trades).candles.lookup instrument = some candle) :
    candle.instrumentId = toInstrumentId instrument := by
  rw [lookup_handleTrades] at found
  obtain ⟨first, head, identified, _⟩ := candleOf_frame found
  rw [identified, (mem_tradesOf.mp (List.mem_of_mem_head? head)).2]

omit [BEq Double] [Max Double] [Min Double] [Add Double] [Mul Double] in
theorem mem_getCandlesSnapshot {manager : CandleManager Double} {candle : Candle Double} :
    candle ∈ manager.getCandlesSnapshot ↔ ∃ instrument, manager.candles.lookup instrument = some candle := by
  unfold getCandlesSnapshot
  rw [Multiset.mem_map]
  constructor
  · rintro ⟨⟨instrument, candle⟩, member, rfl⟩
    exact ⟨instrument, Finmap.mem_lookup_iff.mpr member⟩
  · rintro ⟨instrument, found⟩
    exact ⟨⟨instrument, candle⟩, Finmap.mem_lookup_iff.mp found, rfl⟩

end CandleManager

/-- Every candle of a snapshot is kept under an instrument string, and those
of two different strings have the same identifier exactly if neither string
has one of its own. -/
theorem candleManager_snapshot_identified (intervalMs : Nat) (_positive : 0 < intervalMs)
    (trades : List (Trade Double)) :
    (∀ candle ∈ ((CandleManager.create intervalMs).handleTrades trades).getCandlesSnapshot,
      ∃ instrument, ((CandleManager.create intervalMs).handleTrades trades).candles.lookup instrument =
        some candle) ∧
    ∀ first second candle candle', first ≠ second →
      ((CandleManager.create intervalMs).handleTrades trades).candles.lookup first = some candle →
      ((CandleManager.create intervalMs).handleTrades trades).candles.lookup second = some candle' →
      (candle.instrumentId = candle'.instrumentId ↔ first ∉ knownInstruments ∧ second ∉ knownInstruments) := by
  refine ⟨fun candle member => CandleManager.mem_getCandlesSnapshot.mp member, ?_⟩
  intro first second candle candle' different found found'
  rw [CandleManager.instrumentId_of_lookup found, CandleManager.instrumentId_of_lookup found']
  exact toInstrumentId_inj_iff different

/-- One trade of each of two instruments. -/
def tradesOfTwo (first second : String) : List Trade :=
  [⟨.BINANCE, first, 1, 100, 1, 0, 0, 0⟩, ⟨.BINANCE, second, 2, 7, 3, 0, 0, 0⟩]

theorem candleManager_snapshot_identified_twoKnown :
    ∃ candle candle',
      ((CandleManager.create 5000).handleTrades (tradesOfTwo "BTCUSDT" "XRPUSDT")).candles.lookup "BTCUSDT" =
        some candle ∧
      ((CandleManager.create 5000).handleTrades (tradesOfTwo "BTCUSDT" "XRPUSDT")).candles.lookup "XRPUSDT" =
        some candle' ∧
      candle.instrumentId ≠ candle'.instrumentId := by
  have found := CandleManager.lookup_handleTrades 5000 (tradesOfTwo "BTCUSDT" "XRPUSDT")
  have shared := (candleManager_snapshot_identified 5000 (by decide) (tradesOfTwo "BTCUSDT" "XRPUSDT")).2
    "BTCUSDT" "XRPUSDT" _ _ (by decide) (found "BTCUSDT") (found "XRPUSDT")
  refine ⟨_, _, found "BTCUSDT", found "XRPUSDT", fun same => ?_⟩
  exact absurd (shared.mp same).1 (by decide)

theorem candleManager_snapshot_shares_unknown :
    ∃ candle candle',
      ((CandleManager.create 5000).handleTrades (tradesOfTwo "XRPUSDT" "ADAUSDT")).candles.lookup "XRPUSDT" =
        some candle ∧
      ((CandleManager.create 5000).handleTrades (tradesOfTwo "XRPUSDT" "ADAUSDT")).candles.lookup "ADAUSDT" =
        some candle' ∧
      candle ∈ ((CandleManager.create 5000).handleTrades (tradesOfTwo "XRPUSDT" "ADAUSDT")).getCandlesSnapshot ∧
      candle' ∈ ((CandleManager.create 5000).handleTrades (tradesOfTwo "XRPUSDT" "ADAUSDT")).getCandlesSnapshot ∧
      candle.instrumentId = candle'.instrumentId := by
  have found := CandleManager.lookup_handleTrades 5000 (tradesOfTwo "XRPUSDT" "ADAUSDT")
  refine ⟨_, _, found "XRPUSDT", found "ADAUSDT", ?_, ?_, rfl⟩
  · exact CandleManager.mem_getCandlesSnapshot.mpr ⟨_, found "XRPUSDT"⟩
  · exact CandleManager.mem_getCandlesSnapshot.mpr ⟨_, found "ADAUSDT"⟩

end ConsolidatedBook
