import ConsolidatedBook.CandleManager.Snapshot

namespace ConsolidatedBook

theorem toInstrumentId_toInstrumentString (id : InstrumentId) : toInstrumentId (toInstrumentString id) = id := by
  cases id <;> rfl

/-- A name that has an identifier is written back as it was. -/
theorem toInstrumentString_toInstrumentId {instrument : String} (known : toInstrumentId instrument ≠ .UNKNOWN) :
    toInstrumentString (toInstrumentId instrument) = instrument := by
  unfold toInstrumentId at known ⊢
  split_ifs at known ⊢ with btc eth sol
  · exact btc.symm
  · exact eth.symm
  · exact sol.symm
  · exact absurd rfl known

/-- An identifier other than `UNKNOWN` belongs to its own name and no other. -/
theorem toInstrumentId_eq_iff {id : InstrumentId} (known : id ≠ .UNKNOWN) {instrument : String} :
    toInstrumentId instrument = id ↔ instrument = toInstrumentString id := by
  constructor
  · intro same
    subst same
    exact (toInstrumentString_toInstrumentId known).symm
  · intro same
    rw [same, toInstrumentId_toInstrumentString]

/-- Whoever looks for an identifier in a snapshot finds the candle of its
instrument's trades there, once, or finds none if there were no such trades. -/
theorem candleManager_snapshot_findsInstrument {Double : Type} [Inhabited Double] [BEq Double] [Max Double]
    [Min Double] [Add Double] [Mul Double] (intervalMs : Nat) (_positive : 0 < intervalMs)
    (trades : List (Trade Double)) {id : InstrumentId} (known : id ≠ .UNKNOWN) :
    ((CandleManager.create intervalMs).handleTrades trades).getCandlesSnapshot.filter (·.instrumentId = id) =
      ((candleOf intervalMs (tradesOf (toInstrumentString id) trades)).toList : Multiset (Candle Double)) := by
  have candle_of_seen : ∀ instrument ∈ trades.map Trade.instrument, ∃ candle,
      candleOf intervalMs (tradesOf instrument trades) = some candle ∧
        candle.instrumentId = toInstrumentId instrument := by
    intro instrument seen
    obtain ⟨candle, made⟩ := candleOf_isSome intervalMs (mem_instruments.mp seen)
    have found := (CandleManager.lookup_handleTrades intervalMs trades instrument).trans made
    exact ⟨candle, made, CandleManager.instrumentId_of_lookup found⟩
  have named : (trades.map Trade.instrument).dedup.filter (fun instrument =>
      ((candleOf intervalMs (tradesOf instrument trades)).getD default).instrumentId = id) =
      (trades.map Trade.instrument).dedup.filter (· = toInstrumentString id) := by
    refine List.filter_congr fun instrument member => ?_
    obtain ⟨candle, made, identified⟩ := candle_of_seen instrument (List.mem_dedup.mp member)
    rw [made, Option.getD_some, identified]
    exact decide_eq_decide.mpr (toInstrumentId_eq_iff known)
  rw [CandleManager.getCandlesSnapshot_handleTrades, Multiset.filter_coe, List.filter_map]
  have once : (trades.map Trade.instrument).dedup.filter (· = toInstrumentString id) =
      if toInstrumentString id ∈ trades.map Trade.instrument then [toInstrumentString id] else [] := by
    rw [List.filter_eq, List.count_dedup]
    split <;> rfl
  have filtered := named.trans once
  simp only [Function.comp_def, filtered]
  split
  · rename_i seen
    obtain ⟨candle, made, _⟩ := candle_of_seen _ seen
    rw [List.map_singleton, made]
    rfl
  · rename_i unseen
    have none : tradesOf (toInstrumentString id) trades = [] := by
      rwa [mem_instruments, not_not] at unseen
    rw [none]
    rfl

theorem candleManager_snapshot_findsInstrument_oneKnown :
    InstrumentId.BTCUSDT ≠ .UNKNOWN ∧
      ((CandleManager.create 5000).handleTrades (tradesOfTwo "BTCUSDT" "XRPUSDT")).getCandlesSnapshot.filter
          (·.instrumentId = .BTCUSDT) =
        ((candleOf 5000 (tradesOf "BTCUSDT" (tradesOfTwo "BTCUSDT" "XRPUSDT"))).toList : Multiset Candle) :=
  ⟨by decide, candleManager_snapshot_findsInstrument 5000 (by decide) _ (by decide : InstrumentId.BTCUSDT ≠ .UNKNOWN)⟩

end ConsolidatedBook
