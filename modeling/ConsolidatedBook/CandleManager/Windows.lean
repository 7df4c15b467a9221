import ConsolidatedBook.CandleManager

namespace ConsolidatedBook

/-- A manager with, for each instrument, the trades that were folded into its candle. -/
structure TracedManager (Double : Type := Rat) where
  manager : CandleManager Double
  folded : String → List (Trade Double)

variable {Double : Type} [BEq Double] [Max Double] [Min Double] [Add Double] [Mul Double]

namespace TracedManager

def create (intervalMs : Nat) : TracedManager Double where
  manager := CandleManager.create intervalMs
  folded _ := []

/-- `HandleTrade`: `UpdateCandle` adds the trade to the candle that is there,
`CreateCandle` makes a candle of this trade alone. -/
def handleTrade (traced : TracedManager Double) (trade : Trade Double) : TracedManager Double where
  manager := traced.manager.handleTrade trade
  folded := Function.update traced.folded trade.instrument <|
    match traced.manager.candles.lookup trade.instrument with
    | some _ => traced.folded trade.instrument ++ [trade]
    | none => [trade]

def handleTrades (traced : TracedManager Double) (trades : List (Trade Double)) : TracedManager Double :=
  trades.foldl handleTrade traced

/-- The trace does not disturb the manager, and misses no trade. -/
theorem handleTrades_create (intervalMs : Nat) (trades : List (Trade Double)) :
    (create intervalMs).handleTrades trades =
      ⟨(CandleManager.create intervalMs).handleTrades trades, fun instrument => tradesOf instrument trades⟩ := by
  induction trades using List.reverseRecOn with
  | nil => simp only [handleTrades, create, CandleManager.handleTrades, List.foldl_nil, tradesOf, List.filter_nil]
  | append_singleton trades trade ih =>
    unfold handleTrades at ih ⊢
    rw [List.foldl_append, ih, CandleManager.handleTrades_append]
    simp only [List.foldl_cons, List.foldl_nil, handleTrade, CandleManager.handleTrades, mk.injEq, true_and]
    funext instrument
    by_cases own : instrument = trade.instrument
    · subst own
      have found := CandleManager.lookup_handleTrades intervalMs trades trade.instrument
      unfold CandleManager.handleTrades at found
      rw [Function.update_self, found]
      unfold tradesOf
      rw [List.filter_append, List.filter_cons_of_pos (by simp), List.filter_nil]
      cases List.filter (·.instrument = trade.instrument) trades <;> rfl
    · rw [Function.update_of_ne own]
      unfold tradesOf
      rw [List.filter_append, List.filter_cons_of_neg (by simpa using Ne.symm own), List.filter_nil,
        List.append_nil]

/-- The trace goes along with the manager, and what it has for an instrument is
what the candle of that instrument is made of. -/
structure Records (traced : TracedManager Double) (intervalMs : Nat) (trades : List (Trade Double)) : Prop where
  manager : traced.manager = (CandleManager.create intervalMs).handleTrades trades
  candle instrument : traced.manager.candles.lookup instrument = candleOf intervalMs (traced.folded instrument)

theorem records (intervalMs : Nat) (trades : List (Trade Double)) :
    ((create intervalMs).handleTrades trades).Records intervalMs trades := by
  rw [handleTrades_create]
  exact ⟨rfl, CandleManager.lookup_handleTrades intervalMs trades⟩

end TracedManager

def Candle.InWindow (candle : Candle Double) (time : Nat) : Prop :=
  candle.windowStartMs ≤ time ∧ time < candle.windowStartMs + candle.intervalMs

/-- Every trade folded into a candle lies in the candle's window. -/
def FoldsOwnWindow (intervalMs : Nat) (trades : List (Trade Double)) : Prop :=
  ∀ instrument candle,
    ((TracedManager.create intervalMs).handleTrades trades).manager.candles.lookup instrument = some candle →
    ∀ trade ∈ ((TracedManager.create intervalMs).handleTrades trades).folded instrument,
      candle.InWindow trade.eventTs

/-- The prices and volumes of a candle, as one value. -/
def Candle.ohlcv (candle : Candle Double) : Double × Double × Double × Double × Double × Double :=
  (candle.opening, candle.high, candle.low, candle.close, candle.baseVolume, candle.quoteVolume)

/-- A trade outside the window of the candle it meets leaves that candle as it was. -/
def SparesOtherWindows (intervalMs : Nat) (trades : List (Trade Double)) : Prop :=
  ∀ earlier trade later candle, trades = earlier ++ trade :: later →
    ((CandleManager.create intervalMs).handleTrades earlier).candles.lookup trade.instrument = some candle →
    ¬ candle.InWindow trade.eventTs →
    (((CandleManager.create intervalMs).handleTrades (earlier ++ [trade])).candles.lookup
      trade.instrument).map Candle.ohlcv = some candle.ohlcv

/-- The trades of each instrument all fall in one and the same window. -/
def OneWindow (intervalMs : Nat) (trades : List (Trade Double)) : Prop :=
  ∀ first ∈ trades, ∀ second ∈ trades, first.instrument = second.instrument →
    first.eventTs / intervalMs = second.eventTs / intervalMs

/-- The window of a candle is that of its first trade. -/
theorem Candle.inWindow_iff {intervalMs : Nat} {trades : List (Trade Double)} {candle : Candle Double}
    {first : Trade Double} (positive : 0 < intervalMs) (made : candleOf intervalMs trades = some candle)
    (head : trades.head? = some first) (time : Nat) :
    candle.InWindow time ↔ time / intervalMs = first.eventTs / intervalMs := by
  obtain ⟨trade, isHead, _, interval, start⟩ := candleOf_frame made
  cases Option.some.inj (head.symm.trans isHead)
  have division := Nat.div_add_mod' first.eventTs intervalMs
  have starts : candle.windowStartMs = first.eventTs / intervalMs * intervalMs := by omega
  unfold Candle.InWindow
  rw [starts, interval, Nat.div_eq_iff positive]
  omega

theorem OneWindow.inWindow {intervalMs : Nat} {trades own : List (Trade Double)} {instrument : String}
    {candle : Candle Double} (oneWindow : OneWindow intervalMs trades) (positive : 0 < intervalMs)
    (made : candleOf intervalMs own = some candle)
    (among : ∀ trade ∈ own, trade ∈ trades ∧ trade.instrument = instrument)
    {trade : Trade Double} (same : trade.instrument = instrument) (member : trade ∈ trades) :
    candle.InWindow trade.eventTs := by
  obtain ⟨first, head, _⟩ := candleOf_frame made
  obtain ⟨inTrades, ofInstrument⟩ := among first (List.mem_of_mem_head? head)
  rw [Candle.inWindow_iff positive made head]
  exact oneWindow trade member first inTrades (same.trans ofInstrument.symm)

theorem foldsOwnWindow_iff {intervalMs : Nat} (positive : 0 < intervalMs) {trades : List (Trade Double)} :
    FoldsOwnWindow intervalMs trades ↔ OneWindow intervalMs trades := by
  unfold FoldsOwnWindow
  simp only [TracedManager.handleTrades_create, CandleManager.lookup_handleTrades]
  constructor
  · intro inside first inTrades second alsoInTrades same
    have member := mem_tradesOf.mpr ⟨inTrades, rfl⟩
    have alsoMember := mem_tradesOf.mpr ⟨alsoInTrades, same.symm⟩
    obtain ⟨candle, made⟩ := candleOf_isSome intervalMs (List.ne_nil_of_mem member)
    obtain ⟨opener, head, _⟩ := candleOf_frame made
    have firstInside := inside first.instrument candle made first member
    have secondInside := inside first.instrument candle made second alsoMember
    rw [Candle.inWindow_iff positive made head] at firstInside secondInside
    exact firstInside.trans secondInside.symm
  · intro oneWindow instrument candle made trade member
    obtain ⟨inTrades, own⟩ := mem_tradesOf.mp member
    exact oneWindow.inWindow positive made (fun trade => mem_tradesOf.mp) own inTrades

theorem OneWindow.sparesOtherWindows {intervalMs : Nat} (positive : 0 < intervalMs) {trades : List (Trade Double)}
    (oneWindow : OneWindow intervalMs trades) : SparesOtherWindows intervalMs trades := by
  intro earlier trade later candle split found outside
  have member : trade ∈ trades := split ▸ List.mem_append_right _ List.mem_cons_self
  rw [CandleManager.lookup_handleTrades] at found
  refine absurd (oneWindow.inWindow positive found ?_ rfl member) outside
  intro other isOwn
  obtain ⟨inEarlier, own⟩ := mem_tradesOf.mp isOwn
  exact ⟨split ▸ List.mem_append_left _ inEarlier, own⟩

/-- Nothing closes a candle: the window of its first trade holds exactly as
long as every later trade of the instrument happens to fall into it. -/
theorem candleManager_ownWindow_iff (intervalMs : Nat) (positive : 0 < intervalMs) (trades : List (Trade Double)) :
    ((TracedManager.create intervalMs).handleTrades trades).Records intervalMs trades ∧
      ((FoldsOwnWindow intervalMs trades ∧ SparesOtherWindows intervalMs trades) ↔ OneWindow intervalMs trades) := by
  refine ⟨TracedManager.records intervalMs trades, ?_, fun oneWindow => ?_⟩
  · rintro ⟨inside, _⟩
    exact (foldsOwnWindow_iff positive).mp inside
  · exact ⟨(foldsOwnWindow_iff positive).mpr oneWindow, oneWindow.sparesOtherWindows positive⟩

/-- Two trades of one instrument, five seconds apart. -/
def tradesAcrossWindows : List Trade :=
  [⟨.BINANCE, "BTCUSDT", 1, 100, 1, 1770000000000, 1770000000000, 1770000000500⟩,
    ⟨.BINANCE, "BTCUSDT", 2, 90, 1, 1770000005000, 1770000005000, 1770000005500⟩]

theorem candleManager_ownWindow_iff_earlyTrade :
    ((TracedManager.create 5000).handleTrades (tradesAcrossWindows.take 1)).Records 5000
        (tradesAcrossWindows.take 1) ∧
      ((FoldsOwnWindow 5000 (tradesAcrossWindows.take 1) ∧ SparesOtherWindows 5000 (tradesAcrossWindows.take 1)) ↔
        OneWindow 5000 (tradesAcrossWindows.take 1)) :=
  candleManager_ownWindow_iff 5000 (by decide) _

/-- The second trade lies in the next window, and still lowers the candle. -/
theorem candleManager_not_ownWindow :
    0 < 5000 ∧ ¬ FoldsOwnWindow 5000 tradesAcrossWindows ∧ ¬ SparesOtherWindows 5000 tradesAcrossWindows := by
  refine ⟨by decide, fun inside => ?_, fun spares => ?_⟩
  · rw [foldsOwnWindow_iff (by decide)] at inside
    have same := inside _ List.mem_cons_self _ (List.mem_cons_of_mem _ List.mem_cons_self) rfl
    exact absurd same (by decide)
  · have kept := spares (tradesAcrossWindows.take 1) _ [] _ rfl
      (CandleManager.lookup_handleTrades 5000 _ "BTCUSDT") (by unfold Candle.InWindow; decide)
    rw [CandleManager.lookup_handleTrades] at kept
    exact absurd kept (by decide)

end ConsolidatedBook
