import ConsolidatedBook.Types
import ConsolidatedBook.KeyedMachine

namespace ConsolidatedBook

/-- The class `CandleBuilder`, which is not part of the sources: its
constructor, `ProcessTrade` and the read-only `GetCurrentCandle`. -/
structure CandleBuilder (σ : Type) where
  construct : String → Int → σ
  processTrade : σ → Trade → σ × Option Candle
  getCurrentCandle : σ → Option Candle

/-- One call of `candle_callback`, with the instrument of the builder whose candle it is given. -/
abbrev CandleCall := String × Candle

/-- The members, as the methods use them. Of `candle_callback` only whether it is set. -/
structure ConsolidateCandleManager (σ : Type) where
  intervalMs : Int
  instruments : List String
  builders : Finmap fun _ : String => σ
  candleCallback : Bool
  running : Bool
  tradesProcessed : Nat
  candlesEmitted : Nat

namespace ConsolidateCandleManager

variable {σ : Type} (builder : CandleBuilder σ)

/-- The constructor; a name that is listed twice gets a new builder in place of its first. -/
def create (intervalMs : Int) (instruments : List String) : ConsolidateCandleManager σ where
  intervalMs := intervalMs
  instruments := instruments
  builders := instruments.foldl
    (fun builders instrument => builders.insert instrument (builder.construct instrument intervalMs)) ∅
  candleCallback := false
  running := false
  tradesProcessed := 0
  candlesEmitted := 0

def setCandleCallback (manager : ConsolidateCandleManager σ) : ConsolidateCandleManager σ :=
  { manager with candleCallback := true }

/-- The member state after `Start`, whichever way its exchange goes. -/
def start (manager : ConsolidateCandleManager σ) : ConsolidateCandleManager σ :=
  { manager with running := true }

/-- Call back with a candle, if there is one and a callback is set. -/
def emit (manager : ConsolidateCandleManager σ) (instrument : String) :
    Option Candle → ConsolidateCandleManager σ × List CandleCall
  | some candle =>
    if manager.candleCallback then
      ({ manager with candlesEmitted := manager.candlesEmitted + 1 }, [(instrument, candle)])
    else (manager, [])
  | none => (manager, [])

/-- `GetOrCreateBuilder`: the builder, in the place of the pointer to it, which is never null. -/
def getOrCreateBuilder (manager : ConsolidateCandleManager σ) (instrument : String) :
    ConsolidateCandleManager σ × σ :=
  match manager.builders.lookup instrument with
  | some found => (manager, found)
  | none =>
    let created := builder.construct instrument manager.intervalMs
    ({ manager with builders := manager.builders.insert instrument created }, created)

def processTrade (manager : ConsolidateCandleManager σ) (trade : Trade) :
    ConsolidateCandleManager σ × List CandleCall :=
  let counted := { manager with tradesProcessed := manager.tradesProcessed + 1 }
  let (found, current) := getOrCreateBuilder builder counted trade.instrument
  let (next, completedCandle) := builder.processTrade current trade
  -- the builder is changed through its pointer
  { found with builders := found.builders.insert trade.instrument next }.emit trade.instrument completedCandle

/-- The loop of `Stop` over the builders, in the order in which the map yields their keys. -/
def emitFinalCandles (manager : ConsolidateCandleManager σ) :
    List String → ConsolidateCandleManager σ × List CandleCall
  | [] => (manager, [])
  | instrument :: rest =>
    let finalCandle := (manager.builders.lookup instrument).bind builder.getCurrentCandle
    let (emitted, calls) := manager.emit instrument finalCandle
    let (last, later) := emitFinalCandles emitted rest
    (last, calls ++ later)

/-- `Stop`, with no thread left to join. -/
def stop (manager : ConsolidateCandleManager σ) (keys : List String) :
    ConsolidateCandleManager σ × List CandleCall :=
  if manager.running then emitFinalCandles builder { manager with running := false } keys else (manager, [])

/-- An order in which an `unordered_map` may yield its keys. -/
def Enumerates (keys : List String) (builders : Finmap fun _ : String => σ) : Prop :=
  keys.Nodup ∧ keys.toFinset = builders.keys

instance (keys : List String) (builders : Finmap fun _ : String => σ) : Decidable (Enumerates keys builders) :=
  inferInstanceAs (Decidable (_ ∧ _))

/-- A manager with its callback set and started, after some calls of `ProcessTrade`. -/
def handleTrades (intervalMs : Int) (instruments : List String) (trades : List Trade) :
    ConsolidateCandleManager σ × List CandleCall :=
  KeyedMachine.feed (processTrade builder) (create builder intervalMs instruments).setCandleCallback.start trades

/-- The same, and one `Stop` after them. -/
def session (intervalMs : Int) (instruments : List String) (trades : List Trade) (keys : List String) :
    ConsolidateCandleManager σ × List CandleCall :=
  let (handled, calls) := handleTrades builder intervalMs instruments trades
  let (stopped, final) := handled.stop builder keys
  (stopped, calls ++ final)

end ConsolidateCandleManager

end ConsolidatedBook
