import Mathlib.Data.Rat.Defs

namespace ConsolidatedBook

inductive InstrumentId
  | UNKNOWN
  | BTCUSDT
  | ETHUSDT
  | SOLUSDT
deriving DecidableEq, Repr, Inhabited

inductive Exchange
  | UNKNOWN
  | BINANCE
  | BYBIT
  | OKX
deriving DecidableEq, Repr, Inhabited

/-- `ExchangeConverter::ToInstrumentId`. -/
def toInstrumentId (instrument : String) : InstrumentId :=
  if instrument = "BTCUSDT" then .BTCUSDT
  else if instrument = "ETHUSDT" then .ETHUSDT
  else if instrument = "SOLUSDT" then .SOLUSDT
  else .UNKNOWN

/-- `ExchangeConverter::ToInstrumentString`. -/
def toInstrumentString : InstrumentId → String
  | .BTCUSDT => "BTCUSDT"
  | .ETHUSDT => "ETHUSDT"
  | .SOLUSDT => "SOLUSDT"
  | .UNKNOWN => "UNKNOWN"

/-- `ExchangeConverter::ToExchange`. -/
def toExchange (exchange : String) : Exchange :=
  if exchange = "BINANCE" then .BINANCE
  else if exchange = "BYBIT" then .BYBIT
  else if exchange = "OKX" then .OKX
  else .UNKNOWN

/-- Prices and quantities are of the double type. Where none is given they are
exact rationals. -/
structure Trade (Double : Type := Rat) where
  exchange : Exchange
  instrument : String
  tradeId : Nat
  price : Double
  qty : Double
  eventTs : Nat
  tradeTs : Nat
  recvTs : Nat
deriving DecidableEq, Repr, Inhabited

structure Candle (Double : Type := Rat) where
  instrumentId : InstrumentId
  exchange : Exchange
  intervalMs : Nat
  windowStartMs : Nat
  windowEndMs : Nat
  opening : Double
  high : Double
  low : Double
  close : Double
  baseVolume : Double
  quoteVolume : Double
deriving DecidableEq, Repr, Inhabited

end ConsolidatedBook
