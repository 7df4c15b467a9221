import ConsolidatedBook.Types
import ConsolidatedBook.OnDemand
import ConsolidatedBook.Text

namespace ConsolidatedBook

/-- The `std::errc` of a call of `from_chars`. -/
inductive Errc
  | none
  | invalidArgument
  | resultOutOfRange
deriving DecidableEq, Repr

/-- A call of `from_chars`: the error and the position that it returns, and what
it stores. It may leave its output variable as it is. -/
structure FromChars (α : Type) where
  ec : Errc
  ptr : Nat
  stored : Option α
deriving DecidableEq, Repr

/-- All of the text is read, without an error, and the value is stored. -/
def FromChars.whole {α : Type} (text : String) (value : α) : FromChars α where
  ec := .none
  ptr := text.toList.length
  stored := some value

/-- What the parsers are built on. The variables that `ParseDouble` and
`ParseUint64` give to `from_chars` are not initialised. -/
structure Platform (Error Value Object Double : Type) where
  json : OnDemand Error Value Object
  fromCharsDouble : String → FromChars Double
  fromCharsUint64 : String → FromChars Nat
  uninitialisedDouble : Double
  uninitialisedUint64 : Nat

/-- An exception has reached the boundary of a `noexcept` function. -/
inductive Terminated
  | terminated
deriving DecidableEq, Repr

/-- How the body of a parser ends before its last statement. -/
inductive Exit
  | nullopt
  | exception
deriving DecidableEq, Repr

/-- A message, with the clock that is read while it is parsed. -/
structure ReceivedMessage where
  text : String
  clock : Nat → Nat

variable {Error Value Object Double α : Type}

/-- `if (res.error()) return std::nullopt;`, and then `res.value()`. -/
def checked (res : Except Error α) : Except Exit α :=
  res.mapError fun _ => .nullopt

/-- `res.value()`, or the conversion of an array's element, with no check before it. -/
def unchecked (res : Except Error α) : Except Exit α :=
  res.mapError fun _ => .exception

/-- The boundary of `operator() noexcept`. -/
def noexcept (body : Except Exit α) : Except Terminated (Option α) :=
  match body with
  | .ok result => .ok (some result)
  | .error .nullopt => .ok none
  | .error .exception => .error .terminated

namespace Platform

variable (platform : Platform Error Value Object Double)

/-- `Utilities::ParseDouble`, which does not look at what `from_chars` returns. -/
def parseDouble (sv : String) : Double :=
  (platform.fromCharsDouble sv).stored.getD platform.uninitialisedDouble

/-- `Utilities::ParseUint64`. -/
def parseUint64 (sv : String) : Nat :=
  (platform.fromCharsUint64 sv).stored.getD platform.uninitialisedUint64

variable {platform}

theorem parseDouble_whole {text : String} {value : Double}
    (read : platform.fromCharsDouble text = .whole text value) : platform.parseDouble text = value := by
  rw [parseDouble, read, FromChars.whole, Option.getD_some]

theorem parseUint64_whole {text : String} {value : Nat}
    (read : platform.fromCharsUint64 text = .whole text value) : platform.parseUint64 text = value := by
  rw [parseUint64, read, FromChars.whole, Option.getD_some]

end Platform

/-- `ExtractSymbol`. -/
def extractSymbol (topic : String) : String :=
  match StringView.find topic "publicTrade." with
  | none => ""
  | some pos => StringView.substr topic (pos + "publicTrade.".length)

/-- One round of the loop over `data` in `BybitSpotParser`. -/
def bybitItem (platform : Platform Error Value Object Double) (symbol : String) (eventTs : Nat) (clock : Nat → Nat)
    (trades : List (Trade Double)) (element : Except Error Value) : Except Exit (List (Trade Double)) := do
  let item ← unchecked element
  let obj ← checked (platform.json.getObject item)
  let recvTs := clock trades.length
  let (tradeTs, obj) := platform.json.readUint64 obj "T"
  let tradeTs ← unchecked tradeTs
  let (tradeId, obj) := platform.json.readString obj "i"
  let tradeId := platform.parseUint64 (← unchecked tradeId)
  let (price, obj) := platform.json.readString obj "p"
  let price := platform.parseDouble (← unchecked price)
  let (qty, _) := platform.json.readString obj "v"
  let qty := platform.parseDouble (← unchecked qty)
  return trades ++ [{
    exchange := .BYBIT
    instrument := symbol
    tradeId := tradeId
    price := price
    qty := qty
    eventTs := eventTs
    tradeTs := tradeTs
    recvTs := recvTs }]

/-- `BybitSpotParser::operator()`. -/
def bybitSpotParser (platform : Platform Error Value Object Double) (msg : ReceivedMessage) :
    Except Terminated (Option (List (Trade Double))) :=
  noexcept do
    let doc ← checked (platform.json.iterate msg.text)
    let root ← checked (platform.json.getObject doc)
    let (topicRes, root) := platform.json.readString root "topic"
    let symbol := extractSymbol (← checked topicRes)
    let (typeRes, root) := platform.json.readString root "type"
    let _ ← checked typeRes
    let (tsRes, root) := platform.json.readUint64 root "ts"
    let eventTs ← checked tsRes
    let (dataRes, _) := platform.json.readArray root "data"
    let data ← checked dataRes
    data.foldlM (bybitItem platform symbol eventTs msg.clock) []

/-- `BinanceSpotParser::operator()`. -/
def binanceSpotParser (platform : Platform Error Value Object Double) (msg : ReceivedMessage) :
    Except Terminated (Option (List (Trade Double))) :=
  noexcept do
    let doc ← checked (platform.json.iterate msg.text)
    let root ← checked (platform.json.getObject doc)
    let (dataRes, _) := platform.json.readObject root "data"
    let obj ← checked dataRes
    let recvTs := msg.clock 0
    let (eventTs, obj) := platform.json.readUint64 obj "E"
    let eventTs ← unchecked eventTs
    let (symbol, obj) := platform.json.readString obj "s"
    let symbol ← unchecked symbol
    let (tradeId, obj) := platform.json.readUint64 obj "t"
    let tradeId ← unchecked tradeId
    let (tradeTs, obj) := platform.json.readUint64 obj "T"
    let tradeTs ← unchecked tradeTs
    let (p, obj) := platform.json.readString obj "p"
    let p ← unchecked p
    let (q, _) := platform.json.readString obj "q"
    let q ← unchecked q
    return [{
      exchange := .BINANCE
      instrument := symbol
      tradeId := tradeId
      price := platform.parseDouble p
      qty := platform.parseDouble q
      eventTs := eventTs
      tradeTs := tradeTs
      recvTs := recvTs }]

end ConsolidatedBook
