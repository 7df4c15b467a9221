import ConsolidatedBook.OnDemand
import ConsolidatedBook.StdString

namespace ConsolidatedBook

/-- What the providers are built on: a parser that has signed integers, and
`std::stod`, which reads the number at the front of a text or throws. -/
structure ProviderPlatform (Error Value Object Double : Type) where
  json : OnDemand Error Value Object
  getInt64 : Value → Except Error Int
  stod : String → Except StdException Double

/-- The trade that a provider fills. A field that is not assigned has no value. -/
structure ProviderTrade (Double : Type) where
  exchange : String
  instrument : Option String
  tradeId : Option String
  price : Option Double
  qty : Option Double
  tsExchangeMs : Option Int
  tsRecvMs : Int
deriving DecidableEq, Repr

/-- Where an exchange has the fields of a trade, and how they are read. -/
structure TradeFormat (Error Value : Type) where
  exchange : String
  instrumentKey : String
  normalise : String → String
  tradeIdKey : String
  readTradeId : Value → Except Error String
  priceKey : String
  qtyKey : String
  tsKey : String
  readTs : Value → Except Error (Except StdException Int)

/-- The results of the five lookups in an item. -/
structure FieldResults (Error : Type) where
  instrument : Except Error String
  tradeId : Except Error String
  price : Except Error String
  qty : Except Error String
  tsExchangeMs : Except Error (Except StdException Int)

variable {Error Value Object Double Item α β : Type}

/-- `if (!res.error())`: the value is converted and assigned, else the field stays as it is. -/
def assignUnlessError (res : Except Error α) (convert : α → Except StdException β) :
    Except StdException (Option β) :=
  match res with
  | .error _ => .ok none
  | .ok a => (convert a).map some

/-- The loop around `PushTrade`, up to the exception that ends it: the trades that are pushed. -/
def pushTrades (fill : Int → Item → Except StdException (ProviderTrade Double)) (clock : Nat → Int) :
    Nat → List Item → List (ProviderTrade Double)
  | _, [] => []
  | count, item :: rest =>
    match fill (clock count) item with
    | .error _ => []
    | .ok trade => trade :: pushTrades fill clock (count + 1) rest

namespace TradeFormat

variable (platform : ProviderPlatform Error Value Object Double) (format : TradeFormat Error Value)

def results (item : Except Error Object) : FieldResults Error :=
  let json := platform.json
  let (instrument, item) := json.lookup item format.instrumentKey json.getString
  let (tradeId, item) := json.lookup item format.tradeIdKey format.readTradeId
  let (price, item) := json.lookup item format.priceKey json.getString
  let (qty, item) := json.lookup item format.qtyKey json.getString
  let (tsExchangeMs, _) := json.lookup item format.tsKey format.readTs
  { instrument := instrument
    tradeId := tradeId
    price := price
    qty := qty
    tsExchangeMs := tsExchangeMs }

/-- One round of the loop, before `PushTrade`. -/
def fill (now : Int) (item : Except Error Object) : Except StdException (ProviderTrade Double) := do
  let results := format.results platform item
  let instrument ← assignUnlessError results.instrument fun text => .ok (format.normalise text)
  let tradeId ← assignUnlessError results.tradeId .ok
  let price ← assignUnlessError results.price platform.stod
  let qty ← assignUnlessError results.qty platform.stod
  let tsExchangeMs ← assignUnlessError results.tsExchangeMs id
  return {
    exchange := format.exchange
    instrument := instrument
    tradeId := tradeId
    price := price
    qty := qty
    tsExchangeMs := tsExchangeMs
    tsRecvMs := now }

end TradeFormat

namespace BinanceProvider

/-- `std::tolower` on each character. -/
def toLower (text : String) : String := String.ofList (text.toList.map Char.toLower)

/-- `std::toupper` on each character. -/
def toUpper (text : String) : String := String.ofList (text.toList.map Char.toUpper)

def format (platform : ProviderPlatform Error Value Object Double) : TradeFormat Error Value where
  exchange := "BINANCE"
  instrumentKey := "s"
  normalise := toUpper
  tradeIdKey := "t"
  readTradeId value := (platform.getInt64 value).map toString
  priceKey := "p"
  qtyKey := "q"
  tsKey := "T"
  readTs value := (platform.getInt64 value).map .ok

/-- What a message has trades in: the document itself, if it is a trade event. -/
def tradeItems (platform : ProviderPlatform Error Value Object Double) (message : String) :
    List (Except Error Object) :=
  match platform.json.iterate message with
  | .error _ => []
  | .ok doc =>
    let (eventType, root) := platform.json.lookup (platform.json.getObject doc) "e" platform.json.getString
    match eventType with
    | .error _ => []
    | .ok eventType => if eventType ≠ "trade" then [] else [root]

/-- `BinanceProvider::ParseTrade`. -/
def parseTrade (platform : ProviderPlatform Error Value Object Double) (clock : Nat → Int) (message : String) :
    List (ProviderTrade Double) :=
  pushTrades ((format platform).fill platform) clock 0 (tradeItems platform message)

end BinanceProvider

namespace BybitProvider

def format (platform : ProviderPlatform Error Value Object Double) : TradeFormat Error Value where
  exchange := "BYBIT"
  instrumentKey := "s"
  normalise text := text
  tradeIdKey := "i"
  readTradeId := platform.json.getString
  priceKey := "p"
  qtyKey := "v"
  tsKey := "T"
  readTs value := (platform.getInt64 value).map .ok

/-- The items of a message's data array, where the loop over them is reached. -/
def tradeItems (platform : ProviderPlatform Error Value Object Double) (message : String) :
    List (Except Error Object) :=
  match platform.json.iterate message with
  | .error _ => []
  | .ok doc =>
    let (topic, root) := platform.json.lookup (platform.json.getObject doc) "topic" platform.json.getString
    match topic with
    | .error _ => []
    | .ok topic =>
      if StringView.find topic "publicTrade" = none then []
      else
        match (platform.json.lookup root "data" platform.json.getArray).1 with
        | .error _ => []
        | .ok data => data.map (· >>= platform.json.getObject)

/-- `BybitProvider::ParseTrade`. -/
def parseTrade (platform : ProviderPlatform Error Value Object Double) (clock : Nat → Int) (message : String) :
    List (ProviderTrade Double) :=
  pushTrades ((format platform).fill platform) clock 0 (tradeItems platform message)

end BybitProvider

namespace OKXProvider

/-- `instrument.insert(usdt_pos, "-")`, where the instrument has `USDT` in it. -/
def toInstId (instrument : String) : String :=
  match StringView.find instrument "USDT" with
  | none => instrument
  | some pos => String.ofList (instrument.toList.take pos ++ '-' :: instrument.toList.drop pos)

/-- `inst_id.erase(std::remove(begin, end, '-'), end)`. -/
def removeHyphens (instId : String) : String := String.ofList (instId.toList.filter (· ≠ '-'))

def format (platform : ProviderPlatform Error Value Object Double) : TradeFormat Error Value where
  exchange := "OKX"
  instrumentKey := "instId"
  normalise := removeHyphens
  tradeIdKey := "tradeId"
  readTradeId := platform.json.getString
  priceKey := "px"
  qtyKey := "sz"
  tsKey := "ts"
  readTs value := (platform.json.getString value).map StdString.stoll

/-- The items of a message's data array, unless it has a channel other than `trades`.
The source gets the array, then looks up `arg`, and goes over the array only after
that; here the elements are those that `getArray` saw, whatever the lookup does. -/
def tradeItems (platform : ProviderPlatform Error Value Object Double) (message : String) :
    List (Except Error Object) :=
  match platform.json.iterate message with
  | .error _ => []
  | .ok doc =>
    let (data, root) := platform.json.lookup (platform.json.getObject doc) "data" platform.json.getArray
    match data with
    | .error _ => []
    | .ok data =>
      let (arg, _) := platform.json.lookup root "arg" platform.json.getObject
      match (platform.json.lookup arg "channel" platform.json.getString).1 with
      | .ok channel => if channel ≠ "trades" then [] else data.map (· >>= platform.json.getObject)
      | .error _ => data.map (· >>= platform.json.getObject)

/-- `OKXProvider::ParseTrade`. -/
def parseTrade (platform : ProviderPlatform Error Value Object Double) (clock : Nat → Int) (message : String) :
    List (ProviderTrade Double) :=
  pushTrades ((format platform).fill platform) clock 0 (tradeItems platform message)

end OKXProvider

end ConsolidatedBook
