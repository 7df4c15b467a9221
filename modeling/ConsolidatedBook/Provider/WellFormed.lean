import ConsolidatedBook.Provider.Publishing

namespace ConsolidatedBook

variable {Error Value Object Double Item : Type} {platform : ProviderPlatform Error Value Object Double}
  {writes : Json → String → Prop} {shows : Json → Value → Prop} {opens : List (String × Json) → Object → Prop}
  {number : String → Double → Prop}

/-- An integer in the range of `get_int64`. -/
inductive IsInt64 : Json → Int → Prop
  | mk {negative magnitude} : magnitude < 2 ^ 63 →
      IsInt64 (.integer negative magnitude) (if negative then - (magnitude : Int) else magnitude)

/-- What the providers rely on beside the promises of the JSON parser:
`get_int64` reads the integers in its range, and `std::stod` the texts of numbers. -/
structure ProviderPlatform.Reads (platform : ProviderPlatform Error Value Object Double)
    (shows : Json → Value → Prop) (number : String → Double → Prop) : Prop where
  int64 {json n value} : IsInt64 json n → shows json value → platform.getInt64 value = .ok n
  stod {text value} : number text value → platform.stod text = .ok value

/-- Binance writes a trade's id as an integer. -/
def IsBinanceTradeId (json : Json) (tradeId : String) : Prop := ∃ n, IsInt64 json n ∧ tradeId = toString n

/-- Bybit writes a trade's id as a text. -/
def IsBybitTradeId (json : Json) (tradeId : String) : Prop := json = .string tradeId

/-- What an item says of its trade. -/
structure WireItem (format : TradeFormat Error Value) (isTradeId : Json → String → Prop)
    (number : String → Double → Prop) (fields : List (String × Json)) (trade : ProviderTrade Double) : Prop where
  distinct : (fields.map Prod.fst).Nodup
  exchange : trade.exchange = format.exchange
  instrument : ∃ name, (format.instrumentKey, .string name) ∈ fields ∧ trade.instrument = some (format.normalise name)
  tradeId : ∃ json tradeId, (format.tradeIdKey, json) ∈ fields ∧ isTradeId json tradeId ∧
    trade.tradeId = some tradeId
  price : ∃ text value, (format.priceKey, .string text) ∈ fields ∧ number text value ∧ trade.price = some value
  qty : ∃ text value, (format.qtyKey, .string text) ∈ fields ∧ number text value ∧ trade.qty = some value
  tsExchangeMs : ∃ json ts, (format.tsKey, json) ∈ fields ∧ IsInt64 json ts ∧ trade.tsExchangeMs = some ts

/-- The format's own conversions read what the exchange writes. -/
structure TradeFormat.ReadsWire (format : TradeFormat Error Value) (isTradeId : Json → String → Prop)
    (shows : Json → Value → Prop) : Prop where
  tradeId {json tradeId value} : isTradeId json tradeId → shows json value → format.readTradeId value = .ok tradeId
  ts {json ts value} : IsInt64 json ts → shows json value → format.readTs value = .ok (.ok ts)

/-- The items of an array and their trades. -/
def WireItems (format : TradeFormat Error Value) (isTradeId : Json → String → Prop)
    (number : String → Double → Prop) (items : List Json) (trades : List (ProviderTrade Double)) : Prop :=
  List.Forall₂ (fun item trade => ∃ fields, item = .object fields ∧ WireItem format isTradeId number fields trade)
    items trades

/-- A trade event of Binance, which is its own item. -/
def IsBinanceEvent (platform : ProviderPlatform Error Value Object Double) (number : String → Double → Prop)
    (document : Json) (trades : List (ProviderTrade Double)) : Prop :=
  ∃ fields trade, document = .object fields ∧ ("e", .string "trade") ∈ fields ∧
    WireItem (BinanceProvider.format platform) IsBinanceTradeId number fields trade ∧ trades = [trade]

/-- A message of a public trade topic of Bybit. -/
def IsBybitTrades (platform : ProviderPlatform Error Value Object Double) (number : String → Double → Prop)
    (document : Json) (trades : List (ProviderTrade Double)) : Prop :=
  ∃ fields topic items, document = .object fields ∧ (fields.map Prod.fst).Nodup ∧
    ("topic", .string topic) ∈ fields ∧ StringView.find topic "publicTrade" ≠ none ∧
    ("data", .array items) ∈ fields ∧ WireItems (BybitProvider.format platform) IsBybitTradeId number items trades

/-- The trades with the times at which they were received, one reading of the clock for each. -/
def stamped (clock : Nat → Int) (trades : List (ProviderTrade Double)) : List (ProviderTrade Double) :=
  trades.mapIdx fun i trade => { trade with tsRecvMs := clock i }

/-- Looking up a field that is there, wherever the object's read position is. -/
theorem lookup_of_opens {json : OnDemand Error Value Object} (faithful : json.Faithful writes shows opens)
    {fields : List (String × Json)} {object : Object} (opened : opens fields object)
    (distinct : (fields.map Prod.fst).Nodup) {key : String} {field : Json} (member : (key, field) ∈ fields)
    {α : Type} {read : Value → Except Error α} {a : α} (reads : ∀ value, shows field value → read value = .ok a) :
    ∃ next, json.lookup (.ok object) key read = (.ok a, .ok next) ∧ opens fields next := by
  obtain ⟨value, found, shown⟩ := faithful.field opened distinct member
  refine ⟨_, ?_, faithful.position key opened⟩
  rw [OnDemand.lookup, found]
  exact congrArg (·, _) (reads value shown)

theorem WireItem.filled {format : TradeFormat Error Value} {isTradeId : Json → String → Prop}
    {fields : List (String × Json)}
    {trade : ProviderTrade Double} (item : WireItem format isTradeId number fields trade)
    (faithful : platform.json.Faithful writes shows opens) (reads : platform.Reads shows number)
    (wired : format.ReadsWire isTradeId shows) {object : Object} (opened : opens fields object) (now : Int) :
    format.fill platform now (.ok object) = .ok { trade with tsRecvMs := now } := by
  obtain ⟨name, nameMember, isName⟩ := item.instrument
  obtain ⟨idJson, tradeId, idMember, idStated, isId⟩ := item.tradeId
  obtain ⟨priceText, price, priceMember, priceStated, isPrice⟩ := item.price
  obtain ⟨qtyText, qty, qtyMember, qtyStated, isQty⟩ := item.qty
  obtain ⟨tsJson, ts, tsMember, tsStated, isTs⟩ := item.tsExchangeMs
  obtain ⟨afterName, nameRead, opened⟩ :=
    lookup_of_opens faithful opened item.distinct nameMember fun _ => faithful.string
  obtain ⟨afterId, idRead, opened⟩ :=
    lookup_of_opens faithful opened item.distinct idMember fun _ => wired.tradeId idStated
  obtain ⟨afterPrice, priceRead, opened⟩ :=
    lookup_of_opens faithful opened item.distinct priceMember fun _ => faithful.string
  obtain ⟨afterQty, qtyRead, opened⟩ :=
    lookup_of_opens faithful opened item.distinct qtyMember fun _ => faithful.string
  obtain ⟨_, tsRead, _⟩ := lookup_of_opens faithful opened item.distinct tsMember fun _ => wired.ts tsStated
  have results : format.results platform (.ok object) =
      ⟨.ok name, .ok tradeId, .ok priceText, .ok qtyText, .ok (.ok ts)⟩ := by
    simp only [TradeFormat.results, nameRead, idRead, priceRead, qtyRead, tsRead]
  rw [TradeFormat.fill_eq_ok_iff, results]
  simp only [assignUnlessError, TradeFormat.instrumentOf, reads.stod priceStated, reads.stod qtyStated, Except.map,
    id, isName, isId, isPrice, isQty, isTs, item.exchange, and_self]

/-- Items that are all filled are all pushed. -/
theorem pushTrades_filled {fill : Int → Item → Except StdException (ProviderTrade Double)} (clock : Nat → Int)
    {items : List Item} {trades : List (ProviderTrade Double)}
    (filled : List.Forall₂ (fun item trade => ∀ now, fill now item = .ok { trade with tsRecvMs := now }) items trades)
    (count : Nat) : pushTrades fill clock count items = stamped (fun i => clock (count + i)) trades := by
  induction filled generalizing count with
  | nil => rfl
  | @cons item trade items trades first _ ih =>
    have shift : ∀ i, count + 1 + i = count + (i + 1) := fun i => by omega
    simp only [pushTrades, first (clock count), ih (count + 1), stamped, List.mapIdx_cons, shift, Nat.add_zero]

/-- The items of an array are filled one by one. -/
theorem WireItems.filled {format : TradeFormat Error Value} {isTradeId : Json → String → Prop} {items : List Json}
    {trades : List (ProviderTrade Double)} (wireItems : WireItems format isTradeId number items trades)
    (faithful : platform.json.Faithful writes shows opens) (reads : platform.Reads shows number)
    (wired : format.ReadsWire isTradeId shows) {elements : List (Except Error Value)}
    (shown : List.Forall₂ (fun item element => ∃ value, element = .ok value ∧ shows item value) items elements) :
    List.Forall₂ (fun item trade => ∀ now, format.fill platform now item = .ok { trade with tsRecvMs := now })
      (elements.map (· >>= platform.json.getObject)) trades := by
  unfold WireItems at wireItems
  induction wireItems generalizing elements with
  | nil =>
    cases shown
    exact .nil
  | @cons item trade items trades first _ ih =>
    obtain ⟨fields, rfl, isItem⟩ := first
    obtain ⟨element, rest, ⟨value, rfl, isValue⟩, restShown, rfl⟩ := List.forall₂_cons_left_iff.mp shown
    obtain ⟨object, got, opened⟩ := faithful.object isValue
    refine .cons (fun now => ?_) (ih restShown)
    change format.fill platform now (platform.json.getObject value) = _
    rw [got]
    exact isItem.filled faithful reads wired opened now

theorem binance_readsWire (reads : platform.Reads shows number) :
    (BinanceProvider.format platform).ReadsWire IsBinanceTradeId shows where
  tradeId stated shown := by
    obtain ⟨n, isInt, rfl⟩ := stated
    simp only [BinanceProvider.format, reads.int64 isInt shown]
    rfl
  ts stated shown := by
    simp only [BinanceProvider.format, reads.int64 stated shown]
    rfl

theorem bybit_readsWire (faithful : platform.json.Faithful writes shows opens) (reads : platform.Reads shows number) :
    (BybitProvider.format platform).ReadsWire IsBybitTradeId shows where
  tradeId stated shown := by
    cases stated
    exact faithful.string shown
  ts stated shown := by
    simp only [BybitProvider.format, reads.int64 stated shown]
    rfl

theorem binanceProvider_publishes (faithful : platform.json.Faithful writes shows opens)
    (reads : platform.Reads shows number) (clock : Nat → Int) {document : Json} {message : String}
    {trades : List (ProviderTrade Double)} (event : IsBinanceEvent platform number document trades)
    (written : writes document message) : BinanceProvider.parseTrade platform clock message = stamped clock trades := by
  obtain ⟨fields, trade, rfl, isTrade, item, rfl⟩ := event
  obtain ⟨doc, iterated, shown⟩ := faithful.iterate written
  obtain ⟨root, got, opened⟩ := faithful.object shown
  obtain ⟨root, e, opened⟩ := lookup_of_opens faithful opened item.distinct isTrade fun _ => faithful.string
  have items : BinanceProvider.tradeItems platform message = [.ok root] := by
    simp [BinanceProvider.tradeItems, iterated, got, e]
  have filled := item.filled faithful reads (binance_readsWire reads) opened
  rw [BinanceProvider.parseTrade, items, pushTrades_filled clock (.cons filled .nil)]
  simp only [Nat.zero_add]

theorem bybitProvider_publishes (faithful : platform.json.Faithful writes shows opens)
    (reads : platform.Reads shows number) (clock : Nat → Int) {document : Json} {message : String}
    {trades : List (ProviderTrade Double)} (isTrades : IsBybitTrades platform number document trades)
    (written : writes document message) : BybitProvider.parseTrade platform clock message = stamped clock trades := by
  obtain ⟨fields, topic, items, rfl, distinct, isTopic, named, isData, wireItems⟩ := isTrades
  obtain ⟨doc, iterated, shown⟩ := faithful.iterate written
  obtain ⟨root, got, opened⟩ := faithful.object shown
  obtain ⟨root, topicRead, opened⟩ := lookup_of_opens faithful opened distinct isTopic fun _ => faithful.string
  obtain ⟨value, found, isArray⟩ := faithful.field opened distinct isData
  obtain ⟨elements, gotArray, elementsShown⟩ := faithful.array isArray
  have dataRead : (platform.json.lookup (.ok root) "data" platform.json.getArray).1 = .ok elements := by
    rw [OnDemand.lookup, found]
    exact gotArray
  have items' : BybitProvider.tradeItems platform message = elements.map (· >>= platform.json.getObject) := by
    simp only [BybitProvider.tradeItems, iterated, got, topicRead, named, if_false, dataRead]
  have filled := wireItems.filled faithful reads (bybit_readsWire faithful reads) elementsShown
  rw [BybitProvider.parseTrade, items', pushTrades_filled clock filled]
  simp only [Nat.zero_add]

/-- The providers of Binance and Bybit publish exactly the trades of a
well-formed message, in their order, each with all its fields and its own
receive time. -/
theorem providers_publish (faithful : platform.json.Faithful writes shows opens) (reads : platform.Reads shows number)
    (clock : Nat → Int) {document : Json} {message : String} (written : writes document message)
    (trades : List (ProviderTrade Double)) :
    (IsBinanceEvent platform number document trades →
      BinanceProvider.parseTrade platform clock message = stamped clock trades) ∧
    (IsBybitTrades platform number document trades →
      BybitProvider.parseTrade platform clock message = stamped clock trades) := by
  refine ⟨fun event => ?_, fun isTrades => ?_⟩
  · exact binanceProvider_publishes faithful reads clock event written
  · exact bybitProvider_publishes faithful reads clock isTrades written

theorem knownMessages_reads (documents : String → Option Json) :
    (knownMessages documents).Reads (fun document value => value = document)
      (fun text value => Numeral.decimal text = some value) where
  int64 := by
    rintro json n value ⟨fits⟩ rfl
    exact if_pos fits
  stod {text value} stated := by
    simp only [knownMessages, stated]

theorem providers_publish_twoTrades :
    let platform := knownMessages (twoTradesDocument (some "5"))
    BybitProvider.parseTrade platform (fun i => 100 + i) (twoTrades (some "5")) =
      [⟨"BYBIT", some "ETHUSDT", some "1", some 2, some 3, some 4, 100⟩,
        ⟨"BYBIT", some "ETHUSDT", some "2", some 5, some 3, some 4, 101⟩] := by
  intro platform
  have item : ∀ tradeId text price, Numeral.decimal text = some price →
      WireItem (BybitProvider.format platform) IsBybitTradeId (fun text value => Numeral.decimal text = some value)
        [("s", .string "ETHUSDT"), ("i", .string tradeId), ("p", .string text), ("v", .string "3"),
          ("T", .integer false 4)] ⟨"BYBIT", some "ETHUSDT", some tradeId, some price, some 3, some 4, 0⟩ := by
    intro tradeId text price stated
    have ts : IsInt64 (.integer false 4) 4 := .mk (by decide)
    refine ⟨?_, rfl, ⟨"ETHUSDT", by simp [BybitProvider.format], rfl⟩,
      ⟨.string tradeId, tradeId, by simp [BybitProvider.format], rfl, rfl⟩,
      ⟨text, price, by simp [BybitProvider.format], stated, rfl⟩,
      ⟨"3", 3, by simp [BybitProvider.format], by decide, rfl⟩,
      ⟨.integer false 4, 4, by simp [BybitProvider.format], ts, rfl⟩⟩
    simp only [List.map_cons, List.map_nil]
    decide
  have published := (providers_publish (OnDemand.tree_faithful (twoTradesDocument (some "5")))
    (knownMessages_reads _) (fun i => 100 + i) (if_pos rfl) _).2
    ⟨_, "publicTrade.ETHUSDT", _, rfl, by decide, by simp, by decide, by simp,
      .cons ⟨_, rfl, item "1" "2" 2 (by decide)⟩ (.cons ⟨_, rfl, item "2" "5" 5 (by decide)⟩ .nil)⟩
  exact published

end ConsolidatedBook
