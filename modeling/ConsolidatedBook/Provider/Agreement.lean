import ConsolidatedBook.Provider.WellFormed
import ConsolidatedBook.SpotParser.WellFormed

namespace ConsolidatedBook

/-- A trade of the spot parser and one of the provider that say the same:
the provider has texts where the parser has an enumeration and a number. -/
structure SameTrade {Double : Type} (trade : Trade Double) (published : ProviderTrade Double) : Prop where
  exchange : toExchange published.exchange = trade.exchange
  instrument : published.instrument = some trade.instrument
  tradeId : ∃ text, published.tradeId = some text ∧ Numeral.uint64 text = some trade.tradeId
  price : published.price = some trade.price
  qty : published.qty = some trade.qty
  tradeTs : published.tsExchangeMs = some (trade.tradeTs : Int)

/-- Each item names its instrument, as the topic does. -/
def ItemsNamed (symbol : String) (fields : List (String × Json)) : Prop :=
  ∀ items, ("data", .array items) ∈ fields → ∀ inner, .object inner ∈ items → ("s", .string symbol) ∈ inner

theorem topic_found (symbol : String) : StringView.find ("publicTrade." ++ symbol) "publicTrade" ≠ none := by
  have split : "publicTrade." ++ symbol = "publicTrade" ++ ("." ++ symbol) := by
    rw [← String.append_assoc]
    rfl
  rw [split, StringView.find_append]
  exact Option.some_ne_none 0

section Agreement

variable {Error Value Object Double : Type} {provider : ProviderPlatform Error Value Object Double}
  {number : String → Double → Prop}

theorem BybitItem.published {symbol : String} {eventTs : Nat} {fields : List (String × Json)}
    {trade : Trade Double} (item : BybitItem number symbol eventTs fields trade)
    (named : ("s", .string symbol) ∈ fields) (inRange : trade.tradeTs < 2 ^ 63) :
    ∃ published, WireItem (BybitProvider.format provider) IsBybitTradeId number fields published ∧
      SameTrade trade published := by
  obtain ⟨idText, idMember, isId⟩ := item.tradeId
  obtain ⟨priceText, priceMember, isPrice⟩ := item.price
  obtain ⟨qtyText, qtyMember, isQty⟩ := item.qty
  have ts : IsInt64 (.integer false trade.tradeTs) (trade.tradeTs : Int) := .mk inRange
  refine ⟨⟨"BYBIT", some symbol, some idText, some trade.price, some trade.qty, some trade.tradeTs, 0⟩, ?_, ?_⟩
  · exact ⟨item.distinct, rfl, ⟨symbol, named, rfl⟩, ⟨_, idText, idMember, rfl, rfl⟩,
      ⟨priceText, _, priceMember, isPrice, rfl⟩, ⟨qtyText, _, qtyMember, isQty, rfl⟩,
      ⟨_, _, item.tradeTs.1, ts, rfl⟩⟩
  · refine ⟨?_, ?_, ⟨idText, rfl, isId⟩, rfl, rfl, rfl⟩
    · rw [item.exchange]
      rfl
    · rw [item.instrument]

theorem bybitItems_published {symbol : String} {eventTs : Nat} {items : List Json}
    {trades : List (Trade Double)} (wellFormed : List.Forall₂
      (fun item trade => ∃ fields, item = .object fields ∧ BybitItem number symbol eventTs fields trade)
      items trades) (named : ∀ inner, .object inner ∈ items → ("s", .string symbol) ∈ inner)
    (inRange : ∀ trade ∈ trades, trade.tradeTs < 2 ^ 63) :
    ∃ published, WireItems (BybitProvider.format provider) IsBybitTradeId number items published ∧
      List.Forall₂ SameTrade trades published := by
  induction wellFormed with
  | nil => exact ⟨[], .nil, .nil⟩
  | @cons item trade items trades first _ ih =>
    obtain ⟨fields, rfl, isItem⟩ := first
    obtain ⟨here, inRange⟩ := List.forall_mem_cons.mp inRange
    obtain ⟨published, wire, same⟩ := isItem.published (named fields List.mem_cons_self) here
    obtain ⟨rest, wires, sames⟩ := ih (fun inner member => named inner (List.mem_cons_of_mem _ member)) inRange
    exact ⟨published :: rest, .cons ⟨fields, rfl, wire⟩ wires, .cons same sames⟩

/-- Receive times are no part of what is compared. -/
theorem sameTrade_stamped {parsed trades : List (Trade Double)} {published : List (ProviderTrade Double)}
    (market : List.Forall₂ Trade.SameMarket parsed trades) (same : List.Forall₂ SameTrade trades published)
    (clock : Nat → Int) : List.Forall₂ SameTrade parsed (stamped clock published) := by
  induction market generalizing published clock with
  | nil =>
    cases same
    exact .nil
  | @cons first trade parsed trades alike _ ih =>
    obtain ⟨next, rest, one, others, rfl⟩ := List.forall₂_cons_left_iff.mp same
    have head : SameTrade first { next with tsRecvMs := clock 0 } := by
      rw [alike]
      exact ⟨one.exchange, one.instrument, one.tradeId, one.price, one.qty, one.tradeTs⟩
    have tail := ih others fun i => clock (i + 1)
    unfold stamped at tail ⊢
    rw [List.mapIdx_cons]
    exact .cons head tail

/-- Bybit's messages have two readers, the spot parser and the provider: on a
well-formed message both succeed, and they agree trade by trade as long as
`from_chars` and `std::stod` agree on its numbers. -/
theorem bybit_readersAgree {Error' Value' Object' : Type} {spot : Platform Error' Value' Object' Double}
    {writes : Json → String → Prop} {shows : Json → Value → Prop} {opens : List (String × Json) → Object → Prop}
    {shows' : Json → Value' → Prop} {opens' : List (String × Json) → Object' → Prop}
    (faithful : provider.json.Faithful writes shows opens) (reads : provider.Reads shows number)
    (faithful' : spot.json.Faithful writes shows' opens') (numerals : ReadsNumerals spot number)
    {symbol : String} {eventTs : Nat} {fields : List (String × Json)} {trades : List (Trade Double)}
    (message : BybitMessage number symbol eventTs fields trades) (named : ItemsNamed symbol fields)
    (inRange : ∀ trade ∈ trades, trade.tradeTs < 2 ^ 63) (clock : Nat → Int) {msg : ReceivedMessage}
    (written : writes (.object fields) msg.text) :
    ∃ parsed, bybitSpotParser spot msg = .ok (some parsed) ∧
      List.Forall₂ SameTrade parsed (BybitProvider.parseTrade provider clock msg.text) ∧
      List.Forall₂ Trade.SameMarket parsed trades := by
  obtain ⟨parsed, returned, market⟩ := message.parsed faithful' numerals written
  obtain ⟨items, isData, wellFormed⟩ := message.data
  obtain ⟨published, wire, same⟩ := bybitItems_published wellFormed (named items isData) inRange
  have isTrades : IsBybitTrades provider number (.object fields) published :=
    ⟨fields, "publicTrade." ++ symbol, items, rfl, message.distinct, message.topic, topic_found symbol, isData, wire⟩
  rw [bybitProvider_publishes faithful reads clock isTrades written]
  exact ⟨parsed, returned, sameTrade_stamped market same clock, market⟩

end Agreement

/-- A message of one trade that names its instrument twice. -/
def namedText : String :=
  "\x7b\"topic\":\"publicTrade.ETHUSDT\",\"ts\":5,\"type\":\"snapshot\",\"data\":[\x7b\"i\":\"2280\",\"T\":4," ++
    "\"p\":\"2\",\"v\":\"3\",\"s\":\"ETHUSDT\"\x7d]\x7d"

def namedItem : List (String × Json) :=
  [("i", .string "2280"), ("T", .integer false 4), ("p", .string "2"), ("v", .string "3"), ("s", .string "ETHUSDT")]

def namedFields : List (String × Json) :=
  [("topic", .string "publicTrade.ETHUSDT"), ("ts", .integer false 5), ("type", .string "snapshot"),
    ("data", .array [.object namedItem])]

theorem bybit_readersAgree_named :
    let documents := fun text => if text = namedText then some (Json.object namedFields) else none
    ∃ parsed, bybitSpotParser (knownTexts documents) ⟨namedText, fun _ => 7⟩ = .ok (some parsed) ∧
      List.Forall₂ SameTrade parsed (BybitProvider.parseTrade (knownMessages documents) (fun _ => 8) namedText) ∧
      List.Forall₂ Trade.SameMarket parsed [⟨.BYBIT, "ETHUSDT", 2280, 2, 3, 5, 4, 0⟩] := by
  intro documents
  have item : BybitItem IsExactDouble "ETHUSDT" 5 namedItem ⟨.BYBIT, "ETHUSDT", 2280, 2, 3, 5, 4, 0⟩ := by
    refine ⟨by decide, rfl, rfl, rfl, ⟨by simp [namedItem], by decide⟩, ⟨"2280", by simp [namedItem], by decide⟩,
      ⟨"2", by simp [namedItem], by decide +kernel, 2, 0, by decide, by decide, by decide +kernel⟩,
      ⟨"3", by simp [namedItem], by decide +kernel, 3, 0, by decide, by decide, by decide +kernel⟩⟩
  have message : BybitMessage IsExactDouble "ETHUSDT" 5 namedFields [⟨.BYBIT, "ETHUSDT", 2280, 2, 3, 5, 4, 0⟩] := by
    refine ⟨by decide, by simp [namedFields], ⟨"snapshot", by simp [namedFields]⟩,
      ⟨by simp [namedFields], by decide⟩, [.object namedItem], by simp [namedFields], .cons ⟨_, rfl, item⟩ .nil⟩
  have named : ItemsNamed "ETHUSDT" namedFields := by
    intro items isData inner member
    simp only [namedFields, List.mem_cons, Prod.mk.injEq, reduceCtorEq, and_false, false_or, List.not_mem_nil,
      or_false, Json.array.injEq, true_and] at isData
    subst isData
    cases List.mem_singleton.mp member
    simp [namedItem]
  have reads : (knownMessages documents).Reads (fun document value => value = document) IsExactDouble :=
    ⟨(knownMessages_reads documents).int64, fun stated => (knownMessages_reads documents).stod stated.1⟩
  exact bybit_readersAgree (OnDemand.tree_faithful documents) reads (OnDemand.tree_faithful documents)
    (knownTexts_readsNumerals documents) message named (List.forall_mem_singleton.mpr (by decide)) _
    (if_pos rfl : documents namedText = some (.object namedFields))

end ConsolidatedBook
