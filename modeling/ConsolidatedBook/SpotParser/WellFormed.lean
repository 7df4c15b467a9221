import ConsolidatedBook.SpotParser

namespace ConsolidatedBook

variable {Error Value Object Double : Type} {platform : Platform Error Value Object Double}
  {writes : Json → String → Prop} {shows : Json → Value → Prop} {opens : List (String × Json) → Object → Prop}
  {number : String → Double → Prop}

/-- `from_chars` reads valid numerals to their end. `number` says which texts
those of doubles are, and which double each of them stands for. -/
structure ReadsNumerals (platform : Platform Error Value Object Double) (number : String → Double → Prop) :
    Prop where
  double {text value} : number text value → platform.fromCharsDouble text = .whole text value
  uint64 {text value} : Numeral.uint64 text = some value → platform.fromCharsUint64 text = .whole text value

/-- What an item of `data` says of its trade. -/
structure BybitItem (number : String → Double → Prop) (symbol : String) (eventTs : Nat)
    (fields : List (String × Json)) (trade : Trade Double) : Prop where
  distinct : (fields.map Prod.fst).Nodup
  exchange : trade.exchange = .BYBIT
  instrument : trade.instrument = symbol
  eventTs : trade.eventTs = eventTs
  tradeTs : ("T", .integer false trade.tradeTs) ∈ fields ∧ trade.tradeTs < 2 ^ 64
  tradeId : ∃ text, ("i", .string text) ∈ fields ∧ Numeral.uint64 text = some trade.tradeId
  price : ∃ text, ("p", .string text) ∈ fields ∧ number text trade.price
  qty : ∃ text, ("v", .string text) ∈ fields ∧ number text trade.qty

/-- A well-formed message of the public trade stream, and its trades in order. -/
structure BybitMessage (number : String → Double → Prop) (symbol : String) (eventTs : Nat)
    (fields : List (String × Json)) (trades : List (Trade Double)) : Prop where
  distinct : (fields.map Prod.fst).Nodup
  topic : ("topic", .string ("publicTrade." ++ symbol)) ∈ fields
  type : ∃ text, ("type", .string text) ∈ fields
  ts : ("ts", .integer false eventTs) ∈ fields ∧ eventTs < 2 ^ 64
  data : ∃ items, ("data", .array items) ∈ fields ∧
    List.Forall₂ (fun item trade => ∃ fields, item = .object fields ∧ BybitItem number symbol eventTs fields trade)
      items trades

/-- What the data object of a trade event says of its trade. -/
structure BinanceData (number : String → Double → Prop) (fields : List (String × Json)) (trade : Trade Double) :
    Prop where
  distinct : (fields.map Prod.fst).Nodup
  exchange : trade.exchange = .BINANCE
  eventTs : ("E", .integer false trade.eventTs) ∈ fields ∧ trade.eventTs < 2 ^ 64
  instrument : ("s", .string trade.instrument) ∈ fields
  tradeId : ("t", .integer false trade.tradeId) ∈ fields ∧ trade.tradeId < 2 ^ 64
  tradeTs : ("T", .integer false trade.tradeTs) ∈ fields ∧ trade.tradeTs < 2 ^ 64
  price : ∃ text, ("p", .string text) ∈ fields ∧ number text trade.price
  qty : ∃ text, ("q", .string text) ∈ fields ∧ number text trade.qty

def IsBybitMessage (number : String → Double → Prop) (document : Json) (trades : List (Trade Double)) : Prop :=
  ∃ fields symbol eventTs, document = .object fields ∧ BybitMessage number symbol eventTs fields trades

/-- A trade event, wrapped with its stream name, makes one trade. -/
def IsBinanceMessage (number : String → Double → Prop) (document : Json) (trades : List (Trade Double)) : Prop :=
  ∃ outer fields trade, document = .object outer ∧ (outer.map Prod.fst).Nodup ∧
    ("data", .object fields) ∈ outer ∧ BinanceData number fields trade ∧ trades = [trade]

theorem extractSymbol_append (symbol : String) : extractSymbol ("publicTrade." ++ symbol) = symbol := by
  unfold extractSymbol
  rw [StringView.find_append]
  simp only [Nat.zero_add, StringView.substr_append]

theorem BybitItem.parsed {symbol : String} {eventTs : Nat} {fields : List (String × Json)} {trade : Trade Double}
    (item : BybitItem number symbol eventTs fields trade) (faithful : platform.json.Faithful writes shows opens)
    (numerals : ReadsNumerals platform number) (clock : Nat → Nat) (trades : List (Trade Double)) {value : Value}
    (shown : shows (.object fields) value) :
    bybitItem platform symbol eventTs clock trades (.ok value) =
      .ok (trades ++ [{ trade with recvTs := clock trades.length }]) := by
  obtain ⟨obj, got, opened⟩ := faithful.object shown
  obtain ⟨obj, T, opened⟩ := faithful.readUint64 opened item.distinct item.tradeTs.1 item.tradeTs.2
  obtain ⟨idText, idMember, isId⟩ := item.tradeId
  obtain ⟨obj, i, opened⟩ := faithful.readString opened item.distinct idMember
  obtain ⟨priceText, priceMember, isPrice⟩ := item.price
  obtain ⟨obj, p, opened⟩ := faithful.readString opened item.distinct priceMember
  obtain ⟨qtyText, qtyMember, isQty⟩ := item.qty
  obtain ⟨obj, v, _⟩ := faithful.readString opened item.distinct qtyMember
  unfold bybitItem
  simp only [unchecked, checked, Except.mapError, bind, Except.bind, got, T, i, p, v,
    Platform.parseDouble_whole (numerals.double isPrice), Platform.parseDouble_whole (numerals.double isQty),
    Platform.parseUint64_whole (numerals.uint64 isId),
    ← item.exchange, ← item.instrument, ← item.eventTs]
  rfl

/-- The two trades differ at most in the time they were received. -/
def Trade.SameMarket (first second : Trade Double) : Prop :=
  first = { second with recvTs := first.recvTs }

theorem Trade.sameMarket_recvTs (trade : Trade Double) (recvTs : Nat) :
    Trade.SameMarket { trade with recvTs := recvTs } trade := by
  unfold Trade.SameMarket
  rfl

/-- The loop takes each item to its trade, after the trades it already has. -/
theorem bybitItems_parsed (faithful : platform.json.Faithful writes shows opens)
    (numerals : ReadsNumerals platform number) {symbol : String} {eventTs : Nat} (clock : Nat → Nat)
    {items : List Json} {elements : List (Except Error Value)} {trades : List (Trade Double)}
    (shown : List.Forall₂ (fun item element => ∃ value, element = .ok value ∧ shows item value) items elements)
    (wellFormed : List.Forall₂
      (fun item trade => ∃ fields, item = .object fields ∧ BybitItem number symbol eventTs fields trade) items trades)
    (done : List (Trade Double)) :
    ∃ parsed, elements.foldlM (bybitItem platform symbol eventTs clock) done = .ok (done ++ parsed) ∧
      List.Forall₂ Trade.SameMarket parsed trades := by
  induction wellFormed generalizing elements done with
  | nil =>
    cases shown
    exact ⟨[], by rw [List.foldlM_nil, List.append_nil]; rfl, .nil⟩
  | @cons item trade items trades wellFormed _ ih =>
    obtain ⟨fields, rfl, isItem⟩ := wellFormed
    obtain ⟨element, rest, ⟨value, rfl, isValue⟩, restShown, rfl⟩ := List.forall₂_cons_left_iff.mp shown
    have step := isItem.parsed faithful numerals clock done isValue
    obtain ⟨parsed, run, same⟩ := ih restShown (done ++ [{ trade with recvTs := clock done.length }])
    refine ⟨{ trade with recvTs := clock done.length } :: parsed, ?_, .cons (trade.sameMarket_recvTs _) same⟩
    rw [List.append_assoc, List.singleton_append] at run
    rw [List.foldlM_cons, step]
    exact run

theorem BybitMessage.parsed {symbol : String} {eventTs : Nat} {fields : List (String × Json)}
    {trades : List (Trade Double)} (message : BybitMessage number symbol eventTs fields trades)
    (faithful : platform.json.Faithful writes shows opens) (numerals : ReadsNumerals platform number)
    {msg : ReceivedMessage} (written : writes (.object fields) msg.text) :
    ∃ parsed, bybitSpotParser platform msg = .ok (some parsed) ∧ List.Forall₂ Trade.SameMarket parsed trades := by
  obtain ⟨doc, iterated, shown⟩ := faithful.iterate written
  obtain ⟨root, got, opened⟩ := faithful.object shown
  obtain ⟨root, topic, opened⟩ := faithful.readString opened message.distinct message.topic
  obtain ⟨kind, kindMember⟩ := message.type
  obtain ⟨root, type, opened⟩ := faithful.readString opened message.distinct kindMember
  obtain ⟨root, ts, opened⟩ := faithful.readUint64 opened message.distinct message.ts.1 message.ts.2
  obtain ⟨items, dataMember, wellFormed⟩ := message.data
  obtain ⟨elements, root, data, shown⟩ := faithful.readArray opened message.distinct dataMember
  obtain ⟨parsed, run, same⟩ := bybitItems_parsed faithful numerals msg.clock shown wellFormed []
  refine ⟨parsed, ?_, same⟩
  unfold bybitSpotParser
  simp only [checked, Except.mapError, bind, Except.bind, iterated, got, topic, type, ts, data,
    extractSymbol_append, run]
  rfl

theorem BinanceData.parsed {outer fields : List (String × Json)} {trade : Trade Double}
    (event : BinanceData number fields trade) (distinct : (outer.map Prod.fst).Nodup)
    (member : ("data", .object fields) ∈ outer)
    (faithful : platform.json.Faithful writes shows opens) (numerals : ReadsNumerals platform number)
    {msg : ReceivedMessage} (written : writes (.object outer) msg.text) :
    binanceSpotParser platform msg = .ok (some [{ trade with recvTs := msg.clock 0 }]) := by
  obtain ⟨doc, iterated, shown⟩ := faithful.iterate written
  obtain ⟨root, got, opened⟩ := faithful.object shown
  obtain ⟨obj, root, data, opened⟩ := faithful.readObject opened distinct member
  obtain ⟨obj, E, opened⟩ := faithful.readUint64 opened event.distinct event.eventTs.1 event.eventTs.2
  obtain ⟨obj, s, opened⟩ := faithful.readString opened event.distinct event.instrument
  obtain ⟨obj, t, opened⟩ := faithful.readUint64 opened event.distinct event.tradeId.1 event.tradeId.2
  obtain ⟨obj, T, opened⟩ := faithful.readUint64 opened event.distinct event.tradeTs.1 event.tradeTs.2
  obtain ⟨priceText, priceMember, isPrice⟩ := event.price
  obtain ⟨obj, p, opened⟩ := faithful.readString opened event.distinct priceMember
  obtain ⟨qtyText, qtyMember, isQty⟩ := event.qty
  obtain ⟨obj, q, _⟩ := faithful.readString opened event.distinct qtyMember
  unfold binanceSpotParser
  simp only [checked, unchecked, Except.mapError, bind, Except.bind, iterated, got, data, E, s, t, T, p, q,
    Platform.parseDouble_whole (numerals.double isPrice), Platform.parseDouble_whole (numerals.double isQty),
    ← event.exchange]
  rfl

/-- The longest prefix of a text that is a numeral: its length, and its value. -/
def Numeral.longest {α : Type} (numeral : List Char → Option α) (text : String) : Option (Nat × α) :=
  (List.range (text.toList.length + 1)).reverse.findSome? fun n => (numeral (text.toList.take n)).map (n, ·)

/-- The longest numeric prefix is read, and its value is stored if it is in the range. -/
def FromChars.longest {α : Type} (numeral : List Char → Option α) (inRange : α → Bool) (text : String) :
    FromChars α :=
  match Numeral.longest numeral text with
  | .none => ⟨.invalidArgument, 0, none⟩
  | .some (ptr, value) => if inRange value then ⟨.none, ptr, some value⟩ else ⟨.resultOutOfRange, ptr, none⟩

/-- Reading the longest prefix gets to the end of the numerals in the range, and of nothing else. -/
theorem FromChars.longest_eq_whole_iff {α : Type} {numeral : List Char → Option α} {inRange : α → Bool}
    {text : String} {value : α} :
    FromChars.longest numeral inRange text = .whole text value ↔
      numeral text.toList = some value ∧ inRange value = true := by
  constructor
  · intro whole
    unfold FromChars.longest at whole
    split at whole
    · cases whole
    · rename_i ptr read found
      split at whole
      · rename_i fits
        cases whole
        obtain ⟨n, _, isNumeral⟩ := List.exists_of_findSome?_eq_some found
        obtain ⟨stated, isValue, same⟩ := Option.map_eq_some_iff.mp isNumeral
        cases same
        rw [List.take_length] at isValue
        exact ⟨isValue, fits⟩
      · cases whole
  · rintro ⟨isNumeral, fits⟩
    have all : Numeral.longest numeral text = some (text.toList.length, value) := by
      rw [Numeral.longest, List.range_succ, List.reverse_concat, List.findSome?_cons, List.take_length, isNumeral]
      rfl
    rw [FromChars.longest, all]
    exact if_pos fits

/-- A parser that knows the given texts, on a platform whose doubles are the rationals. -/
def knownTexts (documents : String → Option Json) : Platform Unit Json (List (String × Json)) Rat where
  json := OnDemand.tree documents
  fromCharsDouble := FromChars.longest (fun text => Numeral.decimal (String.ofList text)) fun _ => true
  fromCharsUint64 := FromChars.longest Numeral.natural fun value => value < 2 ^ 64
  uninitialisedDouble := 0
  uninitialisedUint64 := 0

/-- A decimal that a `double` holds as it is, with nothing to round. -/
def IsExactDouble (text : String) (value : Rat) : Prop :=
  Numeral.decimal text = some value ∧
    ∃ (significand : Int) (places : Nat), significand.natAbs < 2 ^ 53 ∧ places ≤ 1022 ∧
      value = significand / 2 ^ places

theorem knownTexts_readsNumerals (documents : String → Option Json) :
    ReadsNumerals (knownTexts documents) IsExactDouble where
  double stated := by
    refine FromChars.longest_eq_whole_iff.mpr ⟨?_, rfl⟩
    rw [String.ofList_toList]
    exact stated.1
  uint64 stated := FromChars.longest_eq_whole_iff.mpr (Option.filter_eq_some_iff.mp stated)

end ConsolidatedBook
