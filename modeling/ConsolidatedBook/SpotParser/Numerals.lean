import ConsolidatedBook.SpotParser.Returned

namespace ConsolidatedBook

variable {Error Value Object Double : Type} {platform : Platform Error Value Object Double} {msg : ReceivedMessage}
  {json : OnDemand Error Value Object}

/-- What a string may be read as. -/
inductive NumberKind
  | uint64
  | double
deriving DecidableEq, Repr

/-- All of the text is a numeral, and in the range of the type: `from_chars`, which
reads the longest numeric prefix, gets to its end without an error. -/
def IsNumeral (platform : Platform Error Value Object Double) (text : String) : NumberKind → Prop
  | .uint64 => ∃ value, platform.fromCharsUint64 text = .whole text value
  | .double => ∃ value, platform.fromCharsDouble text = .whole text value

/-- The strings that are read as numbers one after another, up to the first that is not there. -/
def readTexts (json : OnDemand Error Value Object) (obj : Object) :
    List (String × NumberKind) → List (String × NumberKind)
  | [] => []
  | (key, kind) :: fields =>
    match (json.readString obj key).1 with
    | .error _ => []
    | .ok text => (text, kind) :: readTexts json (json.findField obj key).2 fields

def bybitNumbers : List (String × NumberKind) := [("i", .uint64), ("p", .double), ("v", .double)]

/-- The string is read as a number when the element's turn comes. -/
def BybitElementReads (json : OnDemand Error Value Object) (element : Except Error Value) (text : String)
    (kind : NumberKind) : Prop :=
  ∃ item, element = .ok item ∧ ∃ obj, json.getObject item = .ok obj ∧
    (∃ tradeTs, (json.readUint64 obj "T").1 = .ok tradeTs) ∧
    (text, kind) ∈ readTexts json (json.findField obj "T").2 bybitNumbers

/-- The string is read as a number: in an element that has only complete ones before it. -/
def BybitReadsNumber (json : OnDemand Error Value Object) (message text : String) (kind : NumberKind) : Prop :=
  ∃ before element after, bybitData json message = .ok (before ++ element :: after) ∧
    (∀ earlier ∈ before, ItemComplete json earlier) ∧ BybitElementReads json element text kind

/-- Price and quantity are read as numbers once all the fields are there. -/
def BinanceReadsNumber (json : OnDemand Error Value Object) (message text : String) (kind : NumberKind) : Prop :=
  ∃ data, binanceData json message = .ok data ∧ ∃ eventTs symbol tradeId tradeTs price qty,
    BinanceReads json data eventTs symbol tradeId tradeTs price qty ∧ (text = price ∨ text = qty) ∧ kind = .double

/-- The trade is what the element says, and each of its numbers the value of all of a string. -/
structure BybitItemStates (platform : Platform Error Value Object Double) (symbol : String) (eventTs : Nat)
    (element : Except Error Value) (trade : Trade Double) : Prop where
  exchange : trade.exchange = .BYBIT
  instrument : trade.instrument = symbol
  eventTs : trade.eventTs = eventTs
  reads : ∃ id price qty, BybitItemReads platform.json element trade.tradeTs id price qty ∧
    platform.fromCharsUint64 id = .whole id trade.tradeId ∧
    platform.fromCharsDouble price = .whole price trade.price ∧
    platform.fromCharsDouble qty = .whole qty trade.qty

def BybitStates (platform : Platform Error Value Object Double) (message : String) (trades : List (Trade Double)) :
    Prop :=
  ∃ topic eventTs data, bybitTopic platform.json message = .ok topic ∧
    bybitEventTs platform.json message = .ok eventTs ∧ bybitData platform.json message = .ok data ∧
    List.Forall₂ (BybitItemStates platform (extractSymbol topic) eventTs) data trades

def BinanceStates (platform : Platform Error Value Object Double) (message : String)
    (trades : List (Trade Double)) : Prop :=
  ∃ data trade price qty, binanceData platform.json message = .ok data ∧ trades = [trade] ∧
    trade.exchange = .BINANCE ∧
    BinanceReads platform.json data trade.eventTs trade.instrument trade.tradeId trade.tradeTs price qty ∧
    platform.fromCharsDouble price = .whole price trade.price ∧ platform.fromCharsDouble qty = .whole qty trade.qty

/-- What is returned is what the message states, and a string that is read as
a number and is none makes the call return `nullopt`. -/
structure ReturnsNumerals (result : Except Terminated (Option (List (Trade Double))))
    (reads isNumeral : String → NumberKind → Prop) (states : List (Trade Double) → Prop) : Prop where
  returned {trades} : result = .ok (some trades) → states trades
  rejected {text kind} : reads text kind → ¬ isNumeral text kind → result = .ok none

/-- No result of `from_chars` is looked at, so only an earlier return saves the call from a bad string. -/
theorem returnsNumerals_iff {result : Except Terminated (Option (List (Trade Double)))}
    {reads isNumeral : String → NumberKind → Prop} {states : List (Trade Double) → Prop} {complete guarded : Prop}
    (completes : (∃ trades, result = .ok (some trades)) ↔ complete)
    (returns : (∃ returned, result = .ok returned) ↔ guarded)
    (stated : (∀ text kind, reads text kind → isNumeral text kind) →
      ∀ trades, result = .ok (some trades) → states trades) :
    ReturnsNumerals result reads isNumeral states ↔
      (∀ text kind, reads text kind → isNumeral text kind) ∨ guarded ∧ ¬ complete := by
  rw [← completes, ← returns]
  constructor
  · intro numerals
    by_cases valid : ∀ text kind, reads text kind → isNumeral text kind
    · exact Or.inl valid
    · push Not at valid
      obtain ⟨text, kind, read, invalid⟩ := valid
      have rejected := numerals.rejected read invalid
      refine Or.inr ⟨⟨none, rejected⟩, ?_⟩
      rintro ⟨trades, returned⟩
      cases rejected.symm.trans returned
  · rintro (valid | ⟨⟨returned, result⟩, incomplete⟩)
    · exact ⟨fun {trades} returned => stated valid trades returned,
        fun {text kind} read invalid => absurd (valid text kind read) invalid⟩
    · cases returned with
      | some trades => exact absurd ⟨trades, result⟩ incomplete
      | none => exact ⟨fun {trades} returned => absurd ⟨trades, returned⟩ incomplete, fun _ _ => result⟩

theorem BybitItemReads.complete {element : Except Error Value} {tradeTs : Nat} {id price qty : String}
    (reads : BybitItemReads json element tradeTs id price qty) : ItemComplete json element := by
  obtain ⟨item, found, obj, got, T, i, p, v⟩ := reads
  exact ⟨item, found, obj, got, ⟨_, T⟩, ⟨_, i⟩, ⟨_, p⟩, ⟨_, v⟩, trivial⟩

theorem BybitItemReads.numbers {element : Except Error Value} {tradeTs : Nat} {id price qty : String}
    (reads : BybitItemReads json element tradeTs id price qty) :
    BybitElementReads json element id .uint64 ∧ BybitElementReads json element price .double ∧
      BybitElementReads json element qty .double := by
  obtain ⟨item, found, obj, got, T, i, p, v⟩ := reads
  have texts : readTexts json (json.findField obj "T").2 bybitNumbers =
      [(id, .uint64), (price, .double), (qty, .double)] := by
    simp only [bybitNumbers, readTexts, i, p, v]
  refine ⟨⟨item, found, obj, got, ⟨_, T⟩, ?_⟩, ⟨item, found, obj, got, ⟨_, T⟩, ?_⟩,
    item, found, obj, got, ⟨_, T⟩, ?_⟩
  all_goals simp [texts]

/-- A trade made of valid numerals alone has their values. -/
theorem BybitItemGives.states {symbol : String} {eventTs : Nat} {element : Except Error Value}
    {trade : Trade Double} (gives : BybitItemGives platform symbol eventTs element trade)
    (valid : ∀ text kind, BybitElementReads platform.json element text kind → IsNumeral platform text kind) :
    BybitItemStates platform symbol eventTs element trade := by
  obtain ⟨exchange, instrument, eventTs, id, price, qty, reads, sameId, samePrice, sameQty⟩ := gives
  obtain ⟨readsId, readsPrice, readsQty⟩ := reads.numbers
  obtain ⟨idValue, isId⟩ := valid id .uint64 readsId
  obtain ⟨priceValue, isPrice⟩ := valid price .double readsPrice
  obtain ⟨qtyValue, isQty⟩ := valid qty .double readsQty
  refine ⟨exchange, instrument, eventTs, id, price, qty, reads, ?_, ?_, ?_⟩
  · rwa [sameId, Platform.parseUint64_whole isId]
  · rwa [samePrice, Platform.parseDouble_whole isPrice]
  · rwa [sameQty, Platform.parseDouble_whole isQty]

theorem bybitSpotParser_states
    (valid : ∀ text kind, BybitReadsNumber platform.json msg.text text kind → IsNumeral platform text kind)
    (trades : List (Trade Double)) (returned : bybitSpotParser platform msg = .ok (some trades)) :
    BybitStates platform msg.text trades := by
  obtain ⟨topic, eventTs, data, isTopic, isTs, isData, gives⟩ := bybitSpotParser_returned returned
  obtain ⟨data', isData', complete⟩ := (bybitSpotParser_some_iff platform msg).mp ⟨trades, returned⟩
  cases isData.symm.trans isData'
  have elementsValid : ∀ element ∈ data, ∀ text kind,
      BybitElementReads platform.json element text kind → IsNumeral platform text kind := by
    intro element member text kind reads
    obtain ⟨before, after, rfl⟩ := List.append_of_mem member
    refine valid text kind ⟨before, element, after, isData, fun earlier among => ?_, reads⟩
    exact complete earlier (List.mem_append_left _ among)
  refine ⟨topic, eventTs, data, isTopic, isTs, isData, ?_⟩
  refine ((List.forall₂_and_left data trades).mpr ⟨elementsValid, gives⟩).imp ?_
  rintro element trade ⟨elementValid, elementGives⟩
  exact elementGives.states elementValid

theorem binanceSpotParser_states
    (valid : ∀ text kind, BinanceReadsNumber platform.json msg.text text kind → IsNumeral platform text kind)
    (trades : List (Trade Double)) (returned : binanceSpotParser platform msg = .ok (some trades)) :
    BinanceStates platform msg.text trades := by
  obtain ⟨data, trade, price, qty, isData, same, exchange, reads, samePrice, sameQty⟩ :=
    binanceSpotParser_returned returned
  obtain ⟨priceValue, isPrice⟩ := valid price .double ⟨data, isData, _, _, _, _, price, qty, reads, Or.inl rfl, rfl⟩
  obtain ⟨qtyValue, isQty⟩ := valid qty .double ⟨data, isData, _, _, _, _, price, qty, reads, Or.inr rfl, rfl⟩
  refine ⟨data, trade, price, qty, isData, same, exchange, reads, ?_, ?_⟩
  · rwa [samePrice, Platform.parseDouble_whole isPrice]
  · rwa [sameQty, Platform.parseDouble_whole isQty]

/-- The parsers return what the message states exactly if every string that they
read as a number is one, or the message is rejected for something else. -/
theorem spotParsers_returnNumerals_iff (platform : Platform Error Value Object Double) (msg : ReceivedMessage) :
    (ReturnsNumerals (bybitSpotParser platform msg) (BybitReadsNumber platform.json msg.text)
        (IsNumeral platform) (BybitStates platform msg.text) ↔
      (∀ text kind, BybitReadsNumber platform.json msg.text text kind → IsNumeral platform text kind) ∨
        BybitGuarded platform.json msg.text ∧ ¬ BybitComplete platform.json msg.text) ∧
    (ReturnsNumerals (binanceSpotParser platform msg) (BinanceReadsNumber platform.json msg.text)
        (IsNumeral platform) (BinanceStates platform msg.text) ↔
      (∀ text kind, BinanceReadsNumber platform.json msg.text text kind → IsNumeral platform text kind) ∨
        BinanceGuarded platform.json msg.text ∧ ¬ BinanceComplete platform.json msg.text) := by
  constructor
  · exact returnsNumerals_iff (bybitSpotParser_some_iff platform msg) (bybitSpotParser_returns_iff platform msg)
      bybitSpotParser_states
  · exact returnsNumerals_iff (binanceSpotParser_some_iff platform msg)
      (binanceSpotParser_returns_iff platform msg) binanceSpotParser_states

theorem spotParsers_returnNumerals_onePrice :
    ReturnsNumerals
      (bybitSpotParser (knownTexts (itemDocument "publicTrade.ETHUSDT" "2"))
        (itemMessage "publicTrade.ETHUSDT" "2"))
      (BybitReadsNumber (OnDemand.tree (itemDocument "publicTrade.ETHUSDT" "2"))
        (itemMessage "publicTrade.ETHUSDT" "2").text)
      (IsNumeral (knownTexts (itemDocument "publicTrade.ETHUSDT" "2")))
      (BybitStates (knownTexts (itemDocument "publicTrade.ETHUSDT" "2"))
        (itemMessage "publicTrade.ETHUSDT" "2").text) := by
  refine (spotParsers_returnNumerals_iff (knownTexts (itemDocument "publicTrade.ETHUSDT" "2"))
    (itemMessage "publicTrade.ETHUSDT" "2")).1.mpr (Or.inl ?_)
  rintro text kind ⟨before, element, after, isData, _, item, found, obj, got, _, read⟩
  have whole : bybitData (OnDemand.tree (itemDocument "publicTrade.ETHUSDT" "2"))
      (itemMessage "publicTrade.ETHUSDT" "2").text = .ok [.ok _] := rfl
  rcases List.append_eq_singleton_iff.mp (Except.ok.inj (whole.symm.trans isData)).symm with
    ⟨rfl, same⟩ | ⟨_, none⟩
  · cases same
    cases found
    cases got
    change (text, kind) ∈ [("7", .uint64), ("2", .double), ("3", .double)] at read
    simp only [List.mem_cons, Prod.mk.injEq, List.not_mem_nil, or_false] at read
    rcases read with ⟨rfl, rfl⟩ | ⟨rfl, rfl⟩ | ⟨rfl, rfl⟩
    · exact ⟨7, by decide +kernel⟩
    · exact ⟨2, by decide +kernel⟩
    · exact ⟨3, by decide +kernel⟩
  · cases none

/-- The price `"abc"` is no number, and a trade is returned. -/
theorem spotParsers_return_noNumeral :
    ¬ ReturnsNumerals
      (bybitSpotParser (knownTexts (itemDocument "publicTrade.ETHUSDT" "abc"))
        (itemMessage "publicTrade.ETHUSDT" "abc"))
      (BybitReadsNumber (OnDemand.tree (itemDocument "publicTrade.ETHUSDT" "abc"))
        (itemMessage "publicTrade.ETHUSDT" "abc").text)
      (IsNumeral (knownTexts (itemDocument "publicTrade.ETHUSDT" "abc")))
      (BybitStates (knownTexts (itemDocument "publicTrade.ETHUSDT" "abc"))
        (itemMessage "publicTrade.ETHUSDT" "abc").text) := by
  intro numerals
  obtain ⟨trade, returned⟩ : ∃ trade, bybitSpotParser (knownTexts (itemDocument "publicTrade.ETHUSDT" "abc"))
      (itemMessage "publicTrade.ETHUSDT" "abc") = .ok (some [trade]) :=
    ⟨_, rfl⟩
  have read : BybitReadsNumber (OnDemand.tree (itemDocument "publicTrade.ETHUSDT" "abc"))
      (itemMessage "publicTrade.ETHUSDT" "abc").text "abc" .double :=
    ⟨[], _, [], rfl, List.forall_mem_nil _, _, rfl, _, rfl, ⟨_, rfl⟩, .tail _ (.head _)⟩
  have invalid : ¬ IsNumeral (knownTexts (itemDocument "publicTrade.ETHUSDT" "abc")) "abc" .double := by
    rintro ⟨value, whole⟩
    rw [knownTexts, FromChars.longest_eq_whole_iff] at whole
    cases whole.1
  cases returned.symm.trans (numerals.rejected read invalid)

end ConsolidatedBook
