import ConsolidatedBook.SpotParser.Guards

namespace ConsolidatedBook

variable {Error Value Object Double α β : Type} {platform : Platform Error Value Object Double} {msg : ReceivedMessage}
  {trades : List (Trade Double)}

/-- The topic of a message. -/
def bybitTopic (json : OnDemand Error Value Object) (text : String) : Except Error String := do
  let doc ← json.iterate text
  let root ← json.getObject doc
  (json.readString root "topic").1

/-- The time of a message, where the fields before it are there. -/
def bybitEventTs (json : OnDemand Error Value Object) (text : String) : Except Error Nat := do
  let doc ← json.iterate text
  let root ← json.getObject doc
  let (topic, root) := json.readString root "topic"
  let _ ← topic
  let (type, root) := json.readString root "type"
  let _ ← type
  (json.readUint64 root "ts").1

/-- What is read off an element of `data`. -/
def BybitItemReads (json : OnDemand Error Value Object) (element : Except Error Value) (tradeTs : Nat)
    (id price qty : String) : Prop :=
  ∃ item, element = .ok item ∧ ∃ obj, json.getObject item = .ok obj ∧
    (json.readUint64 obj "T").1 = .ok tradeTs ∧
    (json.readString (json.findField obj "T").2 "i").1 = .ok id ∧
    (json.readString (json.findField (json.findField obj "T").2 "i").2 "p").1 = .ok price ∧
    (json.readString (json.findField (json.findField (json.findField obj "T").2 "i").2 "p").2 "v").1 = .ok qty

/-- The trade that is made of an element of `data`. -/
structure BybitItemGives (platform : Platform Error Value Object Double) (symbol : String) (eventTs : Nat)
    (element : Except Error Value) (trade : Trade Double) : Prop where
  exchange : trade.exchange = .BYBIT
  instrument : trade.instrument = symbol
  eventTs : trade.eventTs = eventTs
  reads : ∃ id price qty, BybitItemReads platform.json element trade.tradeTs id price qty ∧
    trade.tradeId = platform.parseUint64 id ∧ trade.price = platform.parseDouble price ∧
    trade.qty = platform.parseDouble qty

/-- What is read off the data object, once it is complete. -/
def BinanceReads (json : OnDemand Error Value Object) (data : Object) (eventTs : Nat) (symbol : String)
    (tradeId tradeTs : Nat) (price qty : String) : Prop :=
  let afterE := (json.findField data "E").2
  let afterS := (json.findField afterE "s").2
  let afterId := (json.findField afterS "t").2
  let afterT := (json.findField afterId "T").2
  (json.readUint64 data "E").1 = .ok eventTs ∧ (json.readString afterE "s").1 = .ok symbol ∧
    (json.readUint64 afterS "t").1 = .ok tradeId ∧ (json.readUint64 afterId "T").1 = .ok tradeTs ∧
    (json.readString afterT "p").1 = .ok price ∧
    (json.readString (json.findField afterT "p").2 "q").1 = .ok qty

theorem checked_bind_eq_ok_iff {res : Except Error α} {next : α → Except Exit β} {b : β} :
    (checked res >>= next) = .ok b ↔ ∃ a, res = .ok a ∧ next a = .ok b := by
  unfold checked
  cases res <;> simp [Except.mapError, bind, Except.bind]

theorem unchecked_bind_eq_ok_iff {res : Except Error α} {next : α → Except Exit β} {b : β} :
    (unchecked res >>= next) = .ok b ↔ ∃ a, res = .ok a ∧ next a = .ok b := by
  unfold unchecked
  cases res <;> simp [Except.mapError, bind, Except.bind]

theorem noexcept_eq_some_iff {body : Except Exit α} {a : α} : noexcept body = .ok (some a) ↔ body = .ok a := by
  unfold noexcept
  cases body with
  | ok a => simp
  | error exit => cases exit <;> simp

/-- One round of the loop adds the trade of its element. -/
theorem bybitItem_returned {symbol : String} {eventTs : Nat} {clock : Nat → Nat} {next : List (Trade Double)}
    {element : Except Error Value}
    (returned : bybitItem platform symbol eventTs clock trades element = .ok next) :
    ∃ trade, next = trades ++ [trade] ∧ BybitItemGives platform symbol eventTs element trade := by
  unfold bybitItem at returned
  simp only [checked_bind_eq_ok_iff, unchecked_bind_eq_ok_iff, OnDemand.readUint64_snd,
    OnDemand.readString_snd] at returned
  obtain ⟨item, found, obj, got, tradeTs, T, id, i, price, p, qty, v, last⟩ := returned
  cases last
  exact ⟨_, rfl, rfl, rfl, rfl, id, price, qty, ⟨item, found, obj, got, T, i, p, v⟩, rfl, rfl, rfl⟩

theorem bybitItems_returned {symbol : String} {eventTs : Nat} {clock : Nat → Nat}
    {elements : List (Except Error Value)} {result : List (Trade Double)}
    (run : elements.foldlM (bybitItem platform symbol eventTs clock) trades = .ok result) :
    ∃ parsed, result = trades ++ parsed ∧
      List.Forall₂ (BybitItemGives platform symbol eventTs) elements parsed := by
  induction elements generalizing trades with
  | nil =>
    cases run
    exact ⟨[], (List.append_nil _).symm, .nil⟩
  | cons element rest ih =>
    rw [List.foldlM_cons, Except.bind_eq_ok_iff] at run
    obtain ⟨next, first, run⟩ := run
    obtain ⟨trade, rfl, gives⟩ := bybitItem_returned first
    obtain ⟨parsed, rfl, others⟩ := ih run
    exact ⟨trade :: parsed, by rw [List.append_assoc, List.singleton_append], .cons gives others⟩

/-- What is returned has one trade for each element of `data`, in their order. -/
theorem bybitSpotParser_returned (returned : bybitSpotParser platform msg = .ok (some trades)) :
    ∃ topic eventTs data, bybitTopic platform.json msg.text = .ok topic ∧
      bybitEventTs platform.json msg.text = .ok eventTs ∧ bybitData platform.json msg.text = .ok data ∧
      List.Forall₂ (BybitItemGives platform (extractSymbol topic) eventTs) data trades := by
  unfold bybitSpotParser at returned
  rw [noexcept_eq_some_iff] at returned
  simp only [checked_bind_eq_ok_iff, OnDemand.readUint64_snd, OnDemand.readString_snd] at returned
  obtain ⟨doc, iterated, root, got, topic, isTopic, type, isType, eventTs, isTs, data, isData, run⟩ := returned
  obtain ⟨parsed, rfl, gives⟩ := bybitItems_returned run
  refine ⟨topic, eventTs, data, ?_, ?_, ?_, gives⟩
  · simp only [bybitTopic, Except.bind_eq_ok_iff]
    exact ⟨doc, iterated, root, got, isTopic⟩
  · simp only [bybitEventTs, Except.bind_eq_ok_iff, OnDemand.readString_snd]
    exact ⟨doc, iterated, root, got, topic, isTopic, type, isType, isTs⟩
  · rw [bybitData_eq_ok_iff]
    exact ⟨doc, iterated, root, got, topic, isTopic, type, isType, eventTs, isTs, isData⟩

theorem binanceSpotParser_returned (returned : binanceSpotParser platform msg = .ok (some trades)) :
    ∃ data trade price qty, binanceData platform.json msg.text = .ok data ∧ trades = [trade] ∧
      trade.exchange = .BINANCE ∧
      BinanceReads platform.json data trade.eventTs trade.instrument trade.tradeId trade.tradeTs price qty ∧
      trade.price = platform.parseDouble price ∧ trade.qty = platform.parseDouble qty := by
  unfold binanceSpotParser at returned
  rw [noexcept_eq_some_iff] at returned
  simp only [checked_bind_eq_ok_iff, unchecked_bind_eq_ok_iff, OnDemand.readUint64_snd,
    OnDemand.readString_snd] at returned
  obtain ⟨doc, iterated, root, got, data, found, eventTs, E, symbol, s, id, t, tradeTs, T, price, p, qty, q,
    last⟩ := returned
  cases last
  refine ⟨data, _, price, qty, ?_, rfl, rfl, ⟨E, s, t, T, p, q⟩, rfl, rfl⟩
  rw [binanceData_eq_ok_iff]
  exact ⟨doc, iterated, root, got, found⟩

/-- A message of one item, with its topic and price. -/
def itemMessage (topic price : String) : ReceivedMessage where
  text := "\x7b\"topic\":\"" ++ topic ++ "\",\"type\":\"snapshot\",\"ts\":1,\"data\":[" ++
    "\x7b\"T\":1,\"i\":\"7\",\"p\":\"" ++ price ++ "\",\"v\":\"3\"\x7d]\x7d"
  clock _ := 1

def itemDocument (topic price text : String) : Option Json :=
  if text = (itemMessage topic price).text then
    some (.object [("topic", .string topic), ("type", .string "snapshot"), ("ts", .integer false 1),
      ("data", .array [.object [("T", .integer false 1), ("i", .string "7"), ("p", .string price),
        ("v", .string "3")]])])
  else none

end ConsolidatedBook
