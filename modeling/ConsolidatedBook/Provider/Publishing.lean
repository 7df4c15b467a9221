import ConsolidatedBook.Provider

namespace ConsolidatedBook

variable {Error Value Object Double Item α β : Type}

/-- The field is there, and its value converted is what has been assigned. -/
def Assigns (res : Except Error α) (convert : α → Except StdException β) (assigned : Option β) : Prop :=
  ∃ a b, res = .ok a ∧ convert a = .ok b ∧ assigned = some b

/-- The field is there, and its value can be converted. -/
def Converts (res : Except Error α) (convert : α → Except StdException β) : Prop :=
  ∃ a b, res = .ok a ∧ convert a = .ok b

/-- The field is there, and the conversion of its value throws. -/
def ConversionThrows (res : Except Error α) (convert : α → Except StdException β) : Prop :=
  ∃ a exception, res = .ok a ∧ convert a = .error exception

theorem Converts.not_throws {res : Except Error α} {convert : α → Except StdException β}
    (converts : Converts res convert) : ¬ ConversionThrows res convert := by
  obtain ⟨a, b, found, converted⟩ := converts
  rintro ⟨a', exception, found', thrown⟩
  cases found.symm.trans found'
  cases converted.symm.trans thrown

theorem assignUnlessError_ok_iff {res : Except Error α} {convert : α → Except StdException β} :
    (∃ assigned, assignUnlessError res convert = .ok assigned) ↔ ¬ ConversionThrows res convert := by
  unfold assignUnlessError ConversionThrows
  cases res with
  | error error => simp
  | ok a => cases converted : convert a <;> simp [Except.map, converted]

/-- What was assigned has a value exactly if there was one to convert. -/
theorem assigns_iff {res : Except Error α} {convert : α → Except StdException β} {assigned : Option β}
    (same : assignUnlessError res convert = .ok assigned) :
    Assigns res convert assigned ↔ Converts res convert := by
  constructor
  · rintro ⟨a, b, found, converted, _⟩
    exact ⟨a, b, found, converted⟩
  · rintro ⟨a, b, rfl, converted⟩
    have value : assignUnlessError (.ok a : Except Error α) convert = .ok (some b) := by
      simp only [assignUnlessError, converted, Except.map]
    exact ⟨a, b, rfl, converted, Except.ok.inj (same.symm.trans value)⟩

namespace TradeFormat

variable (platform : ProviderPlatform Error Value Object Double) (format : TradeFormat Error Value)

/-- What becomes of the instrument's name; this conversion never throws. -/
def instrumentOf (text : String) : Except StdException String := .ok (format.normalise text)

/-- The trade has all its fields, and they are those of the item. -/
structure States (item : Except Error Object) (trade : ProviderTrade Double) : Prop where
  exchange : trade.exchange = format.exchange
  instrument : Assigns (format.results platform item).instrument format.instrumentOf trade.instrument
  tradeId : Assigns (format.results platform item).tradeId .ok trade.tradeId
  price : Assigns (format.results platform item).price platform.stod trade.price
  qty : Assigns (format.results platform item).qty platform.stod trade.qty
  tsExchangeMs : Assigns (format.results platform item).tsExchangeMs id trade.tsExchangeMs

/-- All five fields are there, of the right type, and numbers where they have to be. -/
structure Complete (item : Except Error Object) : Prop where
  instrument : Converts (format.results platform item).instrument format.instrumentOf
  tradeId : Converts (format.results platform item).tradeId (.ok : String → Except StdException String)
  price : Converts (format.results platform item).price platform.stod
  qty : Converts (format.results platform item).qty platform.stod
  tsExchangeMs : Converts (format.results platform item).tsExchangeMs id

/-- A field that should be a number is there, and is none. -/
def Throws (item : Except Error Object) : Prop :=
  ConversionThrows (format.results platform item).price platform.stod ∨
  ConversionThrows (format.results platform item).qty platform.stod ∨
  ConversionThrows (format.results platform item).tsExchangeMs id

variable {platform format}

/-- A round that comes to its end has assigned what it could. -/
theorem fill_eq_ok_iff {now : Int} {item : Except Error Object} {trade : ProviderTrade Double} :
    format.fill platform now item = .ok trade ↔
      trade.exchange = format.exchange ∧
      assignUnlessError (format.results platform item).instrument format.instrumentOf = .ok trade.instrument ∧
      assignUnlessError (format.results platform item).tradeId .ok = .ok trade.tradeId ∧
      assignUnlessError (format.results platform item).price platform.stod = .ok trade.price ∧
      assignUnlessError (format.results platform item).qty platform.stod = .ok trade.qty ∧
      assignUnlessError (format.results platform item).tsExchangeMs id = .ok trade.tsExchangeMs ∧
      trade.tsRecvMs = now := by
  unfold fill
  simp only [Except.bind_eq_ok_iff]
  constructor
  · rintro ⟨instrument, isInstrument, tradeId, isId, price, isPrice, qty, isQty, ts, isTs, last⟩
    cases last
    exact ⟨rfl, isInstrument, isId, isPrice, isQty, isTs, rfl⟩
  · obtain ⟨exchange, instrument, tradeId, price, qty, ts, received⟩ := trade
    rintro ⟨rfl, isInstrument, isId, isPrice, isQty, isTs, rfl⟩
    exact ⟨instrument, isInstrument, tradeId, isId, price, isPrice, qty, isQty, ts, isTs, rfl⟩

/-- Only a conversion can throw. -/
theorem fill_returns_iff (now : Int) (item : Except Error Object) :
    (∃ trade, format.fill platform now item = .ok trade) ↔ ¬ format.Throws platform item := by
  constructor
  · rintro ⟨trade, filled⟩
    obtain ⟨_, _, _, isPrice, isQty, isTs, _⟩ := fill_eq_ok_iff.mp filled
    rintro (thrown | thrown | thrown)
    · exact assignUnlessError_ok_iff.mp ⟨_, isPrice⟩ thrown
    · exact assignUnlessError_ok_iff.mp ⟨_, isQty⟩ thrown
    · exact assignUnlessError_ok_iff.mp ⟨_, isTs⟩ thrown
  · intro calm
    have instrument : ¬ ConversionThrows (format.results platform item).instrument format.instrumentOf := by
      rintro ⟨_, _, _, thrown⟩
      cases thrown
    have tradeId : ¬ ConversionThrows (format.results platform item).tradeId
        (.ok : String → Except StdException String) := by
      rintro ⟨_, _, _, thrown⟩
      cases thrown
    obtain ⟨instrument, isInstrument⟩ := assignUnlessError_ok_iff.mpr instrument
    obtain ⟨tradeId, isId⟩ := assignUnlessError_ok_iff.mpr tradeId
    obtain ⟨price, isPrice⟩ := assignUnlessError_ok_iff.mpr fun thrown => calm (Or.inl thrown)
    obtain ⟨qty, isQty⟩ := assignUnlessError_ok_iff.mpr fun thrown => calm (Or.inr (Or.inl thrown))
    obtain ⟨ts, isTs⟩ := assignUnlessError_ok_iff.mpr fun thrown => calm (Or.inr (Or.inr thrown))
    exact ⟨⟨format.exchange, instrument, tradeId, price, qty, ts, now⟩,
      fill_eq_ok_iff.mpr ⟨rfl, isInstrument, isId, isPrice, isQty, isTs, rfl⟩⟩

/-- A trade has all its fields exactly if the item has. -/
theorem states_iff {now : Int} {item : Except Error Object} {trade : ProviderTrade Double}
    (filled : format.fill platform now item = .ok trade) :
    format.States platform item trade ↔ format.Complete platform item := by
  obtain ⟨exchange, isInstrument, isId, isPrice, isQty, isTs, _⟩ := fill_eq_ok_iff.mp filled
  constructor
  · intro states
    exact ⟨(assigns_iff isInstrument).mp states.instrument, (assigns_iff isId).mp states.tradeId,
      (assigns_iff isPrice).mp states.price, (assigns_iff isQty).mp states.qty,
      (assigns_iff isTs).mp states.tsExchangeMs⟩
  · intro complete
    exact ⟨exchange, (assigns_iff isInstrument).mpr complete.instrument, (assigns_iff isId).mpr complete.tradeId,
      (assigns_iff isPrice).mpr complete.price, (assigns_iff isQty).mpr complete.qty,
      (assigns_iff isTs).mpr complete.tsExchangeMs⟩

theorem Complete.not_throws {item : Except Error Object} (complete : format.Complete platform item) :
    ¬ format.Throws platform item := by
  rintro (thrown | thrown | thrown)
  · exact complete.price.not_throws thrown
  · exact complete.qty.not_throws thrown
  · exact complete.tsExchangeMs.not_throws thrown

end TradeFormat

/-- Nothing is pushed, or one trade for each item, as the items state them. -/
def PublishesWhole (states : Item → ProviderTrade Double → Prop) (items : List Item)
    (pushed : List (ProviderTrade Double)) : Prop :=
  pushed = [] ∨ List.Forall₂ states items pushed

section Loop

variable {fill : Int → Item → Except StdException (ProviderTrade Double)} {clock : Nat → Int}
  {states : Item → ProviderTrade Double → Prop} {complete throws : Item → Prop}
  (returns : ∀ now item, (∃ trade, fill now item = .ok trade) ↔ ¬ throws item)
  (fills : ∀ now item trade, fill now item = .ok trade → (states item trade ↔ complete item))
  (completes : ∀ item, complete item → ¬ throws item)

include returns fills completes

theorem pushTrades_states_iff (count : Nat) (items : List Item) :
    List.Forall₂ states items (pushTrades fill clock count items) ↔ ∀ item ∈ items, complete item := by
  induction items generalizing count with
  | nil => exact iff_of_true .nil (List.forall_mem_nil _)
  | cons item rest ih =>
    rw [List.forall_mem_cons]
    cases filled : fill (clock count) item with
    | error exception =>
      have pushed : pushTrades fill clock count (item :: rest) = [] := by
        simp only [pushTrades, filled]
      rw [pushed]
      refine iff_of_false (fun none => by cases none) fun all => ?_
      obtain ⟨trade, returned⟩ := (returns (clock count) item).mpr (completes item all.1)
      cases filled.symm.trans returned
    | ok trade =>
      have pushed : pushTrades fill clock count (item :: rest) =
          trade :: pushTrades fill clock (count + 1) rest := by
        simp only [pushTrades, filled]
      rw [pushed, List.forall₂_cons, fills _ item trade filled, ih]

omit fills completes in
theorem pushTrades_eq_nil_iff (count : Nat) (items : List Item) :
    pushTrades fill clock count items = [] ↔ ∀ first ∈ items.head?, throws first := by
  cases items with
  | nil => exact iff_of_true rfl (by simp)
  | cons item rest =>
    have round := returns (clock count) item
    simp only [List.head?_cons, Option.mem_def, Option.some.injEq, forall_eq', pushTrades]
    cases filled : fill (clock count) item with
    | error exception => simpa [filled] using round
    | ok trade => simpa [filled] using round

/-- A field that is missing is skipped and its trade pushed all the same, and an
exception does not take back what has been pushed before it. -/
theorem pushTrades_whole_iff (items : List Item) :
    PublishesWhole states items (pushTrades fill clock 0 items) ↔
      (∀ first ∈ items.head?, throws first) ∨ ∀ item ∈ items, complete item := by
  unfold PublishesWhole
  rw [pushTrades_eq_nil_iff returns, pushTrades_states_iff returns fills completes]

end Loop

theorem TradeFormat.publishesWhole_iff (platform : ProviderPlatform Error Value Object Double)
    (format : TradeFormat Error Value) (clock : Nat → Int) (items : List (Except Error Object)) :
    PublishesWhole (format.States platform) items (pushTrades (format.fill platform) clock 0 items) ↔
      (∀ first ∈ items.head?, format.Throws platform first) ∨ ∀ item ∈ items, format.Complete platform item := by
  refine pushTrades_whole_iff ?_ ?_ ?_ items
  · exact fill_returns_iff
  · exact fun _ _ _ => states_iff
  · exact fun _ => Complete.not_throws

/-- A provider publishes the trades of a message completely or not at all exactly if
all items are complete, or the first one already ends the loop. -/
theorem providers_publishWhole_iff (platform : ProviderPlatform Error Value Object Double) (clock : Nat → Int)
    (message : String) :
    (PublishesWhole ((BinanceProvider.format platform).States platform)
        (BinanceProvider.tradeItems platform message) (BinanceProvider.parseTrade platform clock message) ↔
      (∀ first ∈ (BinanceProvider.tradeItems platform message).head?,
        (BinanceProvider.format platform).Throws platform first) ∨
      ∀ item ∈ BinanceProvider.tradeItems platform message,
        (BinanceProvider.format platform).Complete platform item) ∧
    (PublishesWhole ((BybitProvider.format platform).States platform)
        (BybitProvider.tradeItems platform message) (BybitProvider.parseTrade platform clock message) ↔
      (∀ first ∈ (BybitProvider.tradeItems platform message).head?,
        (BybitProvider.format platform).Throws platform first) ∨
      ∀ item ∈ BybitProvider.tradeItems platform message,
        (BybitProvider.format platform).Complete platform item) ∧
    (PublishesWhole ((OKXProvider.format platform).States platform)
        (OKXProvider.tradeItems platform message) (OKXProvider.parseTrade platform clock message) ↔
      (∀ first ∈ (OKXProvider.tradeItems platform message).head?,
        (OKXProvider.format platform).Throws platform first) ∨
      ∀ item ∈ OKXProvider.tradeItems platform message, (OKXProvider.format platform).Complete platform item) :=
  ⟨TradeFormat.publishesWhole_iff platform _ clock _, TradeFormat.publishesWhole_iff platform _ clock _,
    TradeFormat.publishesWhole_iff platform _ clock _⟩

/-- A platform that knows the given texts. -/
def knownMessages (documents : String → Option Json) :
    ProviderPlatform Unit Json (List (String × Json)) Rat where
  json := OnDemand.tree documents
  getInt64
    | .integer negative magnitude =>
      if magnitude < 2 ^ 63 then .ok (if negative then - (magnitude : Int) else magnitude) else .error ()
    | _ => .error ()
  stod text := match Numeral.decimal text with
    | some value => .ok value
    | none => .error .invalidArgument

/-- A message of two trades; the price of the second may be missing. -/
def twoTrades (price : Option String) : String :=
  "\x7b\"topic\":\"publicTrade.ETHUSDT\",\"data\":[" ++
    "\x7b\"s\":\"ETHUSDT\",\"i\":\"1\",\"p\":\"2\",\"v\":\"3\",\"T\":4\x7d," ++
    "\x7b\"s\":\"ETHUSDT\",\"i\":\"2\"," ++ price.elim "" (fun text => "\"p\":\"" ++ text ++ "\",") ++
    "\"v\":\"3\",\"T\":4\x7d]\x7d"

def twoTradesDocument (price : Option String) (text : String) : Option Json :=
  if text = twoTrades price then
    some (.object [("topic", .string "publicTrade.ETHUSDT"), ("data", .array [
      .object [("s", .string "ETHUSDT"), ("i", .string "1"), ("p", .string "2"), ("v", .string "3"),
        ("T", .integer false 4)],
      .object ([("s", .string "ETHUSDT"), ("i", .string "2")] ++
        price.elim [] (fun text => [("p", .string text)]) ++ [("v", .string "3"), ("T", .integer false 4)])])])
  else none

/-- With `"abc"` as its price the second trade is lost and the first one stands, and
with no price at all it is pushed without one. -/
theorem bybitProvider_publishes_part :
    (∃ first, BybitProvider.parseTrade (knownMessages (twoTradesDocument (some "abc"))) (fun _ => 0)
        (twoTrades (some "abc")) = [first]) ∧
      (¬ PublishesWhole ((BybitProvider.format (knownMessages (twoTradesDocument (some "abc")))).States
          (knownMessages (twoTradesDocument (some "abc"))))
        (BybitProvider.tradeItems (knownMessages (twoTradesDocument (some "abc"))) (twoTrades (some "abc")))
        (BybitProvider.parseTrade (knownMessages (twoTradesDocument (some "abc"))) (fun _ => 0)
          (twoTrades (some "abc")))) ∧
      ∃ first second, BybitProvider.parseTrade (knownMessages (twoTradesDocument none)) (fun _ => 0)
        (twoTrades none) = [first, second] ∧ second.price = none := by
  obtain ⟨first, pushed⟩ : ∃ first, BybitProvider.parseTrade (knownMessages (twoTradesDocument (some "abc")))
      (fun _ => 0) (twoTrades (some "abc")) = [first] := ⟨_, rfl⟩
  refine ⟨⟨first, pushed⟩, ?_, _, _, rfl, rfl⟩
  rw [pushed]
  rintro (none | all)
  · cases none
  · have sameLength : 2 = 1 := all.length_eq
    exact absurd sameLength (by decide)

end ConsolidatedBook
