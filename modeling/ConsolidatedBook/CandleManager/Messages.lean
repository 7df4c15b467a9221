import ConsolidatedBook.CandleManager
import ConsolidatedBook.SpotParser.WellFormed

namespace ConsolidatedBook

variable {Error Value Object Double : Type} [BEq Double] [Max Double] [Min Double] [Add Double] [Mul Double]
  {writes : Json → String → Prop} {shows : Json → Value → Prop} {opens : List (String × Json) → Object → Prop}
  {number : String → Double → Prop}

/-- Candles do not depend on when a trade was received. -/
theorem CandleManager.handleTrade_sameMarket (manager : CandleManager Double) {first second : Trade Double}
    (same : Trade.SameMarket first second) : manager.handleTrade first = manager.handleTrade second := by
  rw [same]
  rfl

theorem CandleManager.foldl_sameMarket (manager : CandleManager Double) {first second : List (Trade Double)}
    (same : List.Forall₂ Trade.SameMarket first second) :
    first.foldl handleTrade manager = second.foldl handleTrade manager := by
  induction same generalizing manager with
  | nil => rfl
  | cons head _ ih => rw [List.foldl_cons, List.foldl_cons, manager.handleTrade_sameMarket head, ih]

/-- A message that the parser rejects has no trades; any other is well-formed. -/
def Carries (writes : Json → String → Prop) (wellFormed : Json → List (Trade Double) → Prop)
    (parser : ReceivedMessage → Except Terminated (Option (List (Trade Double)))) (msg : ReceivedMessage)
    (trades : List (Trade Double)) : Prop :=
  (∃ document, writes document msg.text ∧ wellFormed document trades) ∨ parser msg = .ok none ∧ trades = []

/-- The loop of `HandleMessage` calls `HandleTrade` on each trade of a message,
and a message that has none changes nothing. -/
theorem CandleManager.handleMessage_eq {wellFormed : Json → List (Trade Double) → Prop}
    {parser : ReceivedMessage → Except Terminated (Option (List (Trade Double)))}
    (parses : ∀ document trades msg, writes document msg.text → wellFormed document trades →
      ∃ parsed, parser msg = .ok (some parsed) ∧ List.Forall₂ Trade.SameMarket parsed trades)
    {msg : ReceivedMessage} {trades : List (Trade Double)} (carried : Carries writes wellFormed parser msg trades)
    (manager : CandleManager Double) :
    manager.handleMessage parser msg = .ok (trades.foldl handleTrade manager) := by
  unfold handleMessage
  rcases carried with ⟨document, written, isWellFormed⟩ | ⟨rejected, rfl⟩
  · obtain ⟨parsed, run, same⟩ := parses document trades msg written isWellFormed
    rw [run, ← manager.foldl_sameMarket same]
    rfl
  · rw [rejected]
    rfl

theorem CandleManager.handleMessages_eq {wellFormed : Json → List (Trade Double) → Prop}
    {parser : ReceivedMessage → Except Terminated (Option (List (Trade Double)))}
    (parses : ∀ document trades msg, writes document msg.text → wellFormed document trades →
      ∃ parsed, parser msg = .ok (some parsed) ∧ List.Forall₂ Trade.SameMarket parsed trades)
    {messages : List ReceivedMessage} {trades : List (List (Trade Double))}
    (carries : List.Forall₂ (Carries writes wellFormed parser) messages trades) (manager : CandleManager Double) :
    messages.foldlM (handleMessage parser) manager = .ok (trades.flatten.foldl handleTrade manager) := by
  induction carries generalizing manager with
  | nil => rfl
  | @cons msg first messages rest carried _ ih =>
    rw [List.foldlM_cons, handleMessage_eq parses carried, List.flatten_cons, List.foldl_append]
    exact ih _

/-- Handling messages is `HandleTrade` on their trades, one for each item and in
order. Of doubles only what their texts stand for is known. -/
theorem candleManager_handleMessages (platform : Platform Error Value Object Double)
    (faithful : platform.json.Faithful writes shows opens) (numerals : ReadsNumerals platform number)
    (manager : CandleManager Double) (messages : List ReceivedMessage) (trades : List (List (Trade Double))) :
    (List.Forall₂ (Carries writes (IsBybitMessage number) (bybitSpotParser platform)) messages trades →
      messages.foldlM (CandleManager.handleMessage (bybitSpotParser platform)) manager =
        .ok (trades.flatten.foldl CandleManager.handleTrade manager)) ∧
    (List.Forall₂ (Carries writes (IsBinanceMessage number) (binanceSpotParser platform)) messages trades →
      messages.foldlM (CandleManager.handleMessage (binanceSpotParser platform)) manager =
        .ok (trades.flatten.foldl CandleManager.handleTrade manager)) := by
  constructor
  · intro carries
    refine CandleManager.handleMessages_eq ?_ carries manager
    rintro _ trades msg written ⟨fields, symbol, eventTs, rfl, message⟩
    exact message.parsed faithful numerals written
  · intro carries
    refine CandleManager.handleMessages_eq ?_ carries manager
    rintro _ _ msg written ⟨outer, fields, trade, rfl, distinct, member, event, rfl⟩
    exact ⟨_, event.parsed distinct member faithful numerals written, .cons (trade.sameMarket_recvTs _) .nil⟩

def bybitText : String :=
  "\x7b\"topic\":\"publicTrade.ETHUSDT\",\"ts\":1770197572744,\"type\":\"snapshot\",\"data\":[\x7b\"i\":\"2280\"," ++
    "\"T\":1770197572743,\"p\":\"2260.25\",\"v\":\"0.125\",\"S\":\"Sell\"\x7d]\x7d"

def bybitDocument : Json :=
  .object [("topic", .string "publicTrade.ETHUSDT"), ("ts", .integer false 1770197572744),
    ("type", .string "snapshot"),
    ("data", .array [.object [("i", .string "2280"), ("T", .integer false 1770197572743),
      ("p", .string "2260.25"), ("v", .string "0.125"), ("S", .string "Sell")]])]

def bybitTrade : Trade :=
  ⟨.BYBIT, "ETHUSDT", 2280, 9041 / 4, 1 / 8, 1770197572744, 1770197572743, 0⟩

theorem bybitDocument_isBybitMessage : IsBybitMessage IsExactDouble bybitDocument [bybitTrade] := by
  refine ⟨_, "ETHUSDT", 1770197572744, rfl, by decide, by simp, ⟨"snapshot", by simp⟩, by simp, _,
    .tail _ (.tail _ (.tail _ (.head _))), .cons ⟨_, rfl, ?_⟩ .nil⟩
  constructor
  · decide
  · rfl
  · rfl
  · rfl
  · exact ⟨by simp [bybitTrade], by decide⟩
  · exact ⟨"2280", by simp, by decide⟩
  · exact ⟨"2260.25", by simp, by decide +kernel, 9041, 2, by decide, by decide, by decide +kernel⟩
  · exact ⟨"0.125", by simp, by decide +kernel, 1, 3, by decide, by decide, by decide +kernel⟩

theorem candleManager_handleMessages_rejected :
    [ReceivedMessage.mk bybitText fun _ => 7, ReceivedMessage.mk "" fun _ => 8].foldlM
        (CandleManager.handleMessage (bybitSpotParser
          (knownTexts fun text => if text = bybitText then some bybitDocument else none)))
        (CandleManager.create 5000) =
      .ok ((CandleManager.create 5000).handleTrade bybitTrade) := by
  let documents := fun text => if text = bybitText then some bybitDocument else none
  refine (candleManager_handleMessages (knownTexts documents) (OnDemand.tree_faithful documents)
    (knownTexts_readsNumerals documents) (CandleManager.create 5000) _ [[bybitTrade], []]).1 ?_
  refine .cons (Or.inl ⟨bybitDocument, if_pos rfl, bybitDocument_isBybitMessage⟩) (.cons (Or.inr ⟨?_, rfl⟩) .nil)
  have unknown : (OnDemand.tree documents).iterate "" = .error () := by
    simp only [OnDemand.tree, documents, if_neg (by decide +kernel : "" ≠ bybitText)]
  simp only [bybitSpotParser, knownTexts, unknown, checked, Except.mapError, bind, Except.bind, noexcept]

end ConsolidatedBook
