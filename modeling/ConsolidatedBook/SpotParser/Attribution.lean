import ConsolidatedBook.CandleManager
import ConsolidatedBook.SpotParser.Returned

namespace ConsolidatedBook

variable {Error Value Object Double : Type} {platform : Platform Error Value Object Double} {msg : ReceivedMessage}
  {topic symbol : String}

/-- The topic of the public trades of some symbol. -/
def NamesSymbol (topic : String) : Prop :=
  ∃ symbol, topic = "publicTrade." ++ symbol ∧ symbol ≠ ""

/-- Trades are returned for a symbol that the topic names, as trades of that symbol,
and nothing else gets to `HandleTrade`. -/
structure AttributesToSubscribed [BEq Double] [Max Double] [Min Double] [Add Double] [Mul Double]
    (platform : Platform Error Value Object Double) (msg : ReceivedMessage) (topic : String) : Prop where
  returned {trades} : bybitSpotParser platform msg = .ok (some trades) →
    ∃ symbol, topic = "publicTrade." ++ symbol ∧ symbol ≠ "" ∧ ∀ trade ∈ trades, trade.instrument = symbol
  rejected : ¬ NamesSymbol topic → bybitSpotParser platform msg = .ok none
  handled {manager next} : CandleManager.handleMessage (bybitSpotParser platform) manager msg = .ok next →
    ∃ trades, next = manager.handleTrades trades ∧
      ∀ trade ∈ trades, trade.instrument ≠ "" ∧ topic = "publicTrade." ++ trade.instrument

theorem CandleManager.handleMessage_cases [BEq Double] [Max Double] [Min Double] [Add Double] [Mul Double]
    {Message Failure : Type} {parser : Message → Except Failure (Option (List (Trade Double)))}
    {manager next : CandleManager Double} {message : Message}
    (handled : manager.handleMessage parser message = .ok next) :
    (parser message = .ok none ∧ next = manager) ∨
      ∃ trades, parser message = .ok (some trades) ∧ next = manager.handleTrades trades := by
  unfold handleMessage at handled
  cases result : parser message with
  | error failure =>
    rw [result] at handled
    cases handled
  | ok parsed =>
    rw [result] at handled
    cases parsed with
    | none =>
      cases handled
      exact Or.inl ⟨rfl, rfl⟩
    | some trades =>
      cases handled
      exact Or.inr ⟨trades, rfl, rfl⟩

/-- Every trade has the symbol that stands behind the prefix in the topic. -/
theorem bybitSpotParser_instrument {trades : List (Trade Double)}
    (isTopic : bybitTopic platform.json msg.text = .ok ("publicTrade." ++ symbol))
    (returned : bybitSpotParser platform msg = .ok (some trades)) :
    ∀ trade ∈ trades, trade.instrument = symbol := by
  obtain ⟨topic, eventTs, data, sameTopic, _, isData, gives⟩ := bybitSpotParser_returned returned
  cases isTopic.symm.trans sameTopic
  rw [extractSymbol_append] at gives
  clear returned isData
  induction gives with
  | nil => exact List.forall_mem_nil _
  | cons first _ others => exact List.forall_mem_cons.mpr ⟨first.instrument, others⟩

theorem bybitSpotParser_rejects (unreadable : ¬ ∃ data, bybitData platform.json msg.text = .ok data) :
    bybitSpotParser platform msg = .ok none := by
  have guarded : BybitGuarded platform.json msg.text := fun data isData => absurd ⟨data, isData⟩ unreadable
  refine ((bybitSpotParser_returnsNormally_iff platform msg).mpr guarded).2 ?_
  rintro ⟨data, isData, _⟩
  exact unreadable ⟨data, isData⟩

/-- The empty view that `ExtractSymbol` returns is not looked at: whatever the topic
is, the elements of `data` become trades. -/
theorem bybitSpotParser_attributes_iff [BEq Double] [Max Double] [Min Double] [Add Double] [Mul Double]
    (isTopic : bybitTopic platform.json msg.text = .ok topic)
    (complete : ∀ data, bybitData platform.json msg.text = .ok data →
      ∀ element ∈ data, ItemComplete platform.json element) :
    AttributesToSubscribed platform msg topic ↔
      ((∃ data, bybitData platform.json msg.text = .ok data) → NamesSymbol topic) := by
  constructor
  · rintro attributes ⟨data, isData⟩
    obtain ⟨trades, returned⟩ := (bybitSpotParser_some_iff platform msg).mpr ⟨data, isData, complete data isData⟩
    obtain ⟨symbol, named, nonempty, _⟩ := attributes.returned returned
    exact ⟨symbol, named, nonempty⟩
  · intro names
    by_cases readable : ∃ data, bybitData platform.json msg.text = .ok data
    · obtain ⟨symbol, rfl, nonempty⟩ := names readable
      refine ⟨fun returned => ⟨symbol, rfl, nonempty, bybitSpotParser_instrument isTopic returned⟩,
        fun unnamed => absurd ⟨symbol, rfl, nonempty⟩ unnamed, fun {manager next} handled => ?_⟩
      rcases CandleManager.handleMessage_cases handled with ⟨_, rfl⟩ | ⟨trades, returned, rfl⟩
      · exact ⟨[], rfl, List.forall_mem_nil _⟩
      · refine ⟨trades, rfl, fun trade member => ?_⟩
        rw [bybitSpotParser_instrument isTopic returned trade member]
        exact ⟨nonempty, rfl⟩
    · have rejected := bybitSpotParser_rejects readable
      refine ⟨fun returned => ?_, fun _ => rejected, fun {manager next} handled => ?_⟩
      · cases rejected.symm.trans returned
      · rcases CandleManager.handleMessage_cases handled with ⟨_, rfl⟩ | ⟨trades, returned, _⟩
        · exact ⟨[], rfl, List.forall_mem_nil _⟩
        · cases rejected.symm.trans returned

theorem bybitSpotParser_attributes_subscribed :
    bybitTopic (OnDemand.tree (itemDocument "publicTrade.ETHUSDT" "2"))
        (itemMessage "publicTrade.ETHUSDT" "2").text = .ok "publicTrade.ETHUSDT" ∧
      AttributesToSubscribed (knownTexts (itemDocument "publicTrade.ETHUSDT" "2"))
        (itemMessage "publicTrade.ETHUSDT" "2") "publicTrade.ETHUSDT" := by
  refine ⟨rfl, (bybitSpotParser_attributes_iff rfl ?_).mpr fun _ => ⟨"ETHUSDT", rfl, by decide⟩⟩
  intro data isData element member
  cases isData
  obtain rfl := List.mem_singleton.mp member
  exact ⟨_, rfl, _, rfl, ⟨_, rfl⟩, ⟨_, rfl⟩, ⟨_, rfl⟩, ⟨_, rfl⟩, trivial⟩

theorem bybitSpotParser_attributes_nothing :
    (∃ trade, bybitSpotParser (knownTexts (itemDocument "tickers.ETHUSDT" "2"))
        (itemMessage "tickers.ETHUSDT" "2") = .ok (some [trade]) ∧ trade.instrument = "") ∧
      ¬ AttributesToSubscribed (knownTexts (itemDocument "tickers.ETHUSDT" "2"))
        (itemMessage "tickers.ETHUSDT" "2") "tickers.ETHUSDT" := by
  have returned : ∃ trade, bybitSpotParser (knownTexts (itemDocument "tickers.ETHUSDT" "2"))
      (itemMessage "tickers.ETHUSDT" "2") = .ok (some [trade]) ∧ trade.instrument = "" :=
    ⟨_, rfl, rfl⟩
  refine ⟨returned, fun attributes => ?_⟩
  obtain ⟨trade, run, unnamed⟩ := returned
  obtain ⟨symbol, _, nonempty, instrument⟩ := attributes.returned run
  exact nonempty ((instrument trade (List.mem_singleton_self trade)).symm.trans unnamed)

end ConsolidatedBook
