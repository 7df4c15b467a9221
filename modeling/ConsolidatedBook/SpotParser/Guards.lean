import ConsolidatedBook.SpotParser.WellFormed

namespace ConsolidatedBook

variable {Error Value Object Double α β : Type}

/-- The fields that `BinanceSpotParser` takes from the data object, in its order. -/
def binanceFields : List (String × OnDemand.FieldKind) :=
  [("E", .uint64), ("s", .string), ("t", .uint64), ("T", .uint64), ("p", .string), ("q", .string)]

/-- The data object of a message. -/
def binanceData (json : OnDemand Error Value Object) (text : String) : Except Error Object := do
  let doc ← json.iterate text
  let root ← json.getObject doc
  (json.readObject root "data").1

/-- All that `BinanceSpotParser` needs is there. -/
def BinanceComplete (json : OnDemand Error Value Object) (text : String) : Prop :=
  ∃ data, binanceData json text = .ok data ∧ json.OffersAll data binanceFields

/-- If there is a data object, then it has all the fields. -/
def BinanceGuarded (json : OnDemand Error Value Object) (text : String) : Prop :=
  ∀ data, binanceData json text = .ok data → json.OffersAll data binanceFields

/-- The fields that `BybitSpotParser` takes from an item of `data`, in its order. -/
def bybitFields : List (String × OnDemand.FieldKind) :=
  [("T", .uint64), ("i", .string), ("p", .string), ("v", .string)]

/-- The elements of `data`, where the fields before it are there. -/
def bybitData (json : OnDemand Error Value Object) (text : String) :
    Except Error (List (Except Error Value)) := do
  let doc ← json.iterate text
  let root ← json.getObject doc
  let (topic, root) := json.readString root "topic"
  let _ ← topic
  let (type, root) := json.readString root "type"
  let _ ← type
  let (ts, root) := json.readUint64 root "ts"
  let _ ← ts
  (json.readArray root "data").1

/-- The element is an object with all its fields. -/
def ItemComplete (json : OnDemand Error Value Object) (element : Except Error Value) : Prop :=
  ∃ item, element = .ok item ∧ ∃ obj, json.getObject item = .ok obj ∧ json.OffersAll obj bybitFields

/-- The element is there, and if it is an object then with all its fields. -/
def ItemGuarded (json : OnDemand Error Value Object) (element : Except Error Value) : Prop :=
  ∃ item, element = .ok item ∧ ∀ obj, json.getObject item = .ok obj → json.OffersAll obj bybitFields

/-- Every element that has only complete ones before it is guarded. -/
def ItemsGuarded (json : OnDemand Error Value Object) (elements : List (Except Error Value)) : Prop :=
  ∀ before element after, elements = before ++ element :: after →
    (∀ earlier ∈ before, ItemComplete json earlier) → ItemGuarded json element

def BybitComplete (json : OnDemand Error Value Object) (text : String) : Prop :=
  ∃ data, bybitData json text = .ok data ∧ ∀ element ∈ data, ItemComplete json element

def BybitGuarded (json : OnDemand Error Value Object) (text : String) : Prop :=
  ∀ data, bybitData json text = .ok data → ItemsGuarded json data

/-- The call comes back, and with `nullopt` where something required is missing or of the wrong type. -/
def ReturnsNormally (result : Except Terminated (Option α)) (complete : Prop) : Prop :=
  (∃ returned, result = .ok returned) ∧ (¬ complete → result = .ok none)

theorem checked_bind_ok (res : Except Error α) (next : α → Except Exit β) :
    (∃ b, (checked res >>= next) = .ok b) ↔ ∃ a, res = .ok a ∧ ∃ b, next a = .ok b := by
  unfold checked
  cases res <;> simp [Except.mapError, bind, Except.bind]

theorem unchecked_bind_ok (res : Except Error α) (next : α → Except Exit β) :
    (∃ b, (unchecked res >>= next) = .ok b) ↔ ∃ a, res = .ok a ∧ ∃ b, next a = .ok b := by
  unfold unchecked
  cases res <;> simp [Except.mapError, bind, Except.bind]

/-- A checked access throws nothing, an unchecked one throws unless it succeeds. -/
theorem checked_bind_throws (res : Except Error α) (next : α → Except Exit β) :
    (checked res >>= next) ≠ .error .exception ↔ ∀ a, res = .ok a → next a ≠ .error .exception := by
  unfold checked
  cases res <;> simp [Except.mapError, bind, Except.bind]

theorem unchecked_bind_throws (res : Except Error α) (next : α → Except Exit β) :
    (unchecked res >>= next) ≠ .error .exception ↔ ∃ a, res = .ok a ∧ next a ≠ .error .exception := by
  unfold unchecked
  cases res <;> simp [Except.mapError, bind, Except.bind]

theorem return_ok (a : α) : (∃ b, (pure a : Except Exit α) = .ok b) ↔ True :=
  iff_true_intro ⟨a, rfl⟩

theorem return_throws (a : α) : (pure a : Except Exit α) ≠ .error .exception ↔ True :=
  iff_true_intro (nomatch ·)

/-- What the body does decides what the call does. -/
theorem noexcept_some_iff {body : Except Exit α} :
    (∃ a, noexcept body = .ok (some a)) ↔ ∃ a, body = .ok a := by
  unfold noexcept
  cases body with
  | ok a => simp
  | error exit => cases exit <;> simp

theorem noexcept_returns_iff {body : Except Exit α} :
    (∃ returned, noexcept body = .ok returned) ↔ body ≠ .error .exception := by
  unfold noexcept
  cases body with
  | ok a => simp
  | error exit => cases exit <;> simp

theorem returnsNormally_iff {result : Except Terminated (Option α)} {complete guarded : Prop}
    (completes : (∃ a, result = .ok (some a)) ↔ complete)
    (returns : (∃ returned, result = .ok returned) ↔ guarded) :
    ReturnsNormally result complete ↔ guarded := by
  unfold ReturnsNormally
  rw [← completes, ← returns]
  refine and_iff_left_of_imp ?_
  rintro ⟨returned, rfl⟩ incomplete
  cases returned with
  | none => rfl
  | some a => exact absurd ⟨a, rfl⟩ incomplete

theorem binanceData_eq_ok_iff (json : OnDemand Error Value Object) (text : String) (data : Object) :
    binanceData json text = .ok data ↔ ∃ doc, json.iterate text = .ok doc ∧
      ∃ root, json.getObject doc = .ok root ∧ (json.readObject root "data").1 = .ok data := by
  unfold binanceData
  simp only [Except.bind_eq_ok_iff]

theorem binanceSpotParser_some_iff (platform : Platform Error Value Object Double) (msg : ReceivedMessage) :
    (∃ trades, binanceSpotParser platform msg = .ok (some trades)) ↔ BinanceComplete platform.json msg.text := by
  unfold binanceSpotParser BinanceComplete
  rw [noexcept_some_iff]
  simp only [binanceData_eq_ok_iff, checked_bind_ok, unchecked_bind_ok, return_ok, binanceFields,
    OnDemand.OffersAll, OnDemand.Offers, OnDemand.readUint64_snd, OnDemand.readString_snd,
    exists_and_right, and_true]
  constructor
  · rintro ⟨doc, iterated, root, got, data, found, offers⟩
    exact ⟨data, ⟨doc, iterated, root, got, found⟩, offers⟩
  · rintro ⟨data, ⟨doc, iterated, root, got, found⟩, offers⟩
    exact ⟨doc, iterated, root, got, data, found, offers⟩

theorem binanceSpotParser_returns_iff (platform : Platform Error Value Object Double) (msg : ReceivedMessage) :
    (∃ returned, binanceSpotParser platform msg = .ok returned) ↔ BinanceGuarded platform.json msg.text := by
  unfold binanceSpotParser BinanceGuarded
  rw [noexcept_returns_iff]
  simp only [binanceData_eq_ok_iff, checked_bind_throws, unchecked_bind_throws, return_throws, binanceFields,
    OnDemand.OffersAll, OnDemand.Offers, OnDemand.readUint64_snd, OnDemand.readString_snd,
    exists_and_right, and_true]
  constructor
  · rintro guarded data ⟨doc, iterated, root, got, found⟩
    exact guarded doc iterated root got data found
  · intro guarded doc iterated root got data found
    exact guarded data ⟨doc, iterated, root, got, found⟩

theorem binanceSpotParser_returnsNormally_iff (platform : Platform Error Value Object Double)
    (msg : ReceivedMessage) :
    ReturnsNormally (binanceSpotParser platform msg) (BinanceComplete platform.json msg.text) ↔
      BinanceGuarded platform.json msg.text :=
  returnsNormally_iff (binanceSpotParser_some_iff platform msg) (binanceSpotParser_returns_iff platform msg)

theorem bybitItem_ok_iff (platform : Platform Error Value Object Double) (symbol : String) (eventTs : Nat)
    (clock : Nat → Nat) (trades : List (Trade Double)) (element : Except Error Value) :
    (∃ next, bybitItem platform symbol eventTs clock trades element = .ok next) ↔
      ItemComplete platform.json element := by
  unfold bybitItem ItemComplete
  simp only [checked_bind_ok, unchecked_bind_ok, return_ok, bybitFields,
    OnDemand.OffersAll, OnDemand.Offers, OnDemand.readUint64_snd, OnDemand.readString_snd,
    exists_and_right, and_true]

theorem bybitItem_throws_iff (platform : Platform Error Value Object Double) (symbol : String) (eventTs : Nat)
    (clock : Nat → Nat) (trades : List (Trade Double)) (element : Except Error Value) :
    bybitItem platform symbol eventTs clock trades element ≠ .error .exception ↔
      ItemGuarded platform.json element := by
  unfold bybitItem ItemGuarded
  simp only [checked_bind_throws, unchecked_bind_throws, return_throws, bybitFields,
    OnDemand.OffersAll, OnDemand.Offers, OnDemand.readUint64_snd, OnDemand.readString_snd,
    exists_and_right, and_true]

theorem itemsGuarded_cons (json : OnDemand Error Value Object) (element : Except Error Value)
    (rest : List (Except Error Value)) :
    ItemsGuarded json (element :: rest) ↔
      ItemGuarded json element ∧ (ItemComplete json element → ItemsGuarded json rest) := by
  constructor
  · intro guarded
    refine ⟨guarded [] element rest rfl (List.forall_mem_nil _), fun complete before later after split all => ?_⟩
    refine guarded (element :: before) later after (split ▸ rfl) fun earlier member => ?_
    rcases List.mem_cons.mp member with rfl | member
    · exact complete
    · exact all earlier member
  · rintro ⟨first, others⟩ before later after split all
    cases before with
    | nil =>
      cases split
      exact first
    | cons earlier before =>
      cases split
      exact others (all _ List.mem_cons_self) before later after rfl fun other member =>
        all other (List.mem_cons_of_mem _ member)

theorem bybitItems_ok_iff (platform : Platform Error Value Object Double) (symbol : String) (eventTs : Nat)
    (clock : Nat → Nat) (trades : List (Trade Double)) (elements : List (Except Error Value)) :
    (∃ parsed, elements.foldlM (bybitItem platform symbol eventTs clock) trades = .ok parsed) ↔
      ∀ element ∈ elements, ItemComplete platform.json element := by
  induction elements generalizing trades with
  | nil => exact iff_of_true ⟨trades, rfl⟩ (List.forall_mem_nil _)
  | cons element rest ih =>
    have item := bybitItem_ok_iff platform symbol eventTs clock trades element
    rw [List.foldlM_cons, List.forall_mem_cons, ← item]
    cases bybitItem platform symbol eventTs clock trades element with
    | ok next => simpa [bind, Except.bind] using ih next
    | error exit => simp [bind, Except.bind]

theorem bybitItems_throws_iff (platform : Platform Error Value Object Double) (symbol : String) (eventTs : Nat)
    (clock : Nat → Nat) (trades : List (Trade Double)) (elements : List (Except Error Value)) :
    elements.foldlM (bybitItem platform symbol eventTs clock) trades ≠ .error .exception ↔
      ItemsGuarded platform.json elements := by
  induction elements generalizing trades with
  | nil =>
    refine iff_of_true (nomatch ·) fun before element after split _ => ?_
    exact absurd split.symm (List.append_ne_nil_of_right_ne_nil _ (List.cons_ne_nil _ _))
  | cons element rest ih =>
    rw [List.foldlM_cons, itemsGuarded_cons, ← bybitItem_throws_iff platform symbol eventTs clock trades,
      ← bybitItem_ok_iff platform symbol eventTs clock trades]
    cases bybitItem platform symbol eventTs clock trades element with
    | ok next => simpa [bind, Except.bind] using ih next
    | error exit => simp [bind, Except.bind]

theorem bybitData_eq_ok_iff (json : OnDemand Error Value Object) (text : String)
    (data : List (Except Error Value)) :
    bybitData json text = .ok data ↔ ∃ doc, json.iterate text = .ok doc ∧
      ∃ root, json.getObject doc = .ok root ∧ ∃ topic, (json.readString root "topic").1 = .ok topic ∧
        ∃ type, (json.readString (json.findField root "topic").2 "type").1 = .ok type ∧
          ∃ ts, (json.readUint64 (json.findField (json.findField root "topic").2 "type").2 "ts").1 = .ok ts ∧
            (json.readArray (json.findField (json.findField (json.findField root "topic").2 "type").2 "ts").2
              "data").1 = .ok data := by
  unfold bybitData
  simp only [Except.bind_eq_ok_iff, OnDemand.readUint64_snd, OnDemand.readString_snd]

theorem bybitSpotParser_some_iff (platform : Platform Error Value Object Double) (msg : ReceivedMessage) :
    (∃ trades, bybitSpotParser platform msg = .ok (some trades)) ↔ BybitComplete platform.json msg.text := by
  unfold bybitSpotParser BybitComplete
  rw [noexcept_some_iff]
  simp only [bybitData_eq_ok_iff, checked_bind_ok, bybitItems_ok_iff, OnDemand.readUint64_snd,
    OnDemand.readString_snd]
  constructor
  · rintro ⟨doc, iterated, root, got, topic, isTopic, type, isType, ts, isTs, data, isData, complete⟩
    exact ⟨data, ⟨doc, iterated, root, got, topic, isTopic, type, isType, ts, isTs, isData⟩, complete⟩
  · rintro ⟨data, ⟨doc, iterated, root, got, topic, isTopic, type, isType, ts, isTs, isData⟩, complete⟩
    exact ⟨doc, iterated, root, got, topic, isTopic, type, isType, ts, isTs, data, isData, complete⟩

theorem bybitSpotParser_returns_iff (platform : Platform Error Value Object Double) (msg : ReceivedMessage) :
    (∃ returned, bybitSpotParser platform msg = .ok returned) ↔ BybitGuarded platform.json msg.text := by
  unfold bybitSpotParser BybitGuarded
  rw [noexcept_returns_iff]
  simp only [bybitData_eq_ok_iff, checked_bind_throws, bybitItems_throws_iff, OnDemand.readUint64_snd,
    OnDemand.readString_snd]
  constructor
  · rintro guarded data ⟨doc, iterated, root, got, topic, isTopic, type, isType, ts, isTs, isData⟩
    exact guarded doc iterated root got topic isTopic type isType ts isTs data isData
  · intro guarded doc iterated root got topic isTopic type isType ts isTs data isData
    exact guarded data ⟨doc, iterated, root, got, topic, isTopic, type, isType, ts, isTs, isData⟩

theorem bybitSpotParser_returnsNormally_iff (platform : Platform Error Value Object Double)
    (msg : ReceivedMessage) :
    ReturnsNormally (bybitSpotParser platform msg) (BybitComplete platform.json msg.text) ↔
      BybitGuarded platform.json msg.text :=
  returnsNormally_iff (bybitSpotParser_some_iff platform msg) (bybitSpotParser_returns_iff platform msg)

/-- Fields of an item, and of the data object, are taken with no check: one
that is missing throws, unless an earlier error has returned already. -/
theorem spotParsers_returnNormally_iff (platform : Platform Error Value Object Double) (msg : ReceivedMessage) :
    (ReturnsNormally (bybitSpotParser platform msg) (BybitComplete platform.json msg.text) ↔
      BybitGuarded platform.json msg.text) ∧
    (ReturnsNormally (binanceSpotParser platform msg) (BinanceComplete platform.json msg.text) ↔
      BinanceGuarded platform.json msg.text) :=
  ⟨bybitSpotParser_returnsNormally_iff platform msg, binanceSpotParser_returnsNormally_iff platform msg⟩

/-- An item with no `"T"`. -/
def bybitWithoutTime : ReceivedMessage where
  text := "\x7b\"topic\":\"publicTrade.ETHUSDT\",\"type\":\"snapshot\",\"ts\":1,\"data\":[\x7b\"i\":\"1\"\x7d]\x7d"
  clock _ := 1

/-- A data object with no `"E"`. -/
def binanceWithoutTime : ReceivedMessage where
  text := "\x7b\"data\":\x7b\"s\":\"BTCUSDT\"\x7d\x7d"
  clock _ := 1

def withoutTime (text : String) : Option Json :=
  if text = bybitWithoutTime.text then
    some (.object [("topic", .string "publicTrade.ETHUSDT"), ("type", .string "snapshot"),
      ("ts", .integer false 1), ("data", .array [.object [("i", .string "1")]])])
  else if text = binanceWithoutTime.text then
    some (.object [("data", .object [("s", .string "BTCUSDT")])])
  else none

theorem spotParsers_not_returnNormally :
    ¬ ReturnsNormally (bybitSpotParser (knownTexts withoutTime) bybitWithoutTime)
        (BybitComplete (OnDemand.tree withoutTime) bybitWithoutTime.text) ∧
      ¬ ReturnsNormally (binanceSpotParser (knownTexts withoutTime) binanceWithoutTime)
        (BinanceComplete (OnDemand.tree withoutTime) binanceWithoutTime.text) := by
  have bybit : bybitSpotParser (knownTexts withoutTime) bybitWithoutTime = .error .terminated := by
    rfl
  have binance : binanceSpotParser (knownTexts withoutTime) binanceWithoutTime = .error .terminated := by
    rfl
  constructor
  · rintro ⟨⟨returned, same⟩, _⟩
    rw [bybit] at same
    cases same
  · rintro ⟨⟨returned, same⟩, _⟩
    rw [binance] at same
    cases same

end ConsolidatedBook
