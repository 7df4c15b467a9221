import ConsolidatedBook.Provider
import ConsolidatedBook.Types
import ConsolidatedBook.SpotParser.WellFormed

namespace ConsolidatedBook

/-- Upper-case letters and digits, at least one. -/
structure IsInstrument (instrument : String) : Prop where
  nonempty : instrument ≠ ""
  characters : ∀ c ∈ instrument.toList, c.isUpper = true ∨ c.isDigit = true

/-- The name under which an exchange reports the trades of a subscribed instrument:
Binance its stream's symbol, in any case, Bybit the topic, and OKX the id that it was sent. -/
def ReportedAs (instrument : String) : Exchange → String → Prop
  | .BINANCE, symbol =>
    BinanceProvider.toLower symbol = BinanceProvider.toLower (BinanceProvider.toLower instrument)
  | .BYBIT, topic => topic = "publicTrade." ++ instrument
  | .OKX, instId => instId = OKXProvider.toInstId instrument
  | .UNKNOWN, _ => False

/-- The instrument string that is made of it. -/
def normalised : Exchange → String → String
  | .BINANCE, symbol => BinanceProvider.toUpper symbol
  | .BYBIT, topic => extractSymbol topic
  | .OKX, instId => OKXProvider.removeHyphens instId
  | .UNKNOWN, name => name

variable {instrument : String}

/-- The codes of the upper-case letters. -/
theorem isUpper_iff_code {c : Char} : c.isUpper = true ↔ 65 ≤ c.toNat ∧ c.toNat ≤ 90 := by
  change decide (c.val ≥ 'A'.val ∧ c.val ≤ 'Z'.val) = true ↔ _
  simp only [decide_eq_true_eq, ge_iff_le, UInt32.le_iff_toNat_le]
  rfl

theorem code_toLower (c : Char) : c.toLower.toNat = if c.isUpper then c.toNat + 32 else c.toNat := by
  by_cases upper : c.val ≥ 'A'.val ∧ c.val ≤ 'Z'.val
  · have isUpper : c.isUpper = true := decide_eq_true upper
    have bound : c.toNat ≤ 90 := (isUpper_iff_code.mp isUpper).2
    have lowered : c.toLower = ⟨c.val + 32, _⟩ := dif_pos upper
    have code : c.toLower.toNat = (c.toNat + 32) % 2 ^ 32 :=
      (congrArg Char.toNat lowered).trans (UInt32.toNat_add c.val 32)
    rw [if_pos isUpper, code]
    exact Nat.mod_eq_of_lt (by omega)
  · have other : ¬ c.isUpper = true := fun isUpper => upper (of_decide_eq_true isUpper)
    have same : c.toLower = c := dif_neg upper
    rw [if_neg other, same]

theorem code_toUpper (c : Char) :
    c.toUpper.toNat = if 97 ≤ c.toNat ∧ c.toNat ≤ 122 then c.toNat - 32 else c.toNat := by
  have letter : 97 ≤ c.toNat ∧ c.toNat ≤ 122 ↔ 'a'.val ≤ c.val ∧ c.val ≤ 'z'.val := by
    simp only [UInt32.le_iff_toNat_le]
    rfl
  by_cases lower : 'a'.val ≤ c.val ∧ c.val ≤ 'z'.val
  · have bounds := letter.mpr lower
    have raised : c.toUpper = ⟨c.val + ('A'.val - 'a'.val), _⟩ := dif_pos lower
    -- the difference of the two letters has wrapped round
    have code : c.toUpper.toNat = (c.toNat + (2 ^ 32 - 32)) % 2 ^ 32 :=
      (congrArg Char.toNat raised).trans (UInt32.toNat_add c.val _)
    rw [if_pos bounds, code]
    omega
  · have same : c.toUpper = c := dif_neg lower
    rw [if_neg (lower ∘ letter.mp), same]

/-- Upper-casing brings a character back, however it was cased when it was reported. -/
theorem toUpper_of_toLower {c d : Char} (valid : d.isUpper = true ∨ d.isDigit = true)
    (same : c.toLower = d.toLower.toLower) : c.toUpper = d := by
  have codes := congrArg Char.toNat same
  have digit : d.isDigit = true ↔ 48 ≤ d.toNat ∧ d.toNat ≤ 57 := Char.isDigit_iff_toNat
  rw [digit, isUpper_iff_code] at valid
  simp only [code_toLower, isUpper_iff_code] at codes
  rw [← Char.toNat_inj, code_toUpper]
  split_ifs at codes ⊢ <;> omega

theorem map_toUpper_of_toLower {reported letters : List Char}
    (valid : ∀ d ∈ letters, d.isUpper = true ∨ d.isDigit = true)
    (same : reported.map Char.toLower = letters.map fun d => d.toLower.toLower) :
    reported.map Char.toUpper = letters := by
  induction letters generalizing reported with
  | nil => rw [List.map_eq_nil_iff.mp same, List.map_nil]
  | cons d letters ih =>
    obtain ⟨c, rest, rfl, first, others⟩ := List.map_eq_cons_iff.mp same
    obtain ⟨here, valid⟩ := List.forall_mem_cons.mp valid
    rw [List.map_cons, toUpper_of_toLower here first, ih valid others]

theorem IsInstrument.toUpper_reported (valid : IsInstrument instrument) {symbol : String}
    (reported : BinanceProvider.toLower symbol = BinanceProvider.toLower (BinanceProvider.toLower instrument)) :
    BinanceProvider.toUpper symbol = instrument := by
  simp only [BinanceProvider.toLower, ← String.toList_inj, String.toList_ofList, List.map_map] at reported
  rw [← String.toList_inj, BinanceProvider.toUpper, String.toList_ofList]
  exact map_toUpper_of_toLower valid.characters reported

theorem IsInstrument.hyphen_notMem (valid : IsInstrument instrument) : '-' ∉ instrument.toList := by
  intro member
  rcases valid.characters '-' member with upper | digit
  · exact absurd upper (by decide)
  · exact absurd digit (by decide)

theorem IsInstrument.removeHyphens (valid : IsInstrument instrument) :
    OKXProvider.removeHyphens (OKXProvider.toInstId instrument) = instrument := by
  have kept : instrument.toList.filter (· ≠ '-') = instrument.toList := by
    rw [List.filter_eq_self]
    intro c member
    rw [decide_eq_true_eq]
    rintro rfl
    exact valid.hyphen_notMem member
  rw [← String.toList_inj, OKXProvider.removeHyphens, String.toList_ofList, OKXProvider.toInstId]
  cases StringView.find instrument "USDT" with
  | none => exact kept
  | some pos =>
    dsimp only
    rw [String.toList_ofList, List.filter_append, List.filter_cons_of_neg (by decide), ← List.filter_append,
      List.take_append_drop, kept]

theorem toInstId_append {base : String} (absent : ¬ "USDT".toList <:+: base.toList) :
    OKXProvider.toInstId (base ++ "USDT") = base ++ "-USDT" := by
  have found : StringView.find (base ++ "USDT") "USDT" = some base.toList.length :=
    StringView.find_append_pattern rfl (by decide) absent
  unfold OKXProvider.toInstId
  rw [found]
  dsimp only
  rw [← String.toList_inj, String.toList_ofList, String.toList_append, List.take_left, List.drop_left,
    String.toList_append]
  rfl

theorem IsInstrument.normalised (valid : IsInstrument instrument) {exchange : Exchange} {name : String}
    (reported : ReportedAs instrument exchange name) : normalised exchange name = instrument := by
  cases exchange with
  | UNKNOWN => cases reported
  | BINANCE => exact valid.toUpper_reported reported
  | BYBIT =>
    obtain rfl := reported
    exact extractSymbol_append instrument
  | OKX =>
    obtain rfl := reported
    exact valid.removeHyphens

/-- The three exchanges' names of an instrument become its one string again, so the
strings of two instruments are the same only if the instruments are. -/
theorem instruments_normalise (instrument : String) (valid : IsInstrument instrument) :
    (∀ symbol, BinanceProvider.toLower symbol = BinanceProvider.toLower (BinanceProvider.toLower instrument) →
      BinanceProvider.toUpper symbol = instrument) ∧
    extractSymbol ("publicTrade." ++ instrument) = instrument ∧
    OKXProvider.removeHyphens (OKXProvider.toInstId instrument) = instrument ∧
    (∀ base, instrument = base ++ "USDT" → ¬ "USDT".toList <:+: base.toList →
      OKXProvider.toInstId instrument = base ++ "-USDT") ∧
    ∀ other, IsInstrument other → ∀ exchange exchange' name name', ReportedAs instrument exchange name →
      ReportedAs other exchange' name' →
      (normalised exchange name = normalised exchange' name' ↔ instrument = other) := by
  refine ⟨fun symbol => valid.toUpper_reported, extractSymbol_append instrument, valid.removeHyphens, ?_, ?_⟩
  · rintro base rfl absent
    exact toInstId_append absent
  · intro other otherValid exchange exchange' name name' reported reported'
    rw [valid.normalised reported, otherValid.normalised reported']

theorem instruments_normalise_btc :
    OKXProvider.toInstId "BTCUSDT" = "BTC-USDT" ∧
      (normalised .BINANCE "btcUSDT" = normalised .OKX "ETH-USDT" ↔ "BTCUSDT" = "ETHUSDT") := by
  have btc : IsInstrument "BTCUSDT" := ⟨by decide, by simp⟩
  have eth : IsInstrument "ETHUSDT" := ⟨by decide, by simp⟩
  obtain ⟨_, _, _, instId, apart⟩ := instruments_normalise "BTCUSDT" btc
  have binance : ReportedAs "BTCUSDT" .BINANCE "btcUSDT" := by
    simp [ReportedAs, BinanceProvider.toLower]
  have okx : ReportedAs "ETHUSDT" .OKX "ETH-USDT" := by
    unfold ReportedAs
    decide +kernel
  exact ⟨instId "BTC" rfl (by decide), apart "ETHUSDT" eth .BINANCE .OKX "btcUSDT" "ETH-USDT" binance okx⟩

end ConsolidatedBook
