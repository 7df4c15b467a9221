import ConsolidatedBook.StdString

namespace ConsolidatedBook

open StringView (find)
open StdString (substr stoi getlines)

structure ServerConfig where
  intervalMs : Int := 5
  exchanges : List String := []
  instruments : List String := []
  grpcPort : Int := 50051
deriving DecidableEq, Repr

namespace ServerConfig

/-- The body of the loop of `ParseFromArgs`, with the offsets as they stand
there: the first one is not the length of its option. -/
def parseArg (config : ServerConfig) (arg : String) : Except StdException ServerConfig := do
  if find arg "--interval_ms=" = some 0 then
    return { config with intervalMs := ← stoi (← substr arg 15) }
  else if find arg "--exchanges=" = some 0 then
    return { config with exchanges := config.exchanges ++ getlines ',' (← substr arg 12) }
  else if find arg "--instruments=" = some 0 then
    return { config with instruments := config.instruments ++ getlines ',' (← substr arg 14) }
  else if find arg "--grpc_port=" = some 0 then
    return { config with grpcPort := ← stoi (← substr arg 12) }
  else
    return config

/-- Set defaults if not provided. -/
def setDefaults (config : ServerConfig) : ServerConfig :=
  { config with
    exchanges := if config.exchanges = [] then ["binance", "bybit", "okx"] else config.exchanges
    instruments := if config.instruments = [] then ["BTCUSDT", "ETHUSDT", "SOLUSDT"] else config.instruments }

/-- `ParseFromArgs`; the first element of `argv` is the name of the program. -/
def parseFromArgs (argv : List String) : Except StdException ServerConfig := do
  let config ← (argv.drop 1).foldlM parseArg {}
  return config.setDefaults

/-- What `Validate` writes to `std::cerr` where it returns `false`. -/
def validationError (config : ServerConfig) : Option String :=
  if config.intervalMs ≤ 0 then some "Error: interval_ms must be positive"
  else if config.exchanges = [] then some "Error: at least one exchange required"
  else if config.instruments = [] then some "Error: at least one instrument required"
  else none

def validate (config : ServerConfig) : Bool := config.validationError.isNone

theorem validate_iff (config : ServerConfig) :
    config.validate = true ↔ 0 < config.intervalMs ∧ config.exchanges ≠ [] ∧ config.instruments ≠ [] := by
  rw [validate, Option.isNone_iff_eq_none, validationError]
  by_cases low : config.intervalMs ≤ 0
  · simp [low, Int.not_lt.mpr low]
  · by_cases noExchange : config.exchanges = []
    · simp [low, noExchange]
    · simp [low, noExchange, Int.not_le.mp low]

/-- With the defaults in place only the interval can make a configuration invalid. -/
theorem validate_setDefaults (config : ServerConfig) :
    config.setDefaults.validate = true ↔ 0 < config.intervalMs := by
  have listed : ∀ names default : List String, default ≠ [] → (if names = [] then default else names) ≠ [] := by
    intro names default full
    split
    · exact full
    · assumption
  rw [validate_iff]
  exact and_iff_left ⟨listed _ _ (List.cons_ne_nil _ _), listed _ _ (List.cons_ne_nil _ _)⟩

end ServerConfig

end ConsolidatedBook
