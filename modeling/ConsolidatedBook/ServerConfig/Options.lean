import ConsolidatedBook.ServerConfig

namespace ConsolidatedBook

open StringView (find)
open StdString (substr stoi getlines dropTrailingEmpty)

namespace ServerConfig

/-- The arguments that start with an option, in order. -/
def optionArgs (option : String) (args : List String) : List String :=
  args.filter fun arg => option.toList.isPrefixOf arg.toList

/-- The comma-separated segments behind an option: inner and leading empty
ones are kept, one empty segment at the end is dropped. -/
def segments (option arg : String) : List String :=
  dropTrailingEmpty (((arg.toList.drop option.toList.length).splitOn ',').map String.ofList)

/-- The segments of every argument that starts with the option. -/
def listed (option : String) (args : List String) : List String :=
  (optionArgs option args).flatMap (segments option)

/-- No numeric option throws: behind the offset of each of its arguments there
is a number that an `int` holds. -/
def NumbersRead (args : List String) : Prop :=
  (∀ arg ∈ optionArgs "--interval_ms=" args, (substr arg 15 >>= stoi).isOk = true) ∧
  ∀ arg ∈ optionArgs "--grpc_port=" args, (substr arg 12 >>= stoi).isOk = true

def orDefault (default names : List String) : List String :=
  if names = [] then default else names

theorem mem_optionArgs {option arg : String} {args : List String} :
    arg ∈ optionArgs option args ↔ arg ∈ args ∧ find arg option = some 0 := by
  rw [optionArgs, List.mem_filter, List.isPrefixOf_iff_prefix, StringView.find_eq_zero]

theorem optionArgs_cons (option arg : String) (args : List String) :
    optionArgs option (arg :: args) = optionArgs option [arg] ++ optionArgs option args := by
  rw [optionArgs, ← List.singleton_append, List.filter_append]
  rfl

theorem listed_cons (option arg : String) (args : List String) :
    listed option (arg :: args) = listed option [arg] ++ listed option args := by
  rw [listed, optionArgs_cons, List.flatMap_append]
  rfl

theorem optionArgs_of_found {option arg : String} (found : find arg option = some 0) :
    optionArgs option [arg] = [arg] := by
  rw [optionArgs, List.filter_cons_of_pos, List.filter_nil]
  rwa [List.isPrefixOf_iff_prefix, ← StringView.find_eq_zero]

theorem optionArgs_of_not_found {option arg : String} (missing : find arg option ≠ some 0) :
    optionArgs option [arg] = [] := by
  rw [optionArgs, List.filter_cons_of_neg, List.filter_nil]
  rwa [List.isPrefixOf_iff_prefix, ← StringView.find_eq_zero]

theorem optionArgs_cons_of_found {option arg : String} (found : find arg option = some 0) (args : List String) :
    optionArgs option (arg :: args) = arg :: optionArgs option args := by
  rw [optionArgs_cons, optionArgs_of_found found]
  rfl

theorem optionArgs_cons_of_not_found {option arg : String} (missing : find arg option ≠ some 0) (args : List String) :
    optionArgs option (arg :: args) = optionArgs option args := by
  rw [optionArgs_cons, optionArgs_of_not_found missing]
  rfl

theorem listed_of_found {option arg : String} (found : find arg option = some 0) :
    listed option [arg] = segments option arg := by
  rw [listed, optionArgs_of_found found, List.flatMap_singleton]

theorem listed_of_not_found {option arg : String} (missing : find arg option ≠ some 0) :
    listed option [arg] = [] := by
  rw [listed, optionArgs_of_not_found missing, List.flatMap_nil]

theorem substr_option {option arg : String} (found : find arg option = some 0) :
    substr arg option.toList.length = .ok (String.ofList (arg.toList.drop option.toList.length)) := by
  rw [substr, if_pos (StringView.find_eq_zero.mp found).length_le]
  rfl

theorem getlines_option (option arg : String) :
    getlines ',' (String.ofList (arg.toList.drop option.toList.length)) = segments option arg := by
  rw [StdString.getlines_eq, String.toList_ofList]
  rfl

/-- What an argument does to the configuration where nothing is thrown. -/
inductive Parsed (config : ServerConfig) (arg : String) : ServerConfig → Prop
  | intervalMs {text value} : find arg "--interval_ms=" = some 0 → substr arg 15 = .ok text → stoi text = .ok value →
      Parsed config arg { config with intervalMs := value }
  | exchanges : find arg "--exchanges=" = some 0 →
      Parsed config arg { config with exchanges := config.exchanges ++ segments "--exchanges=" arg }
  | instruments : find arg "--instruments=" = some 0 →
      Parsed config arg { config with instruments := config.instruments ++ segments "--instruments=" arg }
  | grpcPort {text value} : find arg "--grpc_port=" = some 0 → substr arg 12 = .ok text → stoi text = .ok value →
      Parsed config arg { config with grpcPort := value }
  | unknown : (∀ option ∈ ["--interval_ms=", "--exchanges=", "--instruments=", "--grpc_port="],
      find arg option ≠ some 0) → Parsed config arg config

theorem parseArg_parsed {config next : ServerConfig} {arg : String} (parsed : parseArg config arg = .ok next) :
    Parsed config arg next := by
  unfold parseArg at parsed
  split at parsed
  · rename_i interval
    simp only [Except.bind_eq_ok_iff] at parsed
    obtain ⟨text, suffix, value, number, same⟩ := parsed
    cases same
    exact .intervalMs interval suffix number
  · rename_i notInterval
    split at parsed
    · rename_i exchanges
      rw [show (12 : Nat) = "--exchanges=".toList.length from rfl, substr_option exchanges] at parsed
      cases parsed
      rw [getlines_option]
      exact .exchanges exchanges
    · rename_i notExchanges
      split at parsed
      · rename_i instruments
        rw [show (14 : Nat) = "--instruments=".toList.length from rfl, substr_option instruments] at parsed
        cases parsed
        rw [getlines_option]
        exact .instruments instruments
      · rename_i notInstruments
        split at parsed
        · rename_i port
          simp only [Except.bind_eq_ok_iff] at parsed
          obtain ⟨text, suffix, value, number, same⟩ := parsed
          cases same
          exact .grpcPort port suffix number
        · rename_i notPort
          cases parsed
          refine .unknown ?_
          simp [notInterval, notExchanges, notInstruments, notPort]

theorem numbersRead_cons {arg : String} {args : List String} :
    NumbersRead (arg :: args) ↔ NumbersRead [arg] ∧ NumbersRead args := by
  simp only [NumbersRead, optionArgs_cons _ arg args, List.mem_append, or_imp, forall_and]
  exact and_and_and_comm

theorem number_returns {arg : String} {offset : Nat} (numeric : (substr arg offset >>= stoi).isOk = true)
    (set : Int → ServerConfig) : ∃ next, (do return set (← stoi (← substr arg offset))) = Except.ok next := by
  cases read : substr arg offset >>= stoi with
  | error thrown =>
    rw [read] at numeric
    cases numeric
  | ok value =>
    obtain ⟨text, suffix, number⟩ := (Except.bind_eq_ok_iff _ _ _).mp read
    refine ⟨set value, (Except.bind_eq_ok_iff _ _ _).mpr ⟨text, suffix, ?_⟩⟩
    exact (Except.bind_eq_ok_iff _ _ _).mpr ⟨value, number, rfl⟩

/-- Only a numeric option throws. -/
theorem parseArg_returns {arg : String} (config : ServerConfig) (numbers : NumbersRead [arg]) :
    ∃ next, parseArg config arg = .ok next := by
  obtain ⟨interval, port⟩ := numbers
  have among : ∀ {option}, find arg option = some 0 → arg ∈ optionArgs option [arg] := fun found =>
    mem_optionArgs.mpr ⟨List.mem_singleton.mpr rfl, found⟩
  unfold parseArg
  split
  · rename_i found
    exact number_returns (interval arg (among found)) fun value => { config with intervalMs := value }
  · split
    · rename_i exchanges
      rw [show (12 : Nat) = "--exchanges=".toList.length from rfl, substr_option exchanges]
      exact ⟨_, rfl⟩
    · split
      · rename_i instruments
        rw [show (14 : Nat) = "--instruments=".toList.length from rfl, substr_option instruments]
        exact ⟨_, rfl⟩
      · split
        · rename_i found
          exact number_returns (port arg (among found)) fun value => { config with grpcPort := value }
        · exact ⟨config, rfl⟩

theorem foldlM_returns {args : List String} (config : ServerConfig) (numbers : NumbersRead args) :
    ∃ next, args.foldlM parseArg config = .ok next := by
  induction args generalizing config with
  | nil => exact ⟨config, rfl⟩
  | cons arg args ih =>
    obtain ⟨first, rest⟩ := numbersRead_cons.mp numbers
    obtain ⟨middle, parsed⟩ := parseArg_returns config first
    obtain ⟨next, folded⟩ := ih middle rest
    refine ⟨next, ?_⟩
    rw [List.foldlM_cons]
    exact (Except.bind_eq_ok_iff _ _ _).mpr ⟨middle, parsed, folded⟩

/-- No option starts another one, so an argument starts with one of them at most. -/
theorem find_exclusive {arg first second : String} (found : find arg first = some 0)
    (one : first ∈ ["--interval_ms=", "--exchanges=", "--instruments=", "--grpc_port="])
    (other : second ∈ ["--interval_ms=", "--exchanges=", "--instruments=", "--grpc_port="])
    (different : first ≠ second) : find arg second ≠ some 0 := by
  have apart : ∀ a ∈ ["--interval_ms=", "--exchanges=", "--instruments=", "--grpc_port="],
      ∀ b ∈ ["--interval_ms=", "--exchanges=", "--instruments=", "--grpc_port="],
      a ≠ b → ¬ a.toList <+: b.toList := by decide
  exact StringView.find_exclusive found (apart first one second other different)
    (apart second other first one different.symm)

theorem Parsed.exchanges_eq {config next : ServerConfig} {arg : String} (parsed : Parsed config arg next) :
    next.exchanges = config.exchanges ++ listed "--exchanges=" [arg] := by
  cases parsed with
  | exchanges found => rw [listed_of_found found]
  | intervalMs found | instruments found | grpcPort found =>
    rw [listed_of_not_found (find_exclusive found (by simp) (by simp) (by decide)), List.append_nil]
  | unknown missing => rw [listed_of_not_found (missing _ (by simp)), List.append_nil]

theorem Parsed.instruments_eq {config next : ServerConfig} {arg : String} (parsed : Parsed config arg next) :
    next.instruments = config.instruments ++ listed "--instruments=" [arg] := by
  cases parsed with
  | instruments found => rw [listed_of_found found]
  | intervalMs found | exchanges found | grpcPort found =>
    rw [listed_of_not_found (find_exclusive found (by simp) (by simp) (by decide)), List.append_nil]
  | unknown missing => rw [listed_of_not_found (missing _ (by simp)), List.append_nil]

/-- A list option accumulates over the arguments. -/
theorem foldlM_listed {option : String} {get : ServerConfig → List String}
    (one : ∀ {config next arg}, Parsed config arg next → get next = get config ++ listed option [arg])
    {args : List String} {config next : ServerConfig} (parsed : args.foldlM parseArg config = .ok next) :
    get next = get config ++ listed option args := by
  induction args generalizing config with
  | nil =>
    cases parsed
    exact (List.append_nil _).symm
  | cons arg args ih =>
    rw [List.foldlM_cons, Except.bind_eq_ok_iff] at parsed
    obtain ⟨middle, first, rest⟩ := parsed
    rw [ih rest, one (parseArg_parsed first), listed_cons option arg args, List.append_assoc]

/-- Of a numeric option the last argument counts. -/
theorem foldlM_number {option : String} {offset : Nat} {get : ServerConfig → Int}
    (found : ∀ {config next arg}, Parsed config arg next → find arg option = some 0 →
      (substr arg offset >>= stoi) = .ok (get next))
    (missing : ∀ {config next arg}, Parsed config arg next → find arg option ≠ some 0 → get next = get config)
    {args : List String} {config next : ServerConfig} (parsed : args.foldlM parseArg config = .ok next) :
    match (optionArgs option args).getLast? with
    | none => get next = get config
    | some last => (substr last offset >>= stoi) = .ok (get next) := by
  induction args generalizing config with
  | nil =>
    cases parsed
    rfl
  | cons arg args ih =>
    rw [List.foldlM_cons, Except.bind_eq_ok_iff] at parsed
    obtain ⟨middle, first, rest⟩ := parsed
    have later := ih rest
    rw [optionArgs_cons, List.getLast?_append]
    cases last : (optionArgs option args).getLast? with
    | some last =>
      rw [last] at later
      exact later
    | none =>
      rw [last] at later
      by_cases here : find arg option = some 0
      · rw [optionArgs_of_found here]
        change (substr arg offset >>= stoi) = .ok (get next)
        rw [later]
        exact found (parseArg_parsed first) here
      · rw [optionArgs_of_not_found here]
        change get next = get config
        rw [later]
        exact missing (parseArg_parsed first) here

end ServerConfig

open ServerConfig in
/-- The list options accumulate over all arguments, whatever stands between
them, and joining by commas is undone. -/
theorem serverConfig_lists :
    (∀ argv, NumbersRead (argv.drop 1) → ∃ config, parseFromArgs argv = .ok config ∧
      config.exchanges = orDefault ["binance", "bybit", "okx"] (listed "--exchanges=" (argv.drop 1)) ∧
      config.instruments = orDefault ["BTCUSDT", "ETHUSDT", "SOLUSDT"] (listed "--instruments=" (argv.drop 1))) ∧
    (∀ argv argv', NumbersRead (argv.drop 1) → NumbersRead (argv'.drop 1) →
      optionArgs "--exchanges=" (argv.drop 1) = optionArgs "--exchanges=" (argv'.drop 1) →
      optionArgs "--instruments=" (argv.drop 1) = optionArgs "--instruments=" (argv'.drop 1) →
      ∃ config config', parseFromArgs argv = .ok config ∧ parseFromArgs argv' = .ok config' ∧
        config.exchanges = config'.exchanges ∧ config.instruments = config'.instruments) ∧
    (∀ option names, (∀ name ∈ names, name ≠ "" ∧ ',' ∉ name.toList) →
      segments option (option ++ (String.singleton ',').intercalate names) = names) := by
  have lists : ∀ argv, NumbersRead (argv.drop 1) → ∃ config, parseFromArgs argv = .ok config ∧
      config.exchanges = orDefault ["binance", "bybit", "okx"] (listed "--exchanges=" (argv.drop 1)) ∧
      config.instruments = orDefault ["BTCUSDT", "ETHUSDT", "SOLUSDT"] (listed "--instruments=" (argv.drop 1)) := by
    intro argv numbers
    obtain ⟨read, fold⟩ := foldlM_returns {} numbers
    have exchanges := foldlM_listed Parsed.exchanges_eq fold
    have instruments := foldlM_listed Parsed.instruments_eq fold
    rw [List.nil_append] at exchanges instruments
    refine ⟨read.setDefaults, (Except.bind_eq_ok_iff _ _ _).mpr ⟨read, fold, rfl⟩, ?_⟩
    simp only [setDefaults, orDefault, exchanges, instruments, and_self]
  refine ⟨lists, ?_, ?_⟩
  · intro argv argv' numbers numbers' sameExchanges sameInstruments
    obtain ⟨config, parsed, exchanges, instruments⟩ := lists argv numbers
    obtain ⟨config', parsed', exchanges', instruments'⟩ := lists argv' numbers'
    refine ⟨config, config', parsed, parsed', ?_, ?_⟩
    · rw [exchanges, exchanges', listed, listed, sameExchanges]
    · rw [instruments, instruments', listed, listed, sameInstruments]
  · intro option names proper
    rw [← getlines_option, String.toList_append, List.drop_left, String.ofList_toList]
    exact StdString.getlines_intercalate proper

/-- A trailing and an inner empty segment, an option given twice, and others in between. -/
theorem serverConfig_lists_repeated :
    ∃ config, ServerConfig.parseFromArgs ["server", "--exchanges=okx,,bybit,", "-v", "--grpc_port=80",
        "--exchanges=binance"] = .ok config ∧
      config.exchanges = ["okx", "", "bybit", "binance"] ∧ config.instruments = ["BTCUSDT", "ETHUSDT", "SOLUSDT"] := by
  have numbers : ServerConfig.NumbersRead ["--exchanges=okx,,bybit,", "-v", "--grpc_port=80", "--exchanges=binance"] :=
    ⟨by decide, by decide⟩
  obtain ⟨config, parsed, exchanges, instruments⟩ := serverConfig_lists.1 ("server" :: _) numbers
  exact ⟨config, parsed, exchanges.trans (by decide), instruments.trans (by decide)⟩

end ConsolidatedBook
