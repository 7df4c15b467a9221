import ConsolidatedBook.ServerConfig.Options
import Mathlib.Data.List.Perm.Basic

namespace ConsolidatedBook

open StringView (find)
open StdString (substr stoi)

namespace ServerConfig

/-- The four arguments that spell a configuration out. -/
def spelledOut (intervalMs grpcPort : Nat) (exchanges instruments : List String) : List String :=
  ["--interval_ms=" ++ toString intervalMs, "--grpc_port=" ++ toString grpcPort,
    "--exchanges=" ++ (String.singleton ',').intercalate exchanges,
    "--instruments=" ++ (String.singleton ',').intercalate instruments]

/-- The arguments are read back as this configuration, and it is valid. -/
def RoundTrips (argv : List String) (intervalMs grpcPort : Nat) (exchanges instruments : List String) : Prop :=
  ∃ config, parseFromArgs argv = .ok config ∧ config = ⟨intervalMs, exchanges, instruments, grpcPort⟩ ∧
    config.validate = true

/-- Of the four arguments, in whatever order, one starts with `--interval_ms=`. -/
theorem optionArgs_spelledOut {intervalMs grpcPort : Nat} {exchanges instruments args : List String}
    (order : args.Perm (spelledOut intervalMs grpcPort exchanges instruments)) :
    optionArgs "--interval_ms=" args = ["--interval_ms=" ++ toString intervalMs] := by
  have others : ∀ option ∈ ["--interval_ms=", "--exchanges=", "--instruments=", "--grpc_port="],
      option ≠ "--interval_ms=" → ∀ text, find (option ++ text) "--interval_ms=" ≠ some 0 :=
    fun option known different text =>
      find_exclusive (StringView.find_append option text) known (by simp) different
  have port := others "--grpc_port=" (by simp) (by decide)
  have exchange := others "--exchanges=" (by simp) (by decide)
  have instrument := others "--instruments=" (by simp) (by decide)
  refine List.perm_singleton.mp ((order.filter _).trans (.of_eq ?_))
  change optionArgs "--interval_ms=" (spelledOut intervalMs grpcPort exchanges instruments) = _
  rw [spelledOut, optionArgs_cons_of_found (StringView.find_append _ _), optionArgs_cons_of_not_found (port _),
    optionArgs_cons_of_not_found (exchange _), optionArgs_cons_of_not_found (instrument _)]
  rfl

/-- The offset reaches behind the first digit. -/
theorem substr_interval (n : Nat) :
    substr ("--interval_ms=" ++ toString n) 15 = .ok (String.ofList (Nat.toDigits 10 n).tail) := by
  have digits : ("--interval_ms=" ++ toString n).toList = "--interval_ms=".toList ++ Nat.toDigits 10 n := by
    rw [String.toList_append, Nat.toString_eq_repr, Nat.toList_repr]
  have enough : 15 ≤ ("--interval_ms=".toList ++ Nat.toDigits 10 n).length := by
    rw [List.length_append]
    exact Nat.add_le_add_left Nat.length_toDigits_pos 14
  rw [substr, digits, if_pos enough, StringView.substr, digits,
    show (15 : Nat) = "--interval_ms=".toList.length + 1 from rfl, ← List.drop_drop, List.drop_left, List.drop_one]

/-- The interval is what the last argument for it makes of it. -/
theorem foldlM_intervalMs {args : List String} {config next : ServerConfig}
    (parsed : args.foldlM parseArg config = .ok next) :
    match (optionArgs "--interval_ms=" args).getLast? with
    | none => next.intervalMs = config.intervalMs
    | some last => (substr last 15 >>= stoi) = .ok next.intervalMs := by
  refine foldlM_number ?_ ?_ parsed
  · intro config next arg parsed found
    cases parsed with
    | intervalMs _ suffix number => exact (Except.bind_eq_ok_iff _ _ _).mpr ⟨_, suffix, number⟩
    | exchanges other | instruments other | grpcPort other =>
      exact absurd found (find_exclusive other (by simp) (by simp) (by decide))
    | unknown missing => exact absurd found (missing _ (by simp))
  · intro config next arg parsed missing
    cases parsed with
    | intervalMs found => exact absurd found missing
    | _ => rfl

end ServerConfig

open ServerConfig in
/-- No configuration that is spelled out on the command line is read back:
the interval's first digit is lost. -/
theorem serverConfig_not_roundTrips {intervalMs grpcPort : Nat} {exchanges instruments args : List String}
    (program : String) (order : args.Perm (spelledOut intervalMs grpcPort exchanges instruments)) :
    ¬ RoundTrips (program :: args) intervalMs grpcPort exchanges instruments := by
  rintro ⟨config, parsed, rfl, _⟩
  rw [parseFromArgs, Except.bind_eq_ok_iff] at parsed
  obtain ⟨read, fold, same⟩ := parsed
  have interval := foldlM_intervalMs fold
  have kept : read.intervalMs = intervalMs := congrArg ServerConfig.intervalMs (Except.ok.inj same)
  rw [List.drop_one, List.tail_cons, optionArgs_spelledOut order, List.getLast?_singleton] at interval
  simp only [substr_interval, kept] at interval
  exact StdString.stoi_tail_ne intervalMs interval

/-- One second is read as zero. -/
theorem serverConfig_not_roundTrips_oneSecond :
    ¬ ServerConfig.RoundTrips ["server", "--exchanges=okx", "--interval_ms=1000", "--instruments=BTCUSDT,ETHUSDT",
      "--grpc_port=80"] 1000 80 ["okx"] ["BTCUSDT", "ETHUSDT"] :=
  serverConfig_not_roundTrips "server" (by decide)

theorem serverConfig_interval_truncated :
    ServerConfig.parseFromArgs ["server", "--interval_ms=1000", "--grpc_port=80", "--exchanges=okx",
        "--instruments=BTCUSDT"] = .ok ⟨0, ["okx"], ["BTCUSDT"], 80⟩ ∧
      ¬ ServerConfig.RoundTrips ["server", "--interval_ms=1000", "--grpc_port=80", "--exchanges=okx",
        "--instruments=BTCUSDT"] 1000 80 ["okx"] ["BTCUSDT"] := by
  refine ⟨rfl, ?_⟩
  rintro ⟨config, parsed, rfl, _⟩
  cases parsed

end ConsolidatedBook
