import ConsolidatedBook.ServerConfig.RoundTrip

namespace ConsolidatedBook

open StringView (find)
open StdString (substr stoi)

namespace ServerConfig

/-- The argument is a numeric option, and there is no number that an `int`
holds behind its offset. -/
def NumberThrows (arg : String) (thrown : StdException) : Prop :=
  find arg "--interval_ms=" = some 0 ∧ (substr arg 15 >>= stoi) = .error thrown ∨
    find arg "--grpc_port=" = some 0 ∧ (substr arg 12 >>= stoi) = .error thrown

/-- The number in the last argument of an option, or the default where there is none. -/
def lastNumber (option : String) (offset : Nat) (default : Int) (args : List String) : Except StdException Int :=
  match (optionArgs option args).getLast? with
  | none => .ok default
  | some last => substr last offset >>= stoi

theorem not_isOk_iff {α : Type} {res : Except StdException α} :
    res.isOk ≠ true ↔ ∃ thrown, res = .error thrown := by
  cases res with
  | ok value => exact iff_of_false (fun differs => differs rfl) (by simp)
  | error thrown => exact iff_of_true (by simp [Except.isOk, Except.toBool]) ⟨thrown, rfl⟩

theorem number_throws {arg : String} {offset : Nat} {thrown : StdException}
    (read : (substr arg offset >>= stoi) = .error thrown) (set : Int → ServerConfig) :
    (do return set (← stoi (← substr arg offset))) = (Except.error thrown : Except StdException ServerConfig) := by
  cases suffix : substr arg offset with
  | error short =>
    rw [suffix] at read
    cases read
    rfl
  | ok text =>
    rw [suffix] at read
    cases number : stoi text with
    | ok value =>
      have both : (Except.ok text >>= stoi) = .ok value := number
      rw [both] at read
      cases read
    | error unread =>
      have both : (Except.ok text >>= stoi) = .error unread := number
      rw [both] at read
      cases read
      simp only [bind, Except.bind, number]

theorem parseArg_throws {arg : String} {thrown : StdException} (throws : NumberThrows arg thrown)
    (config : ServerConfig) : parseArg config arg = .error thrown := by
  unfold parseArg
  rcases throws with ⟨interval, read⟩ | ⟨port, read⟩
  · rw [if_pos interval]
    exact number_throws read fun value => { config with intervalMs := value }
  · rw [if_neg (find_exclusive port (by simp) (by simp) (by decide)),
      if_neg (find_exclusive port (by simp) (by simp) (by decide)),
      if_neg (find_exclusive port (by simp) (by simp) (by decide)), if_pos port]
    exact number_throws read fun value => { config with grpcPort := value }

/-- An argument is read, or it is a numeric option that throws. -/
theorem numbersRead_or_throws (arg : String) : NumbersRead [arg] ∨ ∃ thrown, NumberThrows arg thrown := by
  by_cases read : NumbersRead [arg]
  · exact Or.inl read
  · refine Or.inr ?_
    rw [NumbersRead, not_and_or] at read
    simp only [not_forall, not_isOk_iff] at read
    rcases read with ⟨other, member, thrown, throws⟩ | ⟨other, member, thrown, throws⟩
    · obtain ⟨same, found⟩ := mem_optionArgs.mp member
      cases List.mem_singleton.mp same
      exact ⟨thrown, Or.inl ⟨found, throws⟩⟩
    · obtain ⟨same, found⟩ := mem_optionArgs.mp member
      cases List.mem_singleton.mp same
      exact ⟨thrown, Or.inr ⟨found, throws⟩⟩

/-- The first argument that throws decides. -/
theorem foldlM_throws {args : List String} {config : ServerConfig} {thrown : StdException}
    (folded : args.foldlM parseArg config = .error thrown) :
    ∃ before arg after, args = before ++ arg :: after ∧ NumbersRead before ∧ NumberThrows arg thrown := by
  induction args generalizing config with
  | nil => cases folded
  | cons arg args ih =>
    rcases numbersRead_or_throws arg with read | ⟨first, throws⟩
    · obtain ⟨next, parsed⟩ := parseArg_returns config read
      have later : args.foldlM parseArg next = .error thrown := by
        rw [List.foldlM_cons, parsed] at folded
        exact folded
      obtain ⟨before, arg', after, rfl, earlier, throws⟩ := ih later
      exact ⟨arg :: before, arg', after, rfl, numbersRead_cons.mpr ⟨read, earlier⟩, throws⟩
    · rw [List.foldlM_cons, parseArg_throws throws config] at folded
      cases folded
      refine ⟨[], arg, args, rfl, ⟨?_, ?_⟩, throws⟩
      · exact List.forall_mem_nil _
      · exact List.forall_mem_nil _

theorem numbersRead_of_foldlM {args : List String} {config next : ServerConfig}
    (folded : args.foldlM parseArg config = .ok next) : NumbersRead args := by
  induction args generalizing config with
  | nil => exact ⟨List.forall_mem_nil _, List.forall_mem_nil _⟩
  | cons arg args ih =>
    rw [List.foldlM_cons, Except.bind_eq_ok_iff] at folded
    obtain ⟨middle, first, rest⟩ := folded
    rcases numbersRead_or_throws arg with read | ⟨thrown, throws⟩
    · exact numbersRead_cons.mpr ⟨read, ih rest⟩
    · cases (parseArg_throws throws config).symm.trans first

theorem foldlM_grpcPort {args : List String} {config next : ServerConfig}
    (parsed : args.foldlM parseArg config = .ok next) :
    match (optionArgs "--grpc_port=" args).getLast? with
    | none => next.grpcPort = config.grpcPort
    | some last => (substr last 12 >>= stoi) = .ok next.grpcPort := by
  refine foldlM_number ?_ ?_ parsed
  · intro config next arg parsed found
    cases parsed with
    | grpcPort _ suffix number => exact (Except.bind_eq_ok_iff _ _ _).mpr ⟨_, suffix, number⟩
    | intervalMs other | exchanges other | instruments other =>
      exact absurd found (find_exclusive other (by simp) (by simp) (by decide))
    | unknown missing => exact absurd found (missing _ (by simp))
  · intro config next arg parsed missing
    cases parsed with
    | grpcPort found => exact absurd found missing
    | _ => rfl

/-- Numeric options that can all be read are read to the last one. -/
theorem lastNumber_eq {option : String} {offset : Nat} {default value : Int} {args : List String}
    (last : match (optionArgs option args).getLast? with
      | none => value = default
      | some last => (substr last offset >>= stoi) = .ok value) :
    lastNumber option offset default args = .ok value := by
  unfold lastNumber
  cases found : (optionArgs option args).getLast? with
  | none =>
    rw [found] at last
    rw [last]
  | some arg =>
    rw [found] at last
    exact last

end ServerConfig

open ServerConfig in
/-- Whatever the arguments are: they are rejected with the exception of the
first numeric option that cannot be read, or else each number is that of its
option's last argument or the default, and the configuration is valid exactly
if the interval is positive. -/
theorem serverConfig_numbers (argv : List String) :
    (∃ thrown before arg after, parseFromArgs argv = .error thrown ∧ argv.drop 1 = before ++ arg :: after ∧
      NumbersRead before ∧ NumberThrows arg thrown) ∨
    (∃ config, parseFromArgs argv = .ok config ∧ NumbersRead (argv.drop 1) ∧
      lastNumber "--interval_ms=" 15 5 (argv.drop 1) = .ok config.intervalMs ∧
      lastNumber "--grpc_port=" 12 50051 (argv.drop 1) = .ok config.grpcPort ∧
      (config.validate = true ↔ 0 < config.intervalMs)) := by
  cases folded : (argv.drop 1).foldlM parseArg {} with
  | error thrown =>
    obtain ⟨before, arg, after, split, earlier, throws⟩ := foldlM_throws folded
    refine Or.inl ⟨thrown, before, arg, after, ?_, split, earlier, throws⟩
    rw [parseFromArgs, folded]
    rfl
  | ok config =>
    have parsed : parseFromArgs argv = .ok config.setDefaults := by
      rw [parseFromArgs, folded]
      rfl
    refine Or.inr ⟨config.setDefaults, parsed, numbersRead_of_foldlM folded, ?_, ?_, ?_⟩
    · exact lastNumber_eq (foldlM_intervalMs folded)
    · exact lastNumber_eq (foldlM_grpcPort folded)
    · exact validate_setDefaults config

end ConsolidatedBook
