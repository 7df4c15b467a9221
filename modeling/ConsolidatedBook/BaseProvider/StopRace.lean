import ConsolidatedBook.BaseProvider.Moves

namespace ConsolidatedBook

namespace OwnerPhase

/-- `Stop` has cleared `running` and not returned yet. -/
def stopping : OwnerPhase → Bool
  | .stopSession _ | .stopIoc _ | .join _ => true
  | _ => false

/-- `Stop` has executed `ioc.stop()` and waits for the worker. -/
def joining : OwnerPhase → Bool
  | .join _ => true
  | _ => false

theorem stopping_of_joining {owner : OwnerPhase} (joins : owner.joining = true) : owner.stopping = true := by
  cases owner <;> first | rfl | cases joins

end OwnerPhase

namespace BaseProvider

/-- The stop of the `io_context` still stands when `Stop` joins. -/
def StopKept (p : BaseProvider) : Prop :=
  p.owner.joining = true → p.iocStopped = true

/-- `Stop` waits for a worker that is blocked in a running `io_context`. -/
def JoinBlocked (p : BaseProvider) : Prop :=
  p.owner.joining = true ∧ p.worker = .runIoc ∧ p.iocStopped = false ∧ p.iocWork = true

/-- `ioc.stop()` is not executed while the worker stands between the loop test and `ioc.restart()`. -/
def stopsOutsideRestart (p : BaseProvider) (action : ProviderAction) : Bool :=
  match p.owner, action with
  | .stopIoc _, .ownerStep => p.worker ≠ .restartIoc
  | _, _ => true

/-- What `Stop` relies on: the worker sees that it shall end, and does not
stand where it clears the stop. -/
structure StopInvariant (p : BaseProvider) : Prop where
  cleared : p.owner.stopping = true → p.running = false
  kept : p.owner.joining = true → p.iocStopped = true ∧ p.worker ≠ .restartIoc

theorem StopInvariant.of_not_stopping {p : BaseProvider} (outside : p.owner.stopping = false) :
    StopInvariant p where
  cleared stopping := absurd (outside.symm.trans stopping) nofun
  kept joining := absurd (outside.symm.trans (OwnerPhase.stopping_of_joining joining)) nofun

theorem afterStop_not_stopping (caller : StopCaller) : (afterStop caller).stopping = false := by
  cases caller <;> rfl

/-- A step of the worker that does not clear the stop, nor take it to where it clears it. -/
theorem StopInvariant.worker {p q : BaseProvider} (invariant : StopInvariant p) (owner : q.owner = p.owner)
    (running : q.running = p.running) (stopped : p.iocStopped = true → q.iocStopped = true)
    (elsewhere : p.running = false → q.worker ≠ .restartIoc) : StopInvariant q := by
  constructor
  · rw [owner, running]
    exact invariant.cleared
  · rw [owner]
    intro joining
    have ends := invariant.cleared (OwnerPhase.stopping_of_joining joining)
    exact ⟨stopped (invariant.kept joining).1, elsewhere ends⟩

/-- The owner enters `join` from `ioc.stop()` only, and the worker, which sees
`running` cleared by then, goes nowhere near `ioc.restart()`. -/
theorem StopInvariant.step {p q : BaseProvider} {action : ProviderAction} {events : List ProviderEvent}
    (invariant : StopInvariant p) (allowed : p.stopsOutsideRestart action = true)
    (step : p.step action = some (q, events)) : StopInvariant q := by
  cases step_move step with
  | startIgnored | connected => exact invariant
  | startCalled | threadAssigned | destroyed => exact .of_not_stopping rfl
  | stopBegun => exact ⟨fun _ => rfl, nofun⟩
  | stopIgnored | joined | unjoined => exact .of_not_stopping (afterStop_not_stopping _)
  | terminated | dropped => exact ⟨invariant.cleared, invariant.kept⟩
  | sessionStopped owner => exact ⟨fun _ => invariant.cleared (owner ▸ rfl), nofun⟩
  | iocStopped owner =>
    refine ⟨fun _ => invariant.cleared (owner ▸ rfl), fun _ => ⟨rfl, ?_⟩⟩
    simpa only [stopsOutsideRestart, owner, decide_eq_true_eq] using allowed
  | iocRestarted worker =>
    exact ⟨invariant.cleared, fun joining => absurd worker (invariant.kept joining).2⟩
  | gaveUp => exact ⟨fun _ => rfl, fun joining => ⟨(invariant.kept joining).1, by simp⟩⟩
  | iocReturned => exact invariant.worker rfl rfl (fun _ => rfl) (by simp)
  | runningTested | dropTested | reconnectionTested =>
    exact invariant.worker rfl rfl id fun stopped => by simp [stopped]
  | sessionCreated | sessionRun | retried | exhausted | slept | thrown =>
    exact invariant.worker rfl rfl id (by simp)

/-- In that window the worker is on its way to a new connection, whatever `Stop` does. -/
theorem joinBlocked_of_stop_at_restart {p : BaseProvider} {caller : StopCaller} (alive : p.terminated = false)
    (stops : p.owner = .stopIoc caller) (window : p.worker = .restartIoc) :
    ∃ q events, providerMachine.run p [.ownerStep, .workerStep, .workerStep, .workerStep] = some (q, events) ∧
      q.JoinBlocked := by
  cases p
  cases alive
  cases stops
  cases window
  exact ⟨_, _, rfl, rfl, rfl, rfl, Bool.or_true _⟩

end BaseProvider

/-- A stop that does not fall between the loop test and the restart stands
until the worker has ended. -/
theorem baseProvider_stopKept (p : BaseProvider) (history : List ProviderEvent)
    (reach : (providerMachine.restrict BaseProvider.stopsOutsideRestart).Reach p history) :
    p.StopKept ∧ ¬ p.JoinBlocked := by
  have invariant : p.StopInvariant := by
    refine reach.invariant (.of_not_stopping rfl) fun invariant step => ?_
    obtain ⟨allowed, step⟩ := Machine.step_restrict.mp step
    exact invariant.step allowed step
  refine ⟨fun joining => (invariant.kept joining).1, fun ⟨joining, _, runs, _⟩ => ?_⟩
  exact absurd (runs.symm.trans (invariant.kept joining).1) nofun

/-- The owner stops the provider while the worker is in `ioc.run()`. -/
def stopDuringRun : List ProviderAction :=
  [.start, .ownerStep, .workerStep, .workerStep, .workerStep, .workerStep, .connect, .stop, .ownerStep,
    .ownerStep]

/-- The state in which `Stop` joins a worker that is about to leave `ioc.run()`. -/
def stoppedDuringRun : BaseProvider where
  running := false
  joinable := true
  iocStopped := true
  iocWork := true
  wsSession := some ⟨true⟩
  reconnectCount := 0
  owner := .join .user
  worker := .runIoc
  terminated := false

theorem baseProvider_stopKept_duringRun : stoppedDuringRun.StopKept ∧ ¬ stoppedDuringRun.JoinBlocked := by
  have reached := Machine.Reach.start.run (M := providerMachine.restrict BaseProvider.stopsOutsideRestart)
    (rfl : Machine.run _ _ stopDuringRun = some (stoppedDuringRun, _))
  exact baseProvider_stopKept stoppedDuringRun _ reached

/-- The worker has passed the loop test when the owner stops the provider,
and clears the stop afterwards. -/
def stopBeforeRestart : List ProviderAction :=
  [.start, .ownerStep, .workerStep, .stop, .ownerStep, .ownerStep, .workerStep, .workerStep, .workerStep]

/-- The state in which `Stop` joins a worker that is in `ioc.run()` on a new connection. -/
def blockedAfterRestart : BaseProvider :=
  { stoppedDuringRun with iocStopped := false, wsSession := some ⟨false⟩ }

theorem baseProvider_not_stopKept :
    ∃ history, providerMachine.Reach blockedAfterRestart history ∧
      ¬ blockedAfterRestart.StopKept ∧ blockedAfterRestart.JoinBlocked := by
  have reached := Machine.Reach.start.run (M := providerMachine)
    (rfl : Machine.run _ _ stopBeforeRestart = some (blockedAfterRestart, _))
  exact ⟨_, reached, fun kept => absurd (kept rfl) nofun, rfl, rfl, rfl, rfl⟩

end ConsolidatedBook
