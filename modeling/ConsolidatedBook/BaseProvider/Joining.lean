import ConsolidatedBook.BaseProvider.StopRace

namespace ConsolidatedBook

/-- There is no thread, or `Run` has returned on it. -/
def WorkerPhase.ended : WorkerPhase → Bool
  | .absent | .finished => true
  | _ => false

namespace BaseProvider

/-- The thread is joined before `worker_thread` is assigned a new one, and
before it is destroyed. -/
structure JoinedInTime (p : BaseProvider) : Prop where
  alive : p.terminated = false
  assigned : p.owner = .assignThread → p.joinable = false
  destroyed : p.owner = .destroyMembers ∨ p.owner = .destroyed →
    p.joinable = false ∧ p.worker.ended = true

/-- `HandleReconnection` clears `running` only where `Stop` has cleared it already. -/
def givesUpAfterStop (p : BaseProvider) (action : ProviderAction) : Bool :=
  match p.worker, action with
  | .giveUp, .workerStep => !p.running
  | _, _ => true

/-- Outside `Start` and `Stop`, `running` is set exactly while there is a
thread to join. -/
structure JoinInvariant (p : BaseProvider) : Prop where
  alive : p.terminated = false
  ended : p.joinable = false → p.worker.ended = true
  idle : p.owner = .idle → p.joinable = p.running
  assigning : p.owner = .assignThread → p.joinable = false ∧ p.running = true
  stopping : p.owner.stopping = true → p.running = false
  destroying : p.owner = .destroyMembers ∨ p.owner = .destroyed → p.joinable = false

theorem JoinInvariant.joinedInTime {p : BaseProvider} (invariant : JoinInvariant p) : JoinedInTime p where
  alive := invariant.alive
  assigned assigning := (invariant.assigning assigning).1
  destroyed destroying :=
    have joined := invariant.destroying destroying
    ⟨joined, invariant.ended joined⟩

/-- A step of the worker, whose thread is there, that leaves the owner and
`running` alone. -/
theorem JoinInvariant.frame {p q : BaseProvider} (invariant : JoinInvariant p) (works : p.worker.ended = false)
    (owner : q.owner = p.owner) (joinable : q.joinable = p.joinable) (alive : q.terminated = p.terminated)
    (running : q.running = p.running) : JoinInvariant q where
  alive := alive.trans invariant.alive
  ended unjoined := absurd (invariant.ended (joinable.symm.trans unjoined)) (by rw [works]; nofun)
  idle := by simpa only [owner, joinable, running] using invariant.idle
  assigning := by simpa only [owner, joinable, running] using invariant.assigning
  stopping := by simpa only [owner, running] using invariant.stopping
  destroying := by simpa only [owner, joinable] using invariant.destroying

/-- While `Stop` has not returned, `running` is clear and the thread its to join. -/
theorem JoinInvariant.of_stopping {p : BaseProvider} (alive : p.terminated = false)
    (ended : p.joinable = false → p.worker.ended = true) (stopping : p.owner.stopping = true)
    (stopped : p.running = false) : JoinInvariant p := by
  refine ⟨alive, ended, ?_, ?_, fun _ => stopped, ?_⟩
  · intro idle
    rw [idle] at stopping
    cases stopping
  · intro assigning
    rw [assigning] at stopping
    cases stopping
  · rintro (destroying | destroyed)
    · rw [destroying] at stopping
      cases stopping
    · rw [destroyed] at stopping
      cases stopping

/-- `Stop` returns with `running` clear and the thread joined. -/
theorem JoinInvariant.afterStop {p : BaseProvider} (caller : StopCaller) (alive : p.terminated = false)
    (joined : p.joinable = false) (ended : p.worker.ended = true) (stopped : p.running = false) :
    JoinInvariant { p with owner := afterStop caller } where
  alive := alive
  ended _ := ended
  idle _ := joined.trans stopped.symm
  assigning assigning := by cases caller <;> cases assigning
  stopping stopping := absurd ((afterStop_not_stopping caller).symm.trans stopping) nofun
  destroying _ := joined

theorem JoinInvariant.step {p q : BaseProvider} {action : ProviderAction} {events : List ProviderEvent}
    (invariant : JoinInvariant p) (allowed : p.givesUpAfterStop action = true)
    (step : p.step action = some (q, events)) : JoinInvariant q := by
  cases step_move step with
  | startIgnored | connected => exact invariant
  | startCalled idle stopped =>
    have joined := (invariant.idle idle).trans stopped
    refine ⟨invariant.alive, invariant.ended, nofun, fun _ => ⟨joined, rfl⟩, nofun, ?_⟩
    rintro (never | never) <;> cases never
  | stopBegun => exact .of_stopping invariant.alive invariant.ended rfl rfl
  | @stopIgnored _ caller _ idle stopped =>
    have joined := (invariant.idle idle).trans stopped
    exact .afterStop caller invariant.alive joined (invariant.ended joined) stopped
  | terminated owner joinable =>
    have joined : p.joinable = false := by
      rcases owner with assigning | destroying
      · exact (invariant.assigning assigning).1
      · exact invariant.destroying (Or.inl destroying)
    cases joined.symm.trans joinable
  | threadAssigned assigning =>
    have running := (invariant.assigning assigning).2
    refine ⟨invariant.alive, nofun, fun _ => running.symm, nofun, nofun, ?_⟩
    rintro (never | never) <;> cases never
  | sessionStopped owner | iocStopped owner =>
    exact .of_stopping invariant.alive invariant.ended rfl (invariant.stopping (owner ▸ rfl))
  | @joined caller owner finished =>
    have ended : p.worker.ended = true := by
      rw [finished]
      rfl
    exact .afterStop (p := { p with joinable := false }) caller invariant.alive rfl ended
      (invariant.stopping (owner ▸ rfl))
  | @unjoined caller owner joined =>
    exact .afterStop caller invariant.alive joined (invariant.ended joined) (invariant.stopping (owner ▸ rfl))
  | destroyed owner joined => exact ⟨invariant.alive, invariant.ended, nofun, nofun, nofun, fun _ => joined⟩
  | gaveUp worker =>
    have before : p.running = false := by
      simpa only [givesUpAfterStop, worker, Bool.not_eq_true'] using allowed
    exact invariant.frame (worker ▸ rfl) rfl rfl rfl before.symm
  | thrown worker =>
    have works : p.worker.ended = false := by
      rcases worker with phase | phase | phase <;> rw [phase] <;> rfl
    exact invariant.frame works rfl rfl rfl rfl
  | runningTested worker | iocRestarted worker | sessionCreated worker | sessionRun worker | iocReturned worker
  | dropTested worker | reconnectionTested worker | retried worker | exhausted worker | slept worker
  | dropped worker => exact invariant.frame (worker ▸ rfl) rfl rfl rfl rfl

/-- Once it has given up by itself, neither `Start` nor the destructor is safe any more. -/
theorem terminated_of_giveUp {p : BaseProvider} (alive : p.terminated = false) (idle : p.owner = .idle)
    (givesUp : p.worker = .giveUp) (thread : p.joinable = true) :
    ∀ action ∈ [ProviderAction.start, .destroy], ∃ q events,
      providerMachine.run p [.workerStep, action, .ownerStep] = some (q, events) ∧ q.terminated = true := by
  cases p
  cases alive
  cases idle
  cases givesUp
  cases thread
  intro action either
  rcases List.mem_pair.mp either with rfl | rfl
  · exact ⟨_, _, rfl, rfl⟩
  · exact ⟨_, _, rfl, rfl⟩

end BaseProvider

/-- As long as the worker does not give up by itself, `Stop` has joined it
before it is replaced or destroyed, in whatever order the provider is
started, stopped and destroyed. -/
theorem baseProvider_joinedInTime (p : BaseProvider) (history : List ProviderEvent)
    (reach : (providerMachine.restrict BaseProvider.givesUpAfterStop).Reach p history) : p.JoinedInTime := by
  have invariant : p.JoinInvariant := by
    refine reach.invariant ?_ fun invariant step => ?_
    · exact ⟨rfl, fun _ => rfl, fun _ => rfl, nofun, nofun, fun _ => rfl⟩
    · obtain ⟨allowed, step⟩ := Machine.step_restrict.mp step
      exact invariant.step allowed step
  exact invariant.joinedInTime

/-- The provider is destroyed while the worker is in `ioc.run()`. -/
def destroyDuringRun : List ProviderAction :=
  [.start, .ownerStep, .workerStep, .workerStep, .workerStep, .workerStep, .connect, .destroy, .ownerStep,
    .ownerStep, .workerStep, .workerStep, .workerStep, .ownerStep]

/-- The state in which the destructor's `Stop` has returned. -/
def joinedByDestructor : BaseProvider where
  running := false
  joinable := false
  iocStopped := true
  iocWork := true
  wsSession := some ⟨true⟩
  reconnectCount := 0
  owner := .destroyMembers
  worker := .finished
  terminated := false

theorem baseProvider_joinedInTime_destroyDuringRun : joinedByDestructor.JoinedInTime := by
  have reached := Machine.Reach.start.run (M := providerMachine.restrict BaseProvider.givesUpAfterStop)
    (rfl : Machine.run _ _ destroyDuringRun = some (joinedByDestructor, _))
  exact baseProvider_joinedInTime joinedByDestructor _ reached

/-- One session that drops, from the loop test to the test of the attempt count. -/
def droppedSession : List ProviderAction :=
  List.replicate 4 .workerStep ++ .drop :: List.replicate 5 .workerStep

/-- The connection is lost eleven times, and the provider is destroyed after that. -/
def destroyAfterGiveUp : List ProviderAction :=
  [.start, .ownerStep] ++ (List.replicate 11 droppedSession).flatten ++ [.destroy, .ownerStep]

set_option maxRecDepth 4000 in
theorem baseProvider_not_joinedInTime :
    ∃ p history, providerMachine.run .init destroyAfterGiveUp = some (p, history) ∧ ¬ p.JoinedInTime :=
  ⟨_, _, rfl, fun joined => absurd joined.alive nofun⟩

end ConsolidatedBook
