import ConsolidatedBook.BaseProvider

namespace ConsolidatedBook

/-- For whom an action calls `Stop`. -/
def ProviderAction.stopCaller : ProviderAction → Option StopCaller
  | .stop => some .user
  | .destroy => some .destructor
  | _ => none

namespace BaseProvider

/-- Everything that one step of the provider can do, one case for each access
and each outcome of it. -/
inductive Move (p : BaseProvider) : ProviderAction → BaseProvider → List ProviderEvent → Prop
  | startIgnored : p.owner = .idle → p.running = true → Move p .start p []
  | startCalled : p.owner = .idle → p.running = false →
      Move p .start { p with running := true, owner := .assignThread } []
  | stopBegun {action caller} : action.stopCaller = some caller → p.owner = .idle → p.running = true →
      Move p action { p with running := false, owner := .stopSession caller } []
  | stopIgnored {action caller} : action.stopCaller = some caller → p.owner = .idle → p.running = false →
      Move p action { p with owner := afterStop caller } []
  | terminated : p.owner = .assignThread ∨ p.owner = .destroyMembers → p.joinable = true →
      Move p .ownerStep { p with terminated := true } []
  | threadAssigned : p.owner = .assignThread → p.joinable = false →
      Move p .ownerStep { p with joinable := true, worker := .testRunning, owner := .idle } []
  | sessionStopped {caller} : p.owner = .stopSession caller →
      Move p .ownerStep { p with
        wsSession := p.wsSession.map fun _ => ⟨true⟩
        owner := .stopIoc caller } []
  | iocStopped {caller} : p.owner = .stopIoc caller →
      Move p .ownerStep { p with iocStopped := true, owner := .join caller } []
  | joined {caller} : p.owner = .join caller → p.worker = .finished →
      Move p .ownerStep { p with joinable := false, owner := afterStop caller } []
  | unjoined {caller} : p.owner = .join caller → p.joinable = false →
      Move p .ownerStep { p with owner := afterStop caller } []
  | destroyed : p.owner = .destroyMembers → p.joinable = false → Move p .ownerStep { p with owner := .destroyed } []
  | runningTested : p.worker = .testRunning →
      Move p .workerStep { p with worker := if p.running then .restartIoc else .finished } []
  | iocRestarted : p.worker = .restartIoc →
      Move p .workerStep { p with iocStopped := false, worker := .createSession } []
  | sessionCreated : p.worker = .createSession →
      Move p .workerStep { p with wsSession := some ⟨false⟩, worker := .runSession } [.sessionCreated]
  | sessionRun : p.worker = .runSession →
      Move p .workerStep { p with
        iocWork := p.iocWork || p.wsSession.any fun session => !session.stopped
        worker := .runIoc } []
  | iocReturned : p.worker = .runIoc → p.iocStopped = true ∨ p.iocWork = false →
      Move p .workerStep { p with iocStopped := true, worker := .testDropped } []
  | dropTested : p.worker = .testDropped →
      Move p .workerStep { p with worker := if p.running then .handleReconnection else .testRunning } []
  | reconnectionTested : p.worker = .handleReconnection →
      Move p .workerStep { p with worker := if p.running then .countAttempt else .testRunning } []
  | retried : p.worker = .countAttempt → p.reconnectCount < maxReconnectAttempts →
      Move p .workerStep { p with reconnectCount := p.reconnectCount + 1, worker := .sleep }
        [.backoff (reconnectDelayMs (p.reconnectCount + 1))]
  | exhausted : p.worker = .countAttempt → maxReconnectAttempts ≤ p.reconnectCount →
      Move p .workerStep { p with reconnectCount := p.reconnectCount + 1, worker := .giveUp } []
  | gaveUp : p.worker = .giveUp → Move p .workerStep { p with running := false, worker := .testRunning } [.gaveUp]
  | slept : p.worker = .sleep → Move p .workerStep { p with worker := .testRunning } []
  | thrown : p.worker = .createSession ∨ p.worker = .runSession ∨ p.worker = .runIoc →
      Move p .throw { p with worker := .testDropped } []
  | connected : p.worker = .runIoc → Move p .connect p [.connected]
  | dropped : p.worker = .runIoc → Move p .drop { p with iocWork := false } []

variable {p q : BaseProvider} {events : List ProviderEvent}

theorem callStop_move {action : ProviderAction} {caller : StopCaller} (calls : action.stopCaller = some caller)
    (idle : p.owner = .idle) : p.Move action (p.callStop caller) [] := by
  unfold callStop
  split
  · rename_i running
    exact .stopBegun calls idle running
  · rename_i stopped
    exact .stopIgnored calls idle (Bool.eq_false_iff.mpr stopped)

theorem ownerStep_move (step : p.ownerStep = some q) : p.Move .ownerStep q [] := by
  unfold ownerStep at step
  cases at_ : p.owner <;> simp only [at_] at step
  case idle => cases step
  case destroyed => cases step
  case assignThread =>
    split at step <;> cases step
    · rename_i joinable
      rw [← at_]
      exact .terminated (Or.inl at_) joinable
    · rename_i unjoined
      exact .threadAssigned at_ (Bool.eq_false_iff.mpr unjoined)
  case stopSession caller =>
    cases step
    exact .sessionStopped at_
  case stopIoc caller =>
    cases step
    exact .iocStopped at_
  case join caller =>
    split at step
    · split at step <;> cases step
      rename_i finished
      exact .joined at_ finished
    · rename_i unjoined
      cases step
      exact .unjoined at_ (Bool.eq_false_iff.mpr unjoined)
  case destroyMembers =>
    split at step <;> cases step
    · rename_i joinable
      rw [← at_]
      exact .terminated (Or.inr at_) joinable
    · rename_i unjoined
      exact .destroyed at_ (Bool.eq_false_iff.mpr unjoined)

theorem workerStep_move (step : p.workerStep = some (q, events)) : p.Move .workerStep q events := by
  unfold workerStep at step
  cases at_ : p.worker <;> simp only [at_] at step
  case absent => cases step
  case finished => cases step
  case testRunning =>
    cases step
    exact .runningTested at_
  case restartIoc =>
    cases step
    exact .iocRestarted at_
  case createSession =>
    cases step
    exact .sessionCreated at_
  case runSession =>
    cases step
    exact .sessionRun at_
  case runIoc =>
    split at step
    · rename_i stopped
      cases step
      have returned := Move.iocReturned at_ (Or.inl stopped)
      rwa [← stopped] at returned
    · split at step <;> cases step
      rename_i idle
      exact .iocReturned at_ (Or.inr (Bool.eq_false_iff.mpr idle))
  case testDropped =>
    cases step
    exact .dropTested at_
  case handleReconnection =>
    cases step
    exact .reconnectionTested at_
  case countAttempt =>
    split at step <;> cases step
    · rename_i beyond
      exact .exhausted at_ (Nat.lt_succ_iff.mp beyond)
    · rename_i within
      exact .retried at_ (Nat.lt_of_succ_le (Nat.le_of_not_lt within))
  case giveUp =>
    cases step
    exact .gaveUp at_
  case sleep =>
    cases step
    exact .slept at_

theorem throw_move (step : p.throw = some q) : p.Move .throw q [] := by
  unfold throw at step
  cases at_ : p.worker <;> simp only [at_] at step <;> cases step
  all_goals exact .thrown (by simp [at_])

theorem step_move {action : ProviderAction} (step : p.step action = some (q, events)) : p.Move action q events := by
  unfold BaseProvider.step at step
  split at step
  · cases step
  cases action <;> simp only at step
  case start =>
    split at step <;> cases step
    rename_i idle
    split
    · rename_i running
      exact .startIgnored idle running
    · rename_i stopped
      exact .startCalled idle (Bool.eq_false_iff.mpr stopped)
  case stop =>
    split at step <;> cases step
    rename_i idle
    exact callStop_move rfl idle
  case destroy =>
    split at step <;> cases step
    rename_i idle
    exact callStop_move rfl idle
  case ownerStep =>
    obtain ⟨next, moved, same⟩ := Option.map_eq_some_iff.mp step
    cases same
    exact ownerStep_move moved
  case workerStep => exact workerStep_move step
  case throw =>
    obtain ⟨next, thrown, same⟩ := Option.map_eq_some_iff.mp step
    cases same
    exact throw_move thrown
  case connect =>
    split at step <;> cases step
    rename_i runs
    simp only [handlerRuns, Bool.and_eq_true, decide_eq_true_eq] at runs
    exact .connected runs.1.1
  case drop =>
    split at step <;> cases step
    rename_i runs
    simp only [handlerRuns, Bool.and_eq_true, decide_eq_true_eq] at runs
    exact .dropped runs.1.1

end BaseProvider

end ConsolidatedBook
