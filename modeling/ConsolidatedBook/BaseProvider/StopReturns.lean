import ConsolidatedBook.BaseProvider.Handlers

namespace ConsolidatedBook

/-- How many accesses the worker has left with `running` clear and the
`io_context` stopped, those inside a session that it has made already left out. -/
def WorkerPhase.stepsLeft : WorkerPhase → Nat
  | .absent | .restartIoc | .finished => 0
  | .testRunning => 1
  | .testDropped | .handleReconnection | .giveUp | .sleep => 2
  | .countAttempt | .runSession | .runIoc => 3
  | .createSession => 7

namespace SessionPhase

/-- How many accesses are left in `Run` or in the handler that runs. -/
def stepsLeft : SessionPhase → Nat
  | .created | .tests _ _ => 3
  | .testsRun _ _ _ | .past _ _ => 2
  | .pastRun _ _ _ | .inCallback => 1
  | .waits _ | .ended => 0

/-- How many calls of the callback are left in the handler that runs. -/
def callsLeft : SessionPhase → Nat
  | .tests .read _ | .past .read _ => 1
  | _ => 0

theorem stepsLeft_le (phase : SessionPhase) : phase.stepsLeft ≤ 3 := by
  cases phase <;> simp [stepsLeft]

theorem callsLeft_le (phase : SessionPhase) : phase.callsLeft ≤ 1 := by
  unfold callsLeft
  split <;> omega

theorem callsLeft_of_idle {phase : SessionPhase} (idle : phase.inHandler = false) : phase.callsLeft = 0 := by
  cases phase <;> first | rfl | cases idle

end SessionPhase

namespace WebSocketSessionSSL

variable {s t : WebSocketSessionSSL} {events : List SessionEvent}

theorem handlerStep_stepsLeft {sniError : Option String} (step : s.handlerStep sniError = some (t, events)) :
    t.phase.stepsLeft < s.phase.stepsLeft := by
  cases at_ : s.phase with
  | created | waits | ended =>
    simp only [handlerStep, at_] at step
    cases step
  | testsRun | tests =>
    simp only [handlerStep, at_] at step
    cases step
    cases s.stopped <;> simp [SessionPhase.stepsLeft]
  | pastRun | inCallback =>
    simp only [handlerStep, at_] at step
    cases step
    exact Nat.zero_lt_one
  | past op bytes =>
    cases op with
    | resolve | sslHandshake | handshake =>
      simp only [handlerStep, at_] at step
      cases step
      exact Nat.zero_lt_two
    | connect =>
      simp only [handlerStep, at_] at step
      cases sniError <;> cases step <;> exact Nat.zero_lt_two
    | read =>
      simp only [handlerStep, at_, onReadRest, Option.some.injEq] at step
      split at step <;> cases step
      · exact Nat.one_lt_two
      · exact Nat.zero_lt_two

/-- What the worker does inside a handler uses up what is left there. -/
theorem step_stepsLeft (inside : s.phase.inHandler = true) {action : SessionAction} (handler : action.ofHandler = true)
    (step : s.step action = some (t, events)) : t.phase.stepsLeft < s.phase.stepsLeft := by
  cases action with
  | step => exact handlerStep_stepsLeft step
  | throw =>
    simp only [WebSocketSessionSSL.step] at step
    split at step <;> cases step
    rename_i at_
    rw [at_]
    exact Nat.zero_lt_one
  | succeed | receive | fails =>
    simp only [WebSocketSessionSSL.step] at step
    split at step <;> rename_i at_ <;> first | (rw [at_] at inside; cases inside) | cases step
  | run | stop | close => cases handler

/-- Where no operation ends, the callback is called from the read that is handled at most. -/
theorem Move.callsLeft (busy : ∀ op, s.phase ≠ .waits op) (move : s.Move t events) :
    (ConsolidatedBook.delivered events).length + t.phase.callsLeft ≤ s.phase.callsLeft := by
  cases move with
  | succeeded at_ | received at_ | failed at_ | closed at_ => exact absurd at_ (busy _)
  | runCalled at_ | runStopped at_ | runTested at_ | resolving at_ | stopped at_ | connecting at_ | sniFailed at_
  | sslHandshaking at_ | handshaking at_ | connected at_ | passedOver at_ | returned at_ | threw at_ =>
    exact Nat.zero_le _
  | @tested op bytes at_ =>
    rw [at_]
    cases op <;> exact Nat.le_refl _
  | delivered at_ =>
    rw [at_]
    exact Nat.le_refl _
  | stopCalled => exact (Nat.zero_add _).le
  | closeReturned _ fails =>
    have noDelivery : ConsolidatedBook.delivered events = [] := filterMap_close fails fun _ => rfl
    rw [noDelivery]
    exact (Nat.zero_add _).le

/-- A handler that runs has an access to make. -/
theorem step_isSome (inside : s.phase.inRun = true ∨ s.phase.inHandler = true) : (s.step (.step none)).isSome := by
  cases at_ : s.phase with
  | created | waits | ended => rw [at_] at inside; simp [SessionPhase.inRun, SessionPhase.inHandler] at inside
  | past op bytes => cases op <;> simp [WebSocketSessionSSL.step, handlerStep, at_]
  | _ => simp [WebSocketSessionSSL.step, handlerStep, at_]

end WebSocketSessionSSL

namespace BaseProvider

variable {p q : BaseProvider} {events : List ProviderEvent} {action : ProviderAction}

/-- An access of the worker outside its session, with `running` clear and no restart ahead. -/
theorem Move.stepsLeft (stopped : p.running = false) (byWorker : action = .workerStep ∨ action = .throw)
    (notRestart : p.worker ≠ .restartIoc)
    (notRun : action = .workerStep → p.worker ≠ .createSession ∧ p.worker ≠ .runSession)
    (move : p.Move action q events) :
    q.owner = p.owner ∧ q.worker ≠ .runSession ∧ q.worker ≠ .runIoc ∧ q.worker.stepsLeft < p.worker.stepsLeft := by
  cases move with
  | stopBegun calls | stopIgnored calls => rcases byWorker with rfl | rfl <;> cases calls
  | iocRestarted worker => exact absurd worker notRestart
  | sessionCreated worker => exact absurd worker (notRun rfl).1
  | sessionRun worker => exact absurd worker (notRun rfl).2
  | runningTested worker | dropTested worker | reconnectionTested worker | iocReturned worker | retried worker
  | exhausted worker | gaveUp worker | slept worker => simp [worker, stopped, WorkerPhase.stepsLeft]
  | thrown worker => rcases worker with worker | worker | worker <;> simp [worker, WorkerPhase.stepsLeft]
  | _ => simp at byWorker

end BaseProvider

namespace ProviderSystem

variable {endpoint : Endpoint} {s t : ProviderSystem} {history events : List SystemEvent} {action : SystemAction}

/-- `ioc.stop()` is not executed while the worker stands between the loop test and `ioc.restart()`. -/
def stopsOutsideRestart (s : ProviderSystem) : SystemAction → Bool
  | .provider action => s.summary.stopsOutsideRestart action
  | .session _ _ => true

theorem stopInvariant_move (inv : s.summary.StopInvariant) (close : s.CloseInvariant)
    (allowed : s.stopsOutsideRestart action = true) (move : s.Move endpoint action t events) :
    t.summary.StopInvariant := by
  cases move with
  | own plain step =>
    obtain ⟨cleared, kept⟩ := inv.step allowed step
    exact ⟨cleared, kept⟩
  | sessionCreated | threw => exact inv.worker rfl rfl id (by simp [summary])
  | runCalled | inIoc | stopCalled => exact ⟨inv.cleared, inv.kept⟩
  | inRun worker found =>
    rw [afterRun_set found]
    refine inv.worker rfl rfl id fun _ => ?_
    change (if _ then s.worker else .runIoc) ≠ _
    rw [worker]
    split <;> simp
  | closeReturned found closing =>
    obtain ⟨caller, owner⟩ := close.owner found closing
    have off : s.running = false := inv.cleared (by change s.owner.stopping = true; rw [owner]; rfl)
    simp only [afterClose, owner]
    exact ⟨fun _ => off, fun joining => by cases joining⟩

theorem stopInvariant_ofReach (reach : ((providerSystem endpoint).restrict stopsOutsideRestart).Reach s history) :
    s.summary.StopInvariant := by
  induction reach with
  | start => exact .of_not_stopping rfl
  | next before step ih =>
    obtain ⟨allowed, taken⟩ := Machine.step_restrict.mp step
    exact stopInvariant_move ih (.ofReach before.unrestrict) allowed (step_move taken)

/-- What the worker finds while `Stop` waits in `join`. -/
theorem stopped_of_join (stop : s.summary.StopInvariant) {caller : StopCaller} (joining : s.owner = .join caller) :
    s.running = false ∧ s.iocStopped = true ∧ s.worker ≠ .restartIoc := by
  have joins : s.summary.owner.joining = true := by
    change s.owner.joining = true
    rw [joining]
    rfl
  exact ⟨stop.cleared (OwnerPhase.stopping_of_joining joins), stop.kept joins⟩

/-- The worker has `left` accesses left at most, once the stop of the `io_context` stands. -/
structure Within (s : ProviderSystem) (left : Nat) : Prop where
  worker : s.worker.stepsLeft ≤ left
  run {session : WebSocketSessionSSL} : s.worker = .runSession → s.sessions[s.current]? = some session →
    3 + session.phase.stepsLeft ≤ left
  handler {i : Nat} {session : WebSocketSessionSSL} : s.worker = .runIoc → s.sessions[i]? = some session →
    session.phase.inHandler = true → 3 + session.phase.stepsLeft ≤ left

/-- With the worker outside its session only the worker's own accesses are left. -/
theorem Within.outside {left : Nat} (notRun : s.worker ≠ .runSession)
    (idle : s.worker = .runIoc → ∀ session ∈ s.sessions, session.phase.inHandler = false)
    (steps : s.worker.stepsLeft ≤ left) : s.Within left where
  worker := steps
  run running := absurd running notRun
  handler ioc found inside := by cases (idle ioc _ (List.mem_of_getElem? found)).symm.trans inside

theorem Within.own {left : Nat} (within : s.Within left) (stop : s.summary.StopInvariant) {caller : StopCaller}
    (joining : s.owner = .join caller) {action : ProviderAction} (other : action ≠ .ownerStep)
    (plain : s.plain action) {q : BaseProvider} {observed : List ProviderEvent}
    (step : s.summary.step action = some (q, observed)) :
    q.owner = .join caller ∧ ∃ rest, rest < left ∧ (s.withProvider q).Within rest := by
  have move := BaseProvider.step_move step
  obtain ⟨stopped, _, notRestart⟩ := stopped_of_join stop joining
  have worker : action = .workerStep ∨ action = .throw := by
    cases action with
    | workerStep => exact Or.inl rfl
    | throw => exact Or.inr rfl
    | connect | drop => exact plain.elim
    | ownerStep => exact absurd rfl other
    | start | stop | destroy =>
      have idle : s.owner = .idle := (move.byOwner rfl).1 (by simp)
      cases joining.symm.trans idle
  have notRun (steps : action = .workerStep) : s.worker ≠ .createSession ∧ s.worker ≠ .runSession := by
    subst steps
    exact ⟨plain.1, plain.2.1⟩
  obtain ⟨owner, notRun', notIoc, fewer⟩ := move.stepsLeft stopped worker notRestart notRun
  refine ⟨owner.trans joining, q.worker.stepsLeft, ?_, .outside notRun' (fun ioc => absurd ioc notIoc) ?_⟩
  · exact Nat.lt_of_lt_of_le fewer within.worker
  · exact Nat.le_refl _

theorem Within.sessionCreated {left : Nat} (within : s.Within left) (worker : s.worker = .createSession)
    (moved : t = { s with sessions := s.sessions ++ [.init true], worker := .runSession }) :
    ∃ rest, rest < left ∧ t.Within rest := by
  have steps := within.worker
  rw [worker] at steps
  subst moved
  refine ⟨6, steps, ?_, fun {session} _ _ => ?_, fun ioc => ?_⟩
  · exact Nat.le_add_left 3 3
  · have few := session.phase.stepsLeft_le
    omega
  · cases ioc

theorem Within.runCalled {left : Nat} (within : s.Within left) (worker : s.worker = .runSession)
    {session : WebSocketSessionSSL} (found : s.sessions[s.current]? = some session)
    (created : session.phase = .created) {next : WebSocketSessionSSL} (few : next.phase.stepsLeft ≤ 2)
    (moved : t = { s with sessions := s.sessions.set s.current next }) : ∃ rest, rest < left ∧ t.Within rest := by
  have sessions : t.sessions = s.sessions.set s.current next := by rw [moved]
  have same : t.worker = s.worker := by rw [moved]
  have steps := within.run worker found
  rw [created] at steps
  refine ⟨5, steps, ?_, fun _ here => ?_, fun ioc => ?_⟩
  · rw [same, worker]
    exact Nat.le_add_left 3 2
  · rw [current_set sessions, sessions] at here
    rcases getElem?_set_cases here with ⟨_, rfl⟩ | ⟨differs, _⟩
    · omega
    · exact absurd rfl differs
  · rw [same, worker] at ioc
    cases ioc

theorem Within.inRun {left : Nat} (within : s.Within left) (inv : s.HandlerInvariant) (worker : s.worker = .runSession)
    {session next : WebSocketSessionSSL} (found : s.sessions[s.current]? = some session)
    (fewer : next.phase.stepsLeft < session.phase.stepsLeft) (idle : next.phase.inHandler = false)
    (moved : t = afterRun { s with sessions := s.sessions.set s.current next }) :
    ∃ rest, rest < left ∧ t.Within rest := by
  rw [afterRun_set found] at moved
  have sessions : t.sessions = s.sessions.set s.current next := by rw [moved]
  have steps := within.run worker found
  refine ⟨3 + next.phase.stepsLeft, by omega, ?_, fun _ here => ?_, fun _ here inside => ?_⟩
  · rw [moved]
    change (if _ then s.worker else .runIoc).stepsLeft ≤ _
    rw [worker]
    split <;> exact Nat.le_add_right 3 _
  · rw [current_set sessions, sessions] at here
    rcases getElem?_set_cases here with ⟨_, rfl⟩ | ⟨differs, _⟩
    · exact Nat.le_refl _
    · exact absurd rfl differs
  · rw [sessions] at here
    rcases getElem?_set_cases here with ⟨_, rfl⟩ | ⟨_, old⟩
    · cases idle.symm.trans inside
    · cases (inv.outside (by simp [worker]) old).symm.trans inside

theorem Within.inIoc {left : Nat} (within : s.Within left) (inv : s.HandlerInvariant) (worker : s.worker = .runIoc)
    {i : Nat} {session next : WebSocketSessionSSL} (found : s.sessions[i]? = some session)
    (inside : session.phase.inHandler = true) (fewer : next.phase.stepsLeft < session.phase.stepsLeft)
    (moved : t = { s with sessions := s.sessions.set i next }) : ∃ rest, rest < left ∧ t.Within rest := by
  have sessions : t.sessions = s.sessions.set i next := by rw [moved]
  have same : t.worker = .runIoc := by rw [moved]; exact worker
  have steps := within.handler worker found inside
  refine ⟨3 + next.phase.stepsLeft, by omega, ?_, fun running => ?_, fun _ here inside' => ?_⟩
  · rw [same]
    exact Nat.le_add_right 3 _
  · cases same.symm.trans running
  · rw [sessions] at here
    rcases getElem?_set_cases here with ⟨_, rfl⟩ | ⟨differs, old⟩
    · exact Nat.le_refl _
    · exact absurd (inv.one old found inside' inside) differs

/-- The handler that runs calls `OnMessage` `budget` times more at most. -/
def Calls (s : ProviderSystem) (budget : Nat) : Prop :=
  ∀ (i : Nat) (session : WebSocketSessionSSL), s.sessions[i]? = some session → session.phase.callsLeft ≤ budget

/-- A step of one session, in which no operation of it ends. -/
theorem Calls.set {budget : Nat} (calls : s.Calls budget) (inv : s.HandlerInvariant) {i : Nat}
    {session next : WebSocketSessionSSL} (found : s.sessions[i]? = some session)
    (sessions : t.sessions = s.sessions.set i next) (observed : List SessionEvent)
    (uses : (delivered observed).length + next.phase.callsLeft ≤ session.phase.callsLeft) :
    ∃ rest, (onMessages (observed.map (.session i))).length + rest ≤ budget ∧ t.Calls rest := by
  have enough := calls i session found
  rw [onMessages_session]
  refine ⟨budget - (delivered observed).length, by omega, fun j other here => ?_⟩
  rw [sessions] at here
  rcases getElem?_set_cases here with ⟨rfl, rfl⟩ | ⟨differs, old⟩
  · omega
  · have few := calls j other old
    by_cases silent : (delivered observed).length = 0
    · omega
    · -- The handler of `i` calls back, so that no other one runs.
      have idle : other.phase.inHandler = false := by
        by_contra inside
        rw [Bool.not_eq_false] at inside
        have inside' : session.phase.inHandler = true := by
          by_contra idle
          have none := SessionPhase.callsLeft_of_idle (Bool.eq_false_iff.mpr idle)
          omega
        exact differs (inv.one old found inside inside')
      have none := SessionPhase.callsLeft_of_idle idle
      omega

theorem within_seven (s : ProviderSystem) : s.Within 7 where
  worker := by cases s.worker <;> simp [WorkerPhase.stepsLeft]
  run {session} _ _ := by
    have few := session.phase.stepsLeft_le
    omega
  handler {_ session} _ _ _ := by
    have few := session.phase.stepsLeft_le
    omega

/-- Every step of the system while `Stop` waits in `join` is one of the accesses that the worker has left. -/
theorem waiting_step {left budget : Nat} (within : s.Within left) (calls : s.Calls budget) (inv : s.HandlerInvariant)
    (close : s.CloseInvariant) (stop : s.summary.StopInvariant) {caller : StopCaller}
    (joining : s.owner = .join caller) (other : action ≠ .provider .ownerStep)
    (move : s.Move endpoint action t events) :
    t.owner = .join caller ∧ (∃ rest, rest < left ∧ t.Within rest) ∧
      ∃ rest, (onMessages events).length + rest ≤ budget ∧ t.Calls rest := by
  cases move with
  | own plain step =>
    obtain ⟨joining', fewer⟩ := within.own stop joining (fun same => other (congrArg _ same)) plain step
    refine ⟨joining', fewer, budget, ?_, calls⟩
    rw [onMessages_provider]
    exact (Nat.zero_add _).le
  | sessionCreated worker =>
    refine ⟨joining, within.sessionCreated worker rfl, budget, (Nat.zero_add _).le, fun i session here => ?_⟩
    rcases getElem?_concat_cases here with old | ⟨_, rfl⟩
    · exact calls i session old
    · exact Nat.zero_le _
  | runCalled worker found created =>
    have few : (SessionPhase.testsRun endpoint.host endpoint.port endpoint.path).stepsLeft ≤ 2 := Nat.le_refl 2
    exact ⟨joining, within.runCalled worker found created few rfl, calls.set inv found rfl [_] (Nat.zero_le _)⟩
  | @inRun session next _ observed worker found inRun step =>
    refine ⟨(afterRun_owner _).trans joining, ?_, calls.set inv found (afterRun_sessions _) observed ?_⟩
    · have fewer := WebSocketSessionSSL.handlerStep_stepsLeft step
      exact within.inRun inv worker found fewer (WebSocketSessionSSL.step_inRun inRun step) rfl
    · refine (WebSocketSessionSSL.step_move step).callsLeft fun op waits => ?_
      rw [waits] at inRun
      cases inRun
  | @inIoc i session next action observed worker found handler pending calls' step =>
    have inside : session.phase.inHandler = true := by
      by_contra idle
      have ioc := (stopped_of_join stop joining).2.1
      cases ioc.symm.trans (calls' (Bool.eq_false_iff.mpr idle)).1
    have fewer := WebSocketSessionSSL.step_stepsLeft inside handler step
    refine ⟨joining, within.inIoc inv worker found inside fewer rfl, calls.set inv found rfl observed ?_⟩
    refine (WebSocketSessionSSL.step_move step).callsLeft fun op waits => ?_
    rw [waits] at inside
    cases inside
  | @threw i session worker found inCallback =>
    have inside : session.phase.inHandler = true := by rw [inCallback]; rfl
    have steps := within.handler worker found inside
    refine ⟨joining, ⟨2, by omega, .outside ?_ (fun ioc => ?_) (Nat.le_refl _)⟩, ?_⟩
    · intro running
      cases running
    · cases ioc
    · exact calls.set inv found rfl [] (Nat.zero_le _)
  | stopCalled => exact absurd rfl other
  | closeReturned found closing step =>
    obtain ⟨caller', owner⟩ := close.owner found closing
    cases joining.symm.trans owner

theorem waiting_run (reach : ((providerSystem endpoint).restrict stopsOutsideRestart).Reach s history)
    {caller : StopCaller} (joining : s.owner = .join caller) {left budget : Nat} (within : s.Within left)
    (calls : s.Calls budget)
    {schedule : List SystemAction} (others : ∀ action ∈ schedule, action ≠ .provider .ownerStep)
    (run : (providerSystem endpoint).run s schedule = some (t, events)) :
    ((providerSystem endpoint).restrict stopsOutsideRestart).Reach t (history ++ events) ∧ t.owner = .join caller ∧
      schedule.length ≤ left ∧ (onMessages events).length ≤ budget := by
  induction schedule generalizing s history left budget events with
  | nil =>
    cases Option.some.inj run
    rw [List.append_nil]
    exact ⟨reach, joining, Nat.zero_le _, Nat.zero_le _⟩
  | cons action schedule ih =>
    obtain ⟨⟨u, first⟩, step, run⟩ := Option.bind_eq_some_iff.mp run
    obtain ⟨⟨v, rest⟩, later, same⟩ := Option.map_eq_some_iff.mp run
    cases same
    have literal := reach.unrestrict
    have allowed : s.stopsOutsideRestart action = true := by
      cases action with
      | provider => simp [stopsOutsideRestart, BaseProvider.stopsOutsideRestart, summary, joining]
      | session => rfl
    obtain ⟨joining', ⟨fewer, less, within'⟩, budget', called, calls'⟩ :=
      waiting_step within calls (.ofReach literal) (.ofReach literal) (stopInvariant_ofReach reach) joining
        (others action (List.mem_cons_self ..)) (step_move step)
    obtain ⟨reach', joining'', steps, called'⟩ :=
      ih (reach.next (Machine.step_restrict.mpr ⟨allowed, step⟩)) joining' within' calls'
        (fun next member => others next (List.mem_cons_of_mem _ member)) later
    rw [List.append_assoc] at reach'
    refine ⟨reach', joining'', ?_, ?_⟩
    · rw [List.length_cons]
      omega
    · rw [onMessages_append, List.length_append]
      omega

/-- The next access of the owner while it waits in `join`. -/
theorem join_step (endpoint : Endpoint) {caller : StopCaller} (joining : s.owner = .join caller)
    (alive : s.terminated = false) (idle : s.worker = .finished ∨ s.joinable = false) :
    ∃ u, (providerSystem endpoint).step s (.provider .ownerStep) = some (u, []) ∧
      u.owner = BaseProvider.afterStop caller ∧ u.joinable = false ∧ u.worker = s.worker := by
  have returns : ∃ q, s.summary.step .ownerStep = some (q, []) ∧ q.owner = BaseProvider.afterStop caller ∧
      q.joinable = false ∧ q.worker = s.worker := by
    cases joinable : s.joinable with
    | true =>
      have finished := idle.resolve_right (by simp [joinable])
      simp [BaseProvider.step, BaseProvider.ownerStep, summary, alive, joining, joinable, finished]
    | false => simp [BaseProvider.step, BaseProvider.ownerStep, summary, alive, joining, joinable]
  obtain ⟨q, step, owner, joined, worker⟩ := returns
  refine ⟨s.withProvider q, ?_, owner, joined, worker⟩
  simp only [providerSystem, ProviderSystem.step, alive, Bool.false_eq_true, if_false, ownerStep, joining, own, step]
  rfl

/-- Inside its session the worker is never stuck. -/
theorem access_isSome {i : Nat} {session : WebSocketSessionSSL} (found : s.sessions[i]? = some session)
    {action : SessionAction} (enabled : (session.step action).isSome) : (s.access i action).isSome := by
  unfold access
  rw [found, Option.bind_some, Option.isSome_map]
  exact enabled

/-- Outside its session and `ioc.run()` the worker is never stuck before it has ended. -/
theorem workerStep_isSome (works : s.worker.ended = false) (notRun : s.worker ≠ .runSession)
    (notIoc : s.worker = .runIoc → s.handles = false ∧ s.iocStopped = true) (alive : s.terminated = false) :
    ((providerSystem endpoint).step s (.provider .workerStep)).isSome := by
  cases worker : s.worker with
  | absent | finished =>
    rw [worker] at works
    cases works
  | runSession => exact absurd worker notRun
  | runIoc =>
    obtain ⟨free, stopped⟩ := notIoc worker
    simp [providerSystem, ProviderSystem.step, alive, workerStep, worker, free, own, BaseProvider.step,
      BaseProvider.workerStep, summary, stopped]
  | countAttempt =>
    simp only [providerSystem, ProviderSystem.step, alive, workerStep, worker, own, BaseProvider.step,
      BaseProvider.workerStep, summary, Bool.false_eq_true, if_false]
    split <;> rfl
  | _ =>
    simp [providerSystem, ProviderSystem.step, alive, workerStep, worker, own, BaseProvider.step,
      BaseProvider.workerStep, summary]

/-- While `Stop` waits in `join`, either it returns or the worker has an access to make. -/
theorem waiting_enabled (endpoint : Endpoint) (inv : s.HandlerInvariant) (thread : s.summary.ThreadInvariant)
    (stop : s.summary.StopInvariant)
    {caller : StopCaller} (joining : s.owner = .join caller) :
    (∃ action, action ≠ .provider .ownerStep ∧ ((providerSystem endpoint).step s action).isSome) ∨
      ∃ u, (providerSystem endpoint).step s (.provider .ownerStep) = some (u, []) ∧
        u.owner = BaseProvider.afterStop caller ∧ u.joinable = false ∧ u.worker.ended = true := by
  have alive : s.terminated = false := by
    by_contra dead
    rcases thread.dead (Bool.not_eq_false _ ▸ dead) with owner | owner <;> cases joining.symm.trans owner
  cases ended : s.worker.ended with
  | true =>
    have idle : s.worker = .finished ∨ s.joinable = false := by
      cases worker : s.worker <;> rw [worker] at ended <;>
        first | exact Or.inl rfl | exact Or.inr (thread.absent worker) | cases ended
    obtain ⟨u, step, owner, joined, same⟩ := join_step endpoint joining alive idle
    exact Or.inr ⟨u, step, owner, joined, same ▸ ended⟩
  | false =>
    by_cases running : s.worker = .runSession
    · obtain ⟨session, found, created | inRun⟩ := inv.run running
      · refine Or.inl ⟨.provider .workerStep, by simp, ?_⟩
        have runs := WebSocketSessionSSL.step_run created endpoint.host endpoint.port endpoint.path
        have enabled := access_isSome found (congrArg Option.isSome runs)
        simpa [providerSystem, ProviderSystem.step, alive, workerStep, running] using enabled
      · refine Or.inl ⟨.session s.current (.step none), by simp, ?_⟩
        have enabled := access_isSome found (WebSocketSessionSSL.step_isSome (Or.inl inRun))
        simpa [providerSystem, ProviderSystem.step, alive, sessionStep, insideStep, running, found, inRun] using enabled
    · cases handles : s.handles with
      | false =>
        refine Or.inl ⟨.provider .workerStep, by simp, ?_⟩
        have ioc := (stopped_of_join stop joining).2.1
        exact workerStep_isSome ended running (fun _ => ⟨handles, ioc⟩) alive
      | true =>
        obtain ⟨session, member, inside⟩ := List.any_eq_true.mp handles
        obtain ⟨i, found⟩ := List.mem_iff_getElem?.mp member
        have worker : s.worker = .runIoc := by
          by_contra outside
          cases (inv.outside outside found).symm.trans inside
        refine Or.inl ⟨.session i (.step none), by simp, ?_⟩
        have enabled := access_isSome found (WebSocketSessionSSL.step_isSome (Or.inr inside))
        simpa [providerSystem, ProviderSystem.step, alive, sessionStep, insideStep, worker, found, inside] using enabled

end ProviderSystem

/-- As long as `ioc.stop()` does not fall between the loop test and the
restart, the user's `Stop` returns from its `join`: whatever the network and the
handlers do, seven accesses more at most are made and `OnMessage` is called once
more at most, the worker is never stuck before it has ended, and then `join`
returns. Of the destructor's `Stop` nothing is said, as a handler that calls
`OnMessage` meanwhile finds it pure virtual. -/
theorem providerSystem_stopReturns {endpoint : Endpoint} {s t : ProviderSystem} {history events : List SystemEvent}
    (reach : ((providerSystem endpoint).restrict ProviderSystem.stopsOutsideRestart).Reach s history)
    (joining : s.owner = .join .user) {schedule : List SystemAction}
    (others : ∀ action ∈ schedule, action ≠ .provider .ownerStep)
    (run : (providerSystem endpoint).run s schedule = some (t, events)) :
    schedule.length ≤ 7 ∧ (onMessages events).length ≤ 1 ∧
      ((∃ action, action ≠ .provider .ownerStep ∧ ((providerSystem endpoint).step t action).isSome) ∨
        ∃ u, (providerSystem endpoint).step t (.provider .ownerStep) = some (u, []) ∧
          u.owner = .idle ∧ u.joinable = false ∧ u.worker.ended = true) := by
  have calls : s.Calls 1 := fun _ session _ => session.phase.callsLeft_le
  obtain ⟨reach', joining', steps, called⟩ :=
    ProviderSystem.waiting_run reach joining s.within_seven calls others run
  have literal := reach'.unrestrict
  have enabled := ProviderSystem.waiting_enabled endpoint (.ofReach literal)
    (ProviderSystem.threadInvariant_ofReach literal) (ProviderSystem.stopInvariant_ofReach reach') joining'
  exact ⟨steps, called, enabled⟩

/-- `Stop` is called while `OnRead` is about to call `OnMessage` with a second message. -/
def stopInRead : List SystemAction :=
  oneSession ++ (receives 0 [49]).take 2 ++ [.provider .stop, .provider .ownerStep, .session 0 (.close none),
    .provider .ownerStep]

/-- `OnMessage` is called, returns, and `ioc.run()` and the worker after it. -/
def afterStopInRead : List SystemAction :=
  [.session 0 (.step none), .session 0 (.step none)] ++ [.workerStep, .workerStep, .workerStep].map .provider

theorem providerSystem_stopReturns_inRead :
    ∃ s t history events, ((providerSystem ⟨"host", "443", "/ws"⟩).restrict ProviderSystem.stopsOutsideRestart).run .init
        stopInRead = some (s, history) ∧
      (providerSystem ⟨"host", "443", "/ws"⟩).run s afterStopInRead = some (t, events) ∧
      onMessages events = [[49]] ∧ (onMessages events).length ≤ 1 ∧ afterStopInRead.length ≤ 7 := by
  refine ⟨_, _, _, _, rfl, rfl, rfl, ?_⟩
  have returns := providerSystem_stopReturns (Machine.Reach.start.run
      (rfl : ((providerSystem ⟨"host", "443", "/ws"⟩).restrict ProviderSystem.stopsOutsideRestart).run _ stopInRead =
        some (_, _)))
    rfl (by simp [afterStopInRead])
    (rfl : (providerSystem ⟨"host", "443", "/ws"⟩).run _ afterStopInRead = some (_, _))
  exact ⟨returns.2.1, returns.1⟩

/-- `Stop` falls between the loop test and the restart, and the worker connects after it. -/
def stopAtRestart : List SystemAction :=
  [.start, .ownerStep, .workerStep, .stop, .ownerStep, .ownerStep, .workerStep, .workerStep,
    .workerStep].map .provider ++ connects 0

-- From there each message leads back to the same state, and `join` does not return.
example : ∃ s history events, (providerSystem ⟨"host", "443", "/ws"⟩).run .init stopAtRestart = some (s, history) ∧
    s.owner = .join .user ∧ (providerSystem ⟨"host", "443", "/ws"⟩).run s (receives 0 [49]) = some (s, events) :=
  ⟨_, _, _, rfl, rfl, rfl⟩

end ConsolidatedBook
