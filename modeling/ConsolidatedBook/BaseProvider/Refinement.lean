import ConsolidatedBook.BaseProvider.Composition

namespace ConsolidatedBook

/-- The accesses of the owner's thread. -/
def ProviderAction.byOwner : ProviderAction → Bool
  | .start | .stop | .destroy | .ownerStep => true
  | _ => false

namespace BaseProvider

variable {p q : BaseProvider} {events : List ProviderEvent}

theorem alive_of_step {action : ProviderAction} (step : p.step action = some (q, events)) : p.terminated = false := by
  by_contra dead
  simp [BaseProvider.step, dead] at step

/-- The owner's thread reads of the worker only if it has finished. -/
theorem step_byOwner {action : ProviderAction} (byOwner : action.byOwner = true) (work : Bool) {worker : WorkerPhase}
    (seen : worker = p.worker ∨ p.worker = .runSession ∧ worker = .runIoc)
    (step : p.step action = some (q, events)) :
    ({ p with iocWork := work, worker := worker } : BaseProvider).step action =
      some ({ q with iocWork := work, worker := if q.worker = p.worker then worker else q.worker }, events) := by
  have alive := alive_of_step step
  cases step_move step with
  | startIgnored idle running | startCalled idle running => simp [BaseProvider.step, alive, idle, running]
  | stopBegun calls idle running | stopIgnored calls idle running =>
    cases action <;> cases calls <;> simp [BaseProvider.step, alive, idle, callStop, running]
  | terminated owner joinable =>
    rcases owner with owner | owner <;> simp [BaseProvider.step, ownerStep, alive, owner, joinable]
  | threadAssigned owner joinable =>
    rcases seen with rfl | ⟨running, rfl⟩
    · simp [BaseProvider.step, ownerStep, alive, owner, joinable]
    · simp [BaseProvider.step, ownerStep, alive, owner, joinable, running]
  | sessionStopped owner | iocStopped owner => simp [BaseProvider.step, ownerStep, alive, owner]
  | joined owner finished =>
    have same : worker = .finished := by
      rcases seen with rfl | ⟨running, _⟩
      · exact finished
      · cases finished.symm.trans running
    by_cases joinable : p.joinable = true
    · simp [BaseProvider.step, ownerStep, alive, owner, joinable, same, finished]
    · simp [BaseProvider.step, ownerStep, alive, owner, joinable, same, finished]
  | unjoined owner joinable | destroyed owner joinable => simp [BaseProvider.step, ownerStep, alive, owner, joinable]
  | _ => cases byOwner

/-- Outside `ioc.run()` and the call of `Run`, the worker reads nothing of the
`io_context`, and it never reads where the owner stands. -/
theorem step_byWorker (notRun : p.worker ≠ .runSession) (notIoc : p.worker ≠ .runIoc) (work : Bool) (owner : OwnerPhase)
    (step : p.step .workerStep = some (q, events)) :
    ({ p with iocWork := work, owner := owner } : BaseProvider).step .workerStep =
      some ({ q with iocWork := work, owner := owner }, events) := by
  have alive := alive_of_step step
  cases step_move step with
  | stopBegun calls | stopIgnored calls => cases calls
  | sessionRun worker => exact absurd worker notRun
  | iocReturned worker => exact absurd worker notIoc
  | retried worker within =>
    have below : ¬ maxReconnectAttempts < p.reconnectCount + 1 := by omega
    simp [BaseProvider.step, workerStep, alive, worker, below]
  | exhausted worker beyond =>
    have above : maxReconnectAttempts < p.reconnectCount + 1 := by omega
    simp [BaseProvider.step, workerStep, alive, worker, above]
  | _ worker => simp [BaseProvider.step, workerStep, alive, worker]

theorem Move.byOwner {action : ProviderAction} (move : p.Move action q events) (byOwner : action.byOwner = true) :
    (action ≠ .ownerStep → p.owner = .idle) ∧
      (q.worker = p.worker ∨ p.joinable = false ∧ q.worker = .testRunning) ∧
      (q.wsSession = p.wsSession ∨
        (∃ caller, p.owner = .stopSession caller) ∧ q.wsSession = p.wsSession.map fun _ => ⟨true⟩) := by
  cases move with
  | stopBegun _ idle | stopIgnored _ idle | startIgnored idle | startCalled idle =>
    exact ⟨fun _ => idle, Or.inl rfl, Or.inl rfl⟩
  | threadAssigned _ unjoined => exact ⟨fun other => absurd rfl other, Or.inr ⟨unjoined, rfl⟩, Or.inl rfl⟩
  | sessionStopped owner => exact ⟨fun other => absurd rfl other, Or.inl rfl, Or.inr ⟨⟨_, owner⟩, rfl⟩⟩
  | terminated | iocStopped | joined | unjoined | destroyed =>
    exact ⟨fun other => absurd rfl other, Or.inl rfl, Or.inl rfl⟩
  | _ => cases byOwner

theorem Move.byWorker (move : p.Move .workerStep q events) (notCreate : p.worker ≠ .createSession) :
    q.owner = p.owner ∧ q.wsSession = p.wsSession ∧ q.worker ≠ .runSession := by
  cases move with
  | stopBegun calls | stopIgnored calls => cases calls
  | sessionCreated worker => exact absurd worker notCreate
  | runningTested | dropTested | reconnectionTested => exact ⟨rfl, rfl, by cases p.running <;> simp⟩
  | _ => exact ⟨rfl, rfl, by simp⟩

theorem Move.thrown_eq (move : p.Move .throw q events) : q = { p with worker := .testDropped } ∧ events = [] := by
  cases move with
  | stopBegun calls | stopIgnored calls => cases calls
  | thrown => exact ⟨rfl, rfl⟩

end BaseProvider

namespace SessionPhase

/-- `Run` has passed its test of `stopped`. -/
def starts : SessionPhase → Bool
  | .pastRun _ _ _ => true
  | _ => false

end SessionPhase

namespace ProviderSystem

/-- `Run` of the current session will begin its first operation. -/
def starts (s : ProviderSystem) : Bool :=
  s.worker = .runSession && s.sessions[s.current]?.any fun session => session.phase.starts

/-- Where the worker is seen: `Run` of a session has its effect with its test. -/
def workerSeen (s : ProviderSystem) : WorkerPhase := if s.starts then .runIoc else s.worker

/-- Where the owner is seen: `Stop` of a session has its effect with its store. -/
def ownerSeen (s : ProviderSystem) : OwnerPhase :=
  match s.owner with
  | .stopSession caller => if s.closes then .stopIoc caller else .stopSession caller
  | owner => owner

/-- The provider stands where the system does. It may believe in work that
there is none of any more. -/
structure Refines (s : ProviderSystem) (history : List SystemEvent) (p : BaseProvider) (past : List ProviderEvent) :
    Prop where
  running : p.running = s.running
  joinable : p.joinable = s.joinable
  iocStopped : p.iocStopped = s.iocStopped
  wsSession : p.wsSession = s.summary.wsSession
  reconnectCount : p.reconnectCount = s.reconnectCount
  owner : p.owner = s.ownerSeen
  worker : p.worker = s.workerSeen
  terminated : p.terminated = s.terminated
  work : s.summary.iocWork = true ∨ s.starts = true → p.iocWork = true
  seen : past = providerSeen history

/-- One call of `Stop` at a time is inside a session. -/
structure CloseInvariant (s : ProviderSystem) : Prop where
  owner {i : Nat} {session : WebSocketSessionSSL} : s.sessions[i]? = some session → session.closing = true →
    ∃ caller, s.owner = .stopSession caller
  one {i j : Nat} {session session' : WebSocketSessionSSL} : s.sessions[i]? = some session →
    s.sessions[j]? = some session' → session.closing = true → session'.closing = true → i = j

variable {endpoint : Endpoint} {s t : ProviderSystem} {history events : List SystemEvent} {p : BaseProvider}
  {past : List ProviderEvent} {i : Nat} {session next : WebSocketSessionSSL}

theorem afterRun_owner (s : ProviderSystem) : s.afterRun.owner = s.owner := by
  unfold afterRun
  split <;> rfl

theorem CloseInvariant.mono (inv : s.CloseInvariant) (owner : t.owner = s.owner)
    (earlier : ∀ (i : Nat) (session : WebSocketSessionSSL), t.sessions[i]? = some session → session.closing = true →
      ∃ before : WebSocketSessionSSL, s.sessions[i]? = some before ∧ before.closing = true) : t.CloseInvariant := by
  refine ⟨?_, ?_⟩
  · intro i session found closing
    obtain ⟨before, here, closed⟩ := earlier i session found closing
    rw [owner]
    exact inv.owner here closed
  · intro i j session session' found found' closing closing'
    obtain ⟨before, here, closed⟩ := earlier i session found closing
    obtain ⟨before', here', closed'⟩ := earlier j session' found' closing'
    exact inv.one here here' closed closed'

/-- A step of a session that neither enters nor leaves `ws.close`. -/
theorem CloseInvariant.set (inv : s.CloseInvariant) (found : s.sessions[i]? = some session)
    (sessions : t.sessions = s.sessions.set i next) (kept : next.closing = session.closing)
    (owner : t.owner = s.owner) : t.CloseInvariant := by
  refine inv.mono owner fun j other here closing => ?_
  rw [sessions] at here
  rcases getElem?_set_cases here with ⟨rfl, rfl⟩ | ⟨_, old⟩
  · exact ⟨session, found, kept.symm.trans closing⟩
  · exact ⟨other, old, closing⟩

theorem CloseInvariant.move (inv : s.CloseInvariant) {action : SystemAction} (move : s.Move endpoint action t events) :
    t.CloseInvariant := by
  cases move with
  | @own action q observed plain step =>
    by_cases free : ∀ (i : Nat) (session : WebSocketSessionSSL), s.sessions[i]? = some session → session.closing = false
    · refine ⟨fun found closing => ?_, fun found _ closing => ?_⟩ <;>
        cases (free _ _ found).symm.trans closing
    · simp only [not_forall, Bool.not_eq_false] at free
      obtain ⟨i, session, found, closing⟩ := free
      obtain ⟨caller, owner⟩ := inv.owner found closing
      have kept : q.owner = s.owner := by
        have move := BaseProvider.step_move step
        cases action with
        | ownerStep =>
          rcases plain with none | other
          · rw [none] at found
            cases found
          · exact absurd owner (other caller)
        | start | stop | destroy =>
          have idle : s.owner = .idle := (move.byOwner rfl).1 (by simp)
          cases idle.symm.trans owner
        | workerStep => exact (move.byWorker plain.1).1
        | throw => rw [move.thrown_eq.1]; rfl
        | connect | drop => exact plain.elim
      exact inv.mono kept fun j other here closed => ⟨other, here, closed⟩
  | sessionCreated =>
    refine inv.mono rfl fun j other here closed => ?_
    rcases getElem?_concat_cases here with old | ⟨_, rfl⟩
    · exact ⟨other, old, closed⟩
    · cases closed
  | runCalled _ found _ => exact inv.set found rfl rfl rfl
  | inRun _ found _ step =>
    have kept := (WebSocketSessionSSL.step_handler (show SessionAction.ofHandler (.step _) = true from rfl) step).2
    exact inv.set found (afterRun_sessions _) kept (afterRun_owner _)
  | inIoc _ found handler _ _ step => 
    have kept := (WebSocketSessionSSL.step_handler handler step).2
    exact inv.set found rfl kept rfl
  | threw _ found _ => exact inv.set found rfl rfl rfl
  | @stopCalled caller session owner found free =>
    have idle : ∀ (j : Nat) (other : WebSocketSessionSSL), s.sessions[j]? = some other → other.closing ≠ true :=
      fun j other here => Bool.eq_false_iff.mp (closes_eq_false.mp free other (List.mem_of_getElem? here))
    refine ⟨fun _ _ => ⟨caller, owner⟩, fun here here' closing closing' => ?_⟩
    rcases getElem?_set_cases here with ⟨rfl, _⟩ | ⟨_, old⟩
    · rcases getElem?_set_cases here' with ⟨rfl, _⟩ | ⟨_, old'⟩
      · rfl
      · exact absurd closing' (idle _ _ old')
    · exact absurd closing (idle _ _ old)
  | @closeReturned i session next ec observed found closing step =>
    have free : ∀ (j : Nat) (other : WebSocketSessionSSL), (s.sessions.set i next)[j]? = some other →
        other.closing ≠ true := by
      intro j other here closed
      rcases getElem?_set_cases here with ⟨rfl, rfl⟩ | ⟨differs, old⟩
      · simp only [WebSocketSessionSSL.step, closing, if_true, Option.some.injEq, Prod.mk.injEq] at step
        obtain ⟨rfl, _⟩ := step
        cases closed
      · exact differs (inv.one old found closed closing)
    refine ⟨fun {j other} here closed => ?_, fun {j _ other _} here _ closed _ => ?_⟩ <;>
      · rw [afterClose_sessions] at here
        exact absurd closed (free j other here)

theorem summary_wsSession (s : ProviderSystem) :
    s.summary.wsSession = s.sessions[s.current]?.map fun session => ⟨session.stopped⟩ := by
  unfold summary current
  rw [List.getLast?_eq_getElem?]

theorem Refines.eq (refines : s.Refines history p past) :
    p = { s.summary with iocWork := p.iocWork, owner := s.ownerSeen, worker := s.workerSeen } := by
  obtain ⟨running, joinable, iocStopped, wsSession, reconnectCount, owner, worker, terminated, _, _⟩ := refines
  cases p
  simp only [summary] at *
  simp only [running, joinable, iocStopped, wsSession, reconnectCount, owner, worker, terminated]

/-- A step of the system in which the sessions, the owner and the worker alone may have moved. -/
structure Beside (s t : ProviderSystem) : Prop where
  running : t.running = s.running
  joinable : t.joinable = s.joinable
  iocStopped : t.iocStopped = s.iocStopped
  reconnectCount : t.reconnectCount = s.reconnectCount
  terminated : t.terminated = s.terminated

/-- Where the provider stands after such a step. -/
theorem Refines.beside (refines : s.Refines history p past) (beside : s.Beside t) {q : BaseProvider}
    {later : List ProviderEvent} (work : t.summary.iocWork = true ∨ t.starts = true → q.iocWork = true)
    (provider : q = { p with
      iocWork := q.iocWork
      wsSession := t.summary.wsSession
      owner := t.ownerSeen
      worker := t.workerSeen })
    (seen : later = past ++ providerSeen events) : t.Refines (history ++ events) q later := by
  refine ⟨?_, ?_, ?_, ?_, ?_, ?_, ?_, ?_, work, ?_⟩
  · rw [provider, beside.running, ← refines.running]
  · rw [provider, beside.joinable, ← refines.joinable]
  · rw [provider, beside.iocStopped, ← refines.iocStopped]
  · rw [provider]
  · rw [provider, beside.reconnectCount, ← refines.reconnectCount]
  · rw [provider]
  · rw [provider]
  · rw [provider, beside.terminated, ← refines.terminated]
  · rw [seen, refines.seen, providerSeen_append]

/-- A step that the provider does not take part in. -/
theorem Refines.stutter (refines : s.Refines history p past) (beside : s.Beside t)
    (work : t.summary.iocWork = true ∨ t.starts = true → s.summary.iocWork = true ∨ s.starts = true)
    (wsSession : t.summary.wsSession = s.summary.wsSession) (owner : t.ownerSeen = s.ownerSeen)
    (worker : t.workerSeen = s.workerSeen) (quiet : providerSeen events = []) :
    ∃ q later, providerMachine.ReachFrom p past q later ∧ t.Refines (history ++ events) q later := by
  refine ⟨p, past, .refl, refines.beside beside (fun works => refines.work (work works)) ?_ ?_⟩
  · rw [wsSession, owner, worker, ← refines.wsSession, ← refines.owner, ← refines.worker]
  · rw [quiet, List.append_nil]

theorem current_set (sessions : t.sessions = s.sessions.set i next) : t.current = s.current := by
  unfold current
  rw [sessions, List.length_set]

theorem closes_set (found : s.sessions[i]? = some session) (sessions : t.sessions = s.sessions.set i next)
    (same : next.closing = session.closing) : t.closes = s.closes := by
  unfold closes
  rw [sessions]
  exact any_set _ found same

theorem summary_iocWork_set (found : s.sessions[i]? = some session) (sessions : t.sessions = s.sessions.set i next)
    (same : next.phase.pending = session.phase.pending) : t.summary.iocWork = s.summary.iocWork := by
  unfold summary
  rw [sessions]
  exact any_set _ found same

theorem iocWork_of_pending (found : s.sessions[i]? = some session) (pending : session.phase.pending = true) :
    s.summary.iocWork = true :=
  List.any_eq_true.mpr ⟨session, List.mem_of_getElem? found, pending⟩

theorem summary_wsSession_set (found : s.sessions[i]? = some session) (sessions : t.sessions = s.sessions.set i next)
    (same : next.stopped = session.stopped) : t.summary.wsSession = s.summary.wsSession := by
  have within := (List.getElem?_eq_some_iff.mp found).1
  have current := current_set sessions
  rw [summary_wsSession, summary_wsSession, current, sessions]
  by_cases equal : i = s.current
  · rw [← equal, List.getElem?_set_self within, found, Option.map_some, Option.map_some, same]
  · rw [List.getElem?_set_ne equal]

theorem ownerSeen_set (found : s.sessions[i]? = some session) (sessions : t.sessions = s.sessions.set i next)
    (same : next.closing = session.closing) (owner : t.owner = s.owner) : t.ownerSeen = s.ownerSeen := by
  unfold ownerSeen
  rw [owner, closes_set found sessions same]

theorem starts_of_worker (worker : s.worker ≠ .runSession) : s.starts = false := by
  simp only [starts, decide_eq_false worker, Bool.false_and]

theorem workerSeen_of_worker (worker : s.worker ≠ .runSession) : s.workerSeen = s.worker := by
  rw [workerSeen, starts_of_worker worker]
  rfl

theorem starts_set (found : s.sessions[s.current]? = some session)
    (sessions : t.sessions = s.sessions.set s.current next) :
    t.starts = (decide (t.worker = .runSession) && next.phase.starts) := by
  have within := (List.getElem?_eq_some_iff.mp found).1
  have current := current_set sessions
  rw [starts, current, sessions, List.getElem?_set_self within, Option.any_some]

/-- The provider notices of a session only that its handshake has succeeded. -/
theorem providerSeen_session {observed : List SessionEvent} (move : session.Move next observed) (i : Nat) :
    providerSeen (observed.map (.session i)) = [] ∨
      session.phase = .waits .handshake ∧ providerSeen (observed.map (.session i)) = [.connected] := by
  cases move with
  | @succeeded op waits =>
    cases op with
    | handshake => exact Or.inr ⟨waits, rfl⟩
    | _ => exact Or.inl rfl
  | closeReturned _ fails =>
    refine Or.inl ?_
    unfold providerSeen
    rw [List.filterMap_map]
    exact WebSocketSessionSSL.filterMap_close fails fun _ => rfl
  | _ => exact Or.inl rfl

theorem Refines.inIoc (refines : s.Refines history p past) (alive : s.terminated = false) (worker : s.worker = .runIoc)
    {action : SessionAction} {observed : List SessionEvent} (found : s.sessions[i]? = some session)
    (handler : action.ofHandler = true) (pending : session.phase.pending = true)
    (calls : session.phase.inHandler = false → s.iocStopped = false)
    (step : session.step action = some (next, observed)) (moved : t = { s with sessions := s.sessions.set i next }) :
    ∃ q later, providerMachine.ReachFrom p past q later ∧
      t.Refines (history ++ observed.map (.session i)) q later := by
  have sessions : t.sessions = s.sessions.set i next := by rw [moved]
  have beside : s.Beside t := by
    rw [moved]
    exact ⟨rfl, rfl, rfl, rfl, rfl⟩
  have works := iocWork_of_pending found pending
  obtain ⟨stopped, closing⟩ := WebSocketSessionSSL.step_handler handler step
  have wsSession := summary_wsSession_set found sessions stopped
  have owner := ownerSeen_set found sessions closing (by rw [moved])
  have here : s.workerSeen = .runIoc := by rw [workerSeen_of_worker (by simp [worker]), worker]
  have worker' : t.workerSeen = s.workerSeen := by
    have same : t.worker = .runIoc := by rw [moved, ← worker]
    rw [here, workerSeen_of_worker (by simp [same]), same]
  rcases providerSeen_session (WebSocketSessionSSL.step_move step) i with quiet | ⟨waits, connected⟩
  · exact refines.stutter beside (fun _ => Or.inl works) wsSession owner worker' quiet
  · have runs := calls (by rw [waits]; rfl)
    have work := refines.work (Or.inl works)
    have stays : p = { p with
        iocWork := p.iocWork
        wsSession := t.summary.wsSession
        owner := t.ownerSeen
        worker := t.workerSeen } := by
      rw [wsSession, owner, worker', ← refines.wsSession, ← refines.owner, ← refines.worker]
    have enabled : providerMachine.step p .connect = some (p, [.connected]) := by
      simp [providerMachine, BaseProvider.step, BaseProvider.handlerRuns, refines.terminated, alive,
        refines.iocStopped, runs, refines.worker, here, work]
    exact ⟨p, past ++ [.connected], .one enabled, refines.beside beside (fun _ => work) stays (by rw [connected])⟩

theorem Refines.threw (refines : s.Refines history p past) (alive : s.terminated = false) (worker : s.worker = .runIoc)
    (found : s.sessions[i]? = some session) (inCallback : session.phase = .inCallback)
    (moved : t = { s with
      sessions := s.sessions.set i { session with phase := .ended }
      worker := .testDropped }) :
    ∃ q later, providerMachine.ReachFrom p past q later ∧ t.Refines (history ++ []) q later := by
  have sessions : t.sessions = s.sessions.set i { session with phase := .ended } := by rw [moved]
  have beside : s.Beside t := by
    rw [moved]
    exact ⟨rfl, rfl, rfl, rfl, rfl⟩
  have works := iocWork_of_pending found (by rw [inCallback]; rfl)
  have wsSession := summary_wsSession_set found sessions rfl
  have owner := ownerSeen_set found sessions rfl (by rw [moved])
  have here : s.workerSeen = .runIoc := by rw [workerSeen_of_worker (by simp [worker]), worker]
  have there : t.workerSeen = .testDropped := by
    have same : t.worker = .testDropped := by rw [moved]
    rw [workerSeen_of_worker (by simp [same]), same]
  have work := refines.work (Or.inl works)
  have enabled : providerMachine.step p .throw = some ({ p with worker := .testDropped }, []) := by
    simp [providerMachine, BaseProvider.step, BaseProvider.throw, refines.terminated, alive, refines.worker, here]
  refine ⟨_, _, .one enabled, refines.beside beside (fun _ => work) ?_ rfl⟩
  rw [wsSession, owner, there, ← refines.wsSession, ← refines.owner]

theorem Refines.sessionCreated (refines : s.Refines history p past) (alive : s.terminated = false)
    (worker : s.worker = .createSession)
    (moved : t = { s with sessions := s.sessions ++ [.init true], worker := .runSession }) :
    ∃ q later, providerMachine.ReachFrom p past q later ∧
      t.Refines (history ++ [.provider .sessionCreated]) q later := by
  have beside : s.Beside t := by
    rw [moved]
    exact ⟨rfl, rfl, rfl, rfl, rfl⟩
  have here : s.workerSeen = .createSession := by rw [workerSeen_of_worker (by simp [worker]), worker]
  have last : t.sessions[t.current]? = some (.init true) := by
    rw [moved]
    simp [current]
  have notStarts : t.starts = false := by simp [starts, last, WebSocketSessionSSL.init, SessionPhase.starts]
  have wsSession : t.summary.wsSession = some ⟨false⟩ := by
    rw [summary_wsSession, last]
    rfl
  have iocWork : t.summary.iocWork = s.summary.iocWork := by
    rw [moved]
    simp [summary, WebSocketSessionSSL.init, SessionPhase.pending]
  have owner : t.ownerSeen = s.ownerSeen := by
    rw [moved]
    simp [ownerSeen, closes, WebSocketSessionSSL.init]
  have there : t.workerSeen = .runSession := by
    rw [workerSeen, notStarts, moved]
    rfl
  have enabled : providerMachine.step p .workerStep =
      some ({ p with wsSession := some ⟨false⟩, worker := .runSession }, [.sessionCreated]) := by
    simp [providerMachine, BaseProvider.step, BaseProvider.workerStep, refines.terminated, alive, refines.worker, here]
  refine ⟨_, _, .one enabled, refines.beside beside ?_ ?_ rfl⟩
  · rintro (works | starts)
    · exact refines.work (Or.inl (iocWork ▸ works))
    · cases notStarts.symm.trans starts
  · rw [wsSession, owner, there, ← refines.owner]

theorem Refines.runCalled (refines : s.Refines history p past) (found : s.sessions[s.current]? = some session)
    (created : session.phase = .created) {host port path : String}
    (moved : t = { s with sessions := s.sessions.set s.current { session with phase := .testsRun host port path } }) :
    ∃ q later, providerMachine.ReachFrom p past q later ∧
      t.Refines (history ++ [.session s.current (.runCalled host port path)]) q later := by
  have beside : s.Beside t := by
    rw [moved]
    exact ⟨rfl, rfl, rfl, rfl, rfl⟩
  have sessions : t.sessions = s.sessions.set s.current { session with phase := .testsRun host port path } := by
    rw [moved]
  have wsSession := summary_wsSession_set found sessions rfl
  have owner := ownerSeen_set found sessions rfl (by rw [moved])
  have iocWork := summary_iocWork_set found sessions (by rw [created]; rfl)
  have notStarts : s.starts = false := by simp [starts, found, created, SessionPhase.starts]
  have notStarts' : t.starts = false := by
    rw [starts_set found sessions]
    exact Bool.and_false _
  have worker' : t.workerSeen = s.workerSeen := by
    rw [workerSeen, workerSeen, notStarts, notStarts', moved]
  refine refines.stutter beside ?_ wsSession owner worker' rfl
  rw [iocWork, notStarts, notStarts']
  exact id

theorem afterRun_set (found : s.sessions[s.current]? = some session) (next : WebSocketSessionSSL) :
    afterRun { s with sessions := s.sessions.set s.current next } = { s with
      sessions := s.sessions.set s.current next
      worker := if next.phase.inRun then s.worker else .runIoc } := by
  have within := (List.getElem?_eq_some_iff.mp found).1
  have here : (s.sessions.set s.current next)[s.current]? = some next := List.getElem?_set_self within
  have current : ProviderSystem.current { s with sessions := s.sessions.set s.current next } = s.current :=
    current_set rfl
  unfold afterRun
  rw [current, here, Option.any_some]
  split <;> rfl

/-- The test in `Run` of the current session decides if there will be work. -/
theorem Refines.tested (refines : s.Refines history p past) (alive : s.terminated = false)
    (worker : s.worker = .runSession) (found : s.sessions[s.current]? = some session)
    (tests : session.phase.starts = false) (phase : SessionPhase)
    (idle : session.phase.pending = false ∧ phase.pending = false)
    (decides : phase.starts = !session.stopped ∧ phase.inRun = phase.starts)
    (moved : t = { s with
      sessions := s.sessions.set s.current { session with phase := phase }
      worker := if phase.inRun then s.worker else .runIoc }) :
    ∃ q later, providerMachine.ReachFrom p past q later ∧ t.Refines (history ++ []) q later := by
  have sessions : t.sessions = s.sessions.set s.current { session with phase := phase } := by rw [moved]
  have beside : s.Beside t := by
    rw [moved]
    exact ⟨rfl, rfl, rfl, rfl, rfl⟩
  have wsSession := summary_wsSession_set found sessions rfl
  have owner := ownerSeen_set found sessions rfl (by rw [moved])
  have iocWork := summary_iocWork_set found sessions (idle.2.trans idle.1.symm)
  have notStarts : s.starts = false := by simp [starts, found, tests]
  have here : s.workerSeen = .runSession := by rw [workerSeen, notStarts, worker]; rfl
  have starts' : t.starts = !session.stopped := by
    rw [starts_set found sessions, moved, decides.2, decides.1, worker]
    cases session.stopped <;> rfl
  have there : t.workerSeen = .runIoc := by
    rw [workerSeen, starts', moved, decides.2, decides.1]
    cases session.stopped <;> rfl
  have seesSession : p.wsSession = some ⟨session.stopped⟩ := by
    rw [refines.wsSession, summary_wsSession, found, Option.map_some]
  have enabled : providerMachine.step p .workerStep =
      some ({ p with iocWork := p.iocWork || !session.stopped, worker := .runIoc }, []) := by
    simp [providerMachine, BaseProvider.step, BaseProvider.workerStep, refines.terminated, alive, refines.worker, here,
      seesSession]
  refine ⟨_, _, .one enabled, refines.beside beside ?_ ?_ rfl⟩
  · rintro (works | starts)
    · rw [refines.work (Or.inl (iocWork ▸ works)), Bool.true_or]
    · rw [← starts', starts, Bool.or_true]
  · rw [wsSession, owner, there, ← refines.wsSession, ← refines.owner]

theorem Refines.inRun (refines : s.Refines history p past) (alive : s.terminated = false)
    (worker : s.worker = .runSession) (found : s.sessions[s.current]? = some session)
    (inRun : session.phase.inRun = true) {sniError : Option String} {observed : List SessionEvent}
    (step : session.step (.step sniError) = some (next, observed))
    (moved : t = afterRun { s with sessions := s.sessions.set s.current next }) :
    ∃ q later, providerMachine.ReachFrom p past q later ∧
      t.Refines (history ++ observed.map (.session s.current)) q later := by
  rw [afterRun_set found] at moved
  cases at_ : session.phase with
  | testsRun host port target =>
    simp only [WebSocketSessionSSL.step, WebSocketSessionSSL.handlerStep, at_, Option.some.injEq, Prod.mk.injEq] at step
    obtain ⟨rfl, rfl⟩ := step
    refine refines.tested alive worker found (by rw [at_]; rfl) _ ?_ ?_ moved
    · rw [at_]
      cases session.stopped <;> exact ⟨rfl, rfl⟩
    · cases session.stopped <;> exact ⟨rfl, rfl⟩
  | pastRun host port target =>
    simp only [WebSocketSessionSSL.step, WebSocketSessionSSL.handlerStep, WebSocketSessionSSL.runRest, at_,
      Option.some.injEq, Prod.mk.injEq] at step
    obtain ⟨rfl, rfl⟩ := step
    have sessions := congrArg ProviderSystem.sessions moved
    have starts : s.starts = true := by simp [starts, worker, found, at_, SessionPhase.starts]
    have starts' : t.starts = false := by
      rw [starts_set found sessions]
      exact Bool.and_false _
    refine refines.stutter ?_ (fun _ => Or.inr starts) (summary_wsSession_set found sessions rfl)
      (ownerSeen_set found sessions rfl (by rw [moved])) ?_ rfl
    · rw [moved]
      exact ⟨rfl, rfl, rfl, rfl, rfl⟩
    · rw [workerSeen, workerSeen, starts, starts', moved]
      rfl
  | _ =>
    rw [at_] at inRun
    cases inRun

theorem Refines.stopCalled (refines : s.Refines history p past) (alive : s.terminated = false) {caller : StopCaller}
    (owner : s.owner = .stopSession caller) (found : s.sessions[s.current]? = some session) (free : s.closes = false)
    (moved : t = { s with
      sessions := s.sessions.set s.current { session with stopped := true, closing := true } }) :
    ∃ q later, providerMachine.ReachFrom p past q later ∧
      t.Refines (history ++ [.session s.current .stopCalled]) q later := by
  have sessions : t.sessions = s.sessions.set s.current { session with stopped := true, closing := true } := by
    rw [moved]
  have beside : s.Beside t := by
    rw [moved]
    exact ⟨rfl, rfl, rfl, rfl, rfl⟩
  have within := (List.getElem?_eq_some_iff.mp found).1
  have current := current_set sessions
  have iocWork := summary_iocWork_set found sessions rfl
  have starts : t.starts = s.starts := by
    rw [starts_set found sessions, ProviderSystem.starts, found, moved]
    rfl
  have worker : t.workerSeen = s.workerSeen := by rw [workerSeen, workerSeen, starts, moved]
  have here : s.ownerSeen = .stopSession caller := by simp [ownerSeen, owner, free]
  have closes : t.closes = true := by
    refine List.any_eq_true.mpr ⟨{ session with stopped := true, closing := true }, ?_, rfl⟩
    rw [sessions]
    exact List.mem_set within _
  have there : t.ownerSeen = .stopIoc caller := by
    have same : t.owner = .stopSession caller := by rw [moved, ← owner]
    simp [ownerSeen, same, closes]
  have stopped : t.summary.wsSession = p.wsSession.map fun _ => ⟨true⟩ := by
    rw [summary_wsSession, current, sessions, List.getElem?_set_self within, refines.wsSession, summary_wsSession, found]
    rfl
  have enabled : providerMachine.step p .ownerStep =
      some ({ p with wsSession := p.wsSession.map fun _ => ⟨true⟩, owner := .stopIoc caller }, []) := by
    simp [providerMachine, BaseProvider.step, BaseProvider.ownerStep, refines.terminated, alive, refines.owner, here]
  refine ⟨_, _, .one enabled, refines.beside beside ?_ ?_ rfl⟩
  · rw [iocWork, starts]
    exact refines.work
  · rw [stopped, there, worker, ← refines.worker]

theorem Refines.closeReturned (refines : s.Refines history p past) (inv : s.CloseInvariant)
    (found : s.sessions[i]? = some session) (closing : session.closing = true) {ec : Option ErrorCode}
    {observed : List SessionEvent} (step : session.step (.close ec) = some (next, observed))
    (moved : t = afterClose { s with sessions := s.sessions.set i next }) :
    ∃ q later, providerMachine.ReachFrom p past q later ∧
      t.Refines (history ++ observed.map (.session i)) q later := by
  obtain ⟨caller, owner⟩ := inv.owner found closing
  have moved : t = { s with sessions := s.sessions.set i next, owner := .stopIoc caller } := by
    simp only [moved, afterClose, owner]
  have sessions : t.sessions = s.sessions.set i next := by rw [moved]
  simp only [WebSocketSessionSSL.step, closing, if_true, Option.some.injEq, Prod.mk.injEq] at step
  obtain ⟨rfl, rfl⟩ := step
  have beside : s.Beside t := by
    rw [moved]
    exact ⟨rfl, rfl, rfl, rfl, rfl⟩
  have iocWork := summary_iocWork_set found sessions rfl
  have wsSession := summary_wsSession_set found sessions rfl
  have starts : t.starts = s.starts := by
    by_cases here : i = s.current
    · subst here
      rw [starts_set found sessions, ProviderSystem.starts, found, moved]
      rfl
    · have current := current_set sessions
      rw [ProviderSystem.starts, ProviderSystem.starts, current, sessions, List.getElem?_set_ne here, moved]
  have worker : t.workerSeen = s.workerSeen := by rw [workerSeen, workerSeen, starts, moved]
  have closes : s.closes = true := List.any_eq_true.mpr ⟨session, List.mem_of_getElem? found, closing⟩
  have owner' : t.ownerSeen = s.ownerSeen := by
    have same : t.owner = .stopIoc caller := by rw [moved]
    simp [ownerSeen, same, owner, closes]
  refine refines.stutter beside ?_ wsSession owner' worker (by cases ec <;> rfl)
  rw [iocWork, starts]
  exact id

theorem CloseInvariant.free (inv : s.CloseInvariant) {action : ProviderAction} (byOwner : action.byOwner = true)
    (plain : s.plain action) {q : BaseProvider} {observed : List ProviderEvent}
    (step : s.summary.step action = some (q, observed)) : s.closes = false := by
  refine closes_eq_false.mpr fun session member => ?_
  by_contra closes
  obtain ⟨i, found⟩ := List.mem_iff_getElem?.mp member
  obtain ⟨caller, owner⟩ := inv.owner found (Bool.not_eq_false _ ▸ closes)
  by_cases own : action = .ownerStep
  · subst own
    rcases plain with none | other
    · rw [none] at found
      cases found
    · exact other caller owner
  · have idle : s.owner = .idle := ((BaseProvider.step_move step).byOwner byOwner).1 own
    cases idle.symm.trans owner

theorem ownerSeen_of_free (free : s.closes = false) : s.ownerSeen = s.owner := by
  unfold ownerSeen
  rw [free]
  split
  · rename_i owner
    exact owner.symm
  · rfl

theorem worker_of_starts (starts : s.starts = true) : s.worker = .runSession := by
  simp only [ProviderSystem.starts, Bool.and_eq_true, decide_eq_true_eq] at starts
  exact starts.1

theorem workerSeen_cases (s : ProviderSystem) :
    s.workerSeen = s.worker ∨ s.worker = .runSession ∧ s.workerSeen = .runIoc := by
  unfold workerSeen
  split
  · rename_i starts
    exact Or.inr ⟨worker_of_starts starts, rfl⟩
  · exact Or.inl rfl

theorem withProvider_starts {q : BaseProvider} (worker : q.worker = s.worker ∨ q.worker ≠ .runSession) :
    (s.withProvider q).starts = true → s.starts = true := by
  intro starts
  have here : q.worker = .runSession := worker_of_starts starts
  rcases worker with same | other
  · simp only [ProviderSystem.starts, Bool.and_eq_true, decide_eq_true_eq] at starts ⊢
    exact ⟨same.symm.trans here, starts.2⟩
  · exact absurd here other

theorem withProvider_workerSeen {q : BaseProvider} (worker : q.worker = s.worker ∨ q.worker ≠ .runSession) :
    (s.withProvider q).workerSeen = if q.worker = s.worker then s.workerSeen else q.worker := by
  split
  · rename_i same
    have starts : (s.withProvider q).starts = s.starts := by
      unfold ProviderSystem.starts
      change (decide (q.worker = _) && _) = _
      rw [same]
      rfl
    unfold workerSeen
    rw [starts, ← same]
    rfl
  · rename_i differs
    exact workerSeen_of_worker (worker.resolve_left differs)

/-- What the provider's own methods have done is seen, once the parts that
are not theirs are seen as before. -/
theorem Refines.withProvider (refines : s.Refines history p past) {q : BaseProvider} {observed : List ProviderEvent}
    (wsSession : q.wsSession = s.summary.wsSession) (worker : q.worker = s.worker ∨ q.worker ≠ .runSession)
    {q' : BaseProvider}
    (seen : q' = { q with
      iocWork := p.iocWork
      owner := (s.withProvider q).ownerSeen
      worker := if q.worker = s.worker then s.workerSeen else q.worker }) :
    (s.withProvider q).Refines (history ++ observed.map .provider) q' (past ++ observed) := by
  subst seen
  refine ⟨rfl, rfl, rfl, wsSession, rfl, rfl, (withProvider_workerSeen worker).symm, rfl, ?_, ?_⟩
  · exact fun works => refines.work (works.imp id (withProvider_starts worker))
  · rw [refines.seen, providerSeen_append, providerSeen_provider]

/-- An access of the owner's thread. -/
theorem Refines.byOwner (refines : s.Refines history p past) (inv : s.CloseInvariant) {action : ProviderAction}
    (byOwner : action.byOwner = true) (plain : s.plain action) {q : BaseProvider} {observed : List ProviderEvent}
    (step : s.summary.step action = some (q, observed)) :
    ∃ q' later, providerMachine.ReachFrom p past q' later ∧
      (s.withProvider q).Refines (history ++ observed.map .provider) q' later := by
  have free := inv.free byOwner plain step
  have same := refines.eq
  rw [ownerSeen_of_free free] at same
  have enabled := BaseProvider.step_byOwner byOwner p.iocWork s.workerSeen_cases step
  replace enabled : providerMachine.step p action = _ := (congrArg (BaseProvider.step · action) same).trans enabled
  obtain ⟨idle, worker, wsSession⟩ := (BaseProvider.step_move step).byOwner byOwner
  have wsSession : q.wsSession = s.summary.wsSession := by
    rcases wsSession with same | ⟨⟨caller, owner⟩, mapped⟩
    · exact same
    · have none : s.sessions = [] := by
        by_cases own : action = .ownerStep
        · subst own
          exact plain.resolve_right fun other => other caller owner
        · cases (idle own).symm.trans owner
      rw [mapped, summary_wsSession, none]
      rfl
  have worker : q.worker = s.worker ∨ q.worker ≠ .runSession :=
    worker.imp_right fun tests => by simp [tests.2]
  have owner : (s.withProvider q).ownerSeen = q.owner := ownerSeen_of_free (s := s.withProvider q) free
  exact ⟨_, _, .one enabled, refines.withProvider wsSession worker (by rw [owner]; rfl)⟩

theorem withProvider_ownerSeen {q : BaseProvider} (owner : q.owner = s.owner) :
    (s.withProvider q).ownerSeen = s.ownerSeen := by
  have same : (s.withProvider q).owner = s.owner := owner
  have closes : (s.withProvider q).closes = s.closes := rfl
  unfold ownerSeen
  rw [same, closes]

/-- `ioc.run()` returns. Where it ran out of work the provider believed in, that work was dropped. -/
theorem Refines.iocReturned (refines : s.Refines history p past) (alive : s.terminated = false)
    (worker : s.worker = .runIoc) {q : BaseProvider} {observed : List ProviderEvent}
    (step : s.summary.step .workerStep = some (q, observed)) :
    ∃ q' later, providerMachine.ReachFrom p past q' later ∧
      (s.withProvider q).Refines (history ++ observed.map .provider) q' later := by
  have seen : s.workerSeen = s.worker := workerSeen_of_worker (by simp [worker])
  have here : p.worker = .runIoc := by rw [refines.worker, seen, worker]
  have alive' : p.terminated = false := refines.terminated.trans alive
  obtain ⟨returned, rfl, rfl⟩ : (s.iocStopped = true ∨ s.summary.iocWork = false) ∧
      q = { s.summary with iocStopped := true, worker := .testDropped } ∧ observed = [] := by
    have here' : s.summary.worker = .runIoc := worker
    cases BaseProvider.step_move step with
    | iocReturned _ returned => exact ⟨returned, rfl, rfl⟩
    | stopBegun calls | stopIgnored calls => cases calls
    | _ other => cases here'.symm.trans other
  obtain ⟨work, before, idle, kept⟩ : ∃ work, providerMachine.ReachFrom p past { p with iocWork := work } past ∧
      (p.iocStopped = true ∨ work = false) ∧ (s.summary.iocWork = true → work = true) := by
    by_cases believed : p.iocStopped = false ∧ p.iocWork = true
    · obtain ⟨runs, work⟩ := believed
      have noWork : s.summary.iocWork = false := by
        rw [← refines.iocStopped, runs] at returned
        exact returned.resolve_left (by simp)
      have dropped : providerMachine.step p .drop = some ({ p with iocWork := false }, []) := by
        simp [providerMachine, BaseProvider.step, BaseProvider.handlerRuns, alive', here, runs, work]
      have run : providerMachine.ReachFrom p past { p with iocWork := false } (past ++ []) := .one dropped
      rw [List.append_nil] at run
      exact ⟨false, run, Or.inr rfl, fun works => absurd (noWork.symm.trans works) (by simp)⟩
    · refine ⟨p.iocWork, .refl, ?_, fun works => refines.work (Or.inl works)⟩
      cases stopped : p.iocStopped with
      | true => exact Or.inl rfl
      | false => exact Or.inr (Bool.eq_false_iff.mpr fun work => believed ⟨stopped, work⟩)
  have enabled : providerMachine.step { p with iocWork := work } .workerStep =
      some ({ p with iocWork := work, iocStopped := true, worker := .testDropped }, []) := by
    cases stopped : p.iocStopped with
    | true => simp [providerMachine, BaseProvider.step, BaseProvider.workerStep, alive', here]
    | false =>
      have none : work = false := idle.resolve_left (by simp [stopped])
      simp [providerMachine, BaseProvider.step, BaseProvider.workerStep, alive', here, none]
  have notRun : (s.withProvider { s.summary with iocStopped := true, worker := .testDropped }).starts = false :=
    starts_of_worker (by simp [ProviderSystem.withProvider])
  have owner : (s.withProvider { s.summary with iocStopped := true, worker := .testDropped }).ownerSeen = s.ownerSeen :=
    withProvider_ownerSeen rfl
  refine ⟨_, _, before.next enabled, ⟨refines.running, refines.joinable, rfl, refines.wsSession,
    refines.reconnectCount, refines.owner.trans owner.symm, ?_, refines.terminated, ?_, ?_⟩⟩
  · rw [workerSeen, notRun]
    rfl
  · rintro (works | starts)
    · exact kept works
    · cases notRun.symm.trans starts
  · rw [refines.seen, providerSeen_append]
    rfl

/-- An access of the provider's own methods is one of the provider that knows no more than the summary. -/
theorem Refines.own (refines : s.Refines history p past) (inv : s.CloseInvariant) {action : ProviderAction}
    (plain : s.plain action) {q : BaseProvider} {observed : List ProviderEvent}
    (step : s.summary.step action = some (q, observed)) :
    ∃ q' later, providerMachine.ReachFrom p past q' later ∧
      (s.withProvider q).Refines (history ++ observed.map .provider) q' later := by
  have alive : s.terminated = false := BaseProvider.alive_of_step step
  cases action with
  | start | stop | destroy | ownerStep => exact refines.byOwner inv rfl plain step
  | connect | drop => exact plain.elim
  | throw =>
    obtain ⟨thrown, rfl⟩ := (BaseProvider.step_move step).thrown_eq
    have enabled : providerMachine.step p .throw = some ({ p with worker := .testDropped }, []) := by
      have phase : p.worker = .createSession ∨ p.worker = .runSession ∨ p.worker = .runIoc := by
        rw [refines.worker]
        rcases s.workerSeen_cases with same | ⟨_, run⟩
        · rw [same]
          exact plain.imp_right Or.inl
        · exact Or.inr (Or.inr run)
      rcases phase with at_ | at_ | at_ <;>
        simp [providerMachine, BaseProvider.step, BaseProvider.throw, refines.terminated, alive, at_]
    have dropped : q.worker = .testDropped := by rw [thrown]
    have differs : q.worker ≠ s.worker := by
      rw [dropped]
      rcases plain with create | run
      · simp [create]
      · simp [run]
    have wsSession : q.wsSession = s.summary.wsSession := by rw [thrown]
    refine ⟨_, _, .one enabled, refines.withProvider wsSession (Or.inr (by simp [dropped])) ?_⟩
    rw [if_neg differs, withProvider_ownerSeen (by rw [thrown]; rfl), thrown]
    exact congrArg (fun p : BaseProvider => { p with worker := .testDropped }) refines.eq
  | workerStep =>
    obtain ⟨notCreate, notRun, free⟩ := plain
    by_cases ioc : s.worker = .runIoc
    · exact refines.iocReturned alive ioc step
    · have same := refines.eq
      have worker := workerSeen_of_worker notRun
      rw [worker] at same
      have enabled := BaseProvider.step_byWorker notRun ioc p.iocWork s.ownerSeen step
      replace enabled : providerMachine.step p .workerStep = _ :=
        (congrArg (BaseProvider.step · .workerStep) same).trans enabled
      obtain ⟨owner, wsSession, notRun'⟩ := (BaseProvider.step_move step).byWorker notCreate
      refine ⟨_, _, .one enabled, refines.withProvider wsSession (Or.inr notRun') ?_⟩
      rw [withProvider_ownerSeen owner, worker]
      split
      · rename_i same
        rw [same]
      · rfl

theorem alive_of_step {action : SystemAction} (step : s.step endpoint action = some (t, events)) :
    s.terminated = false := by
  by_contra dead
  simp [ProviderSystem.step, dead] at step

theorem CloseInvariant.ofReach (reach : (providerSystem endpoint).Reach s history) : s.CloseInvariant := by
  refine reach.invariant ⟨fun found => ?_, fun found => ?_⟩ fun inv step => inv.move (step_move step) <;> cases found

theorem Refines.move (refines : s.Refines history p past) (alive : s.terminated = false) (inv : s.CloseInvariant)
    {action : SystemAction} (move : s.Move endpoint action t events) :
    ∃ q later, providerMachine.ReachFrom p past q later ∧ t.Refines (history ++ events) q later := by
  cases move with
  | own plain step => exact refines.own inv plain step
  | sessionCreated worker => exact refines.sessionCreated alive worker rfl
  | runCalled _ found created => exact refines.runCalled found created rfl
  | inRun worker found inRun step => exact refines.inRun alive worker found inRun step rfl
  | inIoc worker found handler pending calls step =>
    exact refines.inIoc alive worker found handler pending (fun idle => (calls idle).1) step rfl
  | threw worker found inCallback => exact refines.threw alive worker found inCallback rfl
  | stopCalled owner found free => exact refines.stopCalled alive owner found free rfl
  | closeReturned found closing step => exact refines.closeReturned inv found closing step rfl

theorem refines_start : ProviderSystem.init.Refines [] providerMachine.initial [] :=
  ⟨rfl, rfl, rfl, rfl, rfl, rfl, rfl, rfl, fun works => (by rcases works with works | works <;> cases works), rfl⟩

theorem simulation (endpoint : Endpoint) :
    Machine.Simulation (providerSystem endpoint) providerMachine ProviderSystem.Refines where
  start := refines_start
  next reach _ refines step := refines.move (alive_of_step step) (.ofReach reach) (step_move step)

end ProviderSystem

/-- The provider with its sessions runs as the provider does that knows of
them only if they are stopped and if they have work left, and each session
runs as it does alone. -/
theorem providerSystem_refines {endpoint : Endpoint} {s : ProviderSystem} {history : List SystemEvent}
    (reach : (providerSystem endpoint).Reach s history) :
    (∃ p, providerMachine.Reach p (providerSeen history) ∧ s.Refines history p (providerSeen history)) ∧
      ∀ i session, s.sessions[i]? = some session →
        (webSocketMachine true).Reach session (sessionSeen i history) := by
  refine ⟨?_, fun i session found => (ProviderSystem.SessionsRun.ofReach reach).reach found⟩
  obtain ⟨p, past, reached, refines⟩ := (ProviderSystem.simulation endpoint).reach reach
  have seen := refines.seen
  subst seen
  exact ⟨p, reached, refines⟩

/-- Session `i` gets from its call of `Run` to its first read. -/
def connects (i : Nat) : List SystemAction :=
  [.step none, .step none, .succeed, .step none, .step none, .succeed, .step none, .step none, .succeed, .step none,
    .step none, .succeed, .step none, .step none].map (.session i)

/-- Session `i` reads a message and calls back. -/
def receives (i : Nat) (message : List UInt8) : List SystemAction :=
  [.receive message, .step none, .step none, .step none].map (.session i)

/-- A provider that is started, connects and receives a message. -/
def oneSession : List SystemAction :=
  [.start, .ownerStep, .workerStep, .workerStep, .workerStep, .workerStep].map .provider ++ connects 0 ++
    receives 0 [104, 105]

theorem providerSystem_refines_oneSession :
    ∃ s history, (providerSystem ⟨"host", "443", "/ws"⟩).run .init oneSession = some (s, history) ∧
      providerSeen history = [.sessionCreated, .connected] ∧
      ∃ p, providerMachine.Reach p (providerSeen history) ∧ s.Refines history p (providerSeen history) := by
  refine ⟨_, _, rfl, rfl, ?_⟩
  exact (providerSystem_refines (Machine.Reach.start.run
    (rfl : (providerSystem ⟨"host", "443", "/ws"⟩).run _ oneSession = some (_, _)))).1

end ConsolidatedBook
