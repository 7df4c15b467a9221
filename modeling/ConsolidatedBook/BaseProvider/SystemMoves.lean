import ConsolidatedBook.BaseProvider.System

namespace ConsolidatedBook

/-- The accesses that the worker's thread makes inside `ioc.run()`. -/
def SessionAction.ofHandler : SessionAction → Bool
  | .step _ | .succeed | .receive _ | .fails _ | .throw => true
  | _ => false

theorem SessionPhase.pending_of_inHandler {phase : SessionPhase} (handler : phase.inHandler = true) :
    phase.pending = true := by
  cases phase <;> first | rfl | cases handler

namespace WebSocketSessionSSL

variable {s t : WebSocketSessionSSL} {events : List SessionEvent}

theorem step_run (created : s.phase = .created) (host port target : String) :
    s.step (.run host port target) =
      some ({ s with phase := .testsRun host port target }, [.runCalled host port target]) := by
  simp only [WebSocketSessionSSL.step, created]

theorem step_throw (inCallback : s.phase = .inCallback) : s.step .throw = some ({ s with phase := .ended }, []) := by
  simp only [WebSocketSessionSSL.step, inCallback]

theorem step_stop (idle : s.closing = false) :
    s.step .stop = some ({ s with stopped := true, closing := true }, [.stopCalled]) := by
  simp only [WebSocketSessionSSL.step, idle, Bool.false_eq_true, if_false]

theorem onError_keeps (s : WebSocketSessionSSL) (op : SessionOp) (ec : ErrorCode) :
    (s.onError op ec).1.stopped = s.stopped ∧ (s.onError op ec).1.closing = s.closing := by
  unfold onError
  split <;> exact ⟨rfl, rfl⟩

theorem handlerStep_keeps {sniError : Option String} (step : s.handlerStep sniError = some (t, events)) :
    t.stopped = s.stopped ∧ t.closing = s.closing := by
  simp only [handlerStep, runRest, onResolveRest, onConnectRest, onSslHandshakeRest, onHandshakeRest,
    onReadRest] at step
  split at step
  case h_8 | h_11 => split at step <;> cases step <;> exact ⟨rfl, rfl⟩
  all_goals cases step <;> exact ⟨rfl, rfl⟩

/-- Only `Stop` sets `stopped`, and only its end clears `closing`. -/
theorem step_handler {action : SessionAction} (handler : action.ofHandler = true)
    (step : s.step action = some (t, events)) : t.stopped = s.stopped ∧ t.closing = s.closing := by
  cases action with
  | step sniError => exact handlerStep_keeps step
  | fails ec =>
    simp only [WebSocketSessionSSL.step] at step
    split at step
    · rename_i op _
      have kept := onError_keeps s op ec
      rwa [Option.some.inj step] at kept
    · cases step
  | succeed | receive | throw =>
    simp only [WebSocketSessionSSL.step] at step
    split at step <;> cases step
    exact ⟨rfl, rfl⟩
  | run | stop | close => cases handler

end WebSocketSessionSSL

namespace ProviderSystem

variable {endpoint : Endpoint} {s t : ProviderSystem} {events : List SystemEvent}

theorem access_eq_some {i : Nat} {action : SessionAction} :
    s.access i action = some (t, events) ↔ ∃ session next observed, s.sessions[i]? = some session ∧
      session.step action = some (next, observed) ∧ t = { s with sessions := s.sessions.set i next } ∧
      events = observed.map (.session i) := by
  unfold access
  constructor
  · intro accessed
    obtain ⟨session, found, moved⟩ := Option.bind_eq_some_iff.mp accessed
    obtain ⟨⟨next, observed⟩, step, same⟩ := Option.map_eq_some_iff.mp moved
    cases same
    exact ⟨session, next, observed, found, step, rfl, rfl⟩
  · rintro ⟨session, next, observed, found, step, rfl, rfl⟩
    rw [found, Option.bind_some, step]
    rfl

/-- The accesses of the provider's own methods that no session takes part in. -/
def plain (s : ProviderSystem) : ProviderAction → Prop
  | .start | .stop | .destroy => True
  | .ownerStep => s.sessions = [] ∨ ∀ caller, s.owner ≠ .stopSession caller
  | .workerStep => s.worker ≠ .createSession ∧ s.worker ≠ .runSession ∧ (s.worker = .runIoc → s.handles = false)
  | .throw => s.worker = .createSession ∨ s.worker = .runSession
  | .connect | .drop => False

/-- Everything that one step of the system can do: an access of the provider's
own methods, a call of a session's method, or an access inside a session. -/
inductive Move (endpoint : Endpoint) (s : ProviderSystem) :
    SystemAction → ProviderSystem → List SystemEvent → Prop
  | own {action p observed} : s.plain action → s.summary.step action = some (p, observed) →
      Move endpoint s (.provider action) (s.withProvider p) (observed.map .provider)
  | sessionCreated : s.worker = .createSession →
      Move endpoint s (.provider .workerStep) { s with
        sessions := s.sessions ++ [.init true]
        worker := .runSession } [.provider .sessionCreated]
  | runCalled {session} : s.worker = .runSession → s.sessions[s.current]? = some session →
      session.phase = .created →
      Move endpoint s (.provider .workerStep) { s with
        sessions := s.sessions.set s.current
          { session with phase := .testsRun endpoint.host endpoint.port endpoint.path } }
        [.session s.current (.runCalled endpoint.host endpoint.port endpoint.path)]
  | inRun {session next sniError observed} : s.worker = .runSession → s.sessions[s.current]? = some session →
      session.phase.inRun = true → session.step (.step sniError) = some (next, observed) →
      Move endpoint s (.session s.current (.step sniError))
        (afterRun { s with sessions := s.sessions.set s.current next }) (observed.map (.session s.current))
  | inIoc {i session next action observed} : s.worker = .runIoc → s.sessions[i]? = some session →
      action.ofHandler = true → session.phase.pending = true →
      (session.phase.inHandler = false → s.iocStopped = false ∧ s.handles = false) →
      session.step action = some (next, observed) →
      Move endpoint s (.session i action) { s with sessions := s.sessions.set i next } (observed.map (.session i))
  | threw {i session} : s.worker = .runIoc → s.sessions[i]? = some session → session.phase = .inCallback →
      Move endpoint s (.session i .throw) { s with
        sessions := s.sessions.set i { session with phase := .ended }
        worker := .testDropped } []
  | stopCalled {caller session} : s.owner = .stopSession caller → s.sessions[s.current]? = some session →
      s.closes = false →
      Move endpoint s (.provider .ownerStep) { s with
        sessions := s.sessions.set s.current { session with stopped := true, closing := true } }
        [.session s.current .stopCalled]
  | closeReturned {i session next ec observed} : s.sessions[i]? = some session → session.closing = true →
      session.step (.close ec) = some (next, observed) →
      Move endpoint s (.session i (.close ec)) (afterClose { s with sessions := s.sessions.set i next })
        (observed.map (.session i))

theorem own_move {action : ProviderAction} (plain : s.plain action) (step : s.own action = some (t, events)) :
    s.Move endpoint (.provider action) t events := by
  obtain ⟨⟨p, observed⟩, moved, same⟩ := Option.map_eq_some_iff.mp step
  cases same
  exact .own plain moved

theorem ownerStep_move (step : s.ownerStep = some (t, events)) :
    s.Move endpoint (.provider .ownerStep) t events := by
  unfold ownerStep at step
  split at step
  · rename_i caller owner
    split at step
    · rename_i none
      exact own_move (show s.plain .ownerStep from Or.inl none) step
    · split at step
      · cases step
      · rename_i free
        obtain ⟨session, next, observed, found, stop, rfl, rfl⟩ := access_eq_some.mp step
        simp only [WebSocketSessionSSL.step, Option.ite_none_left_eq_some] at stop
        cases stop.2
        exact .stopCalled owner found (Bool.eq_false_iff.mpr free)
  · rename_i other
    exact own_move (show s.plain .ownerStep from Or.inr other) step

theorem workerStep_move (step : s.workerStep endpoint = some (t, events)) :
    s.Move endpoint (.provider .workerStep) t events := by
  unfold workerStep at step
  split at step
  · rename_i worker
    cases step
    exact .sessionCreated worker
  · rename_i worker
    obtain ⟨session, next, observed, found, run, rfl, rfl⟩ := access_eq_some.mp step
    simp only [WebSocketSessionSSL.step] at run
    split at run
    · rename_i created
      cases run
      exact .runCalled worker found created
    · cases run
  · rename_i worker
    split at step
    · cases step
    · rename_i free
      have plain : s.plain .workerStep :=
        ⟨by simp [worker], by simp [worker], fun _ => Bool.eq_false_iff.mpr free⟩
      exact own_move plain step
  · rename_i notCreate notRun notIoc
    have plain : s.plain .workerStep := ⟨notCreate, notRun, fun ioc => absurd ioc notIoc⟩
    exact own_move plain step

theorem insideStep_move {i : Nat} {sniError : Option String} (step : s.insideStep i sniError = some (t, events)) :
    s.Move endpoint (.session i (.step sniError)) t events := by
  unfold insideStep at step
  split at step
  · rename_i phase worker here
    split at step
    · rename_i own
      obtain ⟨rfl, inRun⟩ := own
      obtain ⟨⟨u, observed⟩, accessed, same⟩ := Option.map_eq_some_iff.mp step
      cases same
      obtain ⟨session, next, observed, found, moved, rfl, rfl⟩ := access_eq_some.mp accessed
      rw [found] at here
      cases here
      exact .inRun worker found inRun moved
    · cases step
  · rename_i phase worker here
    split at step
    · rename_i handler
      obtain ⟨session, next, observed, found, moved, rfl, rfl⟩ := access_eq_some.mp step
      rw [found] at here
      cases here
      have ofHandler : SessionAction.ofHandler (.step sniError) = true := rfl
      refine .inIoc worker found ofHandler (SessionPhase.pending_of_inHandler handler) ?_ moved
      intro other
      rw [handler] at other
      cases other
    · cases step
  · cases step

/-- `ioc.run()` calls the handler of an operation that has ended. -/
theorem called_move {i : Nat} {action : SessionAction} (handler : action.ofHandler = true)
    (waits : ∀ session next observed, WebSocketSessionSSL.step session action = some (next, observed) →
      ∃ op, session.phase = .waits op)
    (step : (if s.worker = .runIoc ∧ s.iocStopped = false ∧ s.handles = false then s.access i action else none) =
      some (t, events)) : s.Move endpoint (.session i action) t events := by
  rw [Option.ite_none_right_eq_some] at step
  obtain ⟨⟨worker, free⟩, accessed⟩ := step
  obtain ⟨session, next, observed, found, moved, rfl, rfl⟩ := access_eq_some.mp accessed
  obtain ⟨op, phase⟩ := waits session next observed moved
  exact .inIoc worker found handler (by rw [phase]; rfl) (fun _ => free) moved

theorem sessionStep_move {i : Nat} {action : SessionAction} (step : s.sessionStep i action = some (t, events)) :
    s.Move endpoint (.session i action) t events := by
  cases action with
  | run | stop => cases step
  | step sniError => exact insideStep_move step
  | succeed | receive | fails =>
    refine called_move rfl ?_ step
    intro session next observed moved
    simp only [WebSocketSessionSSL.step] at moved
    split at moved <;> first | exact ⟨_, by assumption⟩ | cases moved
  | throw =>
    simp only [sessionStep, Option.ite_none_right_eq_some] at step
    obtain ⟨worker, step⟩ := step
    obtain ⟨⟨u, seen⟩, accessed, same⟩ := Option.map_eq_some_iff.mp step
    cases same
    obtain ⟨session, next, observed, found, moved, rfl, rfl⟩ := access_eq_some.mp accessed
    simp only [WebSocketSessionSSL.step] at moved
    split at moved
    · rename_i inCallback
      cases moved
      exact .threw worker found inCallback
    · cases moved
  | close ec =>
    obtain ⟨⟨u, seen⟩, accessed, same⟩ := Option.map_eq_some_iff.mp step
    cases same
    obtain ⟨session, next, observed, found, moved, rfl, rfl⟩ := access_eq_some.mp accessed
    have closing : session.closing = true := by
      simp only [WebSocketSessionSSL.step, Option.ite_none_right_eq_some] at moved
      exact moved.1
    exact .closeReturned found closing moved

/-- Every step of the system is one of the moves. -/
theorem step_move {action : SystemAction} (step : s.step endpoint action = some (t, events)) :
    s.Move endpoint action t events := by
  unfold ProviderSystem.step at step
  split at step
  · cases step
  cases action with
  | provider action =>
    cases action with
    | ownerStep => exact ownerStep_move step
    | workerStep => exact workerStep_move step
    | throw =>
      simp only [Option.ite_none_left_eq_some] at step
      obtain ⟨⟨p, observed⟩, moved, same⟩ := Option.map_eq_some_iff.mp step.2
      cases same
      have plain : s.plain .throw := by
        cases BaseProvider.step_move moved with
        | stopBegun calls | stopIgnored calls => cases calls
        | thrown worker =>
          rcases worker with create | run | ioc
          · exact Or.inl create
          · exact Or.inr run
          · exact absurd ioc step.1
      exact .own plain moved
    | connect | drop => cases step
    | start => exact own_move (show s.plain .start from trivial) step
    | stop => exact own_move (show s.plain .stop from trivial) step
    | destroy => exact own_move (show s.plain .destroy from trivial) step
  | session i action => exact sessionStep_move step

end ProviderSystem

end ConsolidatedBook
