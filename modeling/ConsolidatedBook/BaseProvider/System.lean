import ConsolidatedBook.BaseProvider.Moves
import ConsolidatedBook.WebSocketSession.Moves

namespace ConsolidatedBook

namespace SessionPhase

/-- A thread is inside `Run` of the session. -/
def inRun : SessionPhase → Bool
  | .testsRun _ _ _ | .pastRun _ _ _ => true
  | _ => false

/-- A handler of the session is running. -/
def inHandler : SessionPhase → Bool
  | .tests _ _ | .past _ _ | .inCallback => true
  | _ => false

/-- A handler of the session is waited for, or running. -/
def pending : SessionPhase → Bool
  | .waits _ | .tests _ _ | .past _ _ | .inCallback => true
  | _ => false

end SessionPhase

/-- `GetHost`, `GetPort` and `GetPath` of a provider. -/
structure Endpoint where
  host : String
  port : String
  path : String
deriving DecidableEq, Repr

/-- A provider with all the sessions that it has made. The last one is
`ws_session`; an earlier one is kept by the handlers that it waits for. -/
structure ProviderSystem where
  running : Bool
  joinable : Bool
  iocStopped : Bool
  sessions : List WebSocketSessionSSL
  reconnectCount : Nat
  owner : OwnerPhase
  worker : WorkerPhase
  terminated : Bool
deriving DecidableEq, Repr

/-- What the provider's own methods do next, or what happens to a session. -/
inductive SystemAction
  | provider (action : ProviderAction)
  | session (index : Nat) (action : SessionAction)

inductive SystemEvent
  | provider (event : ProviderEvent)
  | session (index : Nat) (event : SessionEvent)
deriving DecidableEq, Repr

namespace ProviderSystem

def init : ProviderSystem where
  running := false
  joinable := false
  iocStopped := false
  sessions := []
  reconnectCount := 0
  owner := .idle
  worker := .absent
  terminated := false

/-- What the provider's own methods can see of the sessions: if the current
one is stopped, and if the `io_context` has anything outstanding. -/
def summary (s : ProviderSystem) : BaseProvider where
  running := s.running
  joinable := s.joinable
  iocStopped := s.iocStopped
  iocWork := s.sessions.any fun session => session.phase.pending
  wsSession := s.sessions.getLast?.map fun session => ⟨session.stopped⟩
  reconnectCount := s.reconnectCount
  owner := s.owner
  worker := s.worker
  terminated := s.terminated

/-- The system after an access of the provider's own methods that no session takes part in. -/
def withProvider (s : ProviderSystem) (p : BaseProvider) : ProviderSystem where
  running := p.running
  joinable := p.joinable
  iocStopped := p.iocStopped
  sessions := s.sessions
  reconnectCount := p.reconnectCount
  owner := p.owner
  worker := p.worker
  terminated := p.terminated

def own (s : ProviderSystem) (action : ProviderAction) : Option (ProviderSystem × List SystemEvent) :=
  (s.summary.step action).map fun (p, events) => (s.withProvider p, events.map .provider)

/-- An access to session `i`. -/
def access (s : ProviderSystem) (i : Nat) (action : SessionAction) : Option (ProviderSystem × List SystemEvent) :=
  s.sessions[i]?.bind fun session =>
    (session.step action).map fun (next, events) =>
      ({ s with sessions := s.sessions.set i next }, events.map (.session i))

/-- The index of `ws_session`. -/
def current (s : ProviderSystem) : Nat := s.sessions.length - 1

/-- The owner is inside `ws.close`. -/
def closes (s : ProviderSystem) : Bool := s.sessions.any (·.closing)

/-- `ioc.run()` is inside a handler. -/
def handles (s : ProviderSystem) : Bool := s.sessions.any fun session => session.phase.inHandler

/-- The next access of the owner's thread, unless it is inside `ws.close`. -/
def ownerStep (s : ProviderSystem) : Option (ProviderSystem × List SystemEvent) :=
  match s.owner with
  | .stopSession _ =>
    if s.sessions = [] then s.own .ownerStep
    else if s.closes then none
    else s.access s.current .stop
  | _ => s.own .ownerStep

/-- The next access of the worker's thread, unless it is inside a session. -/
def workerStep (endpoint : Endpoint) (s : ProviderSystem) : Option (ProviderSystem × List SystemEvent) :=
  match s.worker with
  | .createSession =>
    some ({ s with sessions := s.sessions ++ [.init true], worker := .runSession }, [.provider .sessionCreated])
  | .runSession => s.access s.current (.run endpoint.host endpoint.port endpoint.path)
  | .runIoc => if s.handles then none else s.own .workerStep
  | _ => s.own .workerStep

/-- `Run` of the current session has returned, so `ioc.run()` is next. -/
def afterRun (s : ProviderSystem) : ProviderSystem :=
  if (s.sessions[s.current]?.any fun session => session.phase.inRun) then s else { s with worker := .runIoc }

/-- `Stop` of a session has returned to `Stop` of the provider. -/
def afterClose (s : ProviderSystem) : ProviderSystem :=
  match s.owner with
  | .stopSession caller => { s with owner := .stopIoc caller }
  | _ => s

/-- The next access of the worker inside session `i`: in `Run` of the current
one, or in a handler that `ioc.run()` has called. A handler that calls
`OnMessage` while the destructor runs, where it is pure virtual, goes on as any other. -/
def insideStep (s : ProviderSystem) (i : Nat) (sniError : Option String) :
    Option (ProviderSystem × List SystemEvent) :=
  match s.worker, s.sessions[i]?.map WebSocketSessionSSL.phase with
  | .runSession, some phase =>
    if i = s.current ∧ phase.inRun = true then
      (s.access i (.step sniError)).map fun (t, events) => (t.afterRun, events)
    else none
  | .runIoc, some phase => if phase.inHandler then s.access i (.step sniError) else none
  | _, _ => none

/-- What happens to session `i`. `ioc.run()` calls one handler at a time, and
none any more when it is stopped. -/
def sessionStep (s : ProviderSystem) (i : Nat) : SessionAction → Option (ProviderSystem × List SystemEvent)
  | .run _ _ _ | .stop => none
  | .step sniError => s.insideStep i sniError
  | .succeed => if s.worker = .runIoc ∧ s.iocStopped = false ∧ s.handles = false then s.access i .succeed else none
  | .receive message =>
    if s.worker = .runIoc ∧ s.iocStopped = false ∧ s.handles = false then s.access i (.receive message) else none
  | .fails ec =>
    if s.worker = .runIoc ∧ s.iocStopped = false ∧ s.handles = false then s.access i (.fails ec) else none
  | .throw =>
    if s.worker = .runIoc then
      (s.access i .throw).map fun (t, events) => ({ t with worker := .testDropped }, events)
    else none
  | .close ec => (s.access i (.close ec)).map fun (t, events) => (t.afterClose, events)

/-- Exceptions inside `ioc.run()` come from the callback of a session. -/
def step (endpoint : Endpoint) (s : ProviderSystem) (action : SystemAction) :
    Option (ProviderSystem × List SystemEvent) :=
  if s.terminated then none
  else match action with
  | .provider .ownerStep => s.ownerStep
  | .provider .workerStep => s.workerStep endpoint
  | .provider .throw => if s.worker = .runIoc then none else s.own .throw
  | .provider .connect | .provider .drop => none
  | .provider action => s.own action
  | .session i action => s.sessionStep i action

end ProviderSystem

/-- A provider with the sessions it makes, one `io_context` under all of them. -/
def providerSystem (endpoint : Endpoint) : Machine ProviderSystem SystemAction SystemEvent where
  initial := .init
  step := ProviderSystem.step endpoint

end ConsolidatedBook
