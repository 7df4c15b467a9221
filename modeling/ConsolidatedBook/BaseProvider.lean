import ConsolidatedBook.Machine
import Mathlib.Algebra.Group.Nat.Defs

namespace ConsolidatedBook

/-- `MAX_RECONNECT_ATTEMPTS`. -/
def maxReconnectAttempts : Nat := 10

/-- `INITIAL_RECONNECT_DELAY_MS`. -/
def initialReconnectDelayMs : Nat := 1000

/-- `MAX_RECONNECT_DELAY_MS`. -/
def maxReconnectDelayMs : Nat := 60000

/-- The capped exponential backoff of `HandleReconnection`. -/
def reconnectDelayMs (reconnectCount : Nat) : Nat :=
  min (initialReconnectDelayMs * 2 ^ (reconnectCount - 1)) maxReconnectDelayMs

/-- Who called `Stop`. -/
inductive StopCaller
  | user
  | destructor
deriving DecidableEq, Repr

/-- Where the thread that owns the provider stands in `Start`, `Stop` and the
destructor. A phase is the access it makes next. -/
inductive OwnerPhase
  | idle
  | assignThread
  | stopSession (caller : StopCaller)
  | stopIoc (caller : StopCaller)
  | join (caller : StopCaller)
  | destroyMembers
  | destroyed
deriving DecidableEq, Repr

/-- Where the worker thread stands in `Run`. At `runIoc` it is inside
`ioc.run()`; the tests after it, in `try` and in `catch`, are one phase. -/
inductive WorkerPhase
  | absent
  | testRunning
  | restartIoc
  | createSession
  | runSession
  | runIoc
  | testDropped
  | handleReconnection
  | countAttempt
  | giveUp
  | sleep
  | finished
deriving DecidableEq, Repr

structure WebSocketSession where
  stopped : Bool
deriving DecidableEq, Repr

/-- The provider with the two threads on it. `iocStopped` is the stopped state
of the `io_context`, `iocWork` whether it has operations outstanding.
`reconnectCount` is a `uint32_t`, which the first `2 ^ 32 - 1` drops do not make wrap. -/
structure BaseProvider where
  running : Bool
  joinable : Bool
  iocStopped : Bool
  iocWork : Bool
  wsSession : Option WebSocketSession
  reconnectCount : Nat
  owner : OwnerPhase
  worker : WorkerPhase
  terminated : Bool
deriving DecidableEq, Repr

/-- Calls by the owner, the next access of either thread, an exception in the
worker's `try` block, and what the connection does. -/
inductive ProviderAction
  | start
  | stop
  | destroy
  | ownerStep
  | workerStep
  | throw
  | connect
  | drop
deriving DecidableEq, Repr

inductive ProviderEvent
  | sessionCreated
  | connected
  | backoff (delayMs : Nat)
  | gaveUp
deriving DecidableEq, Repr

namespace BaseProvider

def init : BaseProvider where
  running := false
  joinable := false
  iocStopped := false
  iocWork := false
  wsSession := none
  reconnectCount := 0
  owner := .idle
  worker := .absent
  terminated := false

/-- Where `Stop` returns to. -/
def afterStop : StopCaller → OwnerPhase
  | .user => .idle
  | .destructor => .destroyMembers

/-- `running.exchange(false)`, and what follows in `Stop` if it was set. -/
def callStop (p : BaseProvider) (caller : StopCaller) : BaseProvider :=
  if p.running then { p with running := false, owner := .stopSession caller }
  else { p with owner := afterStop caller }

/-- The next access in `Start`, `Stop` or the destructor. Assigning to a
joinable thread or destroying it terminates the program; `join` waits for the worker. -/
def ownerStep (p : BaseProvider) : Option BaseProvider :=
  match p.owner with
  | .idle | .destroyed => none
  | .assignThread =>
    if p.joinable then some { p with terminated := true }
    else some { p with joinable := true, worker := .testRunning, owner := .idle }
  | .stopSession caller =>
    some { p with wsSession := p.wsSession.map fun _ => ⟨true⟩, owner := .stopIoc caller }
  | .stopIoc caller => some { p with iocStopped := true, owner := .join caller }
  | .join caller =>
    if p.joinable then
      if p.worker = .finished then some { p with joinable := false, owner := afterStop caller } else none
    else some { p with owner := afterStop caller }
  | .destroyMembers =>
    if p.joinable then some { p with terminated := true } else some { p with owner := .destroyed }

/-- The next access in `Run` or `HandleReconnection`. `ioc.run()` returns when
the context is stopped, or runs out of work, which stops it. -/
def workerStep (p : BaseProvider) : Option (BaseProvider × List ProviderEvent) :=
  match p.worker with
  | .absent | .finished => none
  | .testRunning => some ({ p with worker := if p.running then .restartIoc else .finished }, [])
  | .restartIoc => some ({ p with iocStopped := false, worker := .createSession }, [])
  | .createSession => some ({ p with wsSession := some ⟨false⟩, worker := .runSession }, [.sessionCreated])
  | .runSession =>
    some ({ p with
      iocWork := p.iocWork || p.wsSession.any fun session => !session.stopped
      worker := .runIoc }, [])
  | .runIoc =>
    if p.iocStopped then some ({ p with worker := .testDropped }, [])
    else if p.iocWork then none
    else some ({ p with iocStopped := true, worker := .testDropped }, [])
  | .testDropped =>
    some ({ p with worker := if p.running then .handleReconnection else .testRunning }, [])
  | .handleReconnection =>
    some ({ p with worker := if p.running then .countAttempt else .testRunning }, [])
  | .countAttempt =>
    let reconnectCount := p.reconnectCount + 1
    if reconnectCount > maxReconnectAttempts then
      some ({ p with reconnectCount := reconnectCount, worker := .giveUp }, [])
    else
      some ({ p with reconnectCount := reconnectCount, worker := .sleep },
        [.backoff (reconnectDelayMs reconnectCount)])
  | .giveUp => some ({ p with running := false, worker := .testRunning }, [.gaveUp])
  | .sleep => some ({ p with worker := .testRunning }, [])

/-- An exception leaves the `try` block for the test in its handler. -/
def throw (p : BaseProvider) : Option BaseProvider :=
  match p.worker with
  | .createSession | .runSession | .runIoc => some { p with worker := .testDropped }
  | _ => none

/-- Handlers run inside a running `ioc.run()` only. -/
def handlerRuns (p : BaseProvider) : Bool :=
  p.worker = .runIoc && !p.iocStopped && p.iocWork

def step (p : BaseProvider) (action : ProviderAction) : Option (BaseProvider × List ProviderEvent) :=
  if p.terminated then none
  else match action with
  | .start =>
    if p.owner = .idle then
      some (if p.running then p else { p with running := true, owner := .assignThread }, [])
    else none
  | .stop => if p.owner = .idle then some (p.callStop .user, []) else none
  | .destroy => if p.owner = .idle then some (p.callStop .destructor, []) else none
  | .ownerStep => p.ownerStep.map fun next => (next, [])
  | .workerStep => p.workerStep
  | .throw => p.throw.map fun next => (next, [])
  | .connect => if p.handlerRuns then some (p, [.connected]) else none
  | .drop => if p.handlerRuns then some ({ p with iocWork := false }, []) else none

end BaseProvider

def providerMachine : Machine BaseProvider ProviderAction ProviderEvent where
  initial := .init
  step := BaseProvider.step

end ConsolidatedBook
