import ConsolidatedBook.Machine

namespace ConsolidatedBook

/-- `WS_TIMER_RATE`. -/
def wsTimerRate : Nat := 30

/-- The asynchronous operations of a session. -/
inductive SessionOp
  | resolve
  | connect
  | sslHandshake
  | handshake
  | read
deriving DecidableEq, Repr

namespace SessionOp

/-- What the handler of an operation tells `fail` that failed. -/
def what : SessionOp → String
  | .resolve => "resolve"
  | .connect => "connect"
  | .sslHandshake => "ssl_handshake"
  | .handshake => "handshake"
  | .read => "read"

/-- The operation that the handler of an operation begins. -/
def next : SessionOp → SessionOp
  | .resolve => .connect
  | .connect => .sslHandshake
  | .sslHandshake => .handshake
  | .handshake | .read => .read

end SessionOp

/-- `beast::error_code`. Only `OnRead` asks if it is `websocket::error::closed`. -/
structure ErrorCode where
  closed : Bool
  message : String
deriving DecidableEq, Repr

/-- Where a session's chain of handlers stands, at the access that comes
next: a test of `stopped`, or what is behind the test. -/
inductive SessionPhase
  | created
  | testsRun (host port target : String)
  | pastRun (host port target : String)
  | waits (op : SessionOp)
  | tests (op : SessionOp) (bytesTransferred : Nat)
  | past (op : SessionOp) (bytesTransferred : Nat)
  | inCallback
  | ended
deriving DecidableEq, Repr

/-- `WebSocketSessionSSL`. `expiry` is the timeout of the lowest layer,
`suggestedTimeout` whether the websocket layer has the options suggested for a
client, which time its handshake and no more, and `closing` whether `Stop` is
between its store and the end of `ws.close`. -/
structure WebSocketSessionSSL where
  stopped : Bool
  host : String
  target : String
  buffer : List UInt8
  onMessageCallback : Bool
  expiry : Option Nat
  suggestedTimeout : Bool
  phase : SessionPhase
  closing : Bool
deriving DecidableEq, Repr

/-- Calls of `Run` and `Stop`, the next access of the thread that runs the
handlers, how the operation under way ends, and an exception in the callback.
`sniError` is the OpenSSL error if setting the name fails there. -/
inductive SessionAction
  | run (host port target : String)
  | step (sniError : Option String)
  | succeed
  | receive (message : List UInt8)
  | fails (ec : ErrorCode)
  | throw
  | stop
  | close (ec : Option ErrorCode)

inductive SessionEvent
  | runCalled (host port target : String)
  | resolving (host port : String)
  | connecting
  | sslHandshaking (sni : String)
  | handshaking (host target : String)
  | reading
  | succeeded (op : SessionOp)
  | received (message : List UInt8)
  | connectedTo (host target : String)
  | delivered (message : List UInt8)
  | failed (what message : String)
  | connectionClosed
  | stopCalled
deriving DecidableEq, Repr

namespace WebSocketSessionSSL

def init (onMessageCallback : Bool) : WebSocketSessionSSL where
  stopped := false
  host := ""
  target := ""
  buffer := []
  onMessageCallback := onMessageCallback
  expiry := none
  suggestedTimeout := false
  phase := .created
  closing := false

/-- The rest of `Run`. -/
def runRest (s : WebSocketSessionSSL) (host port target : String) : WebSocketSessionSSL × List SessionEvent :=
  ({ s with host := host, target := target, phase := .waits .resolve }, [.resolving host port])

/-- The rest of `OnResolve`. -/
def onResolveRest (s : WebSocketSessionSSL) : WebSocketSessionSSL × List SessionEvent :=
  ({ s with expiry := some wsTimerRate, phase := .waits .connect }, [.connecting])

/-- The rest of `OnConnect`. -/
def onConnectRest (s : WebSocketSessionSSL) (sniError : Option String) : WebSocketSessionSSL × List SessionEvent :=
  match sniError with
  | some message => ({ s with expiry := some wsTimerRate, phase := .ended }, [.failed "SSL SNI" message])
  | none => ({ s with expiry := some wsTimerRate, phase := .waits .sslHandshake }, [.sslHandshaking s.host])

/-- The rest of `OnSslHandshake`. -/
def onSslHandshakeRest (s : WebSocketSessionSSL) : WebSocketSessionSSL × List SessionEvent :=
  ({ s with expiry := none, suggestedTimeout := true, phase := .waits .handshake }, [.handshaking s.host s.target])

/-- The rest of `OnHandshake`. -/
def onHandshakeRest (s : WebSocketSessionSSL) : WebSocketSessionSSL × List SessionEvent :=
  ({ s with phase := .waits .read }, [.connectedTo s.host s.target, .reading])

/-- The rest of `OnRead`, up to the callback if it calls one. -/
def onReadRest (s : WebSocketSessionSSL) (bytesTransferred : Nat) : WebSocketSessionSSL × List SessionEvent :=
  if bytesTransferred > 0 ∧ s.onMessageCallback = true then
    ({ s with buffer := s.buffer.drop bytesTransferred, phase := .inCallback }, [.delivered s.buffer])
  else ({ s with phase := .waits .read }, [.reading])

/-- The next access of the thread that runs the handlers. -/
def handlerStep (s : WebSocketSessionSSL) (sniError : Option String) :
    Option (WebSocketSessionSSL × List SessionEvent) :=
  match s.phase with
  | .created | .waits _ | .ended => none
  | .testsRun host port target =>
    some ({ s with phase := if s.stopped then .ended else .pastRun host port target }, [])
  | .pastRun host port target => some (s.runRest host port target)
  | .tests op bytesTransferred =>
    some ({ s with phase := if s.stopped then .ended else .past op bytesTransferred }, [])
  | .past .resolve _ => some s.onResolveRest
  | .past .connect _ => some (s.onConnectRest sniError)
  | .past .sslHandshake _ => some s.onSslHandshakeRest
  | .past .handshake _ => some s.onHandshakeRest
  | .past .read bytesTransferred => some (s.onReadRest bytesTransferred)
  | .inCallback => some ({ s with phase := .waits .read }, [.reading])

/-- A handler that is called with an error. -/
def onError (s : WebSocketSessionSSL) (op : SessionOp) (ec : ErrorCode) : WebSocketSessionSSL × List SessionEvent :=
  if op = .read ∧ ec.closed = true then ({ s with phase := .ended }, [.connectionClosed])
  else ({ s with phase := .ended }, [.failed op.what ec.message])

/-- `Run` is called once, by the thread that made the session. A successful
read appends one whole message to the buffer. -/
def step (s : WebSocketSessionSSL) : SessionAction → Option (WebSocketSessionSSL × List SessionEvent)
  | .run host port target =>
    match s.phase with
    | .created => some ({ s with phase := .testsRun host port target }, [.runCalled host port target])
    | _ => none
  | .step sniError => s.handlerStep sniError
  | .succeed =>
    match s.phase with
    | .waits .read => none
    | .waits op => some ({ s with phase := .tests op 0 }, [.succeeded op])
    | _ => none
  | .receive message =>
    match s.phase with
    | .waits .read =>
      some ({ s with buffer := s.buffer ++ message, phase := .tests .read message.length },
        [.succeeded .read, .received message])
    | _ => none
  | .fails ec =>
    match s.phase with
    | .waits op => some (s.onError op ec)
    | _ => none
  | .throw =>
    match s.phase with
    | .inCallback => some ({ s with phase := .ended }, [])
    | _ => none
  | .stop => if s.closing then none else some ({ s with stopped := true, closing := true }, [.stopCalled])
  | .close ec =>
    if s.closing then
      some ({ s with closing := false }, (ec.map fun ec => SessionEvent.failed "close" ec.message).toList)
    else none

end WebSocketSessionSSL

def webSocketMachine (onMessageCallback : Bool) : Machine WebSocketSessionSSL SessionAction SessionEvent where
  initial := .init onMessageCallback
  step := WebSocketSessionSSL.step

end ConsolidatedBook
