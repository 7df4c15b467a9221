import ConsolidatedBook.WebSocketSession.Moves
import Mathlib.Data.List.Chain

namespace ConsolidatedBook

/-- The operation that the thread of handlers begins with an event. -/
def SessionEvent.begins : SessionEvent → Option SessionOp
  | .resolving _ _ => some .resolve
  | .connecting => some .connect
  | .sslHandshaking _ => some .sslHandshake
  | .handshaking _ _ => some .handshake
  | .reading => some .read
  | _ => none

def SessionEvent.completes : SessionEvent → Option SessionOp
  | .succeeded op => some op
  | _ => none

/-- The operations that a session has begun, in order. -/
def begun (history : List SessionEvent) : List SessionOp := history.filterMap SessionEvent.begins

/-- Those that have succeeded, in order. -/
def completed (history : List SessionEvent) : List SessionOp := history.filterMap SessionEvent.completes

@[simp] theorem begun_append (history events : List SessionEvent) :
    begun (history ++ events) = begun history ++ begun events := List.filterMap_append

@[simp] theorem completed_append (history events : List SessionEvent) :
    completed (history ++ events) = completed history ++ completed events := List.filterMap_append

/-- First `resolve`, and each other operation the one that the handler of the
one before it begins. -/
structure InOrder (ops : List SessionOp) : Prop where
  first : ∀ op, ops.head? = some op → op = .resolve
  chain : ops.IsChain fun op later => later = op.next

theorem InOrder.next {ops : List SessionOp} {op : SessionOp} (order : InOrder ops) (last : ops.getLast? = some op) :
    InOrder (ops ++ [op.next]) := by
  constructor
  · intro head same
    have nonempty : ops ≠ [] := by
      rintro rfl
      cases last
    rw [List.head?_append_of_ne_nil _ nonempty] at same
    exact order.first head same
  · refine order.chain.append (List.isChain_singleton _) ?_
    intro op' atEnd later atHead
    rw [last] at atEnd
    cases atEnd
    cases atHead
    rfl

/-- The host, and where there is one the target, that an event is about. -/
def SessionEvent.named : SessionEvent → Option (String × Option String)
  | .resolving host _ => some (host, none)
  | .sslHandshaking sni => some (sni, none)
  | .handshaking host target | .connectedTo host target => some (host, some target)
  | _ => none

namespace SessionPhase

/-- The operation whose handler runs or is waited for. -/
def op : SessionPhase → Option SessionOp
  | .waits op | .tests op _ | .past op _ => some op
  | .inCallback => some .read
  | _ => none

/-- The operation under way. -/
def awaits : SessionPhase → Option SessionOp
  | .waits op => some op
  | _ => none

/-- `Run` has begun nothing yet. -/
def isFresh : SessionPhase → Bool
  | .created | .testsRun _ _ _ | .pastRun _ _ _ => true
  | _ => false

/-- What `Run` was called with, while it has begun nothing. -/
def arguments : SessionPhase → Option (String × String × String)
  | .testsRun host port target | .pastRun host port target => some (host, port, target)
  | _ => none

end SessionPhase

namespace WebSocketSessionSSL

/-- What a run has shown, tied to where its chain of handlers stands. -/
structure ChainInvariant (s : WebSocketSessionSSL) (history : List SessionEvent) : Prop where
  ordered : InOrder (begun history)
  fresh : s.phase.isFresh = true → begun history = []
  current : ∀ op, s.phase.op = some op → (begun history).getLast? = some op
  outstanding : s.phase ≠ .ended → begun history = completed history ++ s.phase.awaits.toList
  atEnd : s.phase = .ended → begun history = completed history ∨ ∃ op, begun history = completed history ++ [op]
  failure : ∀ what message, .failed what message ∈ history → what = "close" ∨ s.phase = .ended ∧
    ((∃ op, what = op.what ∧ begun history = completed history ++ [op]) ∨
      what = "SSL SNI" ∧ begun history = completed history ∧ (begun history).getLast? = some .connect)

variable {s t : WebSocketSessionSSL} {history events : List SessionEvent}

theorem ChainInvariant.running (inv : s.ChainInvariant history) (running : s.phase ≠ .ended) :
    ∀ what message, .failed what message ∈ history → what = "close" := by
  intro what message member
  rcases inv.failure what message member with close | ⟨ended, _⟩
  · exact close
  · exact absurd ended running

/-- A step that neither begins nor completes an operation nor ends the chain. -/
theorem ChainInvariant.quiet (inv : s.ChainInvariant history) (op : t.phase.op = s.phase.op)
    (awaits : t.phase.awaits = s.phase.awaits) (fresh : t.phase.isFresh = s.phase.isFresh)
    (ended : t.phase = .ended ↔ s.phase = .ended) (begins : begun events = []) (completes : completed events = [])
    (fails : ∀ what message, .failed what message ∈ events → what = "close") :
    t.ChainInvariant (history ++ events) := by
  refine ⟨?_, ?_, ?_, ?_, ?_, ?_⟩ <;> simp only [begun_append, begins, completed_append, completes, List.append_nil]
  · exact inv.ordered
  · rw [fresh]
    exact inv.fresh
  · rw [op]
    exact inv.current
  · rw [awaits]
    exact fun running => inv.outstanding fun stopped => running (ended.mpr stopped)
  · exact fun stopped => inv.atEnd (ended.mp stopped)
  · intro what message member
    rw [ended]
    rcases List.mem_append.mp member with old | new
    · exact inv.failure what message old
    · exact Or.inl (fails what message new)

/-- A handler begins the next operation. -/
theorem ChainInvariant.begin (inv : s.ChainInvariant history) {op : SessionOp} (at_ : s.phase.op = some op)
    (running : s.phase ≠ .ended) (idle : s.phase.awaits = none) (phase : t.phase = .waits op.next)
    (begins : begun events = [op.next]) (completes : completed events = [])
    (fails : ∀ what message, .failed what message ∉ events) : t.ChainInvariant (history ++ events) := by
  have same := inv.outstanding running
  rw [idle, Option.toList_none, List.append_nil] at same
  refine ⟨?_, ?_, ?_, ?_, ?_, ?_⟩ <;> simp only [begun_append, begins, completed_append, completes, List.append_nil]
  · exact inv.ordered.next (inv.current op at_)
  · intro fresh
    rw [phase] at fresh
    cases fresh
  · intro op' here
    rw [phase] at here
    cases here
    exact List.getLast?_concat
  · intro _
    rw [same, phase]
    rfl
  · intro ended
    rw [phase] at ended
    cases ended
  · intro what message member
    rcases List.mem_append.mp member with old | new
    · exact Or.inl (inv.running running what message old)
    · exact absurd new (fails what message)

theorem ChainInvariant.succeed (inv : s.ChainInvariant history) {op : SessionOp} {bytes : Nat}
    (at_ : s.phase = .waits op) (phase : t.phase = .tests op bytes) (begins : begun events = [])
    (completes : completed events = [op]) (fails : ∀ what message, .failed what message ∉ events) :
    t.ChainInvariant (history ++ events) := by
  have running : s.phase ≠ .ended := by simp [at_]
  have same := inv.outstanding running
  refine ⟨?_, ?_, ?_, ?_, ?_, ?_⟩ <;> simp only [begun_append, begins, completed_append, completes, List.append_nil]
  · exact inv.ordered
  · intro fresh
    rw [phase] at fresh
    cases fresh
  · intro op' here
    rw [phase] at here
    cases here
    exact inv.current op (by rw [at_]; rfl)
  · intro _
    rw [same, at_, phase]
    exact (List.append_nil _).symm
  · intro ended
    rw [phase] at ended
    cases ended
  · intro what message member
    rcases List.mem_append.mp member with old | new
    · exact Or.inl (inv.running running what message old)
    · exact absurd new (fails what message)

/-- The chain ends: its operation has failed, or no other is begun. -/
theorem ChainInvariant.finish (inv : s.ChainInvariant history) (running : s.phase ≠ .ended) (phase : t.phase = .ended)
    (begins : begun events = []) (completes : completed events = [])
    (fails : ∀ what message, .failed what message ∈ events →
      (∃ op, what = op.what ∧ s.phase.awaits = some op) ∨ what = "SSL SNI" ∧ ∃ bytes, s.phase = .past .connect bytes) :
    t.ChainInvariant (history ++ events) := by
  have same := inv.outstanding running
  refine ⟨?_, ?_, ?_, ?_, ?_, ?_⟩ <;> simp only [begun_append, begins, completed_append, completes, List.append_nil]
  · exact inv.ordered
  · intro fresh
    rw [phase] at fresh
    cases fresh
  · intro op here
    rw [phase] at here
    cases here
  · exact fun other => absurd phase other
  · intro _
    rw [same]
    cases s.phase.awaits with
    | none => exact Or.inl (List.append_nil _)
    | some op => exact Or.inr ⟨op, rfl⟩
  · intro what message member
    rcases List.mem_append.mp member with old | new
    · exact Or.inl (inv.running running what message old)
    · refine Or.inr ⟨phase, ?_⟩
      rcases fails what message new with ⟨op, named, awaited⟩ | ⟨named, bytes, at_⟩
      · refine Or.inl ⟨op, named, ?_⟩
        rw [same, awaited]
        rfl
      · refine Or.inr ⟨named, ?_, inv.current .connect (by rw [at_]; rfl)⟩
        rw [same, at_]
        exact List.append_nil _

theorem ChainInvariant.move (inv : s.ChainInvariant history) (move : s.Move t events) :
    t.ChainInvariant (history ++ events) := by
  cases move with
  | runCalled at_ | runTested at_ _ | tested at_ _ =>
    exact inv.quiet (by rw [at_]; rfl) (by rw [at_]; rfl) (by rw [at_]; rfl) (by simp [at_]) rfl rfl (by simp)
  | @delivered bytes at_ _ _ =>
    exact inv.quiet (by rw [at_]; rfl) (by rw [at_]; rfl) (by rw [at_]; rfl) (by simp [at_]) rfl rfl (by simp)
  | stopCalled => exact inv.quiet rfl rfl rfl Iff.rfl rfl rfl (by simp)
  | @closeReturned events _ fails =>
    refine inv.quiet rfl rfl rfl Iff.rfl (filterMap_close fails fun _ => rfl) (filterMap_close fails fun _ => rfl) ?_
    intro what message member
    obtain ⟨_, same⟩ := fails _ member
    cases same
    rfl
  | @resolving host port target at_ =>
    have fresh := inv.fresh (by rw [at_]; rfl)
    have same := inv.outstanding (by simp [at_])
    have none : completed history = [] := by
      rw [fresh, at_] at same
      exact (List.append_nil _).symm.trans same.symm
    refine ⟨?_, ?_, ?_, ?_, ?_, ?_⟩ <;> simp only [begun_append, fresh, completed_append, none, List.nil_append]
    · refine ⟨?_, List.isChain_singleton _⟩
      intro op head
      cases head
      rfl
    · intro isFresh
      cases isFresh
    · intro op here
      cases here
      rfl
    · exact fun _ => rfl
    · intro ended
      cases ended
    · intro what message member
      rcases List.mem_append.mp member with old | new
      · exact Or.inl (inv.running (by simp [at_]) what message old)
      · simp at new
  | @succeeded op at_ _ => exact inv.succeed at_ rfl rfl rfl (by simp)
  | received at_ => exact inv.succeed at_ rfl rfl rfl (by simp)
  | connecting at_ | sslHandshaking at_ | handshaking at_ | connected at_ | passedOver at_ _ | returned at_ =>
    exact inv.begin (by rw [at_]; rfl) (by simp [at_]) (by rw [at_]; rfl) rfl rfl rfl (by simp)
  | runStopped at_ _ | stopped at_ _ | threw at_ | closed at_ =>
    exact inv.finish (by simp [at_]) rfl rfl rfl (by simp)
  | @failed op ec at_ _ =>
    refine inv.finish (by simp [at_]) rfl rfl rfl ?_
    intro what message member
    cases List.mem_singleton.mp member
    exact Or.inl ⟨op, rfl, by rw [at_]; rfl⟩
  | @sniFailed bytes message at_ =>
    refine inv.finish (by simp [at_]) rfl rfl rfl ?_
    intro what message member
    cases List.mem_singleton.mp member
    exact Or.inr ⟨rfl, bytes, at_⟩

theorem ChainInvariant.reach {callback : Bool} (reach : (webSocketMachine callback).Reach s history) :
    s.ChainInvariant history := by
  induction reach with
  | start =>
    refine ⟨⟨?_, List.isChain_nil⟩, fun _ => rfl, ?_, fun _ => rfl, ?_, ?_⟩
    · intro op head
      cases head
    · intro op here
      cases here
    · intro ended
      cases ended
    · intro what message member
      cases member
  | next _ step ih => exact ih.move (step_move step)

/-- Which names a run has used, and which timeout guards the operation under way. -/
structure NameInvariant (s : WebSocketSessionSSL) (history : List SessionEvent) : Prop where
  arguments : ∀ host port target, s.phase.arguments = some (host, port, target) →
    .runCalled host port target ∈ history
  named : ∀ event ∈ history, ∀ host target, event.named = some (host, target) →
    s.phase.isFresh = false ∧ host = s.host ∧ ∀ path, target = some path → path = s.target
  called : ∀ host port, .resolving host port ∈ history → .runCalled host port s.target ∈ history
  connecting : s.phase.op = some .connect ∨ s.phase.op = some .sslHandshake → s.expiry = some wsTimerRate
  upgraded : s.phase.op = some .handshake ∨ s.phase.op = some .read → s.expiry = none ∧ s.suggestedTimeout = true

/-- A step that keeps the names and begins no operation with a timeout of its own. -/
theorem NameInvariant.frame (inv : s.NameInvariant history) (host : t.host = s.host) (target : t.target = s.target)
    (arguments : ∀ host port target, t.phase.arguments = some (host, port, target) →
      s.phase.arguments = some (host, port, target) ∨ .runCalled host port target ∈ events)
    (fresh : s.phase.isFresh = false → t.phase.isFresh = false)
    (named : ∀ event ∈ events, ∀ name path, event.named = some (name, path) →
      t.phase.isFresh = false ∧ name = s.host ∧ ∀ p, path = some p → p = s.target)
    (called : ∀ host port, .resolving host port ∉ events)
    (connecting : t.phase.op = some .connect ∨ t.phase.op = some .sslHandshake → t.expiry = some wsTimerRate)
    (upgraded : t.phase.op = some .handshake ∨ t.phase.op = some .read →
      t.expiry = none ∧ t.suggestedTimeout = true) : t.NameInvariant (history ++ events) := by
  refine ⟨?_, ?_, ?_, connecting, upgraded⟩
  · intro host port target here
    rcases arguments host port target here with old | new
    · exact List.mem_append_left _ (inv.arguments host port target old)
    · exact List.mem_append_right _ new
  · intro event member name path about
    rw [host, target]
    rcases List.mem_append.mp member with old | new
    · obtain ⟨begun, same⟩ := inv.named event old name path about
      exact ⟨fresh begun, same⟩
    · exact named event new name path about
  · intro name port member
    rw [target]
    rcases List.mem_append.mp member with old | new
    · exact List.mem_append_left _ (inv.called name port old)
    · exact absurd new (called name port)

/-- A step that keeps names and timeouts, and whose chain stays at its operation or ends. -/
theorem NameInvariant.quiet (inv : s.NameInvariant history) (host : t.host = s.host) (target : t.target = s.target)
    (arguments : ∀ host port target, t.phase.arguments = some (host, port, target) →
      s.phase.arguments = some (host, port, target) ∨ .runCalled host port target ∈ events)
    (fresh : s.phase.isFresh = false → t.phase.isFresh = false)
    (named : ∀ event ∈ events, event.named = none) (op : t.phase.op = s.phase.op ∨ t.phase.op = none)
    (expiry : t.expiry = s.expiry) (suggested : t.suggestedTimeout = s.suggestedTimeout) :
    t.NameInvariant (history ++ events) := by
  have kept : ∀ op', t.phase.op = some op' → s.phase.op = some op' := by
    intro op' here
    rcases op with same | none
    · exact same.symm.trans here
    · rw [none] at here
      cases here
  refine inv.frame host target arguments fresh ?_ ?_ ?_ ?_
  · intro event member name path about
    rw [named event member] at about
    cases about
  · intro name port member
    cases named _ member
  · rw [expiry]
    exact fun here => inv.connecting (here.imp (kept _) (kept _))
  · rw [expiry, suggested]
    exact fun here => inv.upgraded (here.imp (kept _) (kept _))

theorem NameInvariant.move (inv : s.NameInvariant history) (move : s.Move t events) :
    t.NameInvariant (history ++ events) := by
  cases move with
  | runCalled at_ =>
    refine inv.quiet rfl rfl ?_ (by simp [at_, SessionPhase.isFresh]) (by simp [SessionEvent.named]) (Or.inr rfl) rfl rfl
    intro host port target here
    cases here
    exact Or.inr (List.mem_singleton.mpr rfl)
  | runTested at_ _ =>
    refine inv.quiet rfl rfl ?_ (by simp [at_, SessionPhase.isFresh]) (by simp) (Or.inr rfl) rfl rfl
    intro host port target here
    rw [at_]
    exact Or.inl here
  | succeeded at_ _ | received at_ | tested at_ _ | delivered at_ _ _ =>
    exact inv.quiet rfl rfl (by simp [SessionPhase.arguments]) (fun _ => rfl) (by simp [SessionEvent.named])
      (Or.inl (by rw [at_]; rfl)) rfl rfl
  | runStopped at_ _ | failed at_ _ | closed at_ | stopped at_ _ | threw at_ =>
    exact inv.quiet rfl rfl (by simp [SessionPhase.arguments]) (fun _ => rfl) (by simp [SessionEvent.named])
      (Or.inr rfl) rfl rfl
  | stopCalled =>
    exact inv.quiet rfl rfl (fun _ _ _ here => Or.inl here) id (by simp [SessionEvent.named]) (Or.inl rfl) rfl rfl
  | closeReturned _ fails =>
    refine inv.quiet rfl rfl (fun _ _ _ here => Or.inl here) id ?_ (Or.inl rfl) rfl rfl
    intro event member
    obtain ⟨message, rfl⟩ := fails event member
    rfl
  | @resolving host port target at_ =>
    have early : ∀ event ∈ history, event.named = none := by
      intro event member
      cases about : event.named with
      | none => rfl
      | some names =>
        have begun := (inv.named event member names.1 names.2 about).1
        rw [at_] at begun
        cases begun
    have known := inv.arguments host port target (by rw [at_]; rfl)
    refine ⟨?_, ?_, ?_, ?_, ?_⟩
    · intro _ _ _ here
      cases here
    · intro event member name path about
      rcases List.mem_append.mp member with old | new
      · rw [early event old] at about
        cases about
      · cases List.mem_singleton.mp new
        cases about
        refine ⟨rfl, rfl, ?_⟩
        intro path same
        cases same
    · intro name port' member
      rcases List.mem_append.mp member with old | new
      · cases early _ old
      · cases List.mem_singleton.mp new
        exact List.mem_append_left _ known
    · simp [SessionPhase.op]
    · simp [SessionPhase.op]
  | connecting at_ =>
    exact inv.frame rfl rfl (by simp [SessionPhase.arguments]) (fun _ => rfl) (by simp [SessionEvent.named]) (by simp)
      (fun _ => rfl) (by simp [SessionPhase.op])
  | sniFailed at_ =>
    exact inv.frame rfl rfl (by simp [SessionPhase.arguments]) (fun _ => rfl) (by simp [SessionEvent.named]) (by simp)
      (fun _ => rfl) (by simp [SessionPhase.op])
  | sslHandshaking at_ =>
    exact inv.frame rfl rfl (by simp [SessionPhase.arguments]) (fun _ => rfl)
      (by simp [SessionEvent.named, SessionPhase.isFresh]) (by simp) (fun _ => rfl) (by simp [SessionPhase.op])
  | handshaking at_ =>
    exact inv.frame rfl rfl (by simp [SessionPhase.arguments]) (fun _ => rfl)
      (by simp [SessionEvent.named, SessionPhase.isFresh]) (by simp) (by simp [SessionPhase.op]) (fun _ => ⟨rfl, rfl⟩)
  | connected at_ =>
    have upgraded := inv.upgraded (Or.inl (by rw [at_]; rfl))
    exact inv.frame rfl rfl (by simp [SessionPhase.arguments]) (fun _ => rfl)
      (by simp [SessionEvent.named, SessionPhase.isFresh]) (by simp) (by simp [SessionPhase.op]) (fun _ => upgraded)
  | passedOver at_ _ | returned at_ =>
    have upgraded := inv.upgraded (Or.inr (by rw [at_]; rfl))
    exact inv.frame rfl rfl (by simp [SessionPhase.arguments]) (fun _ => rfl) (by simp [SessionEvent.named]) (by simp)
      (by simp [SessionPhase.op]) (fun _ => upgraded)

theorem NameInvariant.reach {callback : Bool} (reach : (webSocketMachine callback).Reach s history) :
    s.NameInvariant history := by
  induction reach with
  | start =>
    refine ⟨?_, ?_, ?_, ?_, ?_⟩
    · intro host port target here
      cases here
    · intro event member
      cases member
    · intro host port member
      cases member
    · simp [webSocketMachine, WebSocketSessionSSL.init, SessionPhase.op]
    · simp [webSocketMachine, WebSocketSessionSSL.init, SessionPhase.op]
  | next _ step ih => exact ih.move (step_move step)

/-- A timer runs out on the operation if it stays under way. The resolver has none, and what is suggested
for a client has none for reading. -/
def timed (s : WebSocketSessionSSL) : SessionOp → Bool
  | .resolve => false
  | .connect | .sslHandshake | .read => s.expiry.isSome
  | .handshake => s.expiry.isSome || s.suggestedTimeout

/-- The protocol of a session, over all that a run has shown so far. -/
structure FollowsProtocol (s : WebSocketSessionSSL) (history : List SessionEvent) : Prop where
  /-- Resolve, connect, the two handshakes and the reads come in this order,
  each begun when the one before it has succeeded, so one is under way at most. -/
  ordered : InOrder (begun history)
  outstanding : begun history = completed history ++ s.phase.awaits.toList ∨
    s.phase = .ended ∧ ∃ op, begun history = completed history ++ [op]
  /-- What is reported to have failed is the operation that was under way, or
  the naming of the host before the first handshake, and it ends the chain. -/
  failure : ∀ what message, .failed what message ∈ history → what = "close" ∨ s.phase = .ended ∧
    ((∃ op, what = op.what ∧ begun history = completed history ++ [op]) ∨
      what = "SSL SNI" ∧ begun history = completed history ∧ (begun history).getLast? = some .connect)
  /-- The names used are those that `Run` was called with. -/
  named : ∀ event ∈ history, ∀ host target, event.named = some (host, target) →
    host = s.host ∧ ∀ path, target = some path → path = s.target
  called : ∀ host port, .resolving host port ∈ history → .runCalled host port s.target ∈ history
  /-- Connecting and the two handshakes have a timeout while they are under way, and reads have none. -/
  timeouts : ∀ op, s.phase.awaits = some op → (s.timed op = true ↔ op ≠ .resolve ∧ op ≠ .read)
  connecting : s.phase.awaits = some .connect ∨ s.phase.awaits = some .sslHandshake → s.expiry = some wsTimerRate

end WebSocketSessionSSL

/-- Whatever the network does and whenever `Stop` comes, a session follows its protocol. -/
theorem webSocketSession_followsProtocol {callback : Bool} {s : WebSocketSessionSSL} {history : List SessionEvent}
    (reach : (webSocketMachine callback).Reach s history) : s.FollowsProtocol history := by
  have chain := WebSocketSessionSSL.ChainInvariant.reach reach
  have names := WebSocketSessionSSL.NameInvariant.reach reach
  have op_of_awaits : ∀ op, s.phase.awaits = some op → s.phase.op = some op := by
    intro op here
    cases at_ : s.phase <;> rw [at_] at here <;> cases here
    rfl
  refine ⟨chain.ordered, ?_, chain.failure, ?_, names.called, ?_, ?_⟩
  · by_cases ended : s.phase = .ended
    · refine (chain.atEnd ended).imp ?_ fun failed => ⟨ended, failed⟩
      intro same
      rw [ended, same]
      exact (List.append_nil _).symm
    · exact Or.inl (chain.outstanding ended)
  · intro event member host target about
    exact (names.named event member host target about).2
  · intro op here
    cases op with
    | resolve => simp [WebSocketSessionSSL.timed]
    | connect => simp [WebSocketSessionSSL.timed, names.connecting (Or.inl (op_of_awaits _ here))]
    | sslHandshake => simp [WebSocketSessionSSL.timed, names.connecting (Or.inr (op_of_awaits _ here))]
    | handshake => simp [WebSocketSessionSSL.timed, (names.upgraded (Or.inl (op_of_awaits _ here))).2]
    | read => simp [WebSocketSessionSSL.timed, (names.upgraded (Or.inr (op_of_awaits _ here))).1]
  · exact fun here => names.connecting (here.imp (op_of_awaits _) (op_of_awaits _))

/-- A session that connects and reads one message before it is stopped. -/
def oneMessage : List SessionAction :=
  [.run "host" "443" "/ws", .step none, .step none, .succeed, .step none, .step none, .succeed, .step none,
    .step none, .succeed, .step none, .step none, .succeed, .step none, .step none, .receive [104, 105], .step none,
    .step none, .stop, .step none, .close none, .fails ⟨false, "aborted"⟩]

theorem webSocketSession_followsProtocol_oneMessage :
    ∃ s history, (webSocketMachine true).run (webSocketMachine true).initial oneMessage = some (s, history) ∧
      begun history = [.resolve, .connect, .sslHandshake, .handshake, .read, .read] ∧
      .failed "read" "aborted" ∈ history ∧ s.FollowsProtocol history := by
  refine ⟨_, _, rfl, rfl, by decide, ?_⟩
  exact webSocketSession_followsProtocol (Machine.Reach.start.run
    (rfl : (webSocketMachine true).run _ oneMessage = some (_, _)))

end ConsolidatedBook
