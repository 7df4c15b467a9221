import ConsolidatedBook.BaseProvider.Handlers
import ConsolidatedBook.WebSocketSession.Stopping

namespace ConsolidatedBook

namespace WorkerPhase

/-- Between `ioc.restart()` and the return of `ioc.run()`. -/
def usesIoc : WorkerPhase → Bool
  | .createSession | .runSession | .runIoc => true
  | _ => false

end WorkerPhase

namespace BaseProvider

variable {p q : BaseProvider} {closing : Prop} {events : List ProviderEvent}

/-- `Stop` has stopped the session that it has found. It may be inside that session's `Stop` still. -/
def Halts (closing : Prop) (p : BaseProvider) : Prop :=
  closing ∨ (∃ caller, p.owner = .stopIoc caller) ∨ ∃ caller, p.owner = .join caller

/-- The worker makes no session any more once `Stop` has stopped one, and
while the worker uses the `io_context` only `Stop` has it stopped. -/
structure HaltInvariant (closing : Prop) (p : BaseProvider) : Prop where
  stopping : p.owner.stopping = true → p.running = false
  halted : p.Halts closing → p.running = false ∧ p.worker ≠ .restartIoc ∧ p.worker ≠ .createSession
  ioc : p.iocStopped = true → p.worker.usesIoc = true → p.Halts closing

/-- A step of the worker, which leaves the owner alone. -/
theorem HaltInvariant.frame (inv : p.HaltInvariant closing) (owner : q.owner = p.owner)
    (running : q.running = true → p.running = true)
    (restarts : q.worker = .restartIoc ∨ q.worker = .createSession →
      p.running = true ∨ p.worker = .restartIoc ∨ p.worker = .createSession)
    (ioc : q.iocStopped = true → q.worker.usesIoc = true → p.iocStopped = true ∧ p.worker.usesIoc = true) :
    q.HaltInvariant closing := by
  have halts : q.Halts closing ↔ p.Halts closing := by
    unfold Halts
    rw [owner]
  refine ⟨?_, ?_, ?_⟩
  · intro stopping
    rw [owner] at stopping
    exact Bool.eq_false_iff.mpr fun on => Bool.eq_false_iff.mp (inv.stopping stopping) (running on)
  · intro halting
    obtain ⟨off, notRestart, notCreate⟩ := inv.halted (halts.mp halting)
    refine ⟨Bool.eq_false_iff.mpr fun on => Bool.eq_false_iff.mp off (running on), ?_, ?_⟩
    · intro here
      rcases restarts (Or.inl here) with on | restart | create
      · cases off.symm.trans on
      · exact notRestart restart
      · exact notCreate create
    · intro here
      rcases restarts (Or.inr here) with on | restart | create
      · cases off.symm.trans on
      · exact notRestart restart
      · exact notCreate create
  · intro stopped uses
    obtain ⟨stopped, uses⟩ := ioc stopped uses
    exact halts.mpr (inv.ioc stopped uses)

/-- A step of the owner, with `Stop` not there or on its way out. -/
theorem HaltInvariant.outside (stopping : q.owner.stopping = true → q.running = false) (free : ¬ q.Halts closing)
    (ioc : q.iocStopped = true → q.worker.usesIoc = false) : q.HaltInvariant closing where
  stopping := stopping
  halted halts := absurd halts free
  ioc stopped uses := by cases (ioc stopped).symm.trans uses

theorem not_halts (free : ¬ closing) (other : p.owner.stopping = false) : ¬ p.Halts closing := by
  rintro (closes | ⟨caller, owner⟩ | ⟨caller, owner⟩)
  · exact free closes
  · rw [owner] at other
    cases other
  · rw [owner] at other
    cases other

theorem HaltInvariant.ioc_off (inv : p.HaltInvariant closing) (free : ¬ p.Halts closing) :
    p.iocStopped = true → p.worker.usesIoc = false := fun stopped =>
  Bool.eq_false_iff.mpr fun uses => free (inv.ioc stopped uses)

theorem usesIoc_of_ended {worker : WorkerPhase} (ended : worker.ended = true) : worker.usesIoc = false := by
  cases worker <;> first | rfl | cases ended

theorem HaltInvariant.moveOwner (inv : p.HaltInvariant closing) (thread : p.ThreadInvariant)
    {action : ProviderAction} (byOwner : action.byOwner = true) (free : ¬ closing)
    (stops : ∀ caller, p.owner = .stopSession caller → p.worker ≠ .restartIoc ∧ p.worker ≠ .createSession)
    (move : p.Move action q events) : q.HaltInvariant closing := by
  have leaves (caller : StopCaller) : ¬ Halts closing { p with owner := afterStop caller } :=
    not_halts free (afterStop_not_stopping caller)
  have noStop (caller : StopCaller) : (afterStop caller).stopping = true → p.running = false := fun stopping => by
    cases (afterStop_not_stopping caller).symm.trans stopping
  cases move with
  | startIgnored => exact inv
  | startCalled idle =>
    have off := inv.ioc_off (not_halts free (by rw [idle]; rfl))
    exact .outside (fun stopping => by cases stopping) (not_halts free rfl) off
  | @stopBegun _ caller _ idle _ =>
    have off := inv.ioc_off (not_halts free (by rw [idle]; rfl))
    refine .outside (fun _ => rfl) ?_ off
    rintro (closes | ⟨_, owner⟩ | ⟨_, owner⟩)
    · exact free closes
    · cases owner
    · cases owner
  | @stopIgnored _ caller _ idle _ =>
    have off := inv.ioc_off (not_halts free (by rw [idle]; rfl))
    exact .outside (noStop caller) (leaves caller) off
  | terminated => exact ⟨inv.stopping, inv.halted, inv.ioc⟩
  | threadAssigned => exact .outside (fun never => by cases never) (not_halts free rfl) fun _ => rfl
  | @sessionStopped caller owner =>
    have off := inv.stopping (by rw [owner]; rfl)
    have halts : Halts closing { p with wsSession := p.wsSession.map fun _ => ⟨true⟩, owner := .stopIoc caller } :=
      Or.inr (Or.inl ⟨caller, rfl⟩)
    exact ⟨fun _ => off, fun _ => ⟨off, stops caller owner⟩, fun _ _ => halts⟩
  | @iocStopped caller owner =>
    have halted := inv.halted (Or.inr (Or.inl ⟨caller, owner⟩))
    have halts : Halts closing { p with iocStopped := true, owner := .join caller } := Or.inr (Or.inr ⟨caller, rfl⟩)
    exact ⟨fun _ => halted.1, fun _ => halted, fun _ _ => halts⟩
  | @joined caller _ finished =>
    refine .outside (noStop caller) (leaves caller) fun _ => usesIoc_of_ended ?_
    change p.worker.ended = true
    rw [finished]
    rfl
  | @unjoined caller _ joinable =>
    exact .outside (noStop caller) (leaves caller) fun _ => usesIoc_of_ended (thread.ended joinable)
  | destroyed _ joinable =>
    refine .outside (fun never => by cases never) (not_halts free rfl) fun _ => ?_
    exact usesIoc_of_ended (thread.ended joinable)
  | _ => cases byOwner

theorem HaltInvariant.moveWorker (inv : p.HaltInvariant closing) {action : ProviderAction}
    (byWorker : action = .workerStep ∨ action = .throw) (move : p.Move action q events) :
    q.HaltInvariant closing := by
  cases move with
  | runningTested worker =>
    refine inv.frame rfl id ?_ ?_
    · cases p.running <;> simp
    · cases p.running <;> simp [WorkerPhase.usesIoc]
  | dropTested worker | reconnectionTested worker =>
    refine inv.frame rfl id ?_ ?_
    · cases p.running <;> simp
    · cases p.running <;> simp [WorkerPhase.usesIoc]
  | iocRestarted worker | sessionCreated worker | sessionRun worker | iocReturned worker | retried worker
  | exhausted worker | slept worker =>
    exact inv.frame rfl id (by simp [worker]) (by simp [worker, WorkerPhase.usesIoc])
  | gaveUp worker => exact inv.frame rfl (by simp) (by simp) (by simp [WorkerPhase.usesIoc])
  | thrown worker => exact inv.frame rfl id (by simp) (by simp [WorkerPhase.usesIoc])
  | stopBegun calls | stopIgnored calls => rcases byWorker with rfl | rfl <;> cases calls
  | _ => simp at byWorker

/-- `Stop` begins to halt by stopping a session. -/
theorem Move.halts {action : ProviderAction} (move : p.Move action q events) (halts : q.Halts closing) :
    p.Halts closing ∨ action = .ownerStep ∧ ∃ caller, p.owner = .stopSession caller := by
  have outside (caller : StopCaller) : ¬ (afterStop caller).stopping = true := by
    rw [afterStop_not_stopping]
    simp
  rcases halts with closes | ⟨caller, owner⟩ | ⟨caller, owner⟩
  · exact Or.inl (Or.inl closes)
  · cases move with
    | sessionStopped stops => exact Or.inr ⟨rfl, _, stops⟩
    | @stopIgnored _ returns | @joined returns | @unjoined returns =>
      exact absurd (congrArg OwnerPhase.stopping owner) (outside returns)
    | _ => first | cases owner | exact Or.inl (Or.inr (Or.inl ⟨caller, owner⟩))
  · cases move with
    | iocStopped stops => exact Or.inl (Or.inr (Or.inl ⟨_, stops⟩))
    | @stopIgnored _ returns | @joined returns | @unjoined returns =>
      exact absurd (congrArg OwnerPhase.stopping owner) (outside returns)
    | _ => first | cases owner | exact Or.inl (Or.inr (Or.inr ⟨caller, owner⟩))

end BaseProvider

namespace WebSocketSessionSSL

/-- The session begins and delivers nothing any more. -/
def Retired (session : WebSocketSessionSSL) : Prop :=
  session.phase.pending = false ∨ session.stopped = true ∧ session.phase.mayBegin = 0

variable {session next : WebSocketSessionSSL} {observed : List SessionEvent}

theorem Retired.step (retired : session.Retired) (pending : session.phase.pending = true) {action : SessionAction}
    (step : session.step action = some (next, observed)) : next.Retired := by
  rcases retired with idle | ⟨stopped, quiet⟩
  · cases idle.symm.trans pending
  · obtain ⟨stays, begins, _⟩ := (step_move step).stopped_step stopped
    exact Or.inr ⟨stays, by omega⟩

theorem Retired.not_inCallback (retired : session.Retired) : session.phase ≠ .inCallback := by
  intro inCallback
  rcases retired with idle | ⟨_, quiet⟩
  · rw [inCallback] at idle
    cases idle
  · rw [inCallback] at quiet
    cases quiet

/-- Outside its handlers a session that `Stop` has stopped is retired. -/
theorem retired_of_stopped (stopped : session.stopped = true) (handles : session.phase.inHandler = false) :
    session.Retired := by
  unfold Retired
  cases at_ : session.phase <;> rw [at_] at handles <;>
    first | exact Or.inl rfl | exact Or.inr ⟨stopped, rfl⟩ | cases handles

end WebSocketSessionSSL

namespace ProviderSystem

/-- `Stop` does not look at `ws_session` while the worker is about to replace it,
be there a session to stop or none yet. -/
def stopsCurrent (s : ProviderSystem) (action : SystemAction) : Bool :=
  match s.owner, action with
  | .stopSession _, .provider .ownerStep => s.worker ≠ .restartIoc && s.worker ≠ .createSession
  | _, _ => true

/-- Only the current session may begin or deliver anything, and only in `ioc.run()`. -/
structure OneConnection (s : ProviderSystem) : Prop where
  halt : s.summary.HaltInvariant (s.closes = true)
  earlier {i : Nat} {session : WebSocketSessionSSL} : s.sessions[i]? = some session → i ≠ s.current → session.Retired
  current {session : WebSocketSessionSSL} : s.sessions[s.current]? = some session → s.worker ≠ .runIoc → session.Retired
  stopped {session : WebSocketSessionSSL} : s.sessions[s.current]? = some session →
    s.summary.Halts (s.closes = true) → session.stopped = true

variable {endpoint : Endpoint} {s t : ProviderSystem} {history events : List SystemEvent}

/-- Every session is retired when a new one is made. -/
theorem OneConnection.retired (one : s.OneConnection) (outside : s.worker ≠ .runIoc) {i : Nat}
    {session : WebSocketSessionSSL} (found : s.sessions[i]? = some session) : session.Retired := by
  by_cases here : i = s.current
  · subst here
    exact one.current found outside
  · exact one.earlier found here

/-- A step of session `i`. -/
theorem OneConnection.set (one : s.OneConnection) {i : Nat} {session next : WebSocketSessionSSL}
    (found : s.sessions[i]? = some session) (sessions : t.sessions = s.sessions.set i next)
    (halt : t.summary.HaltInvariant (t.closes = true)) (outside : t.worker ≠ .runIoc → i = s.current ∨ s.worker ≠ .runIoc)
    (retired : (i = s.current → t.worker ≠ .runIoc) → next.Retired)
    (stopped : t.summary.Halts (t.closes = true) → i = s.current ∧ next.stopped = true ∨
      s.summary.Halts (s.closes = true) ∧ next.stopped = session.stopped) : t.OneConnection := by
  have same := current_set sessions
  refine ⟨halt, fun {j other} here differs => ?_, fun {other} here notIoc => ?_, fun {other} here halts => ?_⟩
  · rw [sessions] at here
    rw [same] at differs
    rcases getElem?_set_cases here with ⟨rfl, rfl⟩ | ⟨_, old⟩
    · exact retired fun current => absurd current differs
    · exact one.earlier old differs
  · rw [sessions, same] at here
    rcases getElem?_set_cases here with ⟨_, rfl⟩ | ⟨differs, old⟩
    · exact retired fun _ => notIoc
    · exact one.current old ((outside notIoc).resolve_left differs.symm)
  · rw [sessions, same] at here
    rcases getElem?_set_cases here with ⟨current, rfl⟩ | ⟨differs, old⟩
    · rcases stopped halts with ⟨_, done⟩ | ⟨halts, kept⟩
      · exact done
      · rw [kept]
        exact one.stopped (current ▸ found) halts
    · rcases stopped halts with ⟨current, _⟩ | ⟨halts, _⟩
      · exact absurd current.symm differs
      · exact one.stopped old halts

/-- `ioc.run()` returns with nothing left that the current session could begin. -/
theorem OneConnection.iocReturned (one : s.OneConnection) (free : s.handles = false) {q : BaseProvider}
    {observed : List ProviderEvent} (worker : s.worker = .runIoc)
    (step : s.summary.step .workerStep = some (q, observed)) {session : WebSocketSessionSSL}
    (found : s.sessions[s.current]? = some session) : session.Retired := by
  have here : s.summary.worker = .runIoc := worker
  have member := List.mem_of_getElem? found
  cases BaseProvider.step_move step with
  | iocReturned _ returned =>
    rcases returned with stopped | idle
    · have uses : s.summary.worker.usesIoc = true := by rw [here]; rfl
      have handles : session.phase.inHandler = false :=
        Bool.eq_false_iff.mpr fun inside => List.any_eq_false.mp free session member inside
      exact WebSocketSessionSSL.retired_of_stopped (one.stopped found (one.halt.ioc stopped uses)) handles
    · exact Or.inl (Bool.eq_false_iff.mpr fun pending => List.any_eq_false.mp idle session member pending)
  | stopBegun calls | stopIgnored calls => cases calls
  | _ other => cases here.symm.trans other

/-- An access of the provider's own methods. -/
theorem OneConnection.own (one : s.OneConnection) (inv : s.CloseInvariant) (thread : s.summary.ThreadInvariant)
    {action : ProviderAction}
    (allowed : s.stopsCurrent (.provider action) = true) (plain : s.plain action) {q : BaseProvider}
    {observed : List ProviderEvent} (step : s.summary.step action = some (q, observed)) :
    (s.withProvider q).OneConnection := by
  have move := BaseProvider.step_move step
  refine ⟨?_, one.earlier, fun {session} found outside => ?_, fun {session} found halts => ?_⟩
  · have halt : q.HaltInvariant (s.closes = true) := by
      cases byOwner : action.byOwner with
      | true =>
        have free := inv.free byOwner plain step
        refine one.halt.moveOwner thread byOwner (by simp [free]) (fun caller owner => ?_) move
        by_cases own : action = .ownerStep
        · subst own
          have here : s.owner = .stopSession caller := owner
          have stops : s.worker ≠ .restartIoc ∧ s.worker ≠ .createSession := by
            simpa [stopsCurrent, here] using allowed
          exact stops
        · cases ((move.byOwner byOwner).1 own).symm.trans owner
      | false =>
        refine one.halt.moveWorker ?_ move
        cases action <;> first | exact Or.inl rfl | exact Or.inr rfl | exact plain.elim | cases byOwner
    exact ⟨halt.stopping, halt.halted, halt.ioc⟩
  · by_cases worker : s.worker = .runIoc
    · obtain ⟨rfl, free⟩ := own_leavesIoc thread plain step worker outside
      exact one.iocReturned free worker step found
    · exact one.current found worker
  · rcases move.halts halts with earlier | ⟨rfl, caller, owner⟩
    · exact one.stopped found earlier
    · rcases plain with none | other
      · have here : s.sessions[s.current]? = some session := found
        rw [none] at here
        cases here
      · exact absurd owner (other caller)

theorem OneConnection.sessionCreated (one : s.OneConnection) (worker : s.worker = .createSession)
    (moved : t = { s with sessions := s.sessions ++ [.init true], worker := .runSession }) : t.OneConnection := by
  have outside : s.worker ≠ .runIoc := by simp [worker]
  have sessions : t.sessions = s.sessions ++ [.init true] := by rw [moved]
  have closes : t.closes = s.closes := by
    unfold closes
    rw [sessions, List.any_append]
    exact Bool.or_false _
  have last : t.current = s.sessions.length := by
    unfold ProviderSystem.current
    rw [sessions, List.length_append]
    rfl
  refine ⟨?_, fun {j other} here differs => ?_, fun {other} here _ => ?_, fun {other} here halts => ?_⟩
  · rw [closes, moved]
    exact one.halt.frame rfl id (by simp [summary]) (by simp [summary, worker, WorkerPhase.usesIoc])
  · rw [last] at differs
    rw [sessions] at here
    rcases getElem?_concat_cases here with old | ⟨new, _⟩
    · exact one.retired outside old
    · exact absurd new differs
  · rw [sessions] at here
    rcases getElem?_concat_cases here with old | ⟨_, rfl⟩
    · exact one.retired outside old
    · exact Or.inl rfl
  · rw [closes, moved] at halts
    exact absurd worker (one.halt.halted halts).2.2

/-- A step of a session that the worker makes, which neither stops the session nor ends a stop. -/
theorem OneConnection.handler (one : s.OneConnection) {i : Nat} {session next : WebSocketSessionSSL} {phase : WorkerPhase}
    (found : s.sessions[i]? = some session)
    (moved : t = { s with sessions := s.sessions.set i next, worker := phase })
    (kept : next.stopped = session.stopped ∧ next.closing = session.closing) (uses : s.worker.usesIoc = true)
    (goes : phase = s.worker ∨ phase = .runIoc ∨ phase = .testDropped)
    (outside : phase ≠ .runIoc → i = s.current ∨ s.worker ≠ .runIoc)
    (retired : (i = s.current → phase ≠ .runIoc) → next.Retired) : t.OneConnection := by
  have sessions : t.sessions = s.sessions.set i next := by rw [moved]
  have closes := closes_set found sessions kept.2
  have worker : t.worker = phase := by rw [moved]
  refine one.set found sessions ?_ (worker ▸ outside) (worker ▸ retired) fun halts => Or.inr ⟨?_, kept.1⟩
  · rw [closes, moved]
    refine one.halt.frame rfl id ?_ fun stopped _ => ⟨stopped, uses⟩
    change phase = .restartIoc ∨ phase = .createSession → _ ∨ s.worker = .restartIoc ∨ s.worker = .createSession
    rcases goes with rfl | rfl | rfl
    · exact Or.inr
    · simp
    · simp
  · rw [closes, moved] at halts
    exact halts

theorem pending_of_inRun {phase : SessionPhase} (inRun : phase.inRun = true) : phase.pending = false := by
  cases phase <;> first | rfl | cases inRun

theorem OneConnection.inRun (one : s.OneConnection) (worker : s.worker = .runSession) {session next : WebSocketSessionSSL}
    (found : s.sessions[s.current]? = some session) {sniError : Option String} {observed : List SessionEvent}
    (step : session.step (.step sniError) = some (next, observed))
    (moved : t = afterRun { s with sessions := s.sessions.set s.current next }) : t.OneConnection := by
  rw [afterRun_set found] at moved
  have handler : SessionAction.ofHandler (.step sniError) = true := rfl
  refine one.handler found moved (WebSocketSessionSSL.step_handler handler step) (by rw [worker]; rfl) ?_
    (fun _ => Or.inl rfl) ?_
  · split
    · exact Or.inl rfl
    · exact Or.inr (Or.inl rfl)
  · intro outside
    have notIoc := outside rfl
    split at notIoc
    · rename_i inRun
      exact Or.inl (pending_of_inRun inRun)
    · exact absurd rfl notIoc

/-- `Stop` stops the current session, which no other will follow. -/
theorem OneConnection.stopCalled (one : s.OneConnection) (allowed : s.stopsCurrent (.provider .ownerStep) = true)
    {caller : StopCaller} (owner : s.owner = .stopSession caller) {session : WebSocketSessionSSL}
    (found : s.sessions[s.current]? = some session)
    (moved : t = { s with
      sessions := s.sessions.set s.current { session with stopped := true, closing := true } }) :
    t.OneConnection := by
  have sessions : t.sessions = s.sessions.set s.current { session with stopped := true, closing := true } := by
    rw [moved]
  have within := (List.getElem?_eq_some_iff.mp found).1
  have closes : t.closes = true := by
    refine List.any_eq_true.mpr ⟨{ session with stopped := true, closing := true }, ?_, rfl⟩
    rw [sessions]
    exact List.mem_set within _
  have stops : s.worker ≠ .restartIoc ∧ s.worker ≠ .createSession := by
    simpa [stopsCurrent, owner] using allowed
  have off : s.running = false := one.halt.stopping (by change s.owner.stopping = true; rw [owner]; rfl)
  have worker : t.worker = s.worker := by rw [moved]
  refine one.set found sessions ?_ (fun _ => Or.inl rfl) ?_ fun _ => Or.inl ⟨rfl, rfl⟩
  · rw [moved]
    exact ⟨fun _ => off, fun _ => ⟨off, stops⟩, fun _ _ => Or.inl (moved ▸ closes)⟩
  · intro outside
    rcases one.current found (worker ▸ outside rfl) with idle | ⟨_, quiet⟩
    · exact Or.inl idle
    · exact Or.inr ⟨rfl, quiet⟩

theorem OneConnection.closeReturned (one : s.OneConnection) (inv : s.CloseInvariant) {i : Nat}
    {session next : WebSocketSessionSSL} (found : s.sessions[i]? = some session) (closing : session.closing = true)
    {ec : Option ErrorCode} {observed : List SessionEvent} (step : session.step (.close ec) = some (next, observed))
    (moved : t = afterClose { s with sessions := s.sessions.set i next }) : t.OneConnection := by
  obtain ⟨caller, owner⟩ := inv.owner found closing
  have closes : s.closes = true := List.any_eq_true.mpr ⟨session, List.mem_of_getElem? found, closing⟩
  have moved : t = { s with sessions := s.sessions.set i next, owner := .stopIoc caller } := by
    simp only [moved, afterClose, owner]
  have sessions : t.sessions = s.sessions.set i next := by rw [moved]
  simp only [WebSocketSessionSSL.step, closing, if_true, Option.some.injEq, Prod.mk.injEq] at step
  obtain ⟨rfl, _⟩ := step
  have halts : s.summary.Halts (s.closes = true) := Or.inl closes
  have halted := one.halt.halted halts
  have worker : t.worker = s.worker := by rw [moved]
  refine one.set found sessions ?_ ?_ ?_ fun _ => Or.inr ⟨halts, rfl⟩
  · have halts' : t.summary.Halts (t.closes = true) := Or.inr (Or.inl ⟨caller, by rw [moved]; rfl⟩)
    rw [moved] at halts' ⊢
    exact ⟨fun _ => halted.1, fun _ => halted, fun _ _ => halts'⟩
  · intro outside
    exact Or.inr (worker ▸ outside)
  · intro outside
    change session.Retired
    by_cases current : i = s.current
    · exact one.current (current ▸ found) (worker ▸ outside current)
    · exact one.earlier found current

theorem OneConnection.move (one : s.OneConnection) (inv : s.CloseInvariant) (thread : s.summary.ThreadInvariant)
    {action : SystemAction}
    (allowed : s.stopsCurrent action = true) (move : s.Move endpoint action t events) : t.OneConnection := by
  cases move with
  | own plain step => exact one.own inv thread allowed plain step
  | sessionCreated worker => exact one.sessionCreated worker rfl
  | @runCalled session worker found created =>
    have uses : s.worker.usesIoc = true := by rw [worker]; rfl
    exact one.handler found rfl ⟨rfl, rfl⟩ uses (Or.inl rfl) (fun _ => Or.inl rfl) fun _ => Or.inl rfl
  | inRun worker found _ step => exact one.inRun worker found step rfl
  | @inIoc i session next action observed worker found handler pending _ step =>
    have uses : s.worker.usesIoc = true := by rw [worker]; rfl
    refine one.handler found rfl (WebSocketSessionSSL.step_handler handler step) uses (Or.inl rfl) Or.inr
      fun outside => ?_
    by_cases current : i = s.current
    · exact absurd worker (outside current)
    · exact (one.earlier found current).step pending step
  | @threw i session worker found inCallback =>
    have uses : s.worker.usesIoc = true := by rw [worker]; rfl
    have current : i = s.current := by
      by_contra earlier
      exact (one.earlier found earlier).not_inCallback inCallback
    exact one.handler found rfl ⟨rfl, rfl⟩ uses (Or.inr (Or.inr rfl)) (fun _ => Or.inl current) fun _ => Or.inl rfl
  | stopCalled owner found _ => exact one.stopCalled allowed owner found rfl
  | closeReturned found closing step => exact one.closeReturned inv found closing step rfl

theorem OneConnection.ofReach (reach : ((providerSystem endpoint).restrict stopsCurrent).Reach s history) :
    s.OneConnection := by
  induction reach with
  | start =>
    have never : ¬ BaseProvider.Halts (closes init = true) init.summary :=
      BaseProvider.not_halts (by simp [closes, init]) rfl
    refine ⟨.outside ?_ never ?_, fun found => ?_, fun found => ?_, fun found => ?_⟩
    · intro stopping
      cases stopping
    · intro stopped
      cases stopped
    all_goals cases found
  | next before step ih =>
    obtain ⟨allowed, taken⟩ := Machine.step_restrict.mp step
    have before := before.unrestrict
    exact ih.move (.ofReach before) (threadInvariant_ofReach before) allowed (step_move taken)

/-- Sessions other than the current one call nothing back. -/
theorem OneConnection.silent (one : s.OneConnection) {action : SystemAction} (move : s.Move endpoint action t events)
    {i : Nat} (other : i ≠ s.current) : delivered (sessionSeen i events) = [] := by
  cases move with
  | own =>
    rw [sessionSeen_provider]
    rfl
  | sessionCreated | threw => rfl
  | runCalled => exact congrArg delivered (sessionSeen_of_ne other.symm [_])
  | stopCalled => exact congrArg delivered (sessionSeen_of_ne other.symm [_])
  | inRun => exact congrArg delivered (sessionSeen_of_ne other.symm _)
  | @inIoc j session next action observed worker found handler pending _ step =>
    by_cases same : j = i
    · subst same
      rw [sessionSeen_self]
      rcases one.earlier found other with idle | ⟨stopped, quiet⟩
      · cases idle.symm.trans pending
      · obtain ⟨_, _, delivers⟩ := (WebSocketSessionSSL.step_move step).stopped_step stopped
        have none := session.phase.mayDeliver_le
        exact List.length_eq_zero_iff.mp (by omega)
    · rw [sessionSeen_of_ne same]
      rfl
  | @closeReturned j session next ec observed found closing step =>
    by_cases same : j = i
    · subst same
      rw [sessionSeen_self]
      simp only [WebSocketSessionSSL.step, closing, if_true, Option.some.injEq, Prod.mk.injEq] at step
      obtain ⟨_, rfl⟩ := step
      cases ec <;> rfl
    · rw [sessionSeen_of_ne same]
      rfl

end ProviderSystem

/-- As long as `Stop` never looks at `ws_session` while the worker is about to
replace it, a provider has one connection at a time: a session that is not
stopped and has work left is the current one, inside `ioc.run()`, and no other
session calls `OnMessage`. -/
theorem providerSystem_oneConnection {endpoint : Endpoint} {s : ProviderSystem} {history : List SystemEvent}
    (reach : ((providerSystem endpoint).restrict ProviderSystem.stopsCurrent).Reach s history) :
    (∀ i session, s.sessions[i]? = some session → session.phase.pending = true → session.stopped = false →
      i = s.current ∧ s.worker = .runIoc) ∧
    ∀ action t events i message, (providerSystem endpoint).step s action = some (t, events) →
      .session i (.delivered message) ∈ events → i = s.current := by
  have one := ProviderSystem.OneConnection.ofReach reach
  refine ⟨fun i session found pending running => ?_, fun action t events i message step called => ?_⟩
  · have live : ¬ session.Retired := by
      rintro (idle | ⟨stopped, _⟩)
      · cases idle.symm.trans pending
      · cases stopped.symm.trans running
    have current : i = s.current := by
      by_contra earlier
      exact live (one.earlier found earlier)
    refine ⟨current, ?_⟩
    by_contra outside
    exact live (one.current (current ▸ found) outside)
  · by_contra other
    have silent := one.silent (ProviderSystem.step_move step) other
    have member : message ∈ delivered (sessionSeen i events) :=
      List.mem_filterMap.mpr ⟨_, List.mem_filterMap.mpr ⟨_, called, if_pos rfl⟩, rfl⟩
    rw [silent] at member
    cases member

theorem providerSystem_oneConnection_oneSession :
    ∃ s history session, ((providerSystem ⟨"host", "443", "/ws"⟩).restrict ProviderSystem.stopsCurrent).run .init
        oneSession = some (s, history) ∧ s.sessions[0]? = some session ∧ session.phase.pending = true ∧
      session.stopped = false ∧ s.worker = .runIoc ∧
      ∀ action t events i message, (providerSystem ⟨"host", "443", "/ws"⟩).step s action = some (t, events) →
        .session i (.delivered message) ∈ events → i = 0 := by
  refine ⟨_, _, _, rfl, rfl, rfl, rfl, ?_⟩
  have one := providerSystem_oneConnection (Machine.Reach.start.run
    (rfl : ((providerSystem ⟨"host", "443", "/ws"⟩).restrict ProviderSystem.stopsCurrent).run _ oneSession =
      some (_, _)))
  exact ⟨(one.1 0 _ rfl rfl rfl).2, one.2⟩

end ConsolidatedBook
