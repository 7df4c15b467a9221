import ConsolidatedBook.BaseProvider.Joining
import ConsolidatedBook.BaseProvider.Refinement

namespace ConsolidatedBook

namespace WebSocketSessionSSL

variable {s t : WebSocketSessionSSL} {events : List SessionEvent}

theorem step_inRun (inRun : s.phase.inRun = true) {sniError : Option String}
    (step : s.step (.step sniError) = some (t, events)) : t.phase.inHandler = false := by
  cases at_ : s.phase with
  | testsRun =>
    simp only [WebSocketSessionSSL.step, handlerStep, at_] at step
    cases step
    cases s.stopped <;> rfl
  | pastRun =>
    simp only [WebSocketSessionSSL.step, handlerStep, at_] at step
    cases step
    rfl
  | _ =>
    rw [at_] at inRun
    cases inRun

theorem step_close {ec : Option ErrorCode} (step : s.step (.close ec) = some (t, events)) : t.phase = s.phase := by
  simp only [WebSocketSessionSSL.step, Option.ite_none_right_eq_some] at step
  cases step.2
  rfl

end WebSocketSessionSSL

namespace BaseProvider

variable {p q : BaseProvider} {events : List ProviderEvent} {action : ProviderAction}

/-- Where the worker's thread is, in every run. -/
structure ThreadInvariant (p : BaseProvider) : Prop where
  absent : p.worker = .absent → p.joinable = false
  ended : p.joinable = false → p.worker.ended = true
  dead : p.terminated = true → p.owner = .assignThread ∨ p.owner = .destroyMembers

theorem ThreadInvariant.move (inv : p.ThreadInvariant) (alive : p.terminated = false) (move : p.Move action q events) :
    q.ThreadInvariant := by
  refine ⟨?_, ?_, ?_⟩
  · intro absent
    cases move with
    | joined => rfl
    | startIgnored | startCalled | stopBegun | stopIgnored | terminated | sessionStopped | iocStopped | unjoined
    | destroyed | connected | dropped => exact inv.absent absent
    | runningTested | dropTested | reconnectionTested => cases running : p.running <;> simp [running] at absent
    | _ => cases absent
  · intro unjoined
    cases move with
    | startIgnored | startCalled | stopBegun | stopIgnored | terminated | sessionStopped | iocStopped | unjoined
    | destroyed | connected | dropped => exact inv.ended unjoined
    | threadAssigned => cases unjoined
    | joined _ finished =>
      rw [finished]
      rfl
    | thrown worker =>
      have ended := inv.ended unjoined
      rcases worker with worker | worker | worker <;> rw [worker] at ended <;> cases ended
    | runningTested worker | iocRestarted worker | sessionCreated worker | sessionRun worker | iocReturned worker
    | dropTested worker | reconnectionTested worker | retried worker | exhausted worker | gaveUp worker
    | slept worker =>
      have ended := inv.ended unjoined
      rw [worker] at ended
      cases ended
  · intro dead
    cases move with
    | terminated owner => exact owner
    | _ => cases alive.symm.trans dead

/-- A step of a session. -/
theorem ThreadInvariant.frame (inv : p.ThreadInvariant)
    (worker : q.worker = p.worker ∨ p.worker.ended = false ∧ q.worker ≠ .absent)
    (joinable : q.joinable = p.joinable) (alive : q.terminated = false) : q.ThreadInvariant := by
  refine ⟨fun absent => ?_, fun unjoined => ?_, fun dead => ?_⟩
  · rcases worker with same | ⟨_, there⟩
    · exact joinable.trans (inv.absent (same.symm.trans absent))
    · exact absurd absent there
  · have ended := inv.ended (joinable.symm.trans unjoined)
    rcases worker with same | ⟨works, _⟩
    · rw [same, ended]
    · cases works.symm.trans ended
  · cases alive.symm.trans dead

end BaseProvider

namespace ProviderSystem

variable {endpoint : Endpoint} {s t : ProviderSystem} {history events : List SystemEvent} {action : SystemAction}

theorem afterClose_worker (s : ProviderSystem) : s.afterClose.worker = s.worker := by
  unfold afterClose
  split <;> rfl

theorem threadInvariant_move (inv : s.summary.ThreadInvariant) (alive : s.terminated = false)
    (move : s.Move endpoint action t events) : t.summary.ThreadInvariant := by
  have works {phase : WorkerPhase} (worker : s.worker = phase) (busy : phase.ended = false) :
      s.summary.worker.ended = false := (congrArg WorkerPhase.ended worker).trans busy
  cases move with
  | own plain step =>
    obtain ⟨absent, ended, dead⟩ := inv.move alive (BaseProvider.step_move step)
    exact ⟨absent, ended, dead⟩
  | sessionCreated worker | threw worker => exact inv.frame (Or.inr ⟨works worker rfl, by simp [summary]⟩) rfl alive
  | runCalled | inIoc | stopCalled => exact inv.frame (Or.inl rfl) rfl alive
  | inRun worker found =>
    rw [afterRun_set found]
    refine inv.frame (Or.inr ⟨works worker rfl, ?_⟩) rfl alive
    change (if _ then s.worker else .runIoc) ≠ _
    rw [worker]
    split <;> simp
  | @closeReturned i session next =>
    refine inv.frame (Or.inl (afterClose_worker { s with sessions := s.sessions.set i next })) ?_ ?_
    all_goals
      unfold afterClose
      split <;> first | rfl | exact alive

theorem threadInvariant_ofReach (reach : (providerSystem endpoint).Reach s history) : s.summary.ThreadInvariant := by
  induction reach with
  | start => exact ⟨fun _ => rfl, fun _ => rfl, fun dead => by cases dead⟩
  | next _ step ih => exact threadInvariant_move ih (alive_of_step step) (step_move step)

/-- Of the provider's own accesses only the return of `ioc.run()` takes the worker out of it. -/
theorem own_leavesIoc (thread : s.summary.ThreadInvariant) {action : ProviderAction}
    (plain : s.plain action) {q : BaseProvider} {observed : List ProviderEvent}
    (step : s.summary.step action = some (q, observed)) (worker : s.worker = .runIoc) (leaves : q.worker ≠ .runIoc) :
    action = .workerStep ∧ s.handles = false := by
  have move := BaseProvider.step_move step
  cases action with
  | workerStep => exact ⟨rfl, plain.2.2 worker⟩
  | throw => rcases plain with other | other <;> cases worker.symm.trans other
  | connect | drop => exact plain.elim
  | start | stop | destroy | ownerStep =>
    rcases (move.byOwner rfl).2.1 with same | ⟨unjoined, _⟩
    · exact absurd (same.trans worker) leaves
    · have ended : s.worker.ended = true := thread.ended unjoined
      rw [worker] at ended
      cases ended

/-- One handler runs at a time, in `ioc.run()` only, and no session is left in its `Run`. -/
structure HandlerInvariant (s : ProviderSystem) : Prop where
  one {i j : Nat} {session session' : WebSocketSessionSSL} : s.sessions[i]? = some session →
    s.sessions[j]? = some session' → session.phase.inHandler = true → session'.phase.inHandler = true → i = j
  outside {i : Nat} {session : WebSocketSessionSSL} : s.worker ≠ .runIoc → s.sessions[i]? = some session →
    session.phase.inHandler = false
  run : s.worker = .runSession → ∃ session, s.sessions[s.current]? = some session ∧
    (session.phase = .created ∨ session.phase.inRun = true)

/-- A step of session `i`. -/
theorem HandlerInvariant.set (inv : s.HandlerInvariant) {i : Nat} {session next : WebSocketSessionSSL}
    (found : s.sessions[i]? = some session) (sessions : t.sessions = s.sessions.set i next)
    (handler : next.phase.inHandler = true → t.worker = .runIoc ∧
      ∀ j other, s.sessions[j]? = some other → other.phase.inHandler = true → j = i)
    (outside : t.worker ≠ .runIoc → ∀ j other, s.sessions[j]? = some other → other.phase.inHandler = true → j = i)
    (run : t.worker = .runSession → s.worker = .runSession ∧ (i = s.current →
      session.phase = .created ∨ session.phase.inRun = true → next.phase = .created ∨ next.phase.inRun = true)) :
    t.HandlerInvariant := by
  refine ⟨fun {j k other other'} here here' inside inside' => ?_, fun {j other} notIoc here => ?_, fun running => ?_⟩
  · rw [sessions] at here here'
    rcases getElem?_set_cases here with ⟨rfl, rfl⟩ | ⟨_, old⟩
    · rcases getElem?_set_cases here' with ⟨rfl, _⟩ | ⟨_, old'⟩
      · rfl
      · exact ((handler inside).2 _ _ old' inside').symm
    · rcases getElem?_set_cases here' with ⟨rfl, rfl⟩ | ⟨_, old'⟩
      · exact (handler inside').2 _ _ old inside
      · exact inv.one old old' inside inside'
  · rw [sessions] at here
    by_contra inside
    rw [Bool.not_eq_false] at inside
    rcases getElem?_set_cases here with ⟨rfl, rfl⟩ | ⟨differs, old⟩
    · exact notIoc (handler inside).1
    · exact differs (outside notIoc _ _ old inside)
  · obtain ⟨before, kept⟩ := run running
    obtain ⟨session', here, ready⟩ := inv.run before
    rw [current_set sessions, sessions]
    by_cases current : i = s.current
    · subst current
      cases found.symm.trans here
      have within := (List.getElem?_eq_some_iff.mp found).1
      exact ⟨next, List.getElem?_set_self within, kept rfl ready⟩
    · exact ⟨session', (List.getElem?_set_ne current).trans here, ready⟩

/-- A step that leaves the handler of the session where it is. -/
theorem HandlerInvariant.aside (inv : s.HandlerInvariant) {i : Nat} {session next : WebSocketSessionSSL}
    (found : s.sessions[i]? = some session) (sessions : t.sessions = s.sessions.set i next)
    (phase : next.phase = session.phase) (worker : t.worker = s.worker) : t.HandlerInvariant := by
  refine inv.set found sessions (fun inside => ?_) (fun notIoc j other here inside => ?_) fun running => ?_
  · rw [phase] at inside
    refine ⟨?_, fun j other here inside' => inv.one here found inside' inside⟩
    by_contra notIoc
    cases (inv.outside (worker ▸ notIoc) found).symm.trans inside
  · cases (inv.outside (worker ▸ notIoc) here).symm.trans inside
  · exact ⟨worker.symm.trans running, fun _ ready => by rwa [phase]⟩

theorem HandlerInvariant.own (inv : s.HandlerInvariant) (thread : s.summary.ThreadInvariant)
    {action : ProviderAction} (plain : s.plain action) {q : BaseProvider} {observed : List ProviderEvent}
    (step : s.summary.step action = some (q, observed)) : (s.withProvider q).HandlerInvariant := by
  refine ⟨inv.one, fun {i session} notIoc found => ?_, fun running => ?_⟩
  · by_cases worker : s.worker = .runIoc
    · obtain ⟨_, free⟩ := own_leavesIoc thread plain step worker notIoc
      exact Bool.eq_false_iff.mpr (List.any_eq_false.mp free session (List.mem_of_getElem? found))
    · exact inv.outside worker found
  · have move := BaseProvider.step_move step
    replace running : q.worker = .runSession := running
    cases action with
    | workerStep => exact absurd running (move.byWorker plain.1).2.2
    | throw =>
      rw [move.thrown_eq.1] at running
      cases running
    | connect | drop => exact plain.elim
    | start | stop | destroy | ownerStep =>
      rcases (move.byOwner rfl).2.1 with same | ⟨_, begins⟩
      · exact inv.run (same.symm.trans running)
      · cases begins.symm.trans running

theorem HandlerInvariant.sessionCreated (inv : s.HandlerInvariant) (worker : s.worker = .createSession)
    (moved : t = { s with sessions := s.sessions ++ [.init true], worker := .runSession }) : t.HandlerInvariant := by
  have outside {i : Nat} {session : WebSocketSessionSSL} (found : t.sessions[i]? = some session) :
      session.phase.inHandler = false := by
    rw [moved] at found
    rcases getElem?_concat_cases found with old | ⟨_, rfl⟩
    · exact inv.outside (by simp [worker]) old
    · rfl
  refine ⟨fun here _ inside => ?_, fun _ found => outside found, fun _ => ⟨.init true, ?_, Or.inl rfl⟩⟩
  · cases (outside here).symm.trans inside
  · rw [moved]
    unfold ProviderSystem.current
    rw [List.length_append]
    exact List.getElem?_concat_length

theorem HandlerInvariant.move (inv : s.HandlerInvariant) (thread : s.summary.ThreadInvariant)
    (move : s.Move endpoint action t events) : t.HandlerInvariant := by
  cases move with
  | own plain step => exact inv.own thread plain step
  | sessionCreated worker => exact inv.sessionCreated worker rfl
  | runCalled worker found created =>
    refine inv.set found rfl (fun inside => by cases inside) (fun notIoc j other here inside => ?_) fun _ => ?_
    · cases (inv.outside notIoc here).symm.trans inside
    · exact ⟨worker, fun _ _ => Or.inr rfl⟩
  | @inRun session next _ _ worker found inRun step =>
    have idle := WebSocketSessionSSL.step_inRun inRun step
    have moved := afterRun_set found next
    have sessions : (afterRun { s with sessions := s.sessions.set s.current next }).sessions =
        s.sessions.set s.current next := afterRun_sessions _
    have outside : s.worker ≠ .runIoc := by simp [worker]
    refine inv.set found sessions (fun inside => ?_) (fun _ j other here inside => ?_) fun running => ?_
    · cases idle.symm.trans inside
    · cases (inv.outside outside here).symm.trans inside
    · refine ⟨worker, fun _ _ => ?_⟩
      rw [moved] at running
      by_contra leaves
      rw [not_or] at leaves
      simp only [leaves.2] at running
      cases running
  | @inIoc i session next action observed worker found handler pending calls step =>
    have alone (j : Nat) (other : WebSocketSessionSSL) (here : s.sessions[j]? = some other)
        (inside : other.phase.inHandler = true) : j = i := by
      cases own : session.phase.inHandler with
      | true => exact inv.one here found inside own
      | false =>
        have free := List.any_eq_false.mp (calls own).2 other (List.mem_of_getElem? here)
        exact absurd inside free
    exact inv.set found rfl (fun _ => ⟨worker, alone⟩) (fun notIoc => absurd worker notIoc)
      fun running => by cases worker.symm.trans running
  | @threw i session worker found inCallback =>
    have inside : session.phase.inHandler = true := by rw [inCallback]; rfl
    refine inv.set found rfl (fun ended => by cases ended) (fun _ j other here inside' => ?_) fun running => ?_
    · exact inv.one here found inside' inside
    · cases running
  | stopCalled _ found _ => exact inv.aside found rfl rfl rfl
  | closeReturned found closing step =>
    exact inv.aside found (afterClose_sessions _) (WebSocketSessionSSL.step_close step) (afterClose_worker _)

theorem HandlerInvariant.ofReach (reach : (providerSystem endpoint).Reach s history) : s.HandlerInvariant := by
  induction reach with
  | start =>
    refine ⟨fun found => ?_, fun _ found => ?_, fun running => ?_⟩
    · cases found
    · cases found
    · cases running
  | next before step ih => exact ih.move (threadInvariant_ofReach before) (step_move step)

end ProviderSystem

end ConsolidatedBook
