import ConsolidatedBook.BaseProvider.OneConnection

namespace ConsolidatedBook

/-- Where only the last block grows, what it grows by comes at the end. -/
theorem flatMap_range_extend {α : Type} {before grown added : Nat → List α} {n : Nat}
    (grows : ∀ i, grown i = before i ++ added i) (silent : ∀ i, i ≠ n → added i = []) :
    (List.range (n + 1)).flatMap grown = (List.range (n + 1)).flatMap before ++ added n := by
  have earlier : (List.range n).flatMap grown = (List.range n).flatMap before := by
    refine List.flatMap_congr fun i member => ?_
    have other : i ≠ n := by
      have below := List.mem_range.mp member
      omega
    rw [grows, silent i other, List.append_nil]
  simp only [List.range_succ, List.flatMap_append, List.flatMap_singleton, earlier, grows, List.append_assoc]

namespace ProviderSystem

variable {endpoint : Endpoint} {s t : ProviderSystem} {history events : List SystemEvent}

/-- The messages that the sessions have called back with, session after session. -/
def inTurn (s : ProviderSystem) (history : List SystemEvent) : List (List UInt8) :=
  (List.range s.sessions.length).flatMap fun i => delivered (sessionSeen i history)

/-- Session `j` calls back only if it is the current one. -/
theorem onMessages_ofSilent {j : Nat} {observed : List SessionEvent}
    (silent : j ≠ s.current → delivered (sessionSeen j (observed.map (.session j))) = []) :
    onMessages (observed.map (.session j)) = delivered (sessionSeen s.current (observed.map (.session j))) := by
  rw [onMessages_session]
  by_cases current : j = s.current
  · rw [← current, sessionSeen_self]
  · replace silent := silent current
    rw [sessionSeen_self] at silent
    rw [sessionSeen_of_ne current, silent]
    rfl

theorem OneConnection.onMessages_eq (one : s.OneConnection) {action : SystemAction}
    (move : s.Move endpoint action t events) : onMessages events = delivered (sessionSeen s.current events) := by
  have silent {i : Nat} : i ≠ s.current → delivered (sessionSeen i events) = [] := one.silent move
  cases move with
  | own =>
    rw [onMessages_provider, sessionSeen_provider]
    rfl
  | sessionCreated | threw => rfl
  | runCalled =>
    have called := sessionSeen_self s.current [.runCalled endpoint.host endpoint.port endpoint.path]
    exact (congrArg delivered called).symm
  | stopCalled => exact (congrArg delivered (sessionSeen_self s.current [.stopCalled])).symm
  | inRun | inIoc | closeReturned => exact onMessages_ofSilent silent

/-- A step keeps the sessions that there are, or makes one more. -/
theorem Move.sessions_length {action : SystemAction} (move : s.Move endpoint action t events) :
    t.sessions.length = s.sessions.length ∨
      s.worker = .createSession ∧ t.sessions.length = s.sessions.length + 1 ∧
        events = [.provider .sessionCreated] := by
  cases move with
  | own => exact Or.inl rfl
  | sessionCreated worker => exact Or.inr ⟨worker, List.length_append, rfl⟩
  | runCalled | inIoc | threw | stopCalled => exact Or.inl List.length_set
  | inRun => exact Or.inl ((congrArg List.length (afterRun_sessions _)).trans List.length_set)
  | closeReturned => exact Or.inl ((congrArg List.length (afterClose_sessions _)).trans List.length_set)

theorem inTurn_move (one : s.OneConnection) (before : s.SessionsRun history) {action : SystemAction}
    (move : s.Move endpoint action t events) (same : onMessages history = s.inTurn history) :
    onMessages (history ++ events) = t.inTurn (history ++ events) := by
  have grows (i : Nat) : delivered (sessionSeen i (history ++ events)) =
      delivered (sessionSeen i history) ++ delivered (sessionSeen i events) := by
    rw [sessionSeen_append, delivered_append]
  have called := one.onMessages_eq move
  rw [onMessages_append, same]
  unfold inTurn
  rcases move.sessions_length with kept | ⟨_, longer, rfl⟩
  · rw [kept]
    cases n : s.sessions.length with
    | zero =>
      -- Without a session nothing is called back.
      have none : t.sessions[s.current]? = none := List.getElem?_eq_none (by omega)
      have unseen := (before.move move).unseen none
      rw [sessionSeen_append] at unseen
      rw [called, (List.append_eq_nil_iff.mp unseen).2]
      rfl
    | succ n' =>
      have current : s.current = n' := by
        unfold current
        omega
      rw [current] at called
      rw [flatMap_range_extend grows fun i other => one.silent move (current ▸ other), called]
  · have blank : delivered (sessionSeen s.sessions.length (history ++ [.provider .sessionCreated])) = [] := by
      rw [grows, before.unseen (List.getElem?_eq_none (Nat.le_refl _))]
      rfl
    have rest : (List.range s.sessions.length).flatMap
        (fun i => delivered (sessionSeen i (history ++ [.provider .sessionCreated]))) =
        (List.range s.sessions.length).flatMap fun i => delivered (sessionSeen i history) :=
      List.flatMap_congr fun i _ => (grows i).trans (List.append_nil _)
    rw [longer, List.range_succ, List.flatMap_append, List.flatMap_singleton, blank, rest]
    rfl

theorem inTurn_ofReach (reach : ((providerSystem endpoint).restrict stopsCurrent).Reach s history) :
    onMessages history = s.inTurn history := by
  induction reach with
  | start => rfl
  | next before step ih =>
    obtain ⟨_, taken⟩ := Machine.step_restrict.mp step
    exact inTurn_move (.ofReach before) (.ofReach before.unrestrict) (step_move taken) ih

end ProviderSystem

/-- As long as `Stop` never looks at `ws_session` while the worker is about to
replace it, `OnMessage` gets what the sessions have received, session after
session: the non-empty messages of each, whole and in order. The last one of a
session alone may be missing: `OnRead` still has it, or `Stop` made `OnRead` drop it. -/
theorem providerSystem_deliversInTurn {endpoint : Endpoint} {s : ProviderSystem} {history : List SystemEvent}
    (reach : ((providerSystem endpoint).restrict ProviderSystem.stopsCurrent).Reach s history) :
    onMessages history = s.inTurn history ∧
      ∀ i session, s.sessions[i]? = some session →
        ∃ left, nonempty (received (sessionSeen i history)) = delivered (sessionSeen i history) ++ left ∧
          left.length ≤ 1 ∧
          (left ≠ [] → session.phase.handlesRead = true ∨ session.phase = .ended ∧ session.stopped = true) := by
  refine ⟨ProviderSystem.inTurn_ofReach reach, fun i session found => ?_⟩
  have alone := (ProviderSystem.SessionsRun.ofReach reach.unrestrict).reach found
  exact (WebSocketSessionSSL.DeliveryInvariant.reach alone).exists_left

theorem providerSystem_deliversInTurn_oneSession :
    ∃ s history, ((providerSystem ⟨"host", "443", "/ws"⟩).restrict ProviderSystem.stopsCurrent).run .init
        oneSession = some (s, history) ∧ s.inTurn history = [[104, 105]] ∧
      onMessages history = s.inTurn history := by
  refine ⟨_, _, rfl, rfl, ?_⟩
  exact (providerSystem_deliversInTurn (Machine.Reach.start.run
    (rfl : ((providerSystem ⟨"host", "443", "/ws"⟩).restrict ProviderSystem.stopsCurrent).run _ oneSession =
      some (_, _)))).1

/-- `Stop` stops session 0, whose connection was closed, while the worker is
about to make session 1. After the next `Start` sessions 1 and 2 are both connected. -/
def twoSessions : List SystemAction :=
  oneSession ++ [.session 0 (.fails ⟨true, "closed"⟩)] ++
    [.workerStep, .workerStep, .workerStep, .workerStep, .workerStep, .workerStep, .workerStep, .stop,
      .ownerStep].map .provider ++
    [.session 0 (.close none)] ++ [.workerStep, .ownerStep, .workerStep].map .provider ++
    (connects 1).take 2 ++
    [.workerStep, .workerStep, .workerStep, .ownerStep, .start, .ownerStep, .workerStep, .workerStep, .workerStep,
      .workerStep].map .provider ++
    connects 2 ++ (connects 1).drop 2 ++ receives 1 [49] ++ receives 2 [50] ++ receives 1 [51]

-- So without the assumption the messages of two sessions may come in any order.
example : ∃ s history, (providerSystem ⟨"host", "443", "/ws"⟩).run .init twoSessions = some (s, history) ∧
    onMessages history = [[104, 105], [49], [50], [51]] ∧ s.inTurn history = [[104, 105], [49], [51], [50]] :=
  ⟨_, _, rfl, rfl, rfl⟩

end ConsolidatedBook
