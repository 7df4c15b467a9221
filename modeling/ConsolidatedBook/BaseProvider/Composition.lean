import ConsolidatedBook.BaseProvider.SystemMoves
import ConsolidatedBook.Machine.Simulation
import ConsolidatedBook.WebSocketSession.Messages

namespace ConsolidatedBook

section Lists

variable {α : Type} {l : List α} {a b : α} {i j : Nat}

theorem getElem?_concat_cases (found : (l ++ [a])[j]? = some b) : l[j]? = some b ∨ j = l.length ∧ b = a := by
  rw [List.getElem?_append] at found
  split at found
  · exact Or.inl found
  · obtain ⟨at_, same⟩ := List.getElem?_eq_some_iff.mp found
    rw [List.length_singleton] at at_
    rw [List.getElem_singleton] at same
    exact Or.inr ⟨by omega, same.symm⟩

theorem getElem?_set_cases (found : (l.set i a)[j]? = some b) : j = i ∧ b = a ∨ j ≠ i ∧ l[j]? = some b := by
  by_cases same : j = i
  · subst same
    rw [List.getElem?_set_self (List.length_set ▸ (List.getElem?_eq_some_iff.mp found).1)] at found
    exact Or.inl ⟨rfl, (Option.some.inj found).symm⟩
  · rw [List.getElem?_set_ne (Ne.symm same)] at found
    exact Or.inr ⟨same, found⟩

/-- An entry may be replaced by one that reads the same. -/
theorem any_set (read : α → Bool) (found : l[i]? = some a) (same : read b = read a) :
    (l.set i b).any read = l.any read := by
  induction l generalizing i with
  | nil => cases found
  | cons c l ih =>
    cases i with
    | zero =>
      cases found
      simp only [List.set_cons_zero, List.any_cons, same]
    | succ i => simp only [List.set_cons_succ, List.any_cons, ih found]

end Lists

/-- What has been observed of session `i`. -/
def sessionSeen (i : Nat) (history : List SystemEvent) : List SessionEvent :=
  history.filterMap fun
    | .session j event => if j = i then some event else none
    | .provider _ => none

/-- What has been observed of the provider; a session that has succeeded in
its handshake has connected it. -/
def providerSeen (history : List SystemEvent) : List ProviderEvent :=
  history.filterMap fun
    | .provider event => some event
    | .session _ (.succeeded .handshake) => some .connected
    | .session _ _ => none

@[simp] theorem sessionSeen_append (i : Nat) (history events : List SystemEvent) :
    sessionSeen i (history ++ events) = sessionSeen i history ++ sessionSeen i events := List.filterMap_append

@[simp] theorem providerSeen_append (history events : List SystemEvent) :
    providerSeen (history ++ events) = providerSeen history ++ providerSeen events := List.filterMap_append

theorem sessionSeen_self (i : Nat) (events : List SessionEvent) : sessionSeen i (events.map (.session i)) = events := by
  unfold sessionSeen
  rw [List.filterMap_map]
  have same : (fun event : SessionEvent => if i = i then some event else none) = some := funext fun _ => if_pos rfl
  exact (congrArg (fun read => events.filterMap read) same).trans List.filterMap_some

theorem sessionSeen_of_ne {i j : Nat} (other : j ≠ i) (events : List SessionEvent) :
    sessionSeen i (events.map (.session j)) = [] := by
  unfold sessionSeen
  rw [List.filterMap_map]
  exact List.filterMap_eq_nil_iff.mpr fun _ _ => if_neg other

theorem sessionSeen_provider (i : Nat) (events : List ProviderEvent) :
    sessionSeen i (events.map .provider) = [] := by
  unfold sessionSeen
  rw [List.filterMap_map]
  exact List.filterMap_eq_nil_iff.mpr fun _ _ => rfl

theorem providerSeen_provider (events : List ProviderEvent) : providerSeen (events.map .provider) = events := by
  unfold providerSeen
  rw [List.filterMap_map]
  exact List.filterMap_some

/-- The messages that `OnMessage` has been called with, whichever session called it. -/
def onMessages (history : List SystemEvent) : List (List UInt8) :=
  history.filterMap fun
    | .session _ (.delivered message) => some message
    | _ => none

@[simp] theorem onMessages_append (history events : List SystemEvent) :
    onMessages (history ++ events) = onMessages history ++ onMessages events := List.filterMap_append

theorem onMessages_session (i : Nat) (observed : List SessionEvent) :
    onMessages (observed.map (.session i)) = delivered observed := by
  unfold onMessages delivered
  rw [List.filterMap_map]
  congr 1
  funext event
  cases event <;> rfl

theorem onMessages_provider (observed : List ProviderEvent) : onMessages (observed.map .provider) = [] := by
  unfold onMessages
  rw [List.filterMap_map]
  exact List.filterMap_eq_nil_iff.mpr fun _ _ => rfl

namespace ProviderSystem

variable {endpoint : Endpoint} {s t : ProviderSystem} {history events : List SystemEvent} {i j : Nat}

/-- What a step of the system is to session `i`: nothing, its creation, or a step of its own. -/
inductive SessionStep (s t : ProviderSystem) (events : List SystemEvent) (i : Nat) : Prop
  | aside : t.sessions[i]? = s.sessions[i]? → sessionSeen i events = [] → SessionStep s t events i
  | created : s.sessions[i]? = none → t.sessions[i]? = some (.init true) → sessionSeen i events = [] →
      SessionStep s t events i
  | step {session next action} : s.sessions[i]? = some session →
      session.step action = some (next, sessionSeen i events) → t.sessions[i]? = some next → SessionStep s t events i

theorem SessionStep.of_set {session next : WebSocketSessionSSL} {action : SessionAction} {observed : List SessionEvent}
    (found : s.sessions[j]? = some session) (step : session.step action = some (next, observed))
    (sessions : t.sessions = s.sessions.set j next) (i : Nat) :
    SessionStep s t (observed.map (.session j)) i := by
  by_cases same : j = i
  · subst same
    have within := (List.getElem?_eq_some_iff.mp found).1
    rw [← sessionSeen_self j observed] at step
    exact .step found step (by rw [sessions, List.getElem?_set_self within])
  · exact .aside (by rw [sessions, List.getElem?_set_ne same]) (sessionSeen_of_ne same observed)

theorem afterRun_sessions (s : ProviderSystem) : s.afterRun.sessions = s.sessions := by
  unfold afterRun
  split <;> rfl

theorem afterClose_sessions (s : ProviderSystem) : s.afterClose.sessions = s.sessions := by
  unfold afterClose
  split <;> rfl

theorem closes_eq_false : s.closes = false ↔ ∀ session ∈ s.sessions, session.closing = false := by
  simp only [closes, List.any_eq_false, Bool.not_eq_true]

theorem Move.sessionStep {action : SystemAction} (move : s.Move endpoint action t events) (i : Nat) :
    SessionStep s t events i := by
  cases move with
  | own => exact .aside rfl (sessionSeen_provider i _)
  | sessionCreated =>
    rcases Nat.lt_trichotomy i s.sessions.length with within | rfl | beyond
    · exact .aside (List.getElem?_append_left within) rfl
    · exact .created (List.getElem?_eq_none (Nat.le_refl _)) List.getElem?_concat_length rfl
    · have longer : (s.sessions ++ [WebSocketSessionSSL.init true]).length ≤ i := by
        rw [List.length_append, List.length_singleton]
        omega
      exact .aside ((List.getElem?_eq_none longer).trans (List.getElem?_eq_none (by omega)).symm) rfl
  | runCalled _ found created => exact .of_set found (WebSocketSessionSSL.step_run created _ _ _) rfl i
  | inRun _ found _ step => exact .of_set found step (afterRun_sessions _) i
  | inIoc _ found _ _ _ step => exact .of_set found step rfl i
  | threw _ found inCallback => exact .of_set found (WebSocketSessionSSL.step_throw inCallback) rfl i
  | stopCalled _ found free =>
    have idle := closes_eq_false.mp free _ (List.mem_of_getElem? found)
    exact .of_set found (WebSocketSessionSSL.step_stop idle) rfl i
  | closeReturned found _ step => exact .of_set found step (afterClose_sessions _) i

/-- Each session runs as it would alone. -/
structure SessionsRun (s : ProviderSystem) (history : List SystemEvent) : Prop where
  reach : ∀ {i session}, s.sessions[i]? = some session → (webSocketMachine true).Reach session (sessionSeen i history)
  unseen : ∀ {i}, s.sessions[i]? = none → sessionSeen i history = []

theorem SessionsRun.move (runs : s.SessionsRun history) {action : SystemAction}
    (move : s.Move endpoint action t events) :
    t.SessionsRun (history ++ events) := by
  refine ⟨?_, ?_⟩
  · intro i session here
    rw [sessionSeen_append]
    cases move.sessionStep i with
    | aside kept silent =>
      rw [silent, List.append_nil]
      exact runs.reach (kept.symm.trans here)
    | created none init silent =>
      rw [here] at init
      cases init
      rw [silent, runs.unseen none]
      exact .start
    | step found step next =>
      rw [here] at next
      cases next
      exact .next (runs.reach found) step
  · intro i none
    rw [sessionSeen_append]
    cases move.sessionStep i with
    | aside kept silent => rw [silent, runs.unseen (kept.symm.trans none), List.append_nil]
    | created _ init _ => cases none.symm.trans init
    | step _ _ next => cases none.symm.trans next

theorem SessionsRun.ofReach (reach : (providerSystem endpoint).Reach s history) : s.SessionsRun history := by
  induction reach with
  | start => exact ⟨fun here => (by cases here), fun _ => rfl⟩
  | next _ step ih => exact ih.move (step_move step)

end ProviderSystem

end ConsolidatedBook
