import ConsolidatedBook.BaseProvider.Joining
import Mathlib.Data.List.DropRight

namespace ConsolidatedBook

/-- How one round of the loop in `Run` went: its session never completed its
connection, or it did, whatever came after that. -/
inductive SessionOutcome
  | failed
  | connected
deriving DecidableEq, Repr

/-- The sessions of a run: those that have ended, the one under way, and how
many of those that have ended `HandleReconnection` counted. -/
structure Sessions where
  ended : List SessionOutcome
  current : Option SessionOutcome
  counted : Nat
deriving DecidableEq, Repr

/-- A session begins at `ioc.restart()`, and ends where `HandleReconnection`
counts it or, when it was stopped instead, where the next one begins. -/
def Sessions.note (sessions : Sessions) (p : BaseProvider) (action : ProviderAction) : Sessions :=
  match action, p.worker with
  | .workerStep, .restartIoc =>
    ⟨sessions.ended ++ sessions.current.toList, some .failed, sessions.counted⟩
  | .workerStep, .countAttempt =>
    ⟨sessions.ended ++ sessions.current.toList, none, sessions.counted + 1⟩
  | .connect, _ => { sessions with current := some .connected }
  | _, _ => sessions

/-- The provider with its sessions noted down. -/
def sessionMachine : Machine (BaseProvider × Sessions) ProviderAction (ProviderEvent × Sessions) :=
  providerMachine.noted ⟨[], none, 0⟩ Sessions.note

/-- None of the last `MAX_RECONNECT_ATTEMPTS + 1` sessions completed its connection. -/
def Sessions.FailedInARow (ended : List SessionOutcome) : Prop :=
  List.replicate (maxReconnectAttempts + 1) .failed <:+ ended

/-- The provider gives up after consecutive failures only, and the backoff
after a session that connected is the initial one. -/
structure GivesUpAfterFailures (s : BaseProvider × Sessions) (history : List (ProviderEvent × Sessions)) :
    Prop where
  givesUp : s.1.worker = .giveUp → Sessions.FailedInARow s.2.ended
  gaveUp : ∀ sessions, (.gaveUp, sessions) ∈ history → Sessions.FailedInARow sessions.ended
  backoff : ∀ delayMs sessions, (.backoff delayMs, sessions) ∈ history →
    sessions.ended.getLast? = some .connected → delayMs = initialReconnectDelayMs

/-- Where `HandleReconnection` counts a session: one that connected is the
first it counts, and once it has counted `MAX_RECONNECT_ATTEMPTS` before, no
session has connected among the last ones up to this. -/
def CountsFailures (s : BaseProvider × Sessions) (_ : List (ProviderEvent × Sessions))
    (action : ProviderAction) : Prop :=
  action = .workerStep → s.1.worker = .countAttempt →
    (s.2.current = some .connected → s.2.counted = 0) ∧
    (maxReconnectAttempts ≤ s.2.counted →
      .connected ∉ (s.2.ended ++ s.2.current.toList).rtake (maxReconnectAttempts + 1))

/-- The worker is in the round that its latest `ioc.restart()` began. -/
def WorkerPhase.inSession : WorkerPhase → Bool
  | .createSession | .runSession | .runIoc | .testDropped | .handleReconnection | .countAttempt => true
  | _ => false

namespace BaseProvider

/-- What one step can do to the sessions and to the attempt count. -/
inductive Turn (p q : BaseProvider) : ProviderAction → List ProviderEvent → Prop
  | begun : p.worker = .restartIoc → q.worker = .createSession → q.reconnectCount = p.reconnectCount →
      Turn p q .workerStep []
  | connected : p.worker = .runIoc → q.worker = .runIoc → q.reconnectCount = p.reconnectCount →
      Turn p q .connect [.connected]
  | retried : p.worker = .countAttempt → p.reconnectCount < maxReconnectAttempts → q.worker = .sleep →
      q.reconnectCount = p.reconnectCount + 1 →
      Turn p q .workerStep [.backoff (reconnectDelayMs (p.reconnectCount + 1))]
  | exhausted : p.worker = .countAttempt → maxReconnectAttempts ≤ p.reconnectCount → q.worker = .giveUp →
      q.reconnectCount = p.reconnectCount + 1 → Turn p q .workerStep []
  | gaveUp : p.worker = .giveUp → q.worker = .testRunning → q.reconnectCount = p.reconnectCount →
      Turn p q .workerStep [.gaveUp]
  | quiet {action events} : (∀ sessions : Sessions, sessions.note p action = sessions) →
      (action = .workerStep → p.worker ≠ .countAttempt) → (q.worker = .giveUp ↔ p.worker = .giveUp) →
      (q.worker.inSession = true → p.worker.inSession = true) → (∀ event ∈ events, event = .sessionCreated) →
      q.reconnectCount = p.reconnectCount → Turn p q action events

theorem Turn.moved {p q : BaseProvider} {events : List ProviderEvent} {phase : WorkerPhase}
    (at_ : p.worker = phase) (elsewhere : phase ∉ [.restartIoc, .countAttempt, .giveUp])
    (next : q.worker ≠ .giveUp) (within : q.worker.inSession = true → phase.inSession = true)
    (observed : ∀ event ∈ events, event = .sessionCreated) (kept : q.reconnectCount = p.reconnectCount) :
    Turn p q .workerStep events := by
  subst at_
  simp only [List.mem_cons, List.not_mem_nil, or_false, not_or] at elsewhere
  obtain ⟨noRestart, noCount, noGiveUp⟩ := elsewhere
  refine .quiet (fun sessions => ?_) (fun _ => noCount) (by simp only [next, noGiveUp]) within observed kept
  unfold Sessions.note
  split
  · exact absurd ‹_› noRestart
  · exact absurd ‹_› noCount
  · contradiction
  · rfl

/-- A step of the owner, or of the connection without its being established. -/
theorem Turn.elsewhere {p q : BaseProvider} {action : ProviderAction} (owner : action ≠ .workerStep)
    (unconnected : action ≠ .connect) (same : q.worker = p.worker) (kept : q.reconnectCount = p.reconnectCount) :
    Turn p q action [] := by
  refine .quiet (fun sessions => ?_) (absurd · owner) (by rw [same]) (by rw [same]; exact id) (by simp) kept
  unfold Sessions.note
  split <;> first | contradiction | rfl

theorem Move.turn {p q : BaseProvider} {action : ProviderAction} {events : List ProviderEvent}
    (thread : p.joinable = false → p.worker.ended = true) (move : p.Move action q events) :
    Turn p q action events := by
  cases move with
  | startIgnored | startCalled | terminated | sessionStopped | iocStopped | joined | unjoined | destroyed
  | dropped => exact .elsewhere (by simp) (by simp) rfl rfl
  | stopBegun calls | stopIgnored calls =>
    refine .elsewhere ?_ ?_ rfl rfl
    · rintro rfl
      cases calls
    · rintro rfl
      cases calls
  | threadAssigned _ unjoined =>
    have ended := thread unjoined
    refine .quiet (fun _ => rfl) (by simp) ?_ (by simp [WorkerPhase.inSession]) (by simp) rfl
    refine iff_of_false (by simp) fun givesUp => ?_
    rw [givesUp] at ended
    cases ended
  | iocRestarted worker => exact .begun worker rfl rfl
  | retried worker below => exact .retried worker below rfl rfl
  | exhausted worker limit => exact .exhausted worker limit rfl rfl
  | gaveUp worker => exact .gaveUp worker rfl rfl
  | connected worker => exact .connected worker worker rfl
  | runningTested worker =>
    refine .moved worker (by simp) ?_ ?_ (by simp) rfl
    · cases p.running <;> simp
    · cases p.running <;> simp [WorkerPhase.inSession]
  | dropTested worker | reconnectionTested worker =>
    refine .moved worker (by simp) ?_ (by simp [WorkerPhase.inSession]) (by simp) rfl
    cases p.running <;> simp
  | sessionCreated worker | sessionRun worker | iocReturned worker | slept worker =>
    exact .moved worker (by simp) (by simp) (by simp [WorkerPhase.inSession]) (by simp) rfl
  | thrown worker =>
    have inside : p.worker.inSession = true ∧ p.worker ≠ .giveUp := by
      rcases worker with phase | phase | phase <;> rw [phase] <;> exact ⟨rfl, by simp⟩
    exact .quiet (fun _ => rfl) (by simp) (by simp [inside.2]) (fun _ => inside.1) (by simp) rfl

/-- Without a thread to join there is none that runs. -/
theorem step_ended {p q : BaseProvider} {action : ProviderAction} {events : List ProviderEvent}
    (thread : p.joinable = false → p.worker.ended = true) (step : p.step action = some (q, events)) :
    q.joinable = false → q.worker.ended = true := by
  have runs : p.worker.ended = false → p.joinable ≠ false := by
    intro works unjoined
    cases works.symm.trans (thread unjoined)
  cases step_move step with
  | startIgnored | startCalled | stopBegun | stopIgnored | terminated | sessionStopped | iocStopped | unjoined
  | destroyed | connected | dropped => exact thread
  | threadAssigned => exact nofun
  | joined _ finished =>
    intro _
    change p.worker.ended = true
    rw [finished]
    rfl
  | thrown worker =>
    refine fun unjoined => absurd unjoined (runs ?_)
    rcases worker with phase | phase | phase <;> rw [phase] <;> rfl
  | runningTested worker | iocRestarted worker | sessionCreated worker | sessionRun worker | iocReturned worker
  | dropTested worker | reconnectionTested worker | retried worker | exhausted worker | gaveUp worker
  | slept worker => exact fun unjoined => absurd unjoined (runs (worker ▸ rfl))

end BaseProvider

/-- There is a thread that runs only if it can be joined, while a session
lasts its outcome so far is noted, and the attempt count is that of all
sessions counted, whatever their outcome. -/
structure SessionInvariant (s : BaseProvider × Sessions) : Prop where
  thread : s.1.joinable = false → s.1.worker.ended = true
  underway : s.1.worker.inSession = true → ∃ outcome, s.2.current = some outcome
  count : s.1.reconnectCount = s.2.counted
  counted : s.2.counted ≤ s.2.ended.length

theorem SessionInvariant.reach {s : BaseProvider × Sessions} {history : List (ProviderEvent × Sessions)}
    (reach : sessionMachine.Reach s history) : SessionInvariant s := by
  refine reach.invariant ⟨fun _ => rfl, nofun, rfl, Nat.le_refl 0⟩ fun {s t action events} inv step => ?_
  obtain ⟨⟨q, observed⟩, moved, same⟩ := Option.map_eq_some_iff.mp step
  cases same
  have thread := BaseProvider.step_ended inv.thread moved
  have counted := inv.counted
  cases (BaseProvider.step_move moved).turn inv.thread with
  | begun restart next kept =>
    have noted : s.2.note s.1 .workerStep =
        ⟨s.2.ended ++ s.2.current.toList, some .failed, s.2.counted⟩ := by
      simp only [Sessions.note, restart]
    refine ⟨thread, fun _ => ⟨.failed, by rw [noted]⟩, by rw [noted]; exact kept.trans inv.count, ?_⟩
    simp only [noted, List.length_append]
    omega
  | connected running next kept =>
    exact ⟨thread, fun _ => ⟨.connected, rfl⟩, kept.trans inv.count, counted⟩
  | retried counts _ next grown | exhausted counts _ next grown =>
    obtain ⟨outcome, current⟩ := inv.underway (by simp only [counts, WorkerPhase.inSession])
    have noted : s.2.note s.1 .workerStep = ⟨s.2.ended ++ [outcome], none, s.2.counted + 1⟩ := by
      simp only [Sessions.note, counts, current, Option.toList_some]
    refine ⟨thread, by simp [next, WorkerPhase.inSession], by simp only [noted, grown, inv.count], ?_⟩
    simp only [noted, List.length_append, List.length_singleton]
    omega
  | gaveUp givesUp next kept =>
    have noted : s.2.note s.1 .workerStep = s.2 := by simp only [Sessions.note, givesUp]
    refine ⟨thread, by simp [next, WorkerPhase.inSession], ?_, ?_⟩
    · simp only [noted, kept, inv.count]
    · simp only [noted, counted]
  | quiet same count gives session observed kept =>
    refine ⟨thread, fun within => ?_, ?_, ?_⟩
    · simp only [same]
      exact inv.underway (session within)
    · simp only [same, kept, inv.count]
    · simp only [same, counted]

theorem reconnectDelayMs_eq_initial {count : Nat} :
    reconnectDelayMs (count + 1) = initialReconnectDelayMs ↔ count = 0 := by
  unfold reconnectDelayMs initialReconnectDelayMs maxReconnectDelayMs
  rw [Nat.add_sub_cancel]
  constructor
  · intro same
    by_contra later
    have doubled : 2 ^ 1 ≤ 2 ^ count := Nat.pow_le_pow_right Nat.two_pos (Nat.pos_of_ne_zero later)
    omega
  · rintro rfl
    rfl

/-- Once there have been enough sessions, those that failed in a row are those
among which none connected. -/
theorem Sessions.failedInARow_iff {ended : List SessionOutcome} (enough : maxReconnectAttempts + 1 ≤ ended.length) :
    Sessions.FailedInARow ended ↔ .connected ∉ ended.rtake (maxReconnectAttempts + 1) := by
  have length : (ended.rtake (maxReconnectAttempts + 1)).length = maxReconnectAttempts + 1 := by
    rw [List.rtake.eq_1, List.length_drop]
    omega
  rw [FailedInARow, List.suffix_iff_eq_drop, List.length_replicate, ← List.rtake.eq_1, eq_comm, List.eq_replicate_iff,
    and_iff_right length]
  constructor
  · intro failed connected
    cases failed _ connected
  · intro unconnected outcome member
    cases outcome with
    | failed => rfl
    | connected => exact absurd member unconnected

theorem Sessions.not_failedInARow {ended : List SessionOutcome} (last : ended.getLast? = some .connected) :
    ¬ Sessions.FailedInARow ended := by
  rintro ⟨earlier, rfl⟩
  rw [List.replicate_succ', ← List.append_assoc, List.getLast?_concat] at last
  cases last

namespace GivesUpAfterFailures

variable {s t : BaseProvider × Sessions} {history events : List (ProviderEvent × Sessions)}

/-- Of the events of one step only a backoff and a giving up matter. -/
theorem append_iff :
    GivesUpAfterFailures t (history ++ events) ↔
      (t.1.worker = .giveUp → Sessions.FailedInARow t.2.ended) ∧
      ((∀ sessions, (.gaveUp, sessions) ∈ history → Sessions.FailedInARow sessions.ended) ∧
        ∀ sessions, (.gaveUp, sessions) ∈ events → Sessions.FailedInARow sessions.ended) ∧
      ((∀ delayMs sessions, (.backoff delayMs, sessions) ∈ history →
          sessions.ended.getLast? = some .connected → delayMs = initialReconnectDelayMs) ∧
        ∀ delayMs sessions, (.backoff delayMs, sessions) ∈ events →
          sessions.ended.getLast? = some .connected → delayMs = initialReconnectDelayMs) := by
  constructor
  · rintro ⟨givesUp, gaveUp, backoff⟩
    refine ⟨givesUp, ⟨fun sessions old => ?_, fun sessions new => ?_⟩, fun delayMs sessions old => ?_,
      fun delayMs sessions new => ?_⟩
    · exact gaveUp sessions (List.mem_append_left _ old)
    · exact gaveUp sessions (List.mem_append_right _ new)
    · exact backoff delayMs sessions (List.mem_append_left _ old)
    · exact backoff delayMs sessions (List.mem_append_right _ new)
  · rintro ⟨givesUp, ⟨oldGaveUp, newGaveUp⟩, oldBackoff, newBackoff⟩
    refine ⟨givesUp, fun sessions member => ?_, fun delayMs sessions member => ?_⟩
    · exact (List.mem_append.mp member).elim (oldGaveUp sessions) (newGaveUp sessions)
    · exact (List.mem_append.mp member).elim (oldBackoff delayMs sessions) (newBackoff delayMs sessions)

/-- A step that neither counts an attempt nor gives up. -/
theorem quiet_iff (gives : (t.1.worker = .giveUp → Sessions.FailedInARow t.2.ended) ↔
      (s.1.worker = .giveUp → Sessions.FailedInARow s.2.ended))
    (quiet : ∀ event ∈ events, event.1 = .sessionCreated ∨ event.1 = .connected) :
    GivesUpAfterFailures t (history ++ events) ↔ GivesUpAfterFailures s history := by
  have noGaveUp : ∀ sessions, (.gaveUp, sessions) ∉ events := by
    intro sessions member
    rcases quiet _ member with other | other <;> cases other
  have noBackoff : ∀ delayMs sessions, (.backoff delayMs, sessions) ∉ events := by
    intro delayMs sessions member
    rcases quiet _ member with other | other <;> cases other
  rw [append_iff, gives]
  constructor
  · rintro ⟨givesUp, ⟨gaveUp, _⟩, backoff, _⟩
    exact ⟨givesUp, gaveUp, backoff⟩
  · rintro ⟨givesUp, gaveUp, backoff⟩
    exact ⟨givesUp, ⟨gaveUp, fun sessions member => absurd member (noGaveUp sessions)⟩, backoff,
      fun delayMs sessions member => absurd member (noBackoff delayMs sessions)⟩

/-- What a step makes of the past depends on the count it finds. -/
theorem step_iff {action : ProviderAction} (reach : sessionMachine.Reach s history)
    (step : sessionMachine.step s action = some (t, events)) :
    GivesUpAfterFailures t (history ++ events) ↔
      GivesUpAfterFailures s history ∧ CountsFailures s history action := by
  obtain ⟨thread, underway, count, counted⟩ := SessionInvariant.reach reach
  obtain ⟨⟨q, observed⟩, moved, same⟩ := Option.map_eq_some_iff.mp step
  cases same
  unfold CountsFailures
  cases (BaseProvider.step_move moved).turn thread with
  | begun restart next _ =>
    rw [and_iff_left (by simp [restart])]
    exact quiet_iff (by simp [restart, next]) (by simp)
  | connected running next _ =>
    rw [and_iff_left nofun]
    exact quiet_iff (by simp [running, next]) (by simp)
  | quiet neutral uncounted gives session observed _ =>
    rw [and_iff_left (fun worker counts => absurd counts (uncounted worker))]
    refine quiet_iff (by simp only [gives, neutral]) fun event member => ?_
    obtain ⟨literal, created, rfl⟩ := List.mem_map.mp member
    exact Or.inl (observed literal created)
  | gaveUp givesUp next _ =>
    have unchanged : s.2.note s.1 .workerStep = s.2 := by simp only [Sessions.note, givesUp]
    rw [and_iff_left (by simp [givesUp]), append_iff, unchanged]
    constructor
    · rintro ⟨_, ⟨old, new⟩, backoff, _⟩
      exact ⟨fun _ => new s.2 (List.mem_singleton.mpr rfl), old, backoff⟩
    · rintro ⟨pending, gaveUp, backoff⟩
      refine ⟨by simp [next], ⟨gaveUp, fun sessions member => ?_⟩, backoff, by simp⟩
      cases List.mem_singleton.mp member
      exact pending givesUp
  | retried counts below next _ =>
    obtain ⟨outcome, current⟩ := underway (by simp only [counts, WorkerPhase.inSession])
    have noted : (s.2.note s.1 .workerStep).ended = s.2.ended ++ [outcome] := by
      simp only [Sessions.note, counts, current, Option.toList_some]
    rw [append_iff]
    constructor
    · rintro ⟨_, ⟨gaveUp, _⟩, backoff, new⟩
      refine ⟨⟨by simp [counts], gaveUp, backoff⟩, fun _ _ => ⟨fun connected => ?_, fun limit => ?_⟩⟩
      · refine count.symm.trans (reconnectDelayMs_eq_initial.mp (new _ _ (List.mem_singleton.mpr rfl) ?_))
        rw [noted, List.getLast?_concat, ← current, connected]
      · omega
    · rintro ⟨sound, allowed⟩
      refine ⟨by simp [next], ⟨sound.gaveUp, by simp⟩, sound.backoff, fun delayMs sessions member last => ?_⟩
      cases List.mem_singleton.mp member
      rw [noted, List.getLast?_concat, ← current] at last
      exact reconnectDelayMs_eq_initial.mpr (count.trans ((allowed rfl counts).1 last))
  | exhausted counts limit next _ =>
    obtain ⟨outcome, current⟩ := underway (by simp only [counts, WorkerPhase.inSession])
    have noted : (s.2.note s.1 .workerStep).ended = s.2.ended ++ s.2.current.toList := by
      simp only [Sessions.note, counts]
    have enough : maxReconnectAttempts + 1 ≤ (s.2.ended ++ s.2.current.toList).length := by
      rw [current, Option.toList_some, List.length_append, List.length_singleton]
      omega
    rw [append_iff, noted, Sessions.failedInARow_iff enough]
    constructor
    · rintro ⟨pending, ⟨gaveUp, _⟩, backoff, _⟩
      refine ⟨⟨by simp [counts], gaveUp, backoff⟩, fun _ _ => ⟨fun connected => ?_, fun _ => pending next⟩⟩
      have failed := (Sessions.failedInARow_iff enough).mpr (pending next)
      refine absurd failed (Sessions.not_failedInARow ?_)
      rw [connected, Option.toList_some, List.getLast?_concat]
    · rintro ⟨sound, allowed⟩
      refine ⟨fun _ => ?_, ⟨sound.gaveUp, by simp⟩, sound.backoff, by simp⟩
      exact (allowed rfl counts).2 (limit.trans count.le)

end GivesUpAfterFailures

/-- Every run of the provider has its sessions, and noting them down changes no run. -/
theorem sessionMachine_reach_iff {p : BaseProvider} {history : List ProviderEvent} :
    providerMachine.Reach p history ↔
      ∃ sessions noted, sessionMachine.Reach (p, sessions) noted ∧ noted.map Prod.fst = history := by
  constructor
  · exact fun reach => reach.annotate
  · rintro ⟨sessions, noted, reach, rfl⟩
    exact reach.forget

/-- Nothing ever resets the attempt count. The provider gives up after
consecutive failures only, and starts its backoff again after a session that
connected, in exactly the runs in which each session that connected and was
counted is the first counted, and none is among the last ones at a giving up. -/
theorem baseProvider_givesUpAfterFailures_iff (s : BaseProvider × Sessions)
    (history : List (ProviderEvent × Sessions)) (reach : sessionMachine.Reach s history) :
    GivesUpAfterFailures s history ↔ sessionMachine.ReachWhile CountsFailures s history :=
  reach.iff_reachWhile ⟨nofun, nofun, nofun⟩ GivesUpAfterFailures.step_iff

theorem baseProvider_givesUpAfterFailures_iff_twoFailures :
    ∃ s history, sessionMachine.run sessionMachine.initial
        ([.start, .ownerStep] ++ droppedSession ++ droppedSession) = some (s, history) ∧
      s.2.ended = [.failed, .failed] ∧ s.1.reconnectCount = 2 ∧
      (GivesUpAfterFailures s history ↔ sessionMachine.ReachWhile CountsFailures s history) := by
  refine ⟨_, _, rfl, rfl, rfl, ?_⟩
  exact baseProvider_givesUpAfterFailures_iff _ _ (Machine.Reach.start.run
    (rfl : sessionMachine.run _ ([.start, .ownerStep] ++ droppedSession ++ droppedSession) = some (_, _)))

/-- One session that connects before it drops. -/
def connectedSession : List ProviderAction :=
  List.replicate 4 .workerStep ++ .connect :: .drop :: List.replicate 5 .workerStep

/-- Eleven sessions, each of which connects and later drops. -/
def elevenConnections : List ProviderAction :=
  [.start, .ownerStep] ++ (List.replicate 11 connectedSession).flatten

set_option maxRecDepth 4000 in
theorem baseProvider_not_givesUpAfterFailures :
    ∃ s history, sessionMachine.run sessionMachine.initial elevenConnections = some (s, history) ∧
      s.2.ended = List.replicate 11 .connected ∧ s.1.running = false ∧ ¬ GivesUpAfterFailures s history := by
  refine ⟨_, _, rfl, rfl, rfl, fun sound => ?_⟩
  exact Sessions.not_failedInARow rfl (sound.gaveUp _ (List.mem_of_getLast? rfl))

end ConsolidatedBook
