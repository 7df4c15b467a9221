import ConsolidatedBook.WebSocketSession.Messages

namespace ConsolidatedBook

namespace SessionPhase

/-- The handler is behind its test of `stopped`, and may still begin an operation. -/
def mayBegin : SessionPhase → Nat
  | .pastRun _ _ _ | .past _ _ | .inCallback => 1
  | _ => 0

/-- `OnRead` is behind its test, and may still call the callback. -/
def mayDeliver : SessionPhase → Nat
  | .past .read _ => 1
  | _ => 0

theorem mayBegin_le (phase : SessionPhase) : phase.mayBegin ≤ 1 := by
  cases phase <;> simp [mayBegin]

theorem mayDeliver_le (phase : SessionPhase) : phase.mayDeliver ≤ phase.mayBegin := by
  cases phase with
  | past op bytes => cases op <;> simp [mayBegin, mayDeliver]
  | _ => simp [mayBegin, mayDeliver]

end SessionPhase

namespace WebSocketSessionSSL

variable {s t : WebSocketSessionSSL} {history later events : List SessionEvent}

/-- A step of a stopped session uses up what it begins and what it delivers. -/
theorem Move.stopped_step (stopped : s.stopped = true) (move : s.Move t events) :
    t.stopped = true ∧ (begun events).length + t.phase.mayBegin ≤ s.phase.mayBegin ∧
      (ConsolidatedBook.delivered events).length + t.phase.mayDeliver ≤ s.phase.mayDeliver := by
  cases move with
  | runTested _ running | tested _ running =>
    rw [stopped] at running
    cases running
  | runCalled at_ | runStopped at_ _ | succeeded at_ _ | received at_ | failed at_ _ | closed at_ | stopped at_ _
  | threw at_ => exact ⟨stopped, Nat.zero_le _, Nat.zero_le _⟩
  | resolving at_ | connecting at_ | sslHandshaking at_ | handshaking at_ | connected at_ | passedOver at_ _
  | returned at_ =>
    refine ⟨stopped, ?_, Nat.zero_le _⟩
    rw [at_]
    exact le_rfl
  | sniFailed at_ => exact ⟨stopped, Nat.zero_le _, Nat.zero_le _⟩
  | delivered at_ _ _ =>
    rw [at_]
    exact ⟨stopped, le_rfl, le_rfl⟩
  | stopCalled => exact ⟨rfl, (Nat.zero_add _).le, (Nat.zero_add _).le⟩
  | closeReturned _ fails =>
    have noBegin : begun events = [] := filterMap_close fails fun _ => rfl
    have noDelivery : ConsolidatedBook.delivered events = [] := filterMap_close fails fun _ => rfl
    rw [noBegin, noDelivery]
    exact ⟨stopped, (Nat.zero_add _).le, (Nat.zero_add _).le⟩

end WebSocketSessionSSL

/-- Once `stopped` is set a session begins one more operation at most, calls
the callback once more at most, and does neither if no handler was between
its test of `stopped` and its end. -/
theorem webSocketSession_stops {callback : Bool} {s t : WebSocketSessionSSL} {history later : List SessionEvent}
    (stopped : s.stopped = true) (run : (webSocketMachine callback).ReachFrom s history t later) :
    (begun later).length ≤ (begun history).length + s.phase.mayBegin ∧
      (delivered later).length ≤ (delivered history).length + s.phase.mayDeliver ∧
      s.phase.mayDeliver ≤ s.phase.mayBegin ∧ s.phase.mayBegin ≤ 1 := by
  have budget := run.invariant
    (fun u past => u.stopped = true ∧
      (begun past).length + u.phase.mayBegin ≤ (begun history).length + s.phase.mayBegin ∧
      (delivered past).length + u.phase.mayDeliver ≤ (delivered history).length + s.phase.mayDeliver)
    (by
      intro u v past action events before step
      obtain ⟨stopped, begins, delivers⟩ := before
      obtain ⟨stays, begins', delivers'⟩ := (WebSocketSessionSSL.step_move step).stopped_step stopped
      refine ⟨stays, ?_, ?_⟩
      · rw [begun_append, List.length_append]
        omega
      · rw [delivered_append, List.length_append]
        omega)
    ⟨stopped, le_rfl, le_rfl⟩
  obtain ⟨_, begins, delivers⟩ := budget
  exact ⟨by omega, by omega, s.phase.mayDeliver_le, s.phase.mayBegin_le⟩

/-- The session is stopped while `OnRead` is about to call the callback. -/
theorem webSocketSession_stops_oneMessage :
    ∃ s t history events, (webSocketMachine true).run (webSocketMachine true).initial (oneMessage.take 17 ++ [.stop]) =
        some (s, history) ∧
      (webSocketMachine true).step s (.step none) = some (t, events) ∧ delivered events = [[104, 105]] ∧
      (delivered (history ++ events)).length ≤ (delivered history).length + s.phase.mayDeliver := by
  refine ⟨_, _, _, _, rfl, rfl, rfl, ?_⟩
  exact (webSocketSession_stops rfl (Machine.ReachFrom.refl.next
    (rfl : (webSocketMachine true).step _ (.step none) = some (_, _)))).2.1

end ConsolidatedBook
