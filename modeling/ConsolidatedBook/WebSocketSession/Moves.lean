import ConsolidatedBook.WebSocketSession

namespace ConsolidatedBook

namespace WebSocketSessionSSL

/-- Everything that one step of a session can do, one case for each access
and each outcome of it. -/
inductive Move (s : WebSocketSessionSSL) : WebSocketSessionSSL → List SessionEvent → Prop
  | runCalled {host port target} : s.phase = .created →
      Move s { s with phase := .testsRun host port target } [.runCalled host port target]
  | runStopped {host port target} : s.phase = .testsRun host port target → s.stopped = true →
      Move s { s with phase := .ended } []
  | runTested {host port target} : s.phase = .testsRun host port target → s.stopped = false →
      Move s { s with phase := .pastRun host port target } []
  | resolving {host port target} : s.phase = .pastRun host port target →
      Move s { s with host := host, target := target, phase := .waits .resolve } [.resolving host port]
  | succeeded {op} : s.phase = .waits op → op ≠ .read → Move s { s with phase := .tests op 0 } [.succeeded op]
  | received {message} : s.phase = .waits .read →
      Move s { s with buffer := s.buffer ++ message, phase := .tests .read message.length }
        [.succeeded .read, .received message]
  | failed {op} {ec : ErrorCode} : s.phase = .waits op → ¬ (op = .read ∧ ec.closed = true) →
      Move s { s with phase := .ended } [.failed op.what ec.message]
  | closed : s.phase = .waits .read → Move s { s with phase := .ended } [.connectionClosed]
  | stopped {op bytes} : s.phase = .tests op bytes → s.stopped = true → Move s { s with phase := .ended } []
  | tested {op bytes} : s.phase = .tests op bytes → s.stopped = false →
      Move s { s with phase := .past op bytes } []
  | connecting {bytes} : s.phase = .past .resolve bytes →
      Move s { s with expiry := some wsTimerRate, phase := .waits .connect } [.connecting]
  | sniFailed {bytes message} : s.phase = .past .connect bytes →
      Move s { s with expiry := some wsTimerRate, phase := .ended } [.failed "SSL SNI" message]
  | sslHandshaking {bytes} : s.phase = .past .connect bytes →
      Move s { s with expiry := some wsTimerRate, phase := .waits .sslHandshake } [.sslHandshaking s.host]
  | handshaking {bytes} : s.phase = .past .sslHandshake bytes →
      Move s { s with expiry := none, suggestedTimeout := true, phase := .waits .handshake }
        [.handshaking s.host s.target]
  | connected {bytes} : s.phase = .past .handshake bytes →
      Move s { s with phase := .waits .read } [.connectedTo s.host s.target, .reading]
  | delivered {bytes} : s.phase = .past .read bytes → 0 < bytes → s.onMessageCallback = true →
      Move s { s with buffer := s.buffer.drop bytes, phase := .inCallback } [.delivered s.buffer]
  | passedOver {bytes} : s.phase = .past .read bytes → ¬ (0 < bytes ∧ s.onMessageCallback = true) →
      Move s { s with phase := .waits .read } [.reading]
  | returned : s.phase = .inCallback → Move s { s with phase := .waits .read } [.reading]
  | threw : s.phase = .inCallback → Move s { s with phase := .ended } []
  | stopCalled : s.closing = false → Move s { s with stopped := true, closing := true } [.stopCalled]
  | closeReturned {events} : s.closing = true → (∀ event ∈ events, ∃ message, event = .failed "close" message) →
      Move s { s with closing := false } events

variable {s t : WebSocketSessionSSL} {events : List SessionEvent}

/-- What `ws.close` shows is nothing that the handlers do. -/
theorem filterMap_close {Result : Type} {read : SessionEvent → Option Result}
    (closes : ∀ event ∈ events, ∃ message, event = .failed "close" message)
    (silent : ∀ message, read (.failed "close" message) = none) : events.filterMap read = [] := by
  refine List.filterMap_eq_nil_iff.mpr fun event member => ?_
  obtain ⟨message, rfl⟩ := closes event member
  exact silent message

theorem handlerStep_move {sniError : Option String} (step : s.handlerStep sniError = some (t, events)) :
    s.Move t events := by
  unfold handlerStep at step
  cases at_ : s.phase with
  | created | waits op | ended =>
    simp only [at_] at step
    cases step
  | testsRun host port target =>
    simp only [at_] at step
    split at step <;> cases step
    · rename_i stopped
      exact .runStopped at_ stopped
    · rename_i running
      exact .runTested at_ (Bool.eq_false_iff.mpr running)
  | pastRun host port target =>
    simp only [at_] at step
    cases step
    exact .resolving at_
  | tests op bytes =>
    simp only [at_] at step
    split at step <;> cases step
    · rename_i stopped
      exact .stopped at_ stopped
    · rename_i running
      exact .tested at_ (Bool.eq_false_iff.mpr running)
  | past op bytes =>
    cases op with
    | resolve =>
      simp only [at_] at step
      cases step
      exact .connecting at_
    | connect =>
      simp only [at_] at step
      cases sniError <;> cases step
      · exact .sslHandshaking at_
      · exact .sniFailed at_
    | sslHandshake =>
      simp only [at_] at step
      cases step
      exact .handshaking at_
    | handshake =>
      simp only [at_] at step
      cases step
      exact .connected at_
    | read =>
      simp only [at_, onReadRest, Option.some.injEq] at step
      split at step
      · rename_i calls
        cases step
        exact .delivered at_ calls.1 calls.2
      · rename_i silent
        cases step
        exact .passedOver at_ silent
  | inCallback =>
    simp only [at_] at step
    cases step
    exact .returned at_

/-- Every step of a session is one of the moves. -/
theorem step_move {action : SessionAction} (step : s.step action = some (t, events)) : s.Move t events := by
  cases action with
  | run host port target =>
    cases at_ : s.phase <;> simp only [WebSocketSessionSSL.step, at_] at step <;> cases step
    exact .runCalled at_
  | step sniError => exact handlerStep_move step
  | succeed =>
    cases at_ : s.phase with
    | waits op =>
      cases op <;> simp only [WebSocketSessionSSL.step, at_] at step <;> cases step
      all_goals exact .succeeded at_ (by decide)
    | _ =>
      simp only [WebSocketSessionSSL.step, at_] at step
      cases step
  | receive message =>
    cases at_ : s.phase with
    | waits op =>
      cases op <;> simp only [WebSocketSessionSSL.step, at_] at step <;> cases step
      exact .received at_
    | _ =>
      simp only [WebSocketSessionSSL.step, at_] at step
      cases step
  | fails ec =>
    cases at_ : s.phase with
    | waits op =>
      simp only [WebSocketSessionSSL.step, at_, onError, Option.some.injEq] at step
      split at step
      · rename_i closed
        obtain ⟨rfl, -⟩ := closed
        cases step
        exact .closed at_
      · rename_i other
        cases step
        exact .failed at_ other
    | _ =>
      simp only [WebSocketSessionSSL.step, at_] at step
      cases step
  | throw =>
    cases at_ : s.phase <;> simp only [WebSocketSessionSSL.step, at_] at step <;> cases step
    exact .threw at_
  | stop =>
    simp only [WebSocketSessionSSL.step, Option.ite_none_left_eq_some] at step
    obtain ⟨idle, same⟩ := step
    cases same
    exact .stopCalled (Bool.eq_false_iff.mpr idle)
  | close ec =>
    simp only [WebSocketSessionSSL.step, Option.ite_none_right_eq_some] at step
    obtain ⟨closing, same⟩ := step
    cases same
    refine .closeReturned closing fun event member => ?_
    obtain ⟨code, _, rfl⟩ := Option.map_eq_some_iff.mp (Option.mem_toList.mp member)
    exact ⟨code.message, rfl⟩

end WebSocketSessionSSL

end ConsolidatedBook
