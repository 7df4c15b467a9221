import ConsolidatedBook.WebSocketSession.Protocol

namespace ConsolidatedBook

/-- The messages that the network has delivered, in order. -/
def received (history : List SessionEvent) : List (List UInt8) :=
  history.filterMap fun
    | .received message => some message
    | _ => none

/-- The messages that the callback has been called with, in order. -/
def delivered (history : List SessionEvent) : List (List UInt8) :=
  history.filterMap fun
    | .delivered message => some message
    | _ => none

@[simp] theorem received_append (history events : List SessionEvent) :
    received (history ++ events) = received history ++ received events := List.filterMap_append

@[simp] theorem delivered_append (history events : List SessionEvent) :
    delivered (history ++ events) = delivered history ++ delivered events := List.filterMap_append

/-- The messages that `OnRead` calls the callback for. -/
def nonempty (messages : List (List UInt8)) : List (List UInt8) :=
  messages.filter fun message => decide (0 < message.length)

theorem nonempty_concat (messages : List (List UInt8)) (message : List UInt8) :
    nonempty (messages ++ [message]) = nonempty messages ++ if 0 < message.length then [message] else [] := by
  unfold nonempty
  rw [List.filter_append, List.filter_singleton]
  by_cases some : 0 < message.length
  · rw [decide_eq_true some, if_pos some]
    rfl
  · rw [decide_eq_false some, if_neg some]
    rfl

namespace SessionPhase

/-- `OnRead` has a message and has not called the callback for it. -/
def handlesRead : SessionPhase → Bool
  | .tests .read _ | .past .read _ => true
  | _ => false

/-- How many bytes that message has. -/
def bytes : SessionPhase → Nat
  | .tests _ bytes | .past _ bytes => bytes
  | _ => 0

end SessionPhase

namespace WebSocketSessionSSL

/-- The buffer holds the message that `OnRead` handles, and nothing between two reads. -/
structure DeliveryInvariant (s : WebSocketSessionSSL) (history : List SessionEvent) : Prop where
  callback : s.onMessageCallback = true
  inHand : s.phase.handlesRead = true → s.phase.bytes = s.buffer.length ∧
    ∃ before, received history = before ++ [s.buffer] ∧ delivered history = nonempty before
  between : s.phase.handlesRead = false → s.phase ≠ .ended →
    s.buffer = [] ∧ delivered history = nonempty (received history)
  atEnd : s.phase = .ended → delivered history = nonempty (received history) ∨ s.stopped = true ∧
    ∃ before, received history = before ++ [s.buffer] ∧ delivered history = nonempty before

variable {s t : WebSocketSessionSSL} {history events : List SessionEvent}

/-- A step between two reads that receives and delivers nothing. -/
theorem DeliveryInvariant.quiet (inv : s.DeliveryInvariant history) (reads : s.phase.handlesRead = false)
    (running : s.phase ≠ .ended) (reads' : t.phase.handlesRead = false) (buffer : t.buffer = s.buffer)
    (callback : t.onMessageCallback = s.onMessageCallback) (receives : received events = [])
    (delivers : delivered events = []) : t.DeliveryInvariant (history ++ events) := by
  obtain ⟨empty, same⟩ := inv.between reads running
  have kept : delivered (history ++ events) = nonempty (received (history ++ events)) := by
    rw [delivered_append, delivers, received_append, receives, List.append_nil, List.append_nil]
    exact same
  refine ⟨callback.trans inv.callback, ?_, fun _ _ => ⟨buffer.trans empty, kept⟩, fun _ => Or.inl kept⟩
  intro here
  rw [reads'] at here
  cases here

/-- A call of `Stop`, wherever the handlers stand. -/
theorem DeliveryInvariant.aside (inv : s.DeliveryInvariant history) (phase : t.phase = s.phase)
    (buffer : t.buffer = s.buffer) (callback : t.onMessageCallback = s.onMessageCallback)
    (stopped : s.stopped = true → t.stopped = true) (receives : received events = [])
    (delivers : delivered events = []) : t.DeliveryInvariant (history ++ events) := by
  refine ⟨callback.trans inv.callback, ?_, ?_, ?_⟩ <;>
    rw [phase, buffer, received_append, receives, delivered_append, delivers, List.append_nil, List.append_nil]
  · exact inv.inHand
  · exact inv.between
  · exact fun ended => (inv.atEnd ended).imp_right fun dropped => ⟨stopped dropped.1, dropped.2⟩

theorem DeliveryInvariant.move (inv : s.DeliveryInvariant history) (move : s.Move t events) :
    t.DeliveryInvariant (history ++ events) := by
  cases move with
  | runCalled at_ | runStopped at_ _ | runTested at_ _ | resolving at_ | failed at_ _ | closed at_ | threw at_
  | connecting at_ | sniFailed at_ | sslHandshaking at_ | handshaking at_ | connected at_ | returned at_ =>
    exact inv.quiet (by rw [at_]; rfl) (by simp [at_]) rfl rfl rfl rfl rfl
  | @succeeded op at_ other =>
    refine inv.quiet (by rw [at_]; rfl) (by simp [at_]) ?_ rfl rfl rfl rfl
    cases op with
    | read => exact absurd rfl other
    | _ => rfl
  | @received message at_ =>
    obtain ⟨empty, same⟩ := inv.between (by rw [at_]; rfl) (by simp [at_])
    refine ⟨inv.callback, fun _ => ⟨?_, received history, ?_, ?_⟩, ?_, ?_⟩
    · change message.length = (s.buffer ++ message).length
      rw [empty, List.nil_append]
    · change received (history ++ _) = received history ++ [s.buffer ++ message]
      rw [received_append, empty, List.nil_append]
      rfl
    · rw [delivered_append]
      exact (List.append_nil _).trans same
    · intro other
      cases other
    · intro ended
      cases ended
  | @stopped op bytes at_ stopped =>
    refine ⟨inv.callback, ?_, fun _ other => absurd rfl other, fun _ => ?_⟩
    · intro here
      cases here
    · rw [List.append_nil]
      cases reads : s.phase.handlesRead with
      | true => exact Or.inr ⟨stopped, (inv.inHand reads).2⟩
      | false => exact Or.inl (inv.between reads (by simp [at_])).2
  | @tested op bytes at_ _ =>
    rw [List.append_nil]
    have reads : s.phase.handlesRead = SessionPhase.handlesRead (.past op bytes) := by
      rw [at_]
      cases op <;> rfl
    have same : s.phase.bytes = SessionPhase.bytes (.past op bytes) := by rw [at_]; rfl
    refine ⟨inv.callback, ?_, ?_, ?_⟩
    · intro here
      rw [← same]
      exact inv.inHand (reads.trans here)
    · intro here _
      exact inv.between (reads.trans here) (by simp [at_])
    · intro ended
      cases ended
  | @delivered bytes at_ some _ =>
    obtain ⟨length, before, last, same⟩ := inv.inHand (by rw [at_]; rfl)
    rw [at_] at length
    change bytes = s.buffer.length at length
    refine ⟨inv.callback, ?_, fun _ _ => ⟨?_, ?_⟩, ?_⟩
    · intro here
      cases here
    · change s.buffer.drop bytes = []
      rw [length, List.drop_length]
    · rw [delivered_append, received_append, last, same]
      change _ = nonempty (before ++ [s.buffer] ++ [])
      rw [List.append_nil, nonempty_concat, if_pos (length ▸ some)]
      rfl
    · intro ended
      cases ended
  | @passedOver bytes at_ silent =>
    obtain ⟨length, before, last, same⟩ := inv.inHand (by rw [at_]; rfl)
    rw [at_] at length
    change bytes = s.buffer.length at length
    have none : ¬ 0 < s.buffer.length := fun some => silent ⟨length ▸ some, inv.callback⟩
    refine ⟨inv.callback, ?_, fun _ _ => ⟨?_, ?_⟩, ?_⟩
    · intro here
      cases here
    · exact List.length_eq_zero_iff.mp (Nat.eq_zero_of_not_pos none)
    · rw [delivered_append, received_append, last, same]
      change nonempty before ++ [] = nonempty (before ++ [s.buffer] ++ [])
      rw [List.append_nil, List.append_nil, nonempty_concat, if_neg none, List.append_nil]
    · intro ended
      cases ended
  | stopCalled => exact inv.aside rfl rfl rfl (fun _ => rfl) rfl rfl
  | @closeReturned events _ fails =>
    exact inv.aside rfl rfl rfl id (filterMap_close fails fun _ => rfl) (filterMap_close fails fun _ => rfl)

theorem DeliveryInvariant.reach (reach : (webSocketMachine true).Reach s history) : s.DeliveryInvariant history := by
  induction reach with
  | start =>
    refine ⟨rfl, ?_, fun _ _ => ⟨rfl, rfl⟩, ?_⟩
    · intro here
      cases here
    · intro ended
      cases ended
  | next _ step ih => exact ih.move (step_move step)

/-- At most one message is received and not delivered. -/
theorem DeliveryInvariant.exists_left (inv : s.DeliveryInvariant history) :
    ∃ left, nonempty (received history) = ConsolidatedBook.delivered history ++ left ∧ left.length ≤ 1 ∧
      (left ≠ [] → s.phase.handlesRead = true ∨ s.phase = .ended ∧ s.stopped = true) := by
  have last : ∀ before, received history = before ++ [s.buffer] →
      ConsolidatedBook.delivered history = nonempty before →
      ∃ left, nonempty (received history) = ConsolidatedBook.delivered history ++ left ∧ left.length ≤ 1 := by
    intro before arrived called
    refine ⟨if 0 < s.buffer.length then [s.buffer] else [], ?_, ?_⟩
    · rw [arrived, nonempty_concat, called]
    · split
      · exact le_rfl
      · exact Nat.zero_le 1
  cases reads : s.phase.handlesRead with
  | true =>
    obtain ⟨_, before, arrived, called⟩ := inv.inHand reads
    obtain ⟨left, same, short⟩ := last before arrived called
    exact ⟨left, same, short, fun _ => Or.inl rfl⟩
  | false =>
    by_cases ended : s.phase = .ended
    · rcases inv.atEnd ended with all | ⟨stopped, before, arrived, called⟩
      · exact ⟨[], by rw [all, List.append_nil], Nat.zero_le 1, fun some => absurd rfl some⟩
      · obtain ⟨left, same, short⟩ := last before arrived called
        exact ⟨left, same, short, fun _ => Or.inr ⟨ended, stopped⟩⟩
    · obtain ⟨_, all⟩ := inv.between reads ended
      exact ⟨[], by rw [all, List.append_nil], Nat.zero_le 1, fun some => absurd rfl some⟩

end WebSocketSessionSSL

/-- The callback gets the non-empty messages that arrive, each whole and in
the order of their arrival. The last one alone may be missing: `OnRead` still
has it, or `Stop` made `OnRead` drop it. -/
theorem webSocketSession_deliversReceived {s : WebSocketSessionSSL} {history : List SessionEvent}
    (reach : (webSocketMachine true).Reach s history) :
    ∃ left, nonempty (received history) = delivered history ++ left ∧ left.length ≤ 1 ∧
      (left ≠ [] → s.phase.handlesRead = true ∨ s.phase = .ended ∧ s.stopped = true) :=
  (WebSocketSessionSSL.DeliveryInvariant.reach reach).exists_left

theorem webSocketSession_deliversReceived_oneMessage :
    ∃ s history, (webSocketMachine true).run (webSocketMachine true).initial oneMessage = some (s, history) ∧
      delivered history = [[104, 105]] ∧
      ∃ left, nonempty (received history) = delivered history ++ left ∧ left.length ≤ 1 ∧
        (left ≠ [] → s.phase.handlesRead = true ∨ s.phase = .ended ∧ s.stopped = true) := by
  refine ⟨_, _, rfl, rfl, ?_⟩
  exact webSocketSession_deliversReceived (Machine.Reach.start.run
    (rfl : (webSocketMachine true).run _ oneMessage = some (_, _)))

end ConsolidatedBook
