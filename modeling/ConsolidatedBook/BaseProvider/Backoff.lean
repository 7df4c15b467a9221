import ConsolidatedBook.BaseProvider.Joining
import Mathlib.Algebra.GroupWithZero.Nat

namespace ConsolidatedBook

/-- The delays that a provider has slept before a new attempt, in order. -/
def backoffs (history : List ProviderEvent) : List Nat :=
  history.filterMap fun
    | .backoff delayMs => some delayMs
    | _ => none

@[simp] theorem backoffs_append (history events : List ProviderEvent) :
    backoffs (history ++ events) = backoffs history ++ backoffs events := List.filterMap_append

/-- The delays of all the attempts that `HandleReconnection` allows. -/
def backoffSchedule : List Nat :=
  (List.range maxReconnectAttempts).map fun attempt => reconnectDelayMs (attempt + 1)

namespace BaseProvider

/-- `reconnect_count` counts through the schedule once, and is never set back. -/
structure BackoffInvariant (p : BaseProvider) (history : List ProviderEvent) : Prop where
  slept : backoffs history = backoffSchedule.take p.reconnectCount
  givingUp : p.worker = .giveUp → maxReconnectAttempts < p.reconnectCount
  gaveUp : .gaveUp ∈ history → maxReconnectAttempts < p.reconnectCount

variable {p q : BaseProvider} {history events : List ProviderEvent}

/-- A step at which the count stays. -/
theorem BackoffInvariant.quiet (inv : p.BackoffInvariant history) (count : q.reconnectCount = p.reconnectCount)
    (worker : q.worker = .giveUp → p.worker = .giveUp) (silent : backoffs events = [])
    (givesUp : .gaveUp ∈ events → p.worker = .giveUp) : q.BackoffInvariant (history ++ events) := by
  refine ⟨?_, ?_, ?_⟩
  · rw [backoffs_append, silent, List.append_nil, count]
    exact inv.slept
  · rw [count]
    exact fun here => inv.givingUp (worker here)
  · rw [count]
    intro member
    rcases List.mem_append.mp member with old | new
    · exact inv.gaveUp old
    · exact inv.givingUp (givesUp new)

theorem BackoffInvariant.move (inv : p.BackoffInvariant history) {action : ProviderAction}
    (move : p.Move action q events) : q.BackoffInvariant (history ++ events) := by
  have length : backoffSchedule.length = maxReconnectAttempts := by
    rw [backoffSchedule, List.length_map, List.length_range]
  cases move with
  | startIgnored | startCalled | stopBegun | stopIgnored | terminated | sessionStopped | iocStopped | joined | unjoined
  | destroyed | dropped => exact inv.quiet rfl id rfl (by simp)
  | threadAssigned | iocRestarted | sessionRun | iocReturned | slept | thrown =>
    exact inv.quiet rfl (by simp) rfl (by simp)
  | sessionCreated => exact inv.quiet rfl (by simp) rfl (by simp)
  | connected => exact inv.quiet rfl id rfl (by simp)
  | runningTested | dropTested | reconnectionTested =>
    refine inv.quiet rfl ?_ rfl (by simp)
    cases p.running <;> simp
  | gaveUp worker => exact inv.quiet rfl (by simp) rfl (fun _ => worker)
  | retried worker below =>
    refine ⟨?_, by simp, ?_⟩
    · have within : p.reconnectCount < backoffSchedule.length := by omega
      have entry : backoffSchedule[p.reconnectCount] = reconnectDelayMs (p.reconnectCount + 1) := by
        simp only [backoffSchedule, List.getElem_map, List.getElem_range]
      rw [backoffs_append, inv.slept, List.take_add_one, List.getElem?_eq_getElem within, entry]
      rfl
    · intro member
      rcases List.mem_append.mp member with old | new
      · have := inv.gaveUp old
        omega
      · simp at new
  | exhausted worker limit =>
    have beyond : maxReconnectAttempts < p.reconnectCount + 1 := by omega
    refine ⟨?_, fun _ => beyond, fun _ => beyond⟩
    change backoffs (history ++ []) = backoffSchedule.take (p.reconnectCount + 1)
    rw [List.append_nil, inv.slept, List.take_of_length_le (by omega), List.take_of_length_le (by omega)]

theorem BackoffInvariant.reach (reach : providerMachine.Reach p history) : p.BackoffInvariant history := by
  induction reach with
  | start =>
    refine ⟨rfl, ?_, ?_⟩
    · intro here
      cases here
    · intro member
      cases member
  | next _ step ih => exact ih.move (step_move step)

end BaseProvider

/-- Over its whole life, however often it is started, stopped and dropped, a
provider sleeps through one backoff schedule at most, in all 303 seconds, and
it gives up at its end only. -/
theorem baseProvider_backoffSchedule {p : BaseProvider} {history : List ProviderEvent}
    (reach : providerMachine.Reach p history) :
    backoffs history <+: [1000, 2000, 4000, 8000, 16000, 32000, 60000, 60000, 60000, 60000] ∧
      (backoffs history).sum ≤ 303000 ∧
      (.gaveUp ∈ history →
        backoffs history = [1000, 2000, 4000, 8000, 16000, 32000, 60000, 60000, 60000, 60000]) := by
  have inv := BaseProvider.BackoffInvariant.reach reach
  have schedule : backoffSchedule = [1000, 2000, 4000, 8000, 16000, 32000, 60000, 60000, 60000, 60000] := by
    decide
  have part : backoffs history <+: backoffSchedule := inv.slept ▸ List.take_prefix _ _
  refine ⟨schedule ▸ part, ?_, ?_⟩
  · have total : backoffSchedule.sum = 303000 := by decide
    obtain ⟨rest, whole⟩ := part
    have parts := congrArg List.sum whole
    rw [List.sum_append] at parts
    omega
  · intro gaveUp
    have beyond := inv.gaveUp gaveUp
    rw [inv.slept, ← schedule]
    refine List.take_of_length_le ?_
    rw [backoffSchedule, List.length_map, List.length_range]
    omega

theorem baseProvider_backoffSchedule_droppedSession :
    ∃ p history, providerMachine.run .init (.start :: .ownerStep :: droppedSession) = some (p, history) ∧
      backoffs history = [1000] ∧ (backoffs history).sum ≤ 303000 := by
  refine ⟨_, _, rfl, rfl, ?_⟩
  exact (baseProvider_backoffSchedule (Machine.Reach.start.run
    (rfl : providerMachine.run _ (.start :: .ownerStep :: droppedSession) = some (_, _)))).2.1

end ConsolidatedBook
