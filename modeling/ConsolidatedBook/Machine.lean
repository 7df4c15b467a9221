import Mathlib.Logic.Basic
import Mathlib.Data.List.Basic

/-- A machine takes an action where its step is enabled, and shows an
observer the events of that step. -/
structure Machine (State Action Event : Type) where
  initial : State
  step : State → Action → Option (State × List Event)

namespace Machine

variable {State Action Event : Type} {M : Machine State Action Event}

/-- The states that some run reaches, each with all that was observed on the way. -/
inductive Reach (M : Machine State Action Event) : State → List Event → Prop
  | start : Reach M M.initial []
  | next {s t history action events} : Reach M s history → M.step s action = some (t, events) →
      Reach M t (history ++ events)

theorem Reach.invariant {Inv : State → Prop} (start : Inv M.initial)
    (next : ∀ {s t action events}, Inv s → M.step s action = some (t, events) → Inv t)
    {s : State} {history : List Event} (reach : M.Reach s history) : Inv s := by
  induction reach with
  | start => exact start
  | next _ step ih => exact next ih step

/-- The states that follow `s` in some run, each with all that was observed
from the start of that run. -/
inductive ReachFrom (M : Machine State Action Event) (s : State) (history : List Event) :
    State → List Event → Prop
  | refl : ReachFrom M s history s history
  | next {t u later action events} : ReachFrom M s history t later → M.step t action = some (u, events) →
      ReachFrom M s history u (later ++ events)

theorem ReachFrom.reach {s t : State} {history later : List Event} (run : M.ReachFrom s history t later)
    (before : M.Reach s history) : M.Reach t later := by
  induction run with
  | refl => exact before
  | next _ step ih => exact .next ih step

theorem ReachFrom.invariant {s t : State} {history later : List Event}
    (run : M.ReachFrom s history t later) (Inv : State → List Event → Prop)
    (next : ∀ {s t history action events}, Inv s history → M.step s action = some (t, events) →
      Inv t (history ++ events)) (start : Inv s history) : Inv t later := by
  induction run with
  | refl => exact start
  | next _ step ih => exact next ih step

/-- What holds now and did not hold at the start was brought about by a step of the run. -/
theorem Reach.exists_step {s : State} {history : List Event} (reach : M.Reach s history)
    (Holds : State → List Event → Prop) (start : ¬ Holds M.initial []) (holds : Holds s history) :
    ∃ t u before action events, M.Reach t before ∧ M.step t action = some (u, events) ∧ ¬ Holds t before ∧
      Holds u (before ++ events) ∧ M.ReachFrom u (before ++ events) s history := by
  induction reach with
  | start => exact absurd holds start
  | @next s t history action events before step ih =>
    by_cases earlier : Holds s history
    · obtain ⟨u, v, past, action, observed, reached, turn, fails, succeeds, rest⟩ := ih earlier
      exact ⟨u, v, past, action, observed, reached, turn, fails, succeeds, .next rest step⟩
    · exact ⟨s, t, history, action, events, before, step, earlier, holds, .refl⟩

/-- The same machine, confined to the steps that `allowed` admits. -/
def restrict (M : Machine State Action Event) (allowed : State → Action → Bool) :
    Machine State Action Event where
  initial := M.initial
  step s action := if allowed s action then M.step s action else none

theorem step_restrict {allowed : State → Action → Bool} {s : State} {action : Action}
    {result : State × List Event} :
    (M.restrict allowed).step s action = some result ↔
      allowed s action = true ∧ M.step s action = some result := by
  simp only [restrict, Option.ite_none_right_eq_some]

/-- The states of the runs whose every step is admitted, given what was observed before it. -/
inductive ReachWhile (M : Machine State Action Event)
    (allowed : State → List Event → Action → Prop) : State → List Event → Prop
  | start : ReachWhile M allowed M.initial []
  | next {s t history action events} : ReachWhile M allowed s history → allowed s history action →
      M.step s action = some (t, events) → ReachWhile M allowed t (history ++ events)

theorem ReachWhile.reach {allowed : State → List Event → Action → Prop} {s : State} {history : List Event}
    (run : M.ReachWhile allowed s history) : M.Reach s history := by
  induction run with
  | start => exact .start
  | next _ _ step ih => exact .next ih step

/-- What holds after a step exactly if it held before and the step is
admitted, holds after exactly the runs of admitted steps. -/
theorem Reach.iff_reachWhile {allowed : State → List Event → Action → Prop}
    {Holds : State → List Event → Prop} (start : Holds M.initial [])
    (next : ∀ {s t history action events}, M.Reach s history → M.step s action = some (t, events) →
      (Holds t (history ++ events) ↔ Holds s history ∧ allowed s history action))
    {s : State} {history : List Event} (reach : M.Reach s history) :
    Holds s history ↔ M.ReachWhile allowed s history := by
  constructor
  · induction reach with
    | start => exact fun _ => .start
    | next before step ih =>
      intro holds
      obtain ⟨held, admitted⟩ := (next before step).mp holds
      exact .next (ih held) admitted step
  · intro run
    clear reach
    induction run with
    | start => exact start
    | next before admitted step ih => exact (next before.reach step).mpr ⟨ih, admitted⟩

/-- The machine with notes beside its state, which no step reads. Each event
carries the notes as they are after its step. -/
def noted {Note : Type} (M : Machine State Action Event) (blank : Note)
    (note : Note → State → Action → Note) : Machine (State × Note) Action (Event × Note) where
  initial := (M.initial, blank)
  step s action := (M.step s.1 action).map fun (t, events) =>
    ((t, note s.2 s.1 action), events.map fun event => (event, note s.2 s.1 action))

/-- Forgetting the notes recovers the literal run. -/
theorem Reach.forget {Note : Type} {blank : Note} {note : Note → State → Action → Note} {s : State × Note}
    {history : List (Event × Note)} (reach : (M.noted blank note).Reach s history) :
    M.Reach s.1 (history.map Prod.fst) := by
  induction reach with
  | start => exact .start
  | @next s t history action events before step ih =>
    obtain ⟨⟨next, observed⟩, literal, same⟩ := Option.map_eq_some_iff.mp step
    cases same
    rw [List.map_append, List.map_map]
    have observe : observed.map (Prod.fst ∘ fun event => (event, note s.2 s.1 action)) = observed :=
      List.map_id observed
    rw [observe]
    exact .next ih literal

/-- Every run has its notes. -/
theorem Reach.annotate {Note : Type} {blank : Note} {note : Note → State → Action → Note} {s : State}
    {history : List Event} (reach : M.Reach s history) :
    ∃ notes annotated, (M.noted blank note).Reach (s, notes) annotated ∧ annotated.map Prod.fst = history := by
  induction reach with
  | start => exact ⟨blank, [], .start, rfl⟩
  | @next s t history action events _ step ih =>
    obtain ⟨notes, annotated, reached, rfl⟩ := ih
    have annotatedStep : (M.noted blank note).step (s, notes) action = some ((t, note notes s action),
        events.map fun event => (event, note notes s action)) :=
      congrArg (Option.map _) step
    refine ⟨note notes s action, _, .next reached annotatedStep, ?_⟩
    rw [List.map_append, List.map_map]
    exact congrArg _ (List.map_id events)

/-- A run that follows a given schedule, or `none` where the schedule asks
for a step that is not enabled. -/
def run (M : Machine State Action Event) (s : State) : List Action → Option (State × List Event)
  | [] => some (s, [])
  | action :: schedule =>
    (M.step s action).bind fun (t, events) =>
      (M.run t schedule).map fun (u, rest) => (u, events ++ rest)

theorem run_cons {s t u : State} {action : Action} {schedule : List Action} {events rest : List Event}
    (step : M.step s action = some (t, events)) (run : M.run t schedule = some (u, rest)) :
    M.run s (action :: schedule) = some (u, events ++ rest) := by
  simp only [Machine.run, step, Option.bind_some, run, Option.map_some]

theorem Reach.run {schedule : List Action} {s t : State} {history events : List Event}
    (reach : M.Reach s history) (run : M.run s schedule = some (t, events)) :
    M.Reach t (history ++ events) := by
  induction schedule generalizing s history events with
  | nil =>
    cases Option.some.inj run
    simpa only [List.append_nil] using reach
  | cons action schedule ih =>
    obtain ⟨⟨u, first⟩, step, run⟩ := Option.bind_eq_some_iff.mp run
    obtain ⟨⟨v, rest⟩, later, same⟩ := Option.map_eq_some_iff.mp run
    cases same
    have reached := ih (reach.next step) later
    rwa [List.append_assoc] at reached

end Machine
