import ConsolidatedBook.Machine

namespace Machine

variable {State Action Event State' Action' Event' : Type}
  {M : Machine State Action Event} {N : Machine State' Action' Event'}

theorem ReachFrom.one {s t : State} {history events : List Event} {action : Action}
    (step : M.step s action = some (t, events)) : M.ReachFrom s history t (history ++ events) :=
  .next .refl step

theorem Reach.unrestrict {allowed : State → Action → Bool} {s : State} {history : List Event}
    (reach : (M.restrict allowed).Reach s history) : M.Reach s history := by
  induction reach with
  | start => exact .start
  | next _ step ih => exact .next ih (step_restrict.mp step).2

/-- The relation holds at the start, and each step of `M` is matched by a run
of `N` that restores it. What was observed on both sides takes part. -/
structure Simulation (M : Machine State Action Event) (N : Machine State' Action' Event')
    (Related : State → List Event → State' → List Event' → Prop) : Prop where
  start : Related M.initial [] N.initial []
  next : ∀ {s u history action events t past}, M.Reach s history → N.Reach t past →
    Related s history t past → M.step s action = some (u, events) →
      ∃ v later, N.ReachFrom t past v later ∧ Related u (history ++ events) v later

variable {Related : State → List Event → State' → List Event' → Prop}

/-- Every run of `M` has a related run of `N`. -/
theorem Simulation.reach (sim : Simulation M N Related) {s : State} {history : List Event}
    (reach : M.Reach s history) : ∃ t past, N.Reach t past ∧ Related s history t past := by
  induction reach with
  | start => exact ⟨N.initial, [], .start, sim.start⟩
  | next before step ih =>
    obtain ⟨t, past, reached, related⟩ := ih
    obtain ⟨u, later, run, related'⟩ := sim.next before reached related step
    exact ⟨u, later, run.reach reached, related'⟩

end Machine
