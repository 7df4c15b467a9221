import Mathlib.Data.List.DropRight

/-! What had been observed when the latest event of a kind was. -/

namespace LatestEvent

variable {Event : Type} (mark : Event → Bool)

def past (history : List Event) : List Event :=
  (history.rdropWhile (!mark ·)).dropLast

theorem past_marked {event : Event} (marked : mark event = true) (history : List Event) :
    past mark (history ++ [event]) = history := by
  unfold past
  rw [List.rdropWhile_concat_neg _ _ _ (by simp [marked]), List.dropLast_concat]

theorem past_append {events : List Event} (others : ∀ event ∈ events, mark event = false) (history : List Event) :
    past mark (history ++ events) = past mark history := by
  unfold past
  induction events using List.reverseRecOn with
  | nil => rw [List.append_nil]
  | append_singleton events event ih =>
    have last := others event (List.mem_append_right _ (List.mem_singleton.mpr rfl))
    rw [← List.append_assoc, List.rdropWhile_concat_pos _ _ _ (by simp [last])]
    exact ih fun event member => others event (List.mem_append_left _ member)

theorem past_prefix (history : List Event) : past mark history <+: history :=
  (List.dropLast_prefix _).trans (List.rdropWhile_prefix _ _)

/-- Where an event is not among the new ones, it ends the same pasts. -/
theorem prefix_append_of_notMem {events : List Event} {event : Event} (absent : event ∉ events)
    {before history : List Event} :
    before ++ [event] <+: history ++ events ↔ before ++ [event] <+: history := by
  induction events using List.reverseRecOn with
  | nil => rw [List.append_nil]
  | append_singleton events last ih =>
    simp only [List.mem_append, List.mem_singleton, not_or] at absent
    rw [← List.append_assoc, List.prefix_concat_iff, ih absent.1, or_iff_right]
    intro same
    exact absent.2 (List.singleton_inj.mp (List.append_inj' same rfl).2)

/-- What holds before each occurrence of an event, after one more event. -/
theorem forall_prefix_concat {Holds : List Event → Prop} {event last : Event} {history : List Event} :
    (∀ before, before ++ [event] <+: history ++ [last] → Holds before) ↔
      (∀ before, before ++ [event] <+: history → Holds before) ∧ (event = last → Holds history) := by
  constructor
  · intro holds
    refine ⟨fun before past => holds before (past.trans (List.prefix_append _ _)), ?_⟩
    rintro rfl
    exact holds history (List.prefix_refl _)
  · rintro ⟨earlier, now⟩ before past
    rcases List.prefix_concat_iff.mp past with same | past
    · obtain ⟨rfl, equal⟩ := List.append_inj' same rfl
      exact now (List.singleton_inj.mp equal)
    · exact earlier before past

end LatestEvent
