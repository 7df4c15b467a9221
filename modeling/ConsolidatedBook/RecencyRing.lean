import Mathlib.Data.List.Basic
import Mathlib.Order.Interval.Finset.Nat

/-! An array that is written round and round, one slot further each time,
and so keeps what was written last. -/

namespace RecencyRing

variable {α : Type} {ring written : List α}

/-- Write number `i + 1` still stands in its slot, unless a whole round followed it. -/
def Keeps (ring written : List α) : Prop :=
  ∀ i < written.length, written.length ≤ i + ring.length → ring[(i + 1) % ring.length]? = written[i]?

theorem keeps_nil (ring : List α) : Keeps ring [] := by
  unfold Keeps
  simp only [List.length_nil, Nat.not_lt_zero, false_imp_iff, implies_true]

/-- Fewer than a whole round apart, two writes have different slots. -/
theorem slot_ne {n earlier later : Nat} (before : earlier < later) (near : later < earlier + n) :
    earlier % n ≠ later % n := by
  intro same
  have equal := Nat.mod_injOn_Ico earlier n (by simp; omega) (by simp; omega) same
  omega

/-- Every slot was written in the last whole round. -/
theorem exists_slot {n count slot : Nat} (bound : slot < n) (full : n ≤ count) :
    ∃ i < count, count ≤ i + n ∧ (i + 1) % n = slot := by
  have member := Finset.mem_range.mpr bound
  rw [← Nat.image_Ico_mod (count - n + 1) n] at member
  obtain ⟨turn, inside, rfl⟩ := Finset.mem_image.mp member
  have bounds := Finset.mem_Ico.mp inside
  exact ⟨turn - 1, by omega, by omega, by rw [Nat.sub_add_cancel (by omega)]⟩

theorem Keeps.write (keeps : Keeps ring written) (positive : 0 < ring.length) (x : α) :
    Keeps (ring.set ((written.length + 1) % ring.length) x) (written ++ [x]) := by
  intro i bound near
  rw [List.length_append, List.length_singleton] at bound near
  rw [List.length_set] at near ⊢
  by_cases last : i = written.length
  · subst last
    rw [List.getElem?_set_self (Nat.mod_lt _ positive), List.getElem?_concat_length]
  · have older : i < written.length := by omega
    rw [List.getElem?_set_ne (slot_ne (by omega) (by omega)).symm, List.getElem?_append_left older]
    exact keeps i older (by omega)

/-- After a whole round the array holds exactly the last items written. -/
theorem Keeps.mem_iff (keeps : Keeps ring written) (full : ring.length ≤ written.length) {x : α} :
    x ∈ ring ↔ x ∈ written.drop (written.length - ring.length) := by
  simp only [List.mem_iff_getElem?, List.getElem?_drop]
  constructor
  · rintro ⟨slot, found⟩
    obtain ⟨bound, _⟩ := List.getElem?_eq_some_iff.mp found
    obtain ⟨i, older, near, rfl⟩ := exists_slot bound full
    rw [keeps i older near] at found
    refine ⟨i - (written.length - ring.length), ?_⟩
    rwa [Nat.add_sub_cancel' (by omega)]
  · rintro ⟨i, found⟩
    obtain ⟨bound, _⟩ := List.getElem?_eq_some_iff.mp found
    have near : written.length ≤ written.length - ring.length + i + ring.length := by omega
    exact ⟨_, (keeps _ bound near).trans found⟩

end RecencyRing
