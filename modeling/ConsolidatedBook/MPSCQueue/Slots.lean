import ConsolidatedBook.MPSCQueue
import Mathlib.Data.Nat.Count
import Mathlib.Data.Nat.ModEq
import Mathlib.Order.Interval.Finset.Nat

namespace ConsolidatedBook

open PositionWord (ofNat toNat add diff)

@[simp] theorem toNat_nat (n : Nat) : toNat n = n := rfl

@[simp] theorem add_nat (n k : Nat) : add n k = n + k := rfl

@[simp] theorem diff_nat (a b : Nat) : diff a b = (a : Int) - b := rfl

variable {W α : Type} {c : Capacity}

namespace Capacity

theorem isPowerOfTwo (c : Capacity) : c.size.isPowerOfTwo :=
  (Nat.and_sub_one_eq_zero_iff_isPowerOfTwo c.positive.ne').mp c.powerOfTwo

/-- Masking with `Capacity - 1` is the remainder by `Capacity`, which is
what the `static_assert` is for. -/
theorem slot_val [PositionWord W] (c : Capacity) (pos : W) : (c.slot pos).val = toNat pos % c.size := by
  obtain ⟨k, size⟩ := c.isPowerOfTwo
  simp only [slot, size, Nat.and_two_pow_sub_one_eq_mod]

theorem slot_eq_iff [PositionWord W] {p q : W} :
    c.slot p = c.slot q ↔ toNat p % c.size = toNat q % c.size := by
  rw [Fin.ext_iff, slot_val, slot_val]

/-- Positions less than one lap apart have different cells. -/
theorem slot_injOn {low p q : Nat} (hp : low ≤ p) (hp' : p < low + c.size) (hq : low ≤ q)
    (hq' : q < low + c.size) (same : c.slot p = c.slot q) : p = q :=
  Nat.mod_injOn_Ico low c.size (by simp [hp, hp']) (by simp [hq, hq']) (slot_eq_iff.mp same)

/-- Every cell has a position in the lap that starts at `low`. -/
theorem exists_slot_eq (c : Capacity) (low : Nat) (i : Fin c.size) :
    ∃ p, low ≤ p ∧ p < low + c.size ∧ c.slot p = i := by
  have member : i.val ∈ Finset.range c.size := Finset.mem_range.mpr i.isLt
  rw [← Nat.image_Ico_mod low c.size] at member
  obtain ⟨p, within, same⟩ := Finset.mem_image.mp member
  obtain ⟨lower, upper⟩ := Finset.mem_Ico.mp within
  exact ⟨p, lower, upper, Fin.ext (by rw [slot_val, toNat_nat, same])⟩

theorem slot_add_size (p : Nat) : c.slot (p + c.size) = c.slot p :=
  slot_eq_iff.mpr (Nat.add_mod_right p c.size)

theorem slot_succ_ne (two : 2 ≤ c.size) (p : Nat) : c.slot (p + 1) ≠ c.slot p := by
  intro same
  have equal := slot_injOn (Nat.le_succ p) (by omega) le_rfl (by omega) same
  omega

end Capacity

namespace MPSCQueue

variable [PositionWord W] {q : MPSCQueue W α c}

theorem sequenceAt_storeSequence (p pos n : W) :
    (q.storeSequence pos n).sequenceAt p = if c.slot p = c.slot pos then n else q.sequenceAt p := by
  simp only [sequenceAt, storeSequence, Function.update_apply]
  split <;> rfl

@[simp] theorem dataAt_storeSequence (p pos n : W) : (q.storeSequence pos n).dataAt p = q.dataAt p := by
  simp only [dataAt, storeSequence, Function.update_apply]
  split
  · rename_i same
    rw [same]
  · rfl

@[simp] theorem sequenceAt_storeData (p pos : W) (data : α) :
    (q.storeData pos data).sequenceAt p = q.sequenceAt p := by
  simp only [sequenceAt, storeData, Function.update_apply]
  split
  · rename_i same
    rw [same]
  · rfl

theorem dataAt_storeData (p pos : W) (data : α) :
    (q.storeData pos data).dataAt p = if c.slot p = c.slot pos then data else q.dataAt p := by
  simp only [dataAt, storeData, Function.update_apply]
  split <;> rfl

@[simp] theorem storeData_dequeuePos (pos : W) (data : α) :
    (q.storeData pos data).dequeuePos = q.dequeuePos := rfl

end MPSCQueue

end ConsolidatedBook
