import ConsolidatedBook.HashIDManager.CallOrder
import ConsolidatedBook.HashIDManager.Memory

namespace ConsolidatedBook

theorem clearLowBytes_eq_zero_iff (word : BitVec 64) (bytes : Nat) :
    clearLowBytes word bytes = 0 ↔ word.toNat < 2 ^ (8 * bytes) := by
  have kept : (clearLowBytes word bytes).toNat = word.toNat / 2 ^ (8 * bytes) * 2 ^ (8 * bytes) := by
    unfold clearLowBytes
    rw [BitVec.toNat_shiftLeft, BitVec.toNat_ushiftRight, Nat.shiftRight_eq_div_pow, Nat.shiftLeft_eq]
    exact Nat.mod_eq_of_lt ((Nat.div_mul_le_self _ _).trans_lt word.isLt)
  have positive : 0 < 2 ^ (8 * bytes) := Nat.two_pow_pos _
  rw [← BitVec.toNat_inj, kept]
  change _ = 0 ↔ _
  rw [Nat.mul_eq_zero, or_iff_left positive.ne']
  exact Nat.div_eq_zero_iff_lt positive

theorem getElem?_memsetZero (words : List (BitVec 64)) (bytes i : Nat) :
    (memsetZero words bytes)[i]? = words[i]?.map fun word => clearLowBytes word (bytes - 8 * i) := by
  unfold memsetZero
  rw [List.getElem?_mapIdx]

theorem getElem?_resize {words : List (BitVec 64)} {size i : Nat} (inside : i < size) :
    (resize words size)[i]? = some (words[i]?.getD 0) := by
  unfold resize
  by_cases kept : i < words.length
  · rw [List.getElem?_append_left (by rw [List.length_take]; omega), List.getElem?_take_of_lt inside,
      List.getElem?_eq_getElem kept, Option.getD_some]
  · rw [List.getElem?_append_right (by rw [List.length_take]; omega), List.getElem?_replicate_of_lt,
      List.getElem?_eq_none (not_lt.mp kept), Option.getD_none]
    rw [List.length_take]
    omega

namespace HashIDManager

/-- No word that stays in the ring has a byte other than zero from the array's byte number `size` on. -/
def LeavesNothing (manager : HashIDManager) (size : Nat) : Prop :=
  ∀ i word, i < size → manager.backupArr[i]? = some word → word.toNat < 2 ^ (8 * (size - 8 * i))

/-- After `Init` the ring has its new size and is all zero, and a cleanup
restores nothing but what has been accepted since. -/
structure Clears (manager : HashIDManager) (size : BitVec 32) : Prop where
  length : (manager.init size).backupArr.length = size.toNat
  zero : ∀ word ∈ (manager.init size).backupArr, word = 0
  restored {hashes answers last hash next} :
    (manager.init size).updateHashes hashes = .ok (answers, last) → last.updateHash hash = .ok (true, next) →
      next.counter = 0 → ∀ restored ∈ next.hashMemory,
        restored = 0 ∨ restored ∈ acceptedHashes hashes answers ∨ restored = hash

variable {manager last next : HashIDManager} {hash : BitVec 64} {hashes : List (BitVec 64)} {isNew : Bool}
  {answers : List Bool}

theorem init_zero_iff (manager : HashIDManager) (size : BitVec 32) :
    (∀ word ∈ (manager.init size).backupArr, word = 0) ↔ manager.LeavesNothing size.toNat := by
  have entry : ∀ i < size.toNat, (manager.init size).backupArr[i]? =
      some (clearLowBytes (manager.backupArr[i]?.getD 0) (size.toNat - 8 * i)) := by
    intro i inside
    rw [init, getElem?_memsetZero, getElem?_resize inside, Option.map_some]
  constructor
  · intro zero i word inside found
    have cleared := zero _ (List.mem_of_getElem? (entry i inside))
    rw [found] at cleared
    exact (clearLowBytes_eq_zero_iff word _).mp cleared
  · intro nothing word member
    obtain ⟨i, bound, rfl⟩ := List.getElem_of_mem member
    have inside : i < size.toNat := by
      rwa [init, length_memsetZero, length_resize] at bound
    refine Option.some.inj ((List.getElem?_eq_getElem bound).symm.trans ((entry i inside).trans ?_))
    rw [Option.some.injEq, clearLowBytes_eq_zero_iff]
    cases found : manager.backupArr[i]? with
    | none => exact Nat.two_pow_pos _
    | some word => exact nothing i word inside found

/-- One call writes nothing into the ring but a hash that it accepts. -/
theorem updateHash_ring (ringLength : manager.backupArr.length = manager.backupArrCapacity)
    (updated : manager.updateHash hash = .ok (isNew, next)) :
    next.backupArr.length = next.backupArrCapacity ∧
      ∀ word ∈ next.backupArr, word ∈ manager.backupArr ∨ isNew = true ∧ word = hash := by
  rcases updateHash_cases ringLength hash with
    ⟨_, same⟩ | ⟨_, _, faulted⟩ | ⟨_, _, index, backed, written, ring, capacity⟩
  · rw [same] at updated
    cases updated
    exact ⟨ringLength, fun word member => Or.inl member⟩
  · rw [faulted] at updated
    cases updated
  · rw [written] at updated
    cases updated
    rw [checkBackUp_backupArr, checkBackUp_backupArrCapacity, ring, List.length_set, capacity]
    refine ⟨ringLength, fun word member => ?_⟩
    rcases List.mem_or_eq_of_mem_set member with old | rfl
    · exact Or.inl old
    · exact Or.inr ⟨rfl, rfl⟩

theorem updateHashes_ring (ringLength : manager.backupArr.length = manager.backupArrCapacity)
    (updated : manager.updateHashes hashes = .ok (answers, last)) :
    last.backupArr.length = last.backupArrCapacity ∧
      ∀ word ∈ last.backupArr, word ∈ manager.backupArr ∨ word ∈ acceptedHashes hashes answers := by
  induction hashes generalizing manager answers with
  | nil =>
    cases updated
    exact ⟨ringLength, fun word member => Or.inl member⟩
  | cons hash hashes ih =>
    unfold updateHashes at updated
    cases step : manager.updateHash hash with
    | error fault =>
      rw [step] at updated
      cases updated
    | ok result =>
      obtain ⟨isNew, next⟩ := result
      cases run : next.updateHashes hashes with
      | error fault =>
        simp only [step, run, bind, Except.bind] at updated
        cases updated
      | ok result =>
        obtain ⟨later, final⟩ := result
        simp only [step, run, bind, Except.bind] at updated
        cases updated
        have first := updateHash_ring ringLength step
        obtain ⟨lastLength, rest⟩ := ih first.1 run
        refine ⟨lastLength, fun word member => ?_⟩
        rw [acceptedHashes_cons, List.mem_append]
        rcases rest word member with earlier | accepted
        · rcases first.2 word earlier with old | ⟨rfl, rfl⟩
          · exact Or.inl old
          · exact Or.inr (Or.inl (List.mem_singleton_self _))
        · exact Or.inr (Or.inr accepted)

/-- A counter of zero after an accepted hash means that the memory has just been restored. -/
theorem checkBackUp_restores (cleaned : manager.checkBackUp.counter = 0) :
    manager.checkBackUp.hashMemory = manager.backupArr.toFinset := by
  unfold checkBackUp at cleaned ⊢
  dsimp only at cleaned ⊢
  split at cleaned
  · exact absurd cleaned (Nat.succ_ne_zero _)
  · rename_i full
    rw [if_neg full]

theorem updateHash_restores (ringLength : manager.backupArr.length = manager.backupArrCapacity)
    (updated : manager.updateHash hash = .ok (true, next)) (cleaned : next.counter = 0) :
    next.hashMemory = next.backupArr.toFinset := by
  rcases updateHash_cases ringLength hash with
    ⟨_, same⟩ | ⟨_, _, faulted⟩ | ⟨_, _, index, backed, written, _⟩
  · rw [same] at updated
    cases updated
  · rw [faulted] at updated
    cases updated
  · rw [written] at updated
    cases updated
    rw [checkBackUp_restores cleaned, checkBackUp_backupArr]

end HashIDManager

/-- `memset` is given the number of words as a number of bytes, so `Init` clears
the ring exactly if nothing is left behind these. -/
theorem hashIDManager_init_clears_iff (calls : List HashIDManager.Call) :
    ∀ manager, HashIDManager.create.performs calls = .ok manager →
      ∀ size : BitVec 32, manager.Clears size ↔ manager.LeavesNothing size.toNat := by
  intro manager _ size
  constructor
  · intro clears
    exact (manager.init_zero_iff size).mp clears.zero
  · intro nothing
    have zero := (manager.init_zero_iff size).mpr nothing
    have ringLength : (manager.init size).backupArr.length = size.toNat :=
      (length_memsetZero _ _).trans (length_resize _ _)
    refine ⟨ringLength, zero, ?_⟩
    intro hashes answers last hash next run updated cleaned restored member
    obtain ⟨lastLength, ring⟩ := HashIDManager.updateHashes_ring ringLength run
    rw [HashIDManager.updateHash_restores lastLength updated cleaned, List.mem_toFinset] at member
    rcases (HashIDManager.updateHash_ring lastLength updated).2 restored member with earlier | ⟨_, isLast⟩
    · rcases ring restored earlier with old | accepted
      · exact Or.inl (zero restored old)
      · exact Or.inr (Or.inl accepted)
    · exact Or.inr (Or.inr isLast)

theorem hashIDManager_init_clears_lowByte :
    ∃ manager, HashIDManager.create.performs [.init 1#32, .updateHash 5#64] = .ok manager ∧
      manager.backupArr = [5] ∧ manager.Clears 1#32 := by
  refine ⟨_, rfl, rfl, (hashIDManager_init_clears_iff [.init 1#32, .updateHash 5#64] _ rfl 1#32).mpr ?_⟩
  intro i word inside found
  obtain rfl : i = 0 := Nat.lt_one_iff.mp inside
  cases found
  decide

/-- The hash 5 is in the second word of the ring, where the second `Init` does not reach. -/
theorem hashIDManager_init_keeps_old :
    ∃ manager, HashIDManager.create.performs [.init 2#32, .updateHash 5#64] = .ok manager ∧
      (manager.init 2#32).backupArr = [0, 5] ∧ ¬ manager.Clears 2#32 := by
  refine ⟨_, rfl, by decide, fun clears => ?_⟩
  exact absurd (clears.zero 5 (by decide)) (by decide)

end ConsolidatedBook
