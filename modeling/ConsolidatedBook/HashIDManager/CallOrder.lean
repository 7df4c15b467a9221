import ConsolidatedBook.HashIDManager

namespace ConsolidatedBook

namespace HashIDManager

/-- The public calls. -/
inductive Call
  | init (size : BitVec 32)
  | updateHash (hash : BitVec 64)
deriving DecidableEq, Repr

def perform (manager : HashIDManager) : Call → Except MemoryFault HashIDManager
  | .init size => .ok (manager.init size)
  | .updateHash hash => (manager.updateHash hash).map Prod.snd

/-- The calls in turn, up to the first that faults. -/
def performs (manager : HashIDManager) (calls : List Call) : Except MemoryFault HashIDManager :=
  calls.foldlM perform manager

/-- The size of the ring after the calls: what the last `Init` asked for. -/
def latestSize (calls : List Call) : Nat :=
  calls.foldl (fun latest call => match call with
    | .init size => size.toNat
    | .updateHash _ => latest) 0

variable {manager next : HashIDManager} {calls before : List Call} {call : Call} {hash : BitVec 64}

/-- The ring's capacity is its size, and the one that was asked for last. -/
structure Sized (calls : List Call) (manager : HashIDManager) : Prop where
  ringLength : manager.backupArr.length = manager.backupArrCapacity
  capacity : manager.backupArrCapacity = latestSize calls

theorem latestSize_concat (calls : List Call) (call : Call) :
    latestSize (calls ++ [call]) = match call with
      | .init size => size.toNat
      | .updateHash _ => latestSize calls := by
  unfold latestSize
  rw [List.foldl_append]
  rfl

theorem performs_concat (manager : HashIDManager) (calls : List Call) (call : Call) :
    manager.performs (calls ++ [call]) = manager.performs calls >>= (perform · call) := by
  unfold performs
  rw [List.foldlM_append]
  simp only [List.foldlM_cons, List.foldlM_nil, bind_pure]

theorem checkBackUp_backupArr (manager : HashIDManager) : manager.checkBackUp.backupArr = manager.backupArr := by
  unfold checkBackUp
  dsimp only
  split <;> rfl

theorem checkBackUp_backupArrCapacity (manager : HashIDManager) :
    manager.checkBackUp.backupArrCapacity = manager.backupArrCapacity := by
  unfold checkBackUp
  dsimp only
  split <;> rfl

/-- The remainder is below the capacity, so the write is inside the array. -/
theorem updateBackUp_of_sized (manager : HashIDManager)
    (ringLength : manager.backupArr.length = manager.backupArrCapacity) (hash : BitVec 64) :
    manager.updateBackUp hash = if manager.backupArrCapacity = 0 then .error .remainderByZero else
      .ok { manager with
        backUpIndex := (manager.backUpIndex + 1) % manager.backupArrCapacity
        backupArr := manager.backupArr.set ((manager.backUpIndex + 1) % manager.backupArrCapacity) hash } := by
  unfold updateBackUp
  split
  · rfl
  · rename_i positive
    have inside := Nat.mod_lt (manager.backUpIndex + 1) (Nat.pos_of_ne_zero positive)
    dsimp only
    rw [if_pos (ringLength ▸ inside)]

/-- What a call of `UpdateHash` does: nothing to a hash it has seen, and for a new
one it faults on an empty ring and writes into any other. -/
theorem updateHash_cases (ringLength : manager.backupArr.length = manager.backupArrCapacity) (hash : BitVec 64) :
    (hash ∈ manager.hashMemory ∧ manager.updateHash hash = .ok (false, manager)) ∨
    (hash ∉ manager.hashMemory ∧ manager.backupArrCapacity = 0 ∧
      manager.updateHash hash = .error .remainderByZero) ∨
    (hash ∉ manager.hashMemory ∧ 1 ≤ manager.backupArrCapacity ∧ ∃ (index : Nat) (backed : HashIDManager),
      manager.updateHash hash = .ok (true, backed.checkBackUp) ∧
        backed.backupArr = manager.backupArr.set index hash ∧
        backed.backupArrCapacity = manager.backupArrCapacity) := by
  unfold updateHash
  by_cases seen : hash ∈ manager.hashMemory
  · refine Or.inl ⟨seen, ?_⟩
    rw [if_neg (not_not.mpr seen), Finset.insert_eq_of_mem seen]
    rfl
  · refine Or.inr ?_
    have backed :=
      updateBackUp_of_sized { manager with hashMemory := insert hash manager.hashMemory } ringLength hash
    rw [if_pos seen, backed]
    by_cases none : manager.backupArrCapacity = 0
    · refine Or.inl ⟨seen, none, ?_⟩
      rw [if_pos none]
      rfl
    · refine Or.inr ⟨seen, Nat.one_le_iff_ne_zero.mpr none, ?_⟩
      rw [if_neg none]
      exact ⟨_, _, rfl, rfl, rfl⟩

theorem Sized.create : Sized [] create where
  ringLength := rfl
  capacity := rfl

theorem Sized.perform (sized : Sized calls manager) (performed : manager.perform call = .ok next) :
    Sized (calls ++ [call]) next := by
  cases call with
  | init size =>
    cases performed
    exact ⟨(length_memsetZero _ _).trans (length_resize _ _), by rw [latestSize_concat]; rfl⟩
  | updateHash hash =>
    simp only [HashIDManager.perform] at performed
    rcases updateHash_cases sized.ringLength hash with
      ⟨_, same⟩ | ⟨_, _, faulted⟩ | ⟨_, _, index, backed, written, ring, capacity⟩
    · rw [same] at performed
      cases performed
      exact ⟨sized.ringLength, by rw [latestSize_concat, sized.capacity]⟩
    · rw [faulted] at performed
      cases performed
    · rw [written] at performed
      cases performed
      refine ⟨?_, ?_⟩
      · rw [checkBackUp_backupArr, checkBackUp_backupArrCapacity, ring, List.length_set, sized.ringLength,
          capacity]
      · rw [checkBackUp_backupArrCapacity, latestSize_concat, capacity, sized.capacity]

/-- In every order of calls the ring has the size that was asked for last. -/
theorem sized_of_performs (performed : HashIDManager.create.performs calls = .ok manager) :
    Sized calls manager := by
  induction calls using List.reverseRecOn generalizing manager with
  | nil =>
    cases performed
    exact .create
  | append_singleton calls call ih =>
    rw [performs_concat] at performed
    cases earlier : HashIDManager.create.performs calls with
    | ok previous =>
      rw [earlier] at performed
      exact (ih earlier).perform performed
    | error fault =>
      rw [earlier] at performed
      cases performed

/-- A call faults only where a new hash meets an empty ring, and then by the remainder. -/
theorem Sized.perform_ok_iff (sized : Sized calls manager) :
    (∃ next, manager.perform call = .ok next) ↔
      ∀ hash, call = .updateHash hash → 1 ≤ latestSize calls ∨ hash ∈ manager.hashMemory := by
  cases call with
  | init size => simp [HashIDManager.perform]
  | updateHash hash =>
    simp only [HashIDManager.perform, Call.updateHash.injEq, forall_eq', ← sized.capacity]
    rcases updateHash_cases sized.ringLength hash with
      ⟨seen, same⟩ | ⟨new, none, faulted⟩ | ⟨_, positive, index, backed, written, _⟩
    · exact iff_of_true ⟨manager, by rw [same]; rfl⟩ (Or.inr seen)
    · rw [faulted]
      refine iff_of_false (fun ⟨_, returned⟩ => by cases returned) ?_
      rintro (positive | seen)
      · omega
      · exact new seen
    · exact iff_of_true ⟨backed.checkBackUp, by rw [written]; rfl⟩ (Or.inl positive)

theorem Sized.perform_fault (sized : Sized calls manager) {fault : MemoryFault}
    (faulted : manager.perform call = .error fault) : fault = .remainderByZero := by
  cases call with
  | init size => cases faulted
  | updateHash hash =>
    simp only [HashIDManager.perform] at faulted
    rcases updateHash_cases sized.ringLength hash with
      ⟨_, same⟩ | ⟨_, _, byZero⟩ | ⟨_, _, _, _, written, _⟩
    · rw [same] at faulted
      cases faulted
    · rw [byZero] at faulted
      cases faulted
      rfl
    · rw [written] at faulted
      cases faulted

/-- Every `UpdateHash` finds a ring that has been given a size, or a hash it has seen. -/
def Ready (calls : List Call) : Prop :=
  ∀ before hash manager, before ++ [.updateHash hash] <+: calls →
    HashIDManager.create.performs before = .ok manager → 1 ≤ latestSize before ∨ hash ∈ manager.hashMemory

theorem ready_concat (performed : HashIDManager.create.performs calls = .ok manager) :
    Ready (calls ++ [call]) ↔
      Ready calls ∧ ∀ hash, call = .updateHash hash → 1 ≤ latestSize calls ∨ hash ∈ manager.hashMemory := by
  constructor
  · intro ready
    refine ⟨fun before hash reached within => ?_, ?_⟩
    · exact ready before hash reached (within.trans (List.prefix_append _ _))
    · rintro hash rfl
      exact ready calls hash manager (List.prefix_refl _) performed
  · rintro ⟨ready, last⟩ before hash reached within run
    rcases List.prefix_concat_iff.mp within with same | shorter
    · obtain ⟨rfl, calls⟩ := List.append_inj' same rfl
      cases calls
      rw [performed] at run
      cases run
      exact last hash rfl
    · exact ready before hash reached shorter run

end HashIDManager

/-- The calls come through exactly if each `UpdateHash` is ready, and where
they do not it is a remainder by zero: a write is always inside the array. -/
theorem hashIDManager_performs_iff (calls : List HashIDManager.Call) :
    ((∃ last, HashIDManager.create.performs calls = .ok last) ↔ HashIDManager.Ready calls) ∧
      HashIDManager.create.performs calls ≠ .error .writeOutOfBounds := by
  induction calls using List.reverseRecOn with
  | nil =>
    refine ⟨iff_of_true ⟨_, rfl⟩ fun before hash _ within _ => ?_, fun faulted => by cases faulted⟩
    exact absurd (List.prefix_nil.mp within) (List.append_ne_nil_of_right_ne_nil _ (List.cons_ne_nil _ _))
  | append_singleton calls call ih =>
    rw [HashIDManager.performs_concat]
    cases performed : HashIDManager.create.performs calls with
    | ok manager =>
      have sized := HashIDManager.sized_of_performs performed
      have ready := ih.1.mp ⟨manager, performed⟩
      refine ⟨?_, fun faulted => ?_⟩
      · rw [HashIDManager.ready_concat performed, ← sized.perform_ok_iff]
        exact (and_iff_right ready).symm
      · cases sized.perform_fault faulted
    | error fault =>
      rw [performed] at ih
      refine ⟨iff_of_false (fun ⟨_, returned⟩ => by cases returned) fun ready => ?_, ih.2⟩
      obtain ⟨manager, returned⟩ := ih.1.mpr fun before hash manager within =>
        ready before hash manager (within.trans (List.prefix_append _ _))
      cases returned

theorem hashIDManager_performs_divides_by_zero :
    HashIDManager.create.performs [.updateHash 5] = .error .remainderByZero ∧
      HashIDManager.create.performs [.init 2, .init 0, .updateHash 5] = .error .remainderByZero :=
  ⟨rfl, rfl⟩

end ConsolidatedBook
