import ConsolidatedBook.HashIDManager
import ConsolidatedBook.RecencyRing

namespace ConsolidatedBook

/-- The largest multiple of `MAX_HASH_SIZE` that is at most `count`. -/
def lastCleanup (count : Nat) : Nat :=
  count / maxHashSize * maxHashSize

/-- What a manager for `n` connections is meant to remember of the hashes it
accepted: all since the last cleanup, and the last `n` before it. -/
def remembered (n : Nat) (accepted : List (BitVec 64)) : List (BitVec 64) :=
  accepted.drop (lastCleanup accepted.length - n)

/-- The hash at index `i` is the accepted hash number `i + 1`. -/
theorem mem_remembered_iff {n : Nat} {accepted : List (BitVec 64)} {hash : BitVec 64} :
    hash ∈ remembered n accepted ↔
      ∃ i, accepted[i]? = some hash ∧ lastCleanup accepted.length < (i + 1) + n := by
  unfold remembered
  simp only [List.mem_iff_getElem?, List.getElem?_drop]
  constructor
  · rintro ⟨i, found⟩
    exact ⟨_, found, by omega⟩
  · rintro ⟨i, found, recent⟩
    refine ⟨i - (lastCleanup accepted.length - n), ?_⟩
    rwa [Nat.add_sub_cancel' (by omega)]

/-- The accepted hashes after one more delivery. -/
def accept (n : Nat) (accepted : List (BitVec 64)) (hash : BitVec 64) : List (BitVec 64) :=
  if hash ∈ remembered n accepted then accepted else accepted ++ [hash]

theorem maxHashSize_pos : 0 < maxHashSize := by
  unfold maxHashSize
  decide

theorem lastCleanup_le (count : Nat) : lastCleanup count ≤ count :=
  Nat.div_mul_le_self count maxHashSize

theorem lastCleanup_succ {count : Nat} (within : count % maxHashSize + 1 < maxHashSize) :
    lastCleanup (count + 1) = lastCleanup count ∧ (count + 1) % maxHashSize = count % maxHashSize + 1 := by
  have division := Nat.div_add_mod' count maxHashSize
  have unique := (Nat.div_mod_unique (a := count + 1) (c := count % maxHashSize + 1)
    (d := count / maxHashSize) maxHashSize_pos).mpr ⟨by rw [Nat.mul_comm]; omega, within⟩
  exact ⟨by rw [lastCleanup, unique.1, lastCleanup], unique.2⟩

theorem lastCleanup_succ_of_full {count : Nat} (full : ¬ count % maxHashSize + 1 < maxHashSize) :
    lastCleanup (count + 1) = count + 1 ∧ (count + 1) % maxHashSize = 0 := by
  have bound := Nat.mod_lt count maxHashSize_pos
  have multiple : maxHashSize ∣ count + 1 := by
    have last : count % maxHashSize + 1 = maxHashSize := by omega
    refine ⟨count / maxHashSize + 1, ?_⟩
    have division := Nat.div_add_mod count maxHashSize
    rw [Nat.mul_add_one]
    omega
  exact ⟨Nat.div_mul_cancel multiple, Nat.mod_eq_zero_of_dvd multiple⟩

/-- The manager remembers exactly what it is meant to. -/
structure Remembers (n : Nat) (accepted : List (BitVec 64)) (manager : HashIDManager) : Prop where
  capacity : manager.backupArrCapacity = n
  ringLength : manager.backupArr.length = n
  index : manager.backUpIndex = accepted.length % n
  counter : manager.counter = accepted.length % maxHashSize
  ring : RecencyRing.Keeps manager.backupArr accepted
  memory : ∀ hash, hash ∈ manager.hashMemory ↔ hash ∈ remembered n accepted

theorem Remembers.init (size : BitVec 32) : Remembers size.toNat [] (HashIDManager.create.init size) where
  capacity := rfl
  ringLength := (length_memsetZero _ _).trans (length_resize _ _)
  index := (Nat.zero_mod _).symm
  counter := (Nat.zero_mod _).symm
  ring := RecencyRing.keeps_nil _
  memory hash := by
    unfold remembered
    rw [List.drop_nil]
    simp only [HashIDManager.init, HashIDManager.create, Finset.notMem_empty, List.not_mem_nil]

theorem Remembers.updateBackUp {n : Nat} {accepted : List (BitVec 64)} {manager : HashIDManager}
    (remembers : Remembers n accepted manager) (positive : 1 ≤ n) (hash : BitVec 64) :
    ({ manager with hashMemory := insert hash manager.hashMemory } : HashIDManager).updateBackUp hash =
      .ok { manager with
        hashMemory := insert hash manager.hashMemory
        backUpIndex := (accepted.length + 1) % n
        backupArr := manager.backupArr.set ((accepted.length + 1) % n) hash } := by
  have slot : (accepted.length + 1) % n < n := Nat.mod_lt _ positive
  unfold HashIDManager.updateBackUp
  simp only [remembers.capacity, remembers.ringLength, remembers.index, Nat.mod_add_mod]
  rw [if_neg (by omega), if_pos slot]

theorem remembered_append_of_within {n : Nat} {accepted : List (BitVec 64)}
    (within : accepted.length % maxHashSize + 1 < maxHashSize) (hash : BitVec 64) :
    remembered n (accepted ++ [hash]) = remembered n accepted ++ [hash] := by
  have cleanup := lastCleanup_le accepted.length
  unfold remembered
  rw [List.length_append, List.length_singleton, (lastCleanup_succ within).1,
    List.drop_append_of_le_length (by omega)]

/-- The manager between `UpdateBackUp` and `CheckBackUp`: the hash is in the
set and in the ring, and not yet counted. -/
theorem Remembers.checkBackUp {n : Nat} {accepted : List (BitVec 64)} {manager : HashIDManager}
    (remembers : Remembers n accepted manager) (positive : 1 ≤ n) (bounded : n ≤ maxHashSize)
    (hash : BitVec 64) :
    Remembers n (accepted ++ [hash]) (HashIDManager.checkBackUp
      { manager with
        hashMemory := insert hash manager.hashMemory
        backUpIndex := (accepted.length + 1) % n
        backupArr := manager.backupArr.set ((accepted.length + 1) % n) hash }) := by
  have length : (accepted ++ [hash]).length = accepted.length + 1 := by
    rw [List.length_append, List.length_singleton]
  have ringLength : (manager.backupArr.set ((accepted.length + 1) % n) hash).length = n :=
    List.length_set.trans remembers.ringLength
  have ring := remembers.ring.write (remembers.ringLength ▸ positive) hash
  rw [remembers.ringLength] at ring
  unfold HashIDManager.checkBackUp
  simp only [remembers.counter]
  split
  · rename_i within
    refine ⟨remembers.capacity, ringLength, ?_, ?_, ring, fun other => ?_⟩
    · rw [length]
    · rw [length, (lastCleanup_succ within).2]
    · rw [remembered_append_of_within within, Finset.mem_insert, remembers.memory, List.mem_append,
        List.mem_singleton, or_comm]
  · rename_i full
    obtain ⟨cleanup, restart⟩ := lastCleanup_succ_of_full full
    have rounds : n ≤ (accepted ++ [hash]).length := by
      have counted := Nat.mod_le accepted.length maxHashSize
      omega
    refine ⟨remembers.capacity, ringLength, ?_, ?_, ring, fun other => ?_⟩
    · rw [length]
    · rw [length, restart]
    · rw [List.mem_toFinset, ring.mem_iff (ringLength.le.trans rounds), ringLength]
      unfold remembered
      rw [length, cleanup]

/-- One call answers as its specification does, and keeps to it. -/
theorem Remembers.updateHash {n : Nat} {accepted : List (BitVec 64)} {manager : HashIDManager}
    (remembers : Remembers n accepted manager) (positive : 1 ≤ n) (bounded : n ≤ maxHashSize)
    (hash : BitVec 64) :
    ∃ next, manager.updateHash hash = .ok (decide (hash ∉ remembered n accepted), next) ∧
      Remembers n (accept n accepted hash) next := by
  unfold HashIDManager.updateHash accept
  by_cases seen : hash ∈ remembered n accepted
  · have inMemory := (remembers.memory hash).mpr seen
    refine ⟨manager, ?_, by rwa [if_pos seen]⟩
    simp only [inMemory, seen, not_true_eq_false, if_false, decide_false, Finset.insert_eq_of_mem]
    rfl
  · have notInMemory := mt (remembers.memory hash).mp seen
    refine ⟨_, ?_, by rw [if_neg seen]; exact remembers.checkBackUp positive bounded hash⟩
    simp only [notInMemory, seen, not_false_eq_true, if_true, decide_true, remembers.updateBackUp positive hash]
    rfl

theorem acceptedHashes_cons (hash : BitVec 64) (hashes : List (BitVec 64)) (isNew : Bool)
    (answers : List Bool) :
    acceptedHashes (hash :: hashes) (isNew :: answers) =
      (if isNew then [hash] else []) ++ acceptedHashes hashes answers := by
  unfold acceptedHashes
  cases isNew <;> rfl

theorem append_acceptedHashes_cons {n : Nat} (accepted : List (BitVec 64)) (hash : BitVec 64)
    (hashes : List (BitVec 64)) (answers : List Bool) :
    accepted ++ acceptedHashes (hash :: hashes) (decide (hash ∉ remembered n accepted) :: answers) =
      accept n accepted hash ++ acceptedHashes hashes answers := by
  rw [acceptedHashes_cons, ← List.append_assoc]
  unfold accept
  by_cases seen : hash ∈ remembered n accepted
  · simp only [seen, not_true_eq_false, decide_false, Bool.false_eq_true, if_false, if_true, List.append_nil]
  · simp only [seen, not_false_eq_true, decide_true, if_true, if_false]

/-- No call of a run faults, and the run accepts what its specification accepts. -/
theorem Remembers.updateHashes {n : Nat} {accepted : List (BitVec 64)} {manager : HashIDManager}
    (remembers : Remembers n accepted manager) (positive : 1 ≤ n) (bounded : n ≤ maxHashSize)
    (hashes : List (BitVec 64)) :
    ∃ answers last, manager.updateHashes hashes = .ok (answers, last) ∧
      accepted ++ acceptedHashes hashes answers = hashes.foldl (accept n) accepted ∧
      Remembers n (hashes.foldl (accept n) accepted) last := by
  induction hashes generalizing accepted manager with
  | nil => exact ⟨[], manager, rfl, List.append_nil accepted, remembers⟩
  | cons hash hashes ih =>
    obtain ⟨next, step, nextRemembers⟩ := remembers.updateHash positive bounded hash
    obtain ⟨answers, last, run, same, lastRemembers⟩ := ih nextRemembers
    refine ⟨decide (hash ∉ remembered n accepted) :: answers, last, ?_, ?_, lastRemembers⟩
    · unfold HashIDManager.updateHashes
      rw [step]
      simp only [bind, Except.bind, run]
      rfl
    · rw [append_acceptedHashes_cons, same, List.foldl_cons]

/-- `UpdateHash` answers `false` exactly on what was accepted since the last
cleanup, and on the last `n` hashes accepted before it. -/
theorem hashIDManager_remembers (size : BitVec 32) (positive : 1 ≤ size.toNat)
    (bounded : size.toNat ≤ maxHashSize) (hashes : List (BitVec 64)) :
    ∃ answers manager, (HashIDManager.create.init size).updateHashes hashes = .ok (answers, manager) ∧
      ∀ hash, ∃ isNew next, manager.updateHash hash = .ok (isNew, next) ∧
        (isNew = false ↔ ∃ i, (acceptedHashes hashes answers)[i]? = some hash ∧
          lastCleanup (acceptedHashes hashes answers).length < (i + 1) + size.toNat) := by
  obtain ⟨answers, manager, run, same, remembers⟩ :=
    (Remembers.init size).updateHashes positive bounded hashes
  rw [List.nil_append] at same
  rw [← same] at remembers
  refine ⟨answers, manager, run, fun hash => ?_⟩
  obtain ⟨next, step, _⟩ := remembers.updateHash positive bounded hash
  refine ⟨_, next, step, ?_⟩
  rw [decide_eq_false_iff_not, not_not]
  exact mem_remembered_iff

theorem hashIDManager_remembers_twoConnections :
    1 ≤ (2#32).toNat ∧ (2#32).toNat ≤ maxHashSize ∧
      ∃ answers manager, (HashIDManager.create.init 2#32).updateHashes [5, 9, 5] = .ok (answers, manager) ∧
        ∃ isNew next, manager.updateHash 0 = .ok (isNew, next) ∧
          (isNew = false ↔ ∃ i, (acceptedHashes [5, 9, 5] answers)[i]? = some 0 ∧
            lastCleanup (acceptedHashes [5, 9, 5] answers).length < (i + 1) + 2) := by
  obtain ⟨answers, manager, run, next⟩ := hashIDManager_remembers 2#32 (by decide) (by decide) [5, 9, 5]
  exact ⟨by decide, by decide, answers, manager, run, next 0⟩

end ConsolidatedBook
