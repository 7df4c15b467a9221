import ConsolidatedBook.HashIDManager.CallOrder
import ConsolidatedBook.HashIDManager.Memory
import ConsolidatedBook.Machine

namespace ConsolidatedBook

/-- What the callers of a manager see. -/
inductive HashEvent
  | sized (size : Nat)
  | answered (hash : BitVec 64) (isNew : Bool)
deriving DecidableEq, Repr

/-- A manager under its public calls, in any order, up to one that faults. -/
def hashMachine : Machine HashIDManager HashIDManager.Call HashEvent where
  initial := .create
  step manager
    | .init size => some (manager.init size, [.sized size.toNat])
    | .updateHash hash =>
      match manager.updateHash hash with
      | .ok (isNew, next) => some (next, [.answered hash isNew])
      | .error _ => none

/-- The hashes that were answered `true`, in order. -/
def acceptedIn (history : List HashEvent) : List (BitVec 64) :=
  history.filterMap fun
    | .answered hash true => some hash
    | _ => none

/-- The largest ring that was ever asked for. -/
def largestSize (history : List HashEvent) : Nat :=
  (history.filterMap fun
    | .sized size => some size
    | _ => none).foldr max 0

theorem acceptedIn_concat (history : List HashEvent) (hash : BitVec 64) (isNew : Bool) :
    acceptedIn (history ++ [.answered hash isNew]) = acceptedIn history ++ if isNew then [hash] else [] := by
  unfold acceptedIn
  rw [List.filterMap_append]
  cases isNew <;> rfl

theorem acceptedIn_sized (history : List HashEvent) (size : Nat) :
    acceptedIn (history ++ [.sized size]) = acceptedIn history := by
  unfold acceptedIn
  rw [List.filterMap_append]
  exact List.append_nil _

theorem largestSize_answered (history : List HashEvent) (hash : BitVec 64) (isNew : Bool) :
    largestSize (history ++ [.answered hash isNew]) = largestSize history := by
  unfold largestSize
  rw [List.filterMap_append]
  exact congrArg (List.foldr max 0) (List.append_nil _)

theorem largestSize_sized (history : List HashEvent) (size : Nat) :
    largestSize (history ++ [.sized size]) = max (largestSize history) size := by
  have general : ∀ sizes : List Nat, (sizes ++ [size]).foldr max 0 = max (sizes.foldr max 0) size := by
    intro sizes
    induction sizes with
    | nil => exact Nat.max_comm size 0
    | cons first rest ih => rw [List.cons_append, List.foldr_cons, ih, List.foldr_cons, Nat.max_assoc]
  unfold largestSize
  rw [List.filterMap_append]
  exact general _

namespace HashIDManager

/-- What a call of `UpdateHash` makes of a new hash. -/
theorem updateHash_new {manager : HashIDManager} (ringLength : manager.backupArr.length = manager.backupArrCapacity)
    {hash : BitVec 64} (new : hash ∉ manager.hashMemory) {isNew : Bool} {next : HashIDManager}
    (updated : manager.updateHash hash = .ok (isNew, next)) :
    isNew = true ∧ next = checkBackUp { manager with
      hashMemory := insert hash manager.hashMemory
      backUpIndex := (manager.backUpIndex + 1) % manager.backupArrCapacity
      backupArr := manager.backupArr.set ((manager.backUpIndex + 1) % manager.backupArrCapacity) hash } := by
  have backed :=
    updateBackUp_of_sized { manager with hashMemory := insert hash manager.hashMemory } ringLength hash
  unfold updateHash at updated
  rw [if_pos new, backed] at updated
  by_cases none : manager.backupArrCapacity = 0
  · rw [if_pos none] at updated
    cases updated
  · rw [if_neg none] at updated
    cases updated
    exact ⟨rfl, rfl⟩

/-- The memory holds what was accepted since the last cleanup, and beside it
no more than a ring can hold. -/
structure Bounded (manager : HashIDManager) (history : List HashEvent) : Prop where
  ringLength : manager.backupArr.length = manager.backupArrCapacity
  size : manager.backupArrCapacity ≤ largestSize history
  counter : manager.counter = (acceptedIn history).length % maxHashSize
  memory : manager.hashMemory.card ≤ manager.counter + largestSize history
  recent : ∀ i hash, (acceptedIn history)[i]? = some hash → lastCleanup (acceptedIn history).length ≤ i →
    hash ∈ manager.hashMemory
  apart : ∀ i j hash, i < j → (acceptedIn history)[i]? = some hash → (acceptedIn history)[j]? = some hash →
    i / maxHashSize < j / maxHashSize

variable {manager next : HashIDManager} {history : List HashEvent}

theorem Bounded.init (bounded : manager.Bounded history) (size : BitVec 32) :
    (manager.init size).Bounded (history ++ [.sized size.toNat]) := by
  have largest := largestSize_sized history size.toNat
  have memory := bounded.memory
  refine ⟨?_, ?_, ?_, ?_, ?_, ?_⟩ <;> try rw [acceptedIn_sized]
  · exact (length_memsetZero _ _).trans (length_resize _ _)
  · rw [largest]
    exact Nat.le_max_right _ _
  · exact bounded.counter
  · rw [largest]
    change manager.hashMemory.card ≤ manager.counter + _
    omega
  · exact bounded.recent
  · exact bounded.apart

/-- An answer `false` changes nothing. -/
theorem Bounded.refused (bounded : manager.Bounded history) (hash : BitVec 64) :
    manager.Bounded (history ++ [.answered hash false]) := by
  have accepted : acceptedIn (history ++ [.answered hash false]) = acceptedIn history := by
    rw [acceptedIn_concat]
    exact List.append_nil _
  have largest := largestSize_answered history hash false
  refine ⟨bounded.ringLength, ?_, ?_, ?_, ?_, ?_⟩
  · rw [largest]
    exact bounded.size
  · rw [accepted]
    exact bounded.counter
  · rw [largest]
    exact bounded.memory
  · rw [accepted]
    exact bounded.recent
  · rw [accepted]
    exact bounded.apart

/-- A hash that is accepted again was last accepted in an earlier period. -/
theorem Bounded.apart_concat (bounded : manager.Bounded history) {hash : BitVec 64}
    (new : hash ∉ manager.hashMemory) :
    ∀ i j other, i < j → (acceptedIn history ++ [hash])[i]? = some other →
      (acceptedIn history ++ [hash])[j]? = some other → i / maxHashSize < j / maxHashSize := by
  intro i j other before first second
  have inside : j < (acceptedIn history ++ [hash]).length := (List.getElem?_eq_some_iff.mp second).1
  rw [List.length_append, List.length_singleton] at inside
  rw [List.getElem?_append_left (by omega)] at first
  by_cases last : j = (acceptedIn history).length
  · subst last
    rw [List.getElem?_concat_length] at second
    cases second
    have old : i < lastCleanup (acceptedIn history).length := by
      by_contra recent
      exact new (bounded.recent i hash first (Nat.le_of_not_lt recent))
    exact (Nat.div_lt_iff_lt_mul maxHashSize_pos).mpr old
  · rw [List.getElem?_append_left (by omega)] at second
    exact bounded.apart i j other before first second

theorem Bounded.accepted (bounded : manager.Bounded history) {hash : BitVec 64} (new : hash ∉ manager.hashMemory)
    (updated : manager.updateHash hash = .ok (true, next)) : next.Bounded (history ++ [.answered hash true]) := by
  obtain ⟨_, made⟩ := updateHash_new bounded.ringLength new updated
  have accepted : acceptedIn (history ++ [.answered hash true]) = acceptedIn history ++ [hash] :=
    acceptedIn_concat history hash true
  have length : (acceptedIn history ++ [hash]).length = (acceptedIn history).length + 1 := by
    rw [List.length_append, List.length_singleton]
  have largest := largestSize_answered history hash true
  have counter := bounded.counter
  have ring : (manager.backupArr.set ((manager.backUpIndex + 1) % manager.backupArrCapacity) hash).length =
      manager.backupArrCapacity := List.length_set.trans bounded.ringLength
  unfold checkBackUp at made
  by_cases within : manager.counter + 1 < maxHashSize
  · rw [if_pos within] at made
    rw [counter] at within
    obtain ⟨cleanup, count⟩ := lastCleanup_succ within
    subst made
    refine ⟨ring, ?_, ?_, ?_, ?_, ?_⟩
    · rw [largest]
      exact bounded.size
    · rw [accepted, length, count, ← counter]
    · have one := Finset.card_insert_le hash manager.hashMemory
      have memory := bounded.memory
      rw [largest]
      change (insert hash manager.hashMemory).card ≤ manager.counter + 1 + _
      omega
    · rw [accepted, length, cleanup]
      intro i other at_ recent
      by_cases last : i < (acceptedIn history).length
      · rw [List.getElem?_append_left last] at at_
        exact Finset.mem_insert_of_mem (bounded.recent i other at_ recent)
      · have inside := (List.getElem?_eq_some_iff.mp at_).1
        have same : i = (acceptedIn history).length := by omega
        rw [same, List.getElem?_concat_length] at at_
        cases at_
        exact Finset.mem_insert_self hash _
    · rw [accepted]
      exact bounded.apart_concat new
  · rw [if_neg within] at made
    rw [counter] at within
    obtain ⟨cleanup, count⟩ := lastCleanup_succ_of_full within
    subst made
    refine ⟨ring, ?_, ?_, ?_, ?_, ?_⟩
    · rw [largest]
      exact bounded.size
    · rw [accepted, length, count]
    · have restored := List.toFinset_card_le
        (manager.backupArr.set ((manager.backUpIndex + 1) % manager.backupArrCapacity) hash)
      rw [ring] at restored
      rw [largest]
      exact restored.trans (bounded.size.trans (Nat.le_add_left _ _))
    · rw [accepted, length, cleanup]
      intro i other at_ recent
      have inside := (List.getElem?_eq_some_iff.mp at_).1
      omega
    · rw [accepted]
      exact bounded.apart_concat new

theorem Bounded.reach (reach : hashMachine.Reach manager history) : manager.Bounded history := by
  induction reach with
  | start =>
    refine ⟨rfl, le_rfl, ?_, le_rfl, ?_, ?_⟩
    · exact (Nat.zero_mod _).symm
    · intro i hash at_
      cases at_
    · intro i j hash _ at_
      cases at_
  | @next manager next history call events _ step ih =>
    cases call with
    | init size =>
      cases step
      exact ih.init size
    | updateHash hash =>
      simp only [hashMachine] at step
      cases updated : manager.updateHash hash with
      | error fault =>
        rw [updated] at step
        cases step
      | ok result =>
        obtain ⟨isNew, result⟩ := result
        rw [updated] at step
        cases step
        by_cases seen : hash ∈ manager.hashMemory
        · rcases updateHash_cases ih.ringLength hash with ⟨_, same⟩ | ⟨new, _⟩ | ⟨new, _⟩
          · rw [same] at updated
            cases updated
            exact ih.refused hash
          · exact absurd seen new
          · exact absurd seen new
        · obtain ⟨isNew, _⟩ := updateHash_new ih.ringLength seen updated
          subst isNew
          exact ih.accepted seen updated

end HashIDManager

/-- In every order of calls, with any sizes, the memory stays below
`MAX_HASH_SIZE` hashes beside those of the largest ring there was, every hash
accepted since the last cleanup is known, and none is accepted twice without a cleanup in between. -/
theorem hashIDManager_bounded {manager : HashIDManager} {history : List HashEvent}
    (reach : hashMachine.Reach manager history) :
    manager.hashMemory.card < maxHashSize + largestSize history ∧
    manager.backupArr.length ≤ largestSize history ∧
    (∀ i hash, (acceptedIn history)[i]? = some hash → lastCleanup (acceptedIn history).length ≤ i →
      hash ∈ manager.hashMemory) ∧
    (∀ i j hash, i < j → (acceptedIn history)[i]? = some hash → (acceptedIn history)[j]? = some hash →
      i / maxHashSize < j / maxHashSize) := by
  have bounded := HashIDManager.Bounded.reach reach
  have counter := Nat.mod_lt (acceptedIn history).length maxHashSize_pos
  rw [← bounded.counter] at counter
  have memory := bounded.memory
  refine ⟨by omega, ?_, bounded.recent, bounded.apart⟩
  rw [bounded.ringLength]
  exact bounded.size

theorem hashIDManager_bounded_resized :
    ∃ manager history, hashMachine.run .create [.init 2#32, .updateHash 5, .init 3#32, .updateHash 5, .updateHash 7] =
        some (manager, history) ∧
      acceptedIn history = [5, 7] ∧ manager.hashMemory.card < maxHashSize + 3 := by
  refine ⟨_, _, rfl, rfl, ?_⟩
  exact (hashIDManager_bounded (Machine.Reach.start.run (rfl : hashMachine.run _
    [.init 2#32, .updateHash 5, .init 3#32, .updateHash 5, .updateHash 7] = some (_, _)))).1

end ConsolidatedBook
