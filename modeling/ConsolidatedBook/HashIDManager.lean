import Mathlib.Data.Finset.Insert
import Mathlib.Data.Finset.Dedup
import Mathlib.Data.List.Basic

namespace ConsolidatedBook

/-- `MAX_HASH_SIZE`. -/
def maxHashSize : Nat := 120000

/-- What the ring update does where the language leaves it undefined. -/
inductive MemoryFault
  | remainderByZero
  | writeOutOfBounds
deriving DecidableEq, Repr

structure HashIDManager where
  hashMemory : Finset (BitVec 64)
  backupArr : List (BitVec 64)
  backUpIndex : Nat
  counter : Nat
  backupArrCapacity : Nat
deriving DecidableEq

/-- `std::vector::resize`: what is there stays, new entries are zero. -/
def resize (words : List (BitVec 64)) (size : Nat) : List (BitVec 64) :=
  words.take size ++ List.replicate (size - words.length) 0

/-- The low bytes of a word come first in memory. -/
def clearLowBytes (word : BitVec 64) (bytes : Nat) : BitVec 64 :=
  word >>> (8 * bytes) <<< (8 * bytes)

/-- `memset(words.data(), 0, bytes)`, where each word takes eight bytes. -/
def memsetZero (words : List (BitVec 64)) (bytes : Nat) : List (BitVec 64) :=
  words.mapIdx fun i word => clearLowBytes word (bytes - 8 * i)

namespace HashIDManager

/-- The default constructor. -/
def create : HashIDManager where
  hashMemory := ∅
  backupArr := []
  backUpIndex := 0
  counter := 0
  backupArrCapacity := 0

/-- `HashIDManager::Init`. -/
def init (manager : HashIDManager) (size : BitVec 32) : HashIDManager :=
  { manager with
    backupArrCapacity := size.toNat
    backupArr := memsetZero (resize manager.backupArr size.toNat) size.toNat }

/-- `HashIDManager::UpdateBackUp`. -/
def updateBackUp (manager : HashIDManager) (hash : BitVec 64) : Except MemoryFault HashIDManager :=
  if manager.backupArrCapacity = 0 then .error .remainderByZero
  else
    let backUpIndex := (manager.backUpIndex + 1) % manager.backupArrCapacity
    if backUpIndex < manager.backupArr.length then
      .ok { manager with
        backUpIndex := backUpIndex
        backupArr := manager.backupArr.set backUpIndex hash }
    else .error .writeOutOfBounds

/-- `HashIDManager::CheckBackUp`. -/
def checkBackUp (manager : HashIDManager) : HashIDManager :=
  let counter := manager.counter + 1
  if counter < maxHashSize then { manager with counter := counter }
  else { manager with hashMemory := manager.backupArr.toFinset, counter := 0 }

/-- `HashIDManager::UpdateHash`: whether the hash is new, and the manager after it. -/
def updateHash (manager : HashIDManager) (hash : BitVec 64) : Except MemoryFault (Bool × HashIDManager) :=
  let inserted := { manager with hashMemory := insert hash manager.hashMemory }
  if hash ∉ manager.hashMemory then do
    let backed ← inserted.updateBackUp hash
    return (true, backed.checkBackUp)
  else return (false, inserted)

/-- `UpdateHash` on each hash in turn, with the answers. -/
def updateHashes (manager : HashIDManager) :
    List (BitVec 64) → Except MemoryFault (List Bool × HashIDManager)
  | [] => return ([], manager)
  | hash :: hashes => do
    let (isNew, next) ← manager.updateHash hash
    let (answers, last) ← next.updateHashes hashes
    return (isNew :: answers, last)

end HashIDManager

/-- The hashes that were answered `true`, in their order. -/
def acceptedHashes (hashes : List (BitVec 64)) (answers : List Bool) : List (BitVec 64) :=
  ((hashes.zip answers).filter Prod.snd).map Prod.fst

theorem length_resize (words : List (BitVec 64)) (size : Nat) : (resize words size).length = size := by
  unfold resize
  rw [List.length_append, List.length_take, List.length_replicate]
  omega

theorem length_memsetZero (words : List (BitVec 64)) (bytes : Nat) :
    (memsetZero words bytes).length = words.length := by
  unfold memsetZero
  rw [List.length_mapIdx]

end ConsolidatedBook
