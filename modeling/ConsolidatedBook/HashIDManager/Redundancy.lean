import ConsolidatedBook.HashIDManager.Memory
import ConsolidatedBook.RedundantStream

namespace ConsolidatedBook

open RedundantStream

variable {n : Nat} {messages : List (BitVec 64)}

/-- No connection delivers a message that lay more than `n` accepted messages
back when the memory was last cleaned up. -/
def KeepsUp (order : List (Fin n)) : Prop :=
  ∀ past connection, past ++ [connection] <+: order →
    lastCleanup (front past) ≤ past.count connection + n

/-- What a manager for `n` connections is meant to accept of their deliveries. -/
def acceptedOf (messages : List (BitVec 64)) (order : List (Fin n)) : List (BitVec 64) :=
  (deliveries messages order).foldl (accept n) []

theorem KeepsUp.initially {earlier order : List (Fin n)} (keepsUp : KeepsUp order)
    (initial : earlier <+: order) : KeepsUp earlier :=
  fun past connection within => keepsUp past connection (within.trans initial)

theorem keepsUp_concat {order : List (Fin n)} {connection : Fin n} :
    KeepsUp (order ++ [connection]) ↔
      KeepsUp order ∧ lastCleanup (front order) ≤ order.count connection + n := by
  constructor
  · intro keepsUp
    exact ⟨keepsUp.initially (List.prefix_append _ _), keepsUp order connection (List.prefix_refl _)⟩
  · rintro ⟨keepsUp, last⟩ past other within
    rcases List.prefix_concat_iff.mp within with same | shorter
    · obtain ⟨rfl, turns⟩ := List.append_inj' same rfl
      cases turns
      exact last
    · exact keepsUp past other shorter

theorem accept_extends (accepted : List (BitVec 64)) (hash : BitVec 64) : accepted <+: accept n accepted hash := by
  unfold accept
  split
  · exact List.prefix_refl _
  · exact List.prefix_append _ _

theorem foldl_accept_extends (accepted hashes : List (BitVec 64)) :
    accepted <+: hashes.foldl (accept n) accepted := by
  induction hashes generalizing accepted with
  | nil => exact List.prefix_refl _
  | cons hash hashes ih => exact (accept_extends accepted hash).trans (ih _)

theorem acceptedOf_extends (messages : List (BitVec 64)) {earlier order : List (Fin n)} (initial : earlier <+: order) :
    acceptedOf messages earlier <+: acceptedOf messages order := by
  obtain ⟨rest, split⟩ := deliveries_extends messages initial
  unfold acceptedOf
  rw [← split, List.foldl_append]
  exact foldl_accept_extends _ _

theorem acceptedOf_concat {order : List (Fin n)} {connection : Fin n}
    (bound : order.count connection < messages.length) :
    acceptedOf messages (order ++ [connection]) =
      accept n (acceptedOf messages order) messages[order.count connection] := by
  unfold acceptedOf
  rw [deliveries_concat, List.getElem?_eq_getElem bound, List.foldl_append, Option.toList_some,
    List.foldl_cons, List.foldl_nil]

/-- Of distinct messages accepted in order, the recent ones are remembered. -/
theorem mem_remembered_take (distinct : messages.Nodup) {count i : Nat} (bound : i < messages.length)
    (all : count ≤ messages.length) :
    messages[i] ∈ remembered n (messages.take count) ↔ i < count ∧ lastCleanup count ≤ i + n := by
  rw [mem_remembered_iff, List.length_take, Nat.min_eq_left all]
  constructor
  · rintro ⟨j, found, recent⟩
    obtain ⟨within, same⟩ := List.getElem?_eq_some_iff.mp found
    rw [List.length_take] at within
    rw [List.getElem_take] at same
    cases (distinct.getElem_inj_iff).mp same
    omega
  · rintro ⟨within, recent⟩
    refine ⟨i, ?_, by omega⟩
    rw [List.getElem?_take_of_lt within, List.getElem?_eq_getElem bound]

/-- As long as every connection keeps up, the messages are accepted in order,
each as soon as some connection delivers it. -/
theorem KeepsUp.acceptedOf_eq (distinct : messages.Nodup) {order : List (Fin n)} (keepsUp : KeepsUp order)
    (within : ∀ connection, order.count connection ≤ messages.length) :
    acceptedOf messages order = messages.take (front order) := by
  induction order using List.reverseRecOn with
  | nil =>
    have none : front ([] : List (Fin n)) = 0 := Nat.le_zero.mp (front_le fun _ => List.count_nil.le)
    rw [none, List.take_zero]
    rfl
  | append_singleton order connection ih =>
    obtain ⟨earlier, recent⟩ := keepsUp_concat.mp keepsUp
    have withinEarlier : ∀ other, order.count other ≤ messages.length := fun other =>
      ((List.prefix_append order [connection]).sublist.count_le other).trans (within other)
    have bound : order.count connection < messages.length := by
      have own := within connection
      rwa [List.count_append, List.count_singleton_self] at own
    have behind := count_le_front order connection
    rw [acceptedOf_concat bound, ih earlier withinEarlier, front_concat]
    unfold accept
    have memory := mem_remembered_take (n := n) distinct bound (front_le withinEarlier)
    by_cases old : order.count connection < front order
    · rw [if_pos (memory.mpr ⟨old, recent⟩), Nat.max_eq_left old]
    · have new : order.count connection = front order := by omega
      rw [if_neg (mt memory.mp (old ·.1)), ← new, List.take_append_getElem bound,
        Nat.max_eq_right (Nat.le_succ _)]

/-- A connection that does not keep up has its message accepted once more. -/
theorem not_exactlyOnce_of_late (distinct : messages.Nodup) {past order : List (Fin n)} {connection : Fin n}
    (keepsUp : KeepsUp past) (within : ∀ connection, order.count connection ≤ messages.length)
    (initial : past ++ [connection] <+: order)
    (late : past.count connection + n < lastCleanup (front past)) :
    ∃ hash ∈ messages, (acceptedOf messages order).count hash ≠ 1 := by
  have withinPast : ∀ other, past.count other ≤ messages.length := fun other =>
    (((List.prefix_append past [connection]).trans initial).sublist.count_le other).trans (within other)
  have bound : past.count connection < messages.length := by
    have own := (initial.sublist.count_le connection).trans (within connection)
    rwa [List.count_append, List.count_singleton_self] at own
  have cleanup := lastCleanup_le (front past)
  refine ⟨messages[past.count connection], List.getElem_mem bound, ?_⟩
  have before := keepsUp.acceptedOf_eq distinct withinPast
  have again : acceptedOf messages (past ++ [connection]) =
      messages.take (front past) ++ [messages[past.count connection]] := by
    rw [acceptedOf_concat bound, before]
    unfold accept
    rw [if_neg]
    rw [mem_remembered_take distinct bound (front_le withinPast)]
    omega
  have once : messages[past.count connection] ∈ messages.take (front past) :=
    List.mem_take_iff_getElem.mpr ⟨_, by omega, rfl⟩
  have kept := (acceptedOf_extends messages initial).sublist.count_le
    messages[past.count connection]
  rw [again, List.count_append, List.count_singleton_self] at kept
  have counted := List.count_pos_iff.mpr once
  omega

theorem keepsUp_of_exactlyOnce (distinct : messages.Nodup) {order : List (Fin n)}
    (within : ∀ connection, order.count connection ≤ messages.length)
    (once : ∀ hash ∈ messages, (acceptedOf messages order).count hash = 1)
    {past : List (Fin n)} (initial : past <+: order) : KeepsUp past := by
  induction past using List.reverseRecOn with
  | nil =>
    intro past connection within
    exact absurd (List.prefix_nil.mp within) (List.concat_ne_nil _ _)
  | append_singleton past connection ih =>
    have keepsUp := ih ((List.prefix_append _ _).trans initial)
    refine keepsUp_concat.mpr ⟨keepsUp, ?_⟩
    by_contra late
    obtain ⟨hash, member, twice⟩ := not_exactlyOnce_of_late distinct keepsUp within initial (not_le.mp late)
    exact twice (once hash member)

theorem KeepsUp.exactlyOnce (distinct : messages.Nodup) {order : List (Fin n)} (keepsUp : KeepsUp order)
    (positive : 0 < n) (complete : ∀ connection, order.count connection = messages.length) :
    ∀ hash ∈ messages, (acceptedOf messages order).count hash = 1 := by
  have within : ∀ connection, order.count connection ≤ messages.length := fun connection =>
    (complete connection).le
  have all : front order = messages.length := by
    have own := count_le_front order ⟨0, positive⟩
    rw [complete] at own
    exact le_antisymm (front_le within) own
  rw [keepsUp.acceptedOf_eq distinct within, all, List.take_length]
  exact fun hash member => List.count_eq_one_of_mem distinct member

/-- Every connection delivers all messages, and each is answered `true` once. -/
def AcceptsExactlyOnce (size : BitVec 32) (messages : List (BitVec 64)) (order : List (Fin size.toNat)) :
    Prop :=
  ∃ answers manager,
    (HashIDManager.create.init size).updateHashes (deliveries messages order) = .ok (answers, manager) ∧
      ∀ hash ∈ messages, (acceptedHashes (deliveries messages order) answers).count hash = 1

theorem acceptsExactlyOnce_iff {size : BitVec 32} (positive : 1 ≤ size.toNat)
    (bounded : size.toNat ≤ maxHashSize) {order : List (Fin size.toNat)} :
    AcceptsExactlyOnce size messages order ↔
      ∀ hash ∈ messages, (acceptedOf messages order).count hash = 1 := by
  obtain ⟨answers, manager, run, same, _⟩ :=
    (Remembers.init size).updateHashes positive bounded (deliveries messages order)
  rw [List.nil_append] at same
  unfold AcceptsExactlyOnce acceptedOf
  constructor
  · rintro ⟨others, last, again, once⟩
    cases again.symm.trans run
    rwa [same] at once
  · intro once
    exact ⟨answers, manager, run, same ▸ once⟩

theorem hashIDManager_exactlyOnce_iff (size : BitVec 32) (redundant : 2 ≤ size.toNat)
    (bounded : size.toNat ≤ maxHashSize) (messages : List (BitVec 64)) (distinct : messages.Nodup)
    (order : List (Fin size.toNat)) (complete : ∀ connection, order.count connection = messages.length) :
    AcceptsExactlyOnce size messages order ↔ KeepsUp order := by
  have positive : 1 ≤ size.toNat := by omega
  rw [acceptsExactlyOnce_iff positive bounded]
  constructor
  · intro once
    exact keepsUp_of_exactlyOnce distinct (fun connection => (complete connection).le) once
      (List.prefix_refl order)
  · intro keepsUp
    exact keepsUp.exactlyOnce distinct positive complete

theorem hashIDManager_exactlyOnce_iff_alternating :
    2 ≤ (2#32).toNat ∧ (2#32).toNat ≤ maxHashSize ∧
      (AcceptsExactlyOnce 2#32 [7, 0] ([0, 1, 1, 0] : List (Fin 2)) ↔
        KeepsUp ([0, 1, 1, 0] : List (Fin 2))) :=
  ⟨by decide, by decide,
    hashIDManager_exactlyOnce_iff 2#32 (by decide) (by decide) [7, 0] (by decide) _ (by decide)⟩

/-- As many distinct messages as the memory takes before it is cleaned up. -/
def oneCleanup : List (BitVec 64) :=
  (List.range maxHashSize).map (BitVec.ofNat 64)

/-- The first connection delivers everything before the second one starts. -/
def oneAfterAnother : List (Fin 2) :=
  List.replicate maxHashSize 0 ++ List.replicate maxHashSize 1

theorem oneCleanup_length : oneCleanup.length = maxHashSize := by
  unfold oneCleanup
  rw [List.length_map, List.length_range]

theorem oneCleanup_nodup : oneCleanup.Nodup := by
  refine List.Nodup.map_on (fun i small j small' same => ?_) List.nodup_range
  have values := congrArg BitVec.toNat same
  rw [List.mem_range] at small small'
  unfold maxHashSize at small small'
  rw [BitVec.toNat_ofNat, BitVec.toNat_ofNat] at values
  omega

theorem oneAfterAnother_count (connection : Fin 2) : oneAfterAnother.count connection = maxHashSize := by
  unfold oneAfterAnother
  rw [List.count_append, List.count_replicate, List.count_replicate]
  match connection with
  | 0 => rfl
  | 1 => rfl

/-- The second connection starts after the cleanup, which kept the last two messages only. -/
theorem oneAfterAnother_not_keepsUp : ¬ KeepsUp oneAfterAnother := by
  intro keepsUp
  obtain ⟨rest, size⟩ := Nat.exists_eq_add_of_lt maxHashSize_pos
  have initial : List.replicate maxHashSize 0 ++ [1] <+: oneAfterAnother := by
    unfold oneAfterAnother
    rw [List.prefix_append_right_inj, size, List.replicate_succ]
    exact List.prefix_append [1] _
  have late := keepsUp (List.replicate maxHashSize 0) 1 initial
  have all : front (List.replicate maxHashSize (0 : Fin 2)) = maxHashSize := by
    apply le_antisymm
    · exact front_le fun connection => List.count_le_length.trans List.length_replicate.le
    · have own := count_le_front (List.replicate maxHashSize (0 : Fin 2)) 0
      rwa [List.count_replicate_self] at own
  have none : (List.replicate maxHashSize (0 : Fin 2)).count 1 = 0 := by
    rw [List.count_replicate]
    rfl
  rw [all, none] at late
  exact absurd late (by decide)

theorem hashIDManager_not_exactlyOnce :
    2 ≤ (2#32).toNat ∧ (2#32).toNat ≤ maxHashSize ∧ oneCleanup.Nodup ∧
      (∀ connection, oneAfterAnother.count connection = oneCleanup.length) ∧
      ¬ AcceptsExactlyOnce 2#32 oneCleanup oneAfterAnother := by
  have complete : ∀ connection, oneAfterAnother.count connection = oneCleanup.length := fun connection =>
    (oneAfterAnother_count connection).trans oneCleanup_length.symm
  refine ⟨by decide, by decide, oneCleanup_nodup, complete, fun exactlyOnce => ?_⟩
  have once := (acceptsExactlyOnce_iff (by decide) (by decide)).mp exactlyOnce
  exact oneAfterAnother_not_keepsUp (keepsUp_of_exactlyOnce oneCleanup_nodup
    (fun connection => (complete connection).le) once (List.prefix_refl _))

end ConsolidatedBook
