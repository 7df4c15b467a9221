import ConsolidatedBook.MPSCQueue.History

namespace ConsolidatedBook

variable {W ι α : Type} {c : Capacity}

/-- The call of a thread whose compare-exchange for it has succeeded. -/
def PushPhase.winner : PushPhase W ι α → Option (PushCall ι α)
  | .writeData call _ | .publish call _ | .returns call true => some call
  | _ => none

/-- How many of its calls a thread has completed. -/
def Producer.finished (producer : Producer W ι α) : Nat :=
  match producer.phase.call with
  | some call => call.serial
  | none => producer.calls

namespace QueueState

variable [DecidableEq ι]

/-- What a run has seen of each call, tied to where its thread stands. -/
structure CallInvariant (producers : ι → Producer W ι α) (history : List (QueueEvent W ι α)) : Prop where
  current : ∀ i call, (producers i).phase.call = some call →
    call.producer = i ∧ call.serial + 1 = (producers i).calls
  numbered : ∀ i, serials i history = List.range (producers i).calls
  order : (claims history).Pairwise fun a b => a.2.producer = b.2.producer → a.2.serial < b.2.serial
  claimed : ∀ call pos, .claimed call pos ∈ history →
    call.serial < (producers call.producer).finished ∨ (producers call.producer).phase.winner = some call
  winner : ∀ i call, (producers i).phase.winner = some call → ∃ pos, .claimed call pos ∈ history
  returned : ∀ call accepted, .pushReturned call accepted ∈ history →
    call.serial < (producers call.producer).finished
  accepted : ∀ call, .pushReturned call true ∈ history → ∃ pos, .claimed call pos ∈ history
  refused : ∀ call, .pushReturned call false ∈ history → ∀ pos, .claimed call pos ∉ history

variable {s t : QueueState W ι α c} {history events : List (QueueEvent W ι α)} {i : ι}

/-- A step in which no call claims a position or returns. -/
theorem CallInvariant.frame (inv : CallInvariant s.producers history)
    (current : ∀ i call, (t.producers i).phase.call = some call →
      call.producer = i ∧ call.serial + 1 = (t.producers i).calls)
    (numbered : ∀ i, serials i (history ++ events) = List.range (t.producers i).calls)
    (finished : ∀ i, (t.producers i).finished = (s.producers i).finished)
    (winner : ∀ i, (t.producers i).phase.winner = (s.producers i).phase.winner)
    (claims : claims events = []) (returns : ∀ call accepted, .pushReturned call accepted ∉ events) :
    CallInvariant t.producers (history ++ events) := by
  have claimed : ∀ call pos, .claimed call pos ∈ history ++ events ↔ .claimed call pos ∈ history := by
    intro call pos
    simp only [← mem_claims, claims_append, claims, List.append_nil]
  refine ⟨current, numbered, ?_, ?_, ?_, ?_, ?_, ?_⟩
  · simpa only [claims_append, claims, List.append_nil] using inv.order
  · simpa only [claimed, finished, winner] using inv.claimed
  · simpa only [claimed, winner] using inv.winner
  · simpa only [List.mem_append, returns, or_false, finished] using inv.returned
  · simpa only [List.mem_append, returns, or_false, claimed] using inv.accepted
  · simpa only [List.mem_append, returns, or_false, claimed] using inv.refused

/-- A step in which no call begins, claims a position or returns. -/
theorem CallInvariant.quiet (inv : CallInvariant s.producers history)
    (call : ∀ i, (t.producers i).phase.call = (s.producers i).phase.call)
    (winner : ∀ i, (t.producers i).phase.winner = (s.producers i).phase.winner)
    (calls : ∀ i, (t.producers i).calls = (s.producers i).calls)
    (begins : ∀ i, serials i events = []) (claims : claims events = [])
    (returns : ∀ call accepted, .pushReturned call accepted ∉ events) :
    CallInvariant t.producers (history ++ events) := by
  refine inv.frame ?_ ?_ ?_ winner claims returns
  · simpa only [call, calls] using inv.current
  · simpa only [serials_append, begins, List.append_nil, calls] using inv.numbered
  · intro i
    simp only [Producer.finished, call, calls]

/-- A producer's access that neither claims a position nor ends its call. -/
theorem CallInvariant.setPhase (inv : CallInvariant s.producers history) {phase : PushPhase W ι α}
    (call : phase.call = (s.producers i).phase.call) (winner : phase.winner = (s.producers i).phase.winner)
    (begins : ∀ i, serials i events = []) (claims : claims events = [])
    (returns : ∀ call accepted, .pushReturned call accepted ∉ events) :
    CallInvariant (s.setPhase i phase).producers (history ++ events) := by
  refine inv.quiet ?_ ?_ (fun j => setPhase_calls s i j phase) begins claims returns
  · intro j
    rw [setPhase_phase]
    split
    · rename_i equal
      rw [equal, call]
    · rfl
  · intro j
    rw [setPhase_phase]
    split
    · rename_i equal
      rw [equal, winner]
    · rfl

theorem CallInvariant.begin (inv : CallInvariant s.producers history) (idle : (s.producers i).phase = .idle)
    (value : α) :
    CallInvariant
      (s.setProducer i ⟨.loadEnqueuePos ⟨i, (s.producers i).calls, value⟩, (s.producers i).calls + 1⟩).producers
      (history ++ [.pushCalled ⟨i, (s.producers i).calls, value⟩]) := by
  refine inv.frame ?_ ?_ ?_ ?_ rfl (by simp)
  · intro j call here
    rw [setProducer_producers] at here ⊢
    split at here
    · rename_i equal
      cases here
      simp only [equal, if_true, and_self]
    · rename_i other
      simpa only [if_neg other] using inv.current j call here
  · intro j
    rw [serials_append, inv.numbered, setProducer_producers]
    by_cases equal : j = i
    · subst equal
      simp [serials, List.range_succ]
    · simp [serials, equal, Ne.symm equal]
  · intro j
    rw [setProducer_producers]
    split
    · rename_i equal
      simp only [equal, Producer.finished, PushPhase.call, idle]
    · rfl
  · intro j
    rw [setProducer_producers]
    split
    · rename_i equal
      rw [equal, idle]
      rfl
    · rfl

/-- A thread's step that begins no call leaves every thread at a call of its own. -/
theorem CallInvariant.current_setPhase (inv : CallInvariant s.producers history) {phase : PushPhase W ι α}
    {j : ι} {call : PushCall ι α} (here : ((s.setPhase i phase).producers j).phase.call = some call)
    (kept : ∀ call, phase.call = some call → (s.producers i).phase.call = some call) :
    call.producer = j ∧ call.serial + 1 = ((s.setPhase i phase).producers j).calls := by
  rw [setPhase_phase] at here
  rw [setPhase_calls]
  split at here
  · rename_i equal
    exact inv.current j call (equal ▸ kept call here)
  · exact inv.current j call here

/-- The claiming call is the latest of its thread, so its thread's earlier
claims have smaller serial numbers. -/
theorem CallInvariant.claim (inv : CallInvariant s.producers history) {call : PushCall ι α} {pos pos' : W}
    (phase : (s.producers i).phase = .compareExchange call pos') :
    CallInvariant (s.setPhase i (.writeData call pos)).producers (history ++ [.claimed call pos]) := by
  obtain ⟨owner, latest⟩ := inv.current i call (by rw [phase]; rfl)
  have finished : (s.producers i).finished = call.serial := by
    simp only [Producer.finished, phase, PushPhase.call]
  have noWinner : (s.producers i).phase.winner = none := by rw [phase]; rfl
  have earlier : ∀ call' pos', .claimed call' pos' ∈ history → call'.producer = i →
      call'.serial < call.serial := by
    intro call' pos' member same
    rcases inv.claimed call' pos' member with done | won
    · rwa [same, finished] at done
    · rw [same, noWinner] at won
      cases won
  have kept : ∀ j, ((s.setPhase i (.writeData call pos)).producers j).finished = (s.producers j).finished := by
    intro j
    rw [setPhase_producers]
    split
    · rename_i equal
      rw [equal, finished]
      rfl
    · rfl
  refine ⟨?_, ?_, ?_, ?_, ?_, ?_, ?_, ?_⟩
  · intro j call' here
    exact inv.current_setPhase here fun call own => by rwa [phase]
  · intro j
    rw [serials_append, setPhase_calls]
    exact (List.append_nil _).trans (inv.numbered j)
  · rw [claims_append, List.pairwise_append]
    refine ⟨inv.order, List.pairwise_singleton _ _, ?_⟩
    intro a old b new same
    cases List.mem_singleton.mp new
    exact earlier a.2 a.1 (mem_claims.mp old) (same.trans owner)
  · intro call' pos' member
    rw [kept, setPhase_phase]
    rcases List.mem_append.mp member with old | new
    · refine (inv.claimed call' pos' old).imp_right fun won => ?_
      rw [if_neg]
      · exact won
      · rintro equal
        rw [equal, noWinner] at won
        cases won
    · cases List.mem_singleton.mp new
      exact Or.inr (by rw [if_pos owner]; rfl)
  · intro j call' won
    rw [setPhase_phase] at won
    split at won
    · cases won
      exact ⟨pos, List.mem_append_right _ (List.mem_singleton.mpr rfl)⟩
    · obtain ⟨pos', member⟩ := inv.winner j call' won
      exact ⟨pos', List.mem_append_left _ member⟩
  · intro call' accepted member
    rw [kept]
    exact inv.returned call' accepted (by simpa using member)
  · intro call' member
    obtain ⟨pos', old⟩ := inv.accepted call' (by simpa using member)
    exact ⟨pos', List.mem_append_left _ old⟩
  · intro call' member pos' claimed
    have before : .pushReturned call' false ∈ history := by simpa using member
    rcases List.mem_append.mp claimed with old | new
    · exact inv.refused call' before pos' old
    · cases List.mem_singleton.mp new
      have done := inv.returned call false before
      rw [owner, finished] at done
      exact Nat.lt_irrefl _ done

theorem CallInvariant.finish (inv : CallInvariant s.producers history) {call : PushCall ι α} {accepted : Bool}
    (phase : (s.producers i).phase = .returns call accepted) :
    CallInvariant (s.setPhase i .idle).producers (history ++ [.pushReturned call accepted]) := by
  obtain ⟨owner, latest⟩ := inv.current i call (by rw [phase]; rfl)
  have finished : (s.producers i).finished = call.serial := by
    simp only [Producer.finished, phase, PushPhase.call]
  have finished' : ((s.setPhase i .idle).producers i).finished = call.serial + 1 := by
    simp only [Producer.finished, setPhase_phase, setPhase_calls, if_true, PushPhase.call, latest]
  have kept : ∀ j, j ≠ i → ((s.setPhase i .idle).producers j).finished = (s.producers j).finished := by
    intro j other
    simp only [Producer.finished, setPhase_phase, setPhase_calls, if_neg other]
  have grows : ∀ j, (s.producers j).finished ≤ ((s.setPhase i .idle).producers j).finished := by
    intro j
    by_cases equal : j = i
    · rw [equal, finished, finished']
      exact Nat.le_succ _
    · exact (kept j equal).ge
  have claimed : ∀ call' pos, .claimed call' pos ∈ history ++ [.pushReturned call accepted] ↔
      .claimed call' pos ∈ history := by simp
  refine ⟨?_, ?_, ?_, ?_, ?_, ?_, ?_, ?_⟩
  · intro j call' here
    exact inv.current_setPhase here nofun
  · intro j
    rw [serials_append, setPhase_calls]
    exact (List.append_nil _).trans (inv.numbered j)
  · rw [claims_append]
    simpa only [claims, List.filterMap_cons, List.filterMap_nil, List.append_nil] using inv.order
  · intro call' pos member
    rcases inv.claimed call' pos ((claimed call' pos).mp member) with done | won
    · exact Or.inl (done.trans_le (grows _))
    · by_cases equal : call'.producer = i
      · rw [equal, phase] at won
        have same : call' = call := by
          cases accepted
          · cases won
          · exact (Option.some.inj won).symm
        rw [equal, finished', same]
        exact Or.inl (Nat.lt_succ_self _)
      · rw [setPhase_phase, if_neg equal]
        exact Or.inr won
  · intro j call' won
    rw [setPhase_phase] at won
    split at won
    · cases won
    · simpa only [claimed] using inv.winner j call' won
  · intro call' accepted' member
    rcases List.mem_append.mp member with old | new
    · exact (inv.returned call' accepted' old).trans_le (grows _)
    · cases List.mem_singleton.mp new
      rw [owner, finished']
      exact Nat.lt_succ_self _
  · intro call' member
    simp only [claimed]
    rcases List.mem_append.mp member with old | new
    · exact inv.accepted call' old
    · cases List.mem_singleton.mp new
      exact inv.winner i call (by rw [phase]; rfl)
  · intro call' member pos
    rw [claimed]
    rcases List.mem_append.mp member with old | new
    · exact inv.refused call' old pos
    · cases List.mem_singleton.mp new
      intro won
      rcases inv.claimed call pos won with done | winner
      · rw [owner, finished] at done
        exact Nat.lt_irrefl _ done
      · rw [owner, phase] at winner
        cases winner

section Runs

variable [PositionWord W] [Movable α]

theorem CallInvariant.move (inv : CallInvariant s.producers history) (move : s.Move t events) :
    CallInvariant t.producers (history ++ events) := by
  cases move with
  | pushCalled idle => exact inv.begin idle _
  | positionLoaded phase | vacant phase _ | full phase _ | behind phase _ | failed phase =>
    exact inv.setPhase (by rw [phase]; rfl) (by rw [phase]; rfl) (fun _ => rfl) rfl (by simp)
  | claimed phase _ => exact inv.claim phase
  | written phase | published phase =>
    exact inv.setPhase (by rw [phase]; rfl) (by rw [phase]; rfl) (fun _ => rfl) rfl (by simp)
  | pushReturned phase => exact inv.finish phase
  | popCalled | dequeueLoaded | empty | ready | taken | released | advanced | popReturned =>
    exact inv.quiet (fun _ => rfl) (fun _ => rfl) (fun _ => rfl) (fun _ => rfl) rfl (by simp)

theorem CallInvariant.reach [DecidableEq W] (reach : (queueMachine W ι α c).Reach s history) :
    CallInvariant s.producers history := by
  induction reach with
  | start =>
    refine ⟨?_, fun _ => rfl, List.Pairwise.nil, ?_, ?_, ?_, ?_, ?_⟩
    · intro i call here
      cases here
    · intro call pos member
      cases member
    · intro i call won
      cases won
    · intro call accepted member
      cases member
    · intro call member
      cases member
    · intro call member
      cases member
  | next _ step ih => exact ih.move (step_move step)

end Runs

end QueueState

end ConsolidatedBook
