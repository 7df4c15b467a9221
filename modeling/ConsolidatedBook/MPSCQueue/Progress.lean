import ConsolidatedBook.MPSCQueue.Delivery
import ConsolidatedBook.MPSCQueue.Solo

namespace ConsolidatedBook

open PositionWord (ofNat toNat add diff)

variable {W ι α : Type} {c : Capacity}

/-- What the call under way has cost a producer: its accesses to shared
memory, the positions that others have claimed since the call, and its
compare-exchanges that failed spuriously. -/
structure Effort where
  accesses : Nat
  rivals : Nat
  spurious : Nat

/-- What a producer's setbacks account for. -/
def Effort.setbacks (effort : Effort) : Nat := effort.rivals + effort.spurious

def Effort.access (effort : Effort) : Effort := { effort with accesses := effort.accesses + 1 }

def Effort.rival (effort : Effort) : Effort := { effort with rivals := effort.rivals + 1 }

def Effort.spuriously (effort : Effort) : Effort := { effort.access with spurious := effort.spurious + 1 }

/-- The efforts after a step. The return itself accesses nothing. -/
def QueueState.efforts [DecidableEq W] [DecidableEq ι] (efforts : ι → Effort) (s : QueueState W ι α c) :
    QueueAction ι α → ι → Effort
  | .callPush i _ => Function.update efforts i ⟨0, 0, 0⟩
  | .stepPush i weakFails =>
    match (s.producers i).phase with
    | .idle | .returns _ _ => efforts
    | .compareExchange _ pos =>
      if s.queue.enqueuePos = pos then
        if weakFails then Function.update efforts i (efforts i).spuriously
        else Function.update (fun j => (efforts j).rival) i (efforts i).access
      else Function.update efforts i (efforts i).access
    | _ => Function.update efforts i (efforts i).access
  | .callPop | .stepPop => efforts

/-- The queue with each producer's effort beside it. -/
def effortMachine (W ι α : Type) [PositionWord W] [DecidableEq W] [DecidableEq ι] [Movable α] (c : Capacity) :
    Machine (QueueState W ι α c × (ι → Effort)) (QueueAction ι α) (QueueEvent W ι α × (ι → Effort)) :=
  (queueMachine W ι α c).noted (fun _ => ⟨0, 0, 0⟩) QueueState.efforts

/-- How many accesses a producer can have made where it stands. Each setback
has cost two, and each claim since its load is a setback to come. -/
def Effort.Within (effort : Effort) (enqueuePos : Nat) : PushPhase Nat ι α → Prop
  | .idle => True
  | .loadEnqueuePos _ => effort.accesses ≤ 2 * effort.setbacks
  | .loadSequence _ pos => effort.accesses + 2 * (enqueuePos - pos) ≤ 1 + 2 * effort.setbacks
  | .compareExchange _ pos => effort.accesses + 2 * (enqueuePos - pos) ≤ 2 + 2 * effort.setbacks
  | .writeData _ _ => effort.accesses ≤ 3 + 2 * effort.setbacks
  | .publish _ _ => effort.accesses ≤ 4 + 2 * effort.setbacks
  | .returns _ _ => effort.accesses ≤ 5 + 2 * effort.setbacks

theorem Effort.Within.rival {effort : Effort} {enqueuePos : Nat} {phase : PushPhase Nat ι α}
    (within : effort.Within enqueuePos phase) : effort.rival.Within (enqueuePos + 1) phase := by
  cases phase <;> simp only [Within, setbacks, Effort.rival] at within ⊢ <;> omega

theorem Effort.Within.bound {effort : Effort} {enqueuePos : Nat} {phase : PushPhase Nat ι α} {call : PushCall ι α}
    (within : effort.Within enqueuePos phase) (inside : phase.call = some call) :
    effort.accesses ≤ 5 + 2 * effort.setbacks := by
  cases phase <;> simp only [Within, PushPhase.call, reduceCtorEq] at within inside <;> omega

namespace QueueState

variable {s t : QueueState Nat ι α c} {efforts : ι → Effort} {i : ι}

def Paced (s : QueueState Nat ι α c) (efforts : ι → Effort) : Prop :=
  ∀ i, (efforts i).Within s.queue.enqueuePos (s.producers i).phase

variable [DecidableEq ι]

/-- A producer's step that claims nothing changes its own effort only. -/
theorem Paced.setPhase (paced : s.Paced efforts) {phase : PushPhase Nat ι α} {effort : Effort}
    (own : effort.Within s.queue.enqueuePos phase) :
    (s.setPhase i phase).Paced (Function.update efforts i effort) := by
  intro j
  rw [setPhase_phase, Function.update_apply]
  split
  · exact own
  · exact paced j

theorem Paced.claimed (paced : s.Paced efforts) {call : PushCall ι α} {pos : Nat}
    (own : (efforts i).access.Within (pos + 1) (.writeData call pos : PushPhase Nat ι α))
    (fresh : s.queue.enqueuePos = pos) :
    Paced { s.setPhase i (.writeData call pos) with queue := { s.queue with enqueuePos := add pos 1 } }
      (Function.update (fun j => (efforts j).rival) i (efforts i).access) := by
  intro j
  change (Function.update (fun j => (efforts j).rival) i (efforts i).access j).Within (pos + 1)
    ((s.setPhase i (.writeData call pos)).producers j).phase
  rw [setPhase_phase, Function.update_apply]
  split
  · exact own
  · exact fresh ▸ (paced j).rival

variable [Movable α]

theorem Paced.step (paced : s.Paced efforts) (ring : s.RingInvariant) {action : QueueAction ι α}
    {events : List (QueueEvent Nat ι α)} (step : s.step action = some (t, events)) :
    t.Paced (s.efforts efforts action) := by
  cases action with
  | callPush i value =>
    simp only [QueueState.step, Option.ite_none_right_eq_some] at step
    obtain ⟨_, same⟩ := step
    cases same
    intro j
    change (Function.update efforts i ⟨0, 0, 0⟩ j).Within s.queue.enqueuePos _
    rw [setProducer_producers, Function.update_apply]
    split
    · exact le_rfl
    · exact paced j
  | callPop =>
    simp only [QueueState.step, Option.ite_none_right_eq_some] at step
    obtain ⟨_, same⟩ := step
    cases same
    exact paced
  | stepPop =>
    obtain ⟨_, rfl, -⟩ := stepPop_eq step
    intro j
    change (efforts j).Within (s.queue.popStep (ι := ι) s.consumer).1.enqueuePos _
    rw [MPSCQueue.popStep_enqueuePos]
    exact paced j
  | stepPush i weakFails =>
    obtain ⟨busy, rfl, -⟩ := stepPush_eq step
    have own := paced i
    cases at_ : (s.producers i).phase with
    | idle => simp only [at_, PushPhase.isIdle, reduceCtorEq] at busy
    | loadEnqueuePos call =>
      rw [at_] at own
      simp only [QueueState.efforts, at_]
      refine paced.setPhase ?_
      simp only [Effort.Within, Effort.access, Effort.setbacks, MPSCQueue.pushImplStep] at own ⊢
      omega
    | loadSequence call pos =>
      have target := ring.aim_le i pos (by rw [at_]; rfl)
      have fresh := ring.sequence_enqueuePos_le
      rw [at_] at own
      simp only [QueueState.efforts, at_, MPSCQueue.pushImplStep]
      simp only [Effort.Within, Effort.setbacks] at own
      split
      · refine paced.setPhase ?_
        simp only [Effort.Within, Effort.access, Effort.setbacks]
        omega
      · rename_i apart
        split
        · refine paced.setPhase ?_
          simp only [Effort.Within, Effort.access, Effort.setbacks]
          omega
        · rename_i ahead
          -- the number is ahead, so the position is not the fresh one
          have stale : pos < s.queue.enqueuePos := by
            rcases Nat.lt_or_ge pos s.queue.enqueuePos with before | after
            · exact before
            · have same : pos = s.queue.enqueuePos := by omega
              rw [same, diff_nat] at apart ahead
              omega
          refine paced.setPhase ?_
          simp only [Effort.Within, Effort.access, Effort.setbacks]
          omega
    | compareExchange call pos =>
      have target := ring.aim_le i pos (by rw [at_]; rfl)
      rw [at_] at own
      simp only [Effort.Within, Effort.setbacks] at own
      simp only [QueueState.efforts, at_, MPSCQueue.pushImplStep]
      by_cases fresh : s.queue.enqueuePos = pos
      · cases weakFails with
        | true =>
          simp only [fresh, reduceCtorEq, and_false, if_true, if_false]
          refine paced.setPhase ?_
          simp only [Effort.Within, Effort.spuriously, Effort.access, Effort.setbacks]
          omega
        | false =>
          simp only [fresh, and_self, if_true, reduceCtorEq, if_false]
          refine paced.claimed ?_ fresh
          simp only [Effort.Within, Effort.access, Effort.setbacks]
          omega
      · simp only [fresh, false_and, if_false]
        refine paced.setPhase ?_
        simp only [Effort.Within, Effort.access, Effort.setbacks]
        omega
    | writeData call pos | publish call pos =>
      rw [at_] at own
      simp only [QueueState.efforts, at_]
      refine paced.setPhase ?_
      simp only [Effort.Within, Effort.access, Effort.setbacks, MPSCQueue.pushImplStep] at own ⊢
      omega
    | returns call accepted =>
      simp only [QueueState.efforts, at_]
      have kept : (s.setPhase i .idle).Paced (Function.update efforts i (efforts i)) := paced.setPhase trivial
      rwa [Function.update_eq_self] at kept

theorem Paced.reach (two : 2 ≤ c.size) {s : QueueState Nat ι α c × (ι → Effort)}
    {history : List (QueueEvent Nat ι α × (ι → Effort))} (reach : (effortMachine Nat ι α c).Reach s history) :
    s.1.Paced s.2 := by
  induction reach with
  | start => exact fun _ => trivial
  | next before step ih =>
    obtain ⟨⟨next, observed⟩, literal, same⟩ := Option.map_eq_some_iff.mp step
    cases same
    exact ih.step (.reach two before.forget) literal

end QueueState

section Progress

variable [DecidableEq ι] [Movable α] {s : QueueState Nat ι α c} {efforts : ι → Effort}
  {history : List (QueueEvent Nat ι α × (ι → Effort))}

/-- `Push` is lock-free: in any interleaving a call makes at most five
accesses, and two more for each position that another producer has claimed
since the call and for each of its own spurious failures. -/
theorem mpscQueue_push_lockFree (two : 2 ≤ c.size) (reach : (effortMachine Nat ι α c).Reach (s, efforts) history)
    {i : ι} {call : PushCall ι α} (inside : (s.producers i).phase.call = some call) :
    (efforts i).accesses ≤ 5 + 2 * ((efforts i).rivals + (efforts i).spurious) :=
  (QueueState.Paced.reach two reach i).bound inside

/-- The loser of a race has made seven accesses when it is about to return. -/
theorem mpscQueue_push_lockFree_racedPush :
    ∃ s history, (effortMachine Nat Nat String .default).run
        (effortMachine Nat Nat String .default).initial (racedPush.take 12) = some (s, history) ∧
      s.2 0 = ⟨7, 1, 0⟩ ∧ (s.2 0).accesses ≤ 5 + 2 * ((s.2 0).rivals + (s.2 0).spurious) := by
  refine ⟨_, _, rfl, rfl, ?_⟩
  exact mpscQueue_push_lockFree (by decide) (Machine.Reach.start.run
    (rfl : (effortMachine Nat Nat String .default).run _ (racedPush.take 12) = some (_, _))) rfl

end Progress

end ConsolidatedBook
