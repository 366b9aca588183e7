import DemandFlow.Proofs.Exchange.Reached
import DemandFlow.Proofs.Lane.Moves

/-
  The states that runs reach. `Ensues.next` says that every move but the clock, the alarm task and
  the worker that takes in an alarm is made of what subscriptions do at one instant, and
  `Reached.next` adds these three. So `Reached.after` holds of every run on any transport: a law
  of the states that can be reached is a law of all runs.
-/

namespace DemandFlow.Exchange

variable {x₀ x : Exchange} {opens : Bool}

/-! ## Moves -/

namespace Ensues

theorem openWith (h : Ensues true x₀ x) (p : Purpose) (r : PullRequest) :
    Ensues true x₀ (x.openWith p r).1 := by
  have ho := h.opened p rfl
  unfold Exchange.openWith
  generalize x.openSub p = opened at ho ⊢
  obtain ⟨y, res⟩ := opened
  cases res with
  | error e => exact ho
  | ok i =>
    have hp := ho.pulled i r
    dsimp only at hp ⊢
    generalize y.pull i r = pulled at hp ⊢
    obtain ⟨z, res⟩ := pulled
    cases res with
    | error e => exact hp.dropSub i true
    | ok _ => exact hp

theorem openFetch (h : Ensues true x₀ x) (s : FetchOptions.Settings) :
    Ensues true x₀ (x.openFetch s).1 := by
  unfold Exchange.openFetch
  split
  · exact h
  · exact h.openWith _ _

theorem openContinuous (h : Ensues true x₀ x) (o : ConsumeOptions) (hd : Handler) :
    Ensues true x₀ (x.openContinuous o hd).1 := by
  have ho := h.openWith (.continuous (.start o hd)) o.initial
  unfold Exchange.openContinuous
  generalize x.openWith (.continuous (.start o hd)) o.initial = opened at ho ⊢
  obtain ⟨y, res⟩ := opened
  cases res with
  | error e => exact ho
  | ok i => exact ho.note _

theorem enroll (h : Ensues opens x₀ x) (a : Activity) : Ensues opens x₀ (x.enroll a) := by
  have hc : Ensues opens x₀ { x with
      callers := x.callers ++ [Caller.mk x.nextCaller a], nextCaller := x.nextCaller + 1 } :=
    h.same rfl
  unfold Exchange.enroll
  dsimp only
  split
  · exact hc
  · exact hc.joinLine _ _

theorem callBehind (h : Ensues opens x₀ x) (a : Activity) : Ensues opens x₀ (x.callBehind a).1 :=
  (h.enroll a).wake _

theorem pullBy (h : Ensues opens x₀ x) (i : Nat) (w : Wish) : Ensues opens x₀ (x.pullBy i w) := by
  unfold Exchange.pullBy
  split
  · unfold pullFor
    split
    · exact h
    · exact h.pulled i _
  · exact h

theorem drainBehind (h : Ensues opens x₀ x) (i : Nat) (grace : Span) :
    Ensues opens x₀ (x.drainBehind i grace) := by
  have hb : Ensues opens x₀ (x.beginDrain i grace).1 := by
    unfold beginDrain
    split
    · exact h
    · split
      · split
        · exact h
        · rename_i c _
          exact (h.modifySub i (g := fun s => { s with purpose := .continuous c })
            fun _ => ⟨rfl, rfl, rfl⟩).note _
      · exact h
  unfold Exchange.drainBehind
  generalize x.beginDrain i grace = begun at hb ⊢
  obtain ⟨y, res⟩ := begun
  cases res with
  | error b => exact hb
  | ok a => exact hb.callBehind a

theorem closeContinuous (h : Ensues opens x₀ x) (i : Nat) : Ensues opens x₀ (x.closeContinuous i) :=
  h.modifySub i fun s => by split <;> exact ⟨rfl, rfl, rfl⟩

theorem discard (h : Ensues opens x₀ x) (i : Nat) (inside : Bool) :
    Ensues opens x₀ (x.discard i inside) := by
  unfold Exchange.discard
  split
  · exact h.modifySub i fun _ => ⟨rfl, rfl, rfl⟩
  · exact h.dropSub i inside

theorem feedFrame (h : Ensues opens x₀ x) (i : Nat) (f : Frame) :
    Ensues opens x₀ (x.feedFrame i f) := by
  unfold Exchange.feedFrame
  split
  · exact h
  · split
    · have hpushed : Ensues opens x₀ (x.modifyFeed i (·.push f)) := h.same rfl
      exact hpushed.wakeAll _
    · exact h

theorem letGo (h : Ensues opens x₀ x) : Ensues opens x₀ x.letGo := by
  refine .wake (h.same ?_) _
  unfold modifyLoopback
  split <;> rfl

theorem fail (h : Ensues opens x₀ x) (subscribe publish : Option TransportError) :
    Ensues opens x₀ (x.fail subscribe publish) := by
  unfold Exchange.fail
  split
  · exact h
  · exact h.same rfl

theorem fire (h : Ensues opens x₀ x) : Ensues opens x₀ (x.fire 0) := by
  refine h.same ?_
  unfold Exchange.fire
  dsimp only
  split
  · split <;> rfl
  · rfl

end Ensues

/-- A move that opens a subscription, if the transport lets it. -/
def Move.mayOpen : Move → Bool
  | .manual | .fetch _ | .consume _ _ => true
  | _ => false

/-- A move that neither looks at a monitor nor moves the clock nor takes in an alarm. -/
def IsStill (x : Exchange) : Move → Prop
  | .clock _ | .turn (.alarm _) => False
  | .turn (.worker i) => ∀ s d rest, ¬x.TakesAlarm i s d rest
  | _ => True

theorem Ensues.next {m : Move} (hm : x.IsStill m) : Ensues m.mayOpen x (x.next m) := by
  have h : Ensues m.mayOpen x x := .refl
  cases m with
  | manual => exact h.opened .manual rfl
  | fetch s => exact h.openFetch s
  | consume o hd => exact h.openContinuous o hd
  | pull i w => exact h.pullBy i w
  | read i timeout => exact h.callBehind _
  | readAll i timeout => exact h.callBehind _
  | collect i mode => exact h.callBehind _
  | drain i grace => exact h.drainBehind i grace
  | stop i => exact ((h.closeContinuous i).unsubscribe i).callBehind _
  | unsubscribe i => exact (h.unsubscribe i).callBehind _
  | discard i inside => exact h.discard i inside
  | dropOrphans => exact h.dropOrphans
  | publish m => exact h.same (skips_affairs.publish x m)
  | letGo => exact h.letGo
  | slip inbox f => exact h.same (skips_affairs.send x _)
  | feed i f => exact h.feedFrame i f
  | closeFeed inbox => exact h.same (skips_affairs.closeFeed x inbox)
  | fail subscribe publish => exact h.fail subscribe publish
  | clock now => exact hm.elim
  | timers => exact h.fire
  | turn t =>
    cases t with
    | broker => exact h.brokerStep
    | alarm i => exact hm.elim
    | worker i => exact h.workerStep hm
    | farewell i => exact h.farewell i
    | caller id => exact h.callerStep id

/-! ## Runs -/

theorem Reached.next (h : Reached x) (m : Move) : Reached (x.next m) := by
  cases m with
  | clock now => exact h.same (subs_wakeAll _ _)
  | turn t => exact h.stepOf t
  | _ => exact h.ensues (Ensues.next trivial)

/-- A run stays within the states that can be reached. -/
theorem Reached.after (h : Reached x) (ms : List Move) : Reached (x.after ms) := by
  induction ms generalizing x with
  | nil => exact h
  | cons m ms ih => exact ih (h.next m)

end DemandFlow.Exchange
