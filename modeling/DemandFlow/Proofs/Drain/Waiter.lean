import DemandFlow.Proofs.Silence.Vigil

/-
  A task that waits until the demand of a tracker is exhausted, beside all that can happen to the
  tracker. It looks, ends when nothing is outstanding, and else sleeps until it is told to look
  again. Whoever starts or withdraws a request and whoever settles counts tells it; nobody else
  exhausts the demand, not even a request whose alarm period is no span, which adds demand and
  tells nobody. So demand is outstanding as long as the task sleeps (`Watching`).
-/

namespace DemandFlow.Bench

/-- Where a task is that waits until demand is exhausted. -/
inductive Waiter where
  | looking
  | sleeping
  | ended
deriving DecidableEq

/-- The waiter is told that demand has changed. -/
def Waiter.told : Waiter → Waiter
  | .sleeping => .looking
  | .looking => .looking
  | .ended => .ended

namespace State

variable {s : State}

def isExhausted (s : State) : Bool := s.tracker.isExhausted

/-- Whether a call tells those who wait. -/
def tells (s : State) : Step → Bool
  | .issue d => (s.starts (.issue d)).isSome
  | .cancel d => s.accounting && d.build.toOption.isSome
  | .track _ => s.accounting
  | .reconcile st => s.accounting && st.pendingCounts.isSome
  | .manage f => s.accounting && f.settles.isSome
  | _ => false

/-! ## Who exhausts the demand -/

/-- A call that tells nobody leaves the demand as it was, or outstanding. -/
theorem isExhausted_act {st : Step} (h : s.tells st = false) :
    (s.act st).1.isExhausted = s.isExhausted ∨ (s.act st).1.isExhausted = false := by
  cases st with
  | issue d =>
    unfold act
    dsimp only
    cases d.build with
    | error e => exact Or.inl rfl
    | ok r =>
      dsimp only
      split
      · cases hi : s.tracker.issue s.now r with
        | none => exact Or.inr (Demand.isExhausted_add _ r)
        | some t =>
          refine Or.inr ?_
          show t.demand.isExhausted = false
          rw [Tracker.demand_issue hi]
          exact Demand.isExhausted_add _ r
      · exact Or.inl rfl
  | cancel d =>
    unfold tells at h
    unfold act
    dsimp only
    cases hd : d.build with
    | error e => exact Or.inl rfl
    | ok r =>
      have hacc : s.accounting = false := by simpa [hd, Except.toOption] using h
      dsimp only
      rw [hacc]
      exact Or.inl rfl
  | track m =>
    have hacc : s.accounting = false := h
    unfold act
    dsimp only
    rw [hacc]
    exact Or.inl rfl
  | reconcile st =>
    unfold tells at h
    unfold act
    dsimp only
    cases hacc : s.accounting with
    | false => exact Or.inl rfl
    | true =>
      have hcounts : st.pendingCounts = none := by simpa [hacc] using h
      refine Or.inl ?_
      show (s.tracker.reconcile st).demand.isExhausted = _
      unfold Tracker.reconcile
      rw [hcounts]
      rfl
  | manage f =>
    unfold tells at h
    unfold act
    dsimp only
    cases hacc : s.accounting with
    | false => exact Or.inl rfl
    | true =>
      have hf : f.settles = none := by simpa [hacc] using h
      refine Or.inl ?_
      show (s.tracker.account s.now f).demand.isExhausted = _
      rw [Demand.demand_account]
      unfold Demand.take
      rw [hf]
      rfl
  | configure heartbeat =>
    unfold act
    dsimp only
    split <;> exact Or.inl rfl
  | run =>
    unfold act
    dsimp only
    split <;> exact Or.inl rfl
  | arm | disarm | record | shutdown | dropReceiver | wait | advance | debug => exact Or.inl rfl

theorem demand_watch (s : State) : s.watch.1.tracker.demand = s.tracker.demand := by
  unfold watch
  dsimp only
  split
  all_goals try split
  all_goals rfl

end State

/-! ## A waiter beside a vigil -/

/-- A tracker with its alarm task, and a task that waits until the demand is exhausted. -/
structure Await where
  vigil : Vigil
  waiter : Waiter

namespace Await

/-- The waiter looks, or something else happens. -/
inductive Event where
  | look
  | other (a : Act)

variable {p : Await}

def isExhausted (p : Await) : Bool := p.vigil.state.isExhausted

/-- Whether what happens tells the waiter: some calls do. -/
def isTold (p : Await) : Act → Bool
  | .call st => p.vigil.state.tells st
  | .clock _ | .look => false

def next (p : Await) : Event → Await
  | .look =>
    match p.waiter with
    | .looking => { p with waiter := if p.isExhausted then .ended else .sleeping }
    | .sleeping | .ended => p
  | .other a => ⟨p.vigil.next a, if p.isTold a then p.waiter.told else p.waiter⟩

/-- A task begins to wait beside a tracker to which all this has happened. -/
def start (accounting : Bool) (as : List Act) : Await := ⟨.after accounting as, .looking⟩

def after (p : Await) (es : List Event) : Await := es.foldl next p

/-- While the waiter sleeps, demand is outstanding. -/
def Watching (p : Await) : Prop := p.waiter = .sleeping → p.isExhausted = false

theorem isExhausted_other {a : Act} (h : p.isTold a = false) :
    (p.next (.other a)).isExhausted = p.isExhausted ∨
      (p.next (.other a)).isExhausted = false := by
  cases a with
  | call st => exact State.isExhausted_act h
  | clock d => exact Or.inl rfl
  | look =>
    refine Or.inl ?_
    show (p.vigil.next .look).state.tracker.demand.isExhausted = _
    unfold Vigil.next
    dsimp only
    split
    · exact congrArg Demand.isExhausted (State.demand_watch _)
    · rfl

theorem Watching.next (h : p.Watching) (e : Event) : (p.next e).Watching := by
  cases e with
  | look =>
    intro hs
    unfold Await.next at hs ⊢
    cases hw : p.waiter with
    | looking =>
      rw [hw] at hs
      dsimp only at hs ⊢
      cases he : p.isExhausted with
      | true =>
        rw [he] at hs
        cases hs
      | false => exact he
    | sleeping => exact h hw
    | ended =>
      rw [hw] at hs
      dsimp only at hs
      cases hw.symm.trans hs
  | other a =>
    intro hs
    replace hs : (if p.isTold a then p.waiter.told else p.waiter) = .sleeping := hs
    cases ht : p.isTold a with
    | true =>
      rw [if_pos ht] at hs
      cases hw : p.waiter <;> rw [hw] at hs <;> cases hs
    | false =>
      rw [if_neg (ne_true_of_eq_false ht)] at hs
      exact (isExhausted_other ht).elim (fun he => he.trans (h hs)) id

theorem Watching.after (h : p.Watching) (es : List Event) : (p.after es).Watching := by
  induction es generalizing p with
  | nil => exact h
  | cons e es ih => exact ih (h.next e)

/-- The waiter ends only when it looks and nothing is outstanding. -/
theorem isExhausted_of_ended {e : Event} (hw : p.waiter ≠ .ended)
    (he : (p.next e).waiter = .ended) : p.isExhausted = true := by
  cases e with
  | look =>
    unfold next at he
    cases hp : p.waiter with
    | looking =>
      rw [hp] at he
      dsimp only at he
      cases hx : p.isExhausted with
      | true => rfl
      | false =>
        rw [hx] at he
        cases he
    | sleeping =>
      rw [hp] at he
      cases hp.symm.trans he
    | ended => exact absurd hp hw
  | other a =>
    unfold next at he
    dsimp only at he
    split at he
    · cases hp : p.waiter with
      | ended => exact absurd hp hw
      | looking | sleeping =>
        rw [hp] at he
        cases he
    · exact absurd he hw

/-- When it has to end: once it has looked it goes on only when it is told; then, with nothing
outstanding, it has ended; and what ends it finds nothing outstanding. -/
structure EndsInTime (p : Await) : Prop where
  rests : (p.next .look).waiter ≠ .looking
  ended : p.waiter ≠ .looking → p.isExhausted = true → p.waiter = .ended
  never : ∀ e, p.waiter ≠ .ended → (p.next e).waiter = .ended → p.isExhausted = true

theorem Watching.endsInTime (h : p.Watching) : p.EndsInTime := by
  refine ⟨?_, fun hl he => ?_, fun _ => isExhausted_of_ended⟩
  · unfold Await.next
    cases hw : p.waiter with
    | looking =>
      dsimp only
      split <;> exact nofun
    | sleeping | ended =>
      dsimp only
      rw [hw]
      exact nofun
  · cases hw : p.waiter with
    | looking => exact absurd hw hl
    | sleeping =>
      rw [h hw] at he
      cases he
    | ended => rfl

end Await

end DemandFlow.Bench
