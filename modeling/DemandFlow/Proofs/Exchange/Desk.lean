import DemandFlow.Proofs.Exchange.Moves

/-
  Who answers. Only a caller that is done adds to the answers of an exchange, and a broker that is
  asked a question; and only a new caller counts the callers on. No other step touches them.
-/

namespace DemandFlow.Exchange

open Broker (Command)

/-- What callers were told, and how many callers there were. -/
def desk (x : Exchange) : List (Nat × Answer) × Nat := (x.answers, x.nextCaller)

theorem answers_of_desk {x y : Exchange} (h : y.desk = x.desk) : y.answers = x.answers :=
  congrArg Prod.fst h

theorem skips_desk : SkipsSubs desk where
  note := fun _ _ => rfl
  count := fun _ _ => rfl
  line := fun _ _ _ => rfl
  timers := fun _ _ => rfl
  transport := fun _ _ => rfl
  feeds := fun _ _ => rfl
  subs := fun _ _ => rfl

variable (x : Exchange)

theorem desk_notify (n : Notice) : (x.notify n).desk = x.desk := by
  unfold notify
  split
  · rfl
  · cases n <;> rfl

/-- A new caller is counted, and has no answer. -/
theorem desk_callBehind (a : Activity) :
    (x.callBehind a).1.desk = (x.answers, x.nextCaller + 1) := by
  unfold callBehind enroll
  rw [skips_desk.wake]
  dsimp only
  split <;> rfl

/-! ## The tasks -/

/-- A command that asks nothing is answered by nobody. -/
theorem desk_takeCommand {c : Command} (hs : ∀ asker, c ≠ .stats asker)
    (hl : ∀ asker, c ≠ .pullLog asker) (rest : Fifo Command) :
    (x.takeCommand c rest).desk = x.desk := by
  have hy : ∀ g : Loopback → Loopback,
      ((x.noteCommand c).modifyLoopback g).desk = x.desk := by
    intro g
    unfold modifyLoopback
    split
    · exact (skips_desk.transport _ _).trans (skips_desk.noteCommand x c)
    · exact skips_desk.noteCommand x c
  unfold takeCommand commandEffect
  dsimp only
  cases c with
  | unsubscribe inbox => exact (skips_desk.closeFeed _ _).trans (hy _)
  | stats asker => exact absurd rfl (hs asker)
  | pullLog asker => exact absurd rfl (hl asker)
  | publish m => exact hy _
  | register inbox => exact hy _
  | pull inbox r => exact hy _
  | inject inbox f => exact hy _

theorem desk_popped (i : Nat) (rest : Fifo Frame) : (x.popped i rest).desk = x.desk :=
  skips_desk.wakeIf _ _ _

theorem desk_fire (later : Nat) : (x.fire later).desk = x.desk := by
  unfold fire
  dsimp only
  split
  · split <;> rfl
  · rfl

end DemandFlow.Exchange
