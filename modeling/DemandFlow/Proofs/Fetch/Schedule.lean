import DemandFlow.Exchange.Consume
import DemandFlow.Proofs.Exchange.Desk
import DemandFlow.Proofs.Fetch.Errand

/-
  Runs of an exchange in time. A timetable says which messages are published and when. At one
  instant tasks make their steps in any order, and a step counts only if it does something. The
  clock goes on only when no task can do anything more, and it stops at every instant at which a
  task that waits has to look again. So a run that cannot go on has come to its end.
-/

namespace DemandFlow

open Broker (Command)

/-- When a subscription is over at the latest, if that is known beforehand. -/
def Purpose.deadline? : Purpose → Option Nat
  | .fetch _ due => some due
  | .manual | .continuous _ => none

/-- A task that is there as long as what it serves. A farewell runs once, when a subscription is
dropped. -/
def Task.isLasting : Task → Bool
  | .farewell _ => false
  | .broker | .alarm _ | .worker _ | .caller _ => true

namespace Exchange

/-! ## What happens at one instant -/

/-- What a step can do something to. Log, counters and notices tell of it, and the line of tasks
and the sleepers follow from it. -/
def content (x : Exchange) : Core × List (Nat × Answer) × Nat := (x.core, x.desk)

/-- No task can do anything. -/
def Rests (x : Exchange) : Prop :=
  ∀ t : Task, t.isLasting = true → (x.stepOf t).1.content = x.content

/-- The instant at which a caller looks again if nothing happens before. -/
def dueOf? (x : Exchange) : Activity → Option Nat
  | .sleep due | .watch _ _ due => some due
  | .drain _ due => some (wholeMillis due)
  | .read _ due | .readAll _ _ due _ => due
  | .fetch i _ => (x.subs[i]?).bind fun s => s.purpose.deadline?
  | .leave _ _ | .ask => none

/-- An instant at which a task that waits has to look again. -/
inductive Rings (x : Exchange) (t : Nat) : Prop
  | broker (l : Loopback) (transport : x.transport = .loopback l)
    (due : l.broker.deadline = some t)
  | alarm (i : Nat) (s : Subscription) (sub : x.subs[i]? = some s) (watching : s.watching = true)
    (due : s.tracker.monitor.deadline = some t)
  | caller (c : Caller) (caller : c ∈ x.callers) (due : x.dueOf? c.activity = some t)

/-! ## Timetables -/

/-- Messages that will be published, with their instants. -/
abbrev Timetable := List (Nat × Message)

namespace Timetable

/-- The instants are in order, and none is past. -/
def StartsAt (now : Nat) (plan : Timetable) : Prop :=
  List.Pairwise (· ≤ ·) (now :: plan.map Prod.fst)

/-- The messages that are published before an instant. -/
def before (due : Nat) (plan : Timetable) : List Message :=
  (plan.filter fun p => decide (p.1 < due)).map Prod.snd

variable {now due : Nat} {m : Message} {plan : Timetable}

theorem StartsAt.le (h : StartsAt now plan) {p : Nat × Message} (hp : p ∈ plan) : now ≤ p.1 :=
  List.rel_of_pairwise_cons h (List.mem_map_of_mem hp)

theorem StartsAt.later (h : StartsAt now plan) {later : Nat} (hl : ∀ p ∈ plan, later ≤ p.1) :
    StartsAt later plan := by
  refine List.pairwise_cons.2 ⟨fun t ht => ?_, (List.pairwise_cons.1 h).2⟩
  obtain ⟨p, hp, rfl⟩ := List.mem_map.1 ht
  exact hl p hp

theorem StartsAt.tail (h : StartsAt now ((now, m) :: plan)) : StartsAt now plan :=
  (List.pairwise_cons.1 h).2

theorem before_cons (h : now < due) : before due ((now, m) :: plan) = m :: before due plan := by
  simp [before, h]

/-- Nothing is published in time any more once the time is over. -/
theorem StartsAt.before_eq_nil (h : StartsAt now plan) (hd : due ≤ now) : before due plan = [] := by
  unfold before
  rw [List.map_eq_nil_iff, List.filter_eq_nil_iff]
  intro p hp
  rw [decide_eq_true_eq]
  exact Nat.not_lt_of_le (Nat.le_trans hd (h.le hp))

end Timetable

/-- Messages as they are stored, the first one under this number. -/
def stored : Nat → List Message → List Message
  | _, [] => []
  | n, m :: ms => m.withReply (ackSubject n) :: stored (n + 1) ms

theorem size_pos_of_mem_stored {n : Nat} {ms : List Message} {m : Message}
    (h : m ∈ stored n ms) : 0 < m.size := by
  induction ms generalizing n with
  | nil => cases h
  | cons k ks ih =>
    rcases List.mem_cons.1 h with rfl | h
    · exact size_withReply_pos k n
    · exact ih h

/-! ## Runs -/

/-- An exchange with a timetable goes on. -/
inductive Goes : Timetable × Exchange → Timetable × Exchange → Prop
  /-- The next message is published. -/
  | publish (x : Exchange) (m : Message) (plan : Timetable) :
    Goes ((x.now, m) :: plan, x) (plan, (x.publish m).1)
  /-- A task makes a step. -/
  | turn (x : Exchange) (plan : Timetable) (t : Task) (lasting : t.isLasting = true)
    (acts : (x.stepOf t).1.content ≠ x.content) : Goes (plan, x) (plan, (x.stepOf t).1)
  /-- The broker looks at its timers although commands wait. -/
  | timers (x : Exchange) (plan : Timetable) (acts : (x.fire 0).content ≠ x.content) :
    Goes (plan, x) (plan, x.fire 0)
  /-- Time goes on. -/
  | clock (x : Exchange) (plan : Timetable) (now : Nat) (later : x.now < now) (rests : x.Rests)
    (rings : ∀ t, x.Rings t → now ≤ t) (timely : ∀ p ∈ plan, now ≤ p.1) :
    Goes (plan, x) (plan, { x with now := now })

/-- However an exchange with a timetable goes on, it comes to this, and it does go on until
then. -/
inductive Inevitable (P : Exchange → Prop) : Timetable × Exchange → Prop
  | here (c : Timetable × Exchange) (holds : P c.2) : Inevitable P c
  | later (c : Timetable × Exchange) (goes : ∃ d, Goes c d)
    (all : ∀ d, Goes c d → Inevitable P d) : Inevitable P c

theorem Inevitable.mono {P Q : Exchange → Prop} {c : Timetable × Exchange} (h : Inevitable P c)
    (hpq : ∀ x, P x → Q x) : Inevitable Q c := by
  induction h with
  | here c holds => exact .here c (hpq _ holds)
  | later c goes _ ih => exact .later c goes ih

end Exchange

end DemandFlow
