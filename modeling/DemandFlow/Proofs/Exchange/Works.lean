import DemandFlow.Proofs.Demand.Withdrawal
import DemandFlow.Proofs.Exchange.Reached
import DemandFlow.Proofs.Lane.Moves

/-
  What one move can come to. `Works` counts as steps what can matter to the requests that go out,
  to those who wait, and to whoever stands in line: each of them does its waking at once, so that
  a law about who is woken needs one case for each. The requests that went out are kept beside the
  exchange. Log, counters, notices, feeds and handlers stand aside. A caller changes its activity
  only in a step of its own, and a broker works only in its own.
-/

namespace DemandFlow

open Broker (Command)

/-! ## Subscriptions and transports -/

/-- A subscription that has no other duties than before: the same demand, and nothing that was
begun or ended. -/
structure Subscription.Eases (s s' : Subscription) : Prop where
  inbox : s'.inbox = s.inbox
  demand : s'.tracker.demand = s.tracker.demand
  shut : s'.tracker.monitor.closed = s.tracker.monitor.closed
  closed : s'.closed = s.closed
  claimed : s'.claimed = s.claimed
  watching : s'.watching = s.watching
  ended : s'.worker = .ended → s.worker = .ended

/-- A request is handed to the transport by this command. -/
def Broker.Command.isPull : Command → Bool
  | .pull _ _ => true
  | .publish _ | .register _ | .unsubscribe _ | .inject _ _ | .stats _ | .pullLog _ => false

def Broker.Command.isRegister : Command → Bool
  | .register _ => true
  | .publish _ | .pull _ _ | .unsubscribe _ | .inject _ _ | .stats _ | .pullLog _ => false

/-- The one who gets an answer to this command. -/
def Broker.Command.asker? : Command → Option Nat
  | .stats asker | .pullLog asker => some asker
  | .publish _ | .register _ | .pull _ _ | .unsubscribe _ | .inject _ _ => none

/-- A transport that numbers, holds or fails otherwise, and is the same in all else. -/
def Transport.Adjusts : Transport → Transport → Prop
  | .loopback l, .loopback l' =>
    l'.broker = l.broker ∧ l'.commands = l.commands ∧ l'.alive = l.alive
  | .scripted s, .scripted s' => s'.pulls = s.pulls ∧ s'.released = s.released
  | _, _ => False

/-- A broker that took in no command, and ended if it did not go on. -/
structure Loopback.Serves (l l' : Loopback) : Prop where
  commands : l'.commands = l.commands
  received : l'.broker.received = l.broker.received
  knows : ∀ inbox, l'.broker.knows inbox = true → l.broker.knows inbox = true
  alive : l'.alive = true → l.alive = true

namespace Exchange

/-- The caller with a number. -/
def callerOf? (x : Exchange) (id : Nat) : Option Caller := x.callers.find? fun c => c.id = id

/-- A question of a caller waits for the broker. -/
def IsAsked (x : Exchange) (id : Nat) : Prop :=
  ∃ l, x.transport = .loopback l ∧ ∃ c ∈ l.commands.toList, c.asker? = some id

/-- Nothing happened but in the log, the counters, the notices, the feeds and the handlers. -/
structure Beside (x y : Exchange) : Prop where
  now : y.now = x.now
  transport : y.transport = x.transport
  subs : y.subs = x.subs
  callers : y.callers = x.callers
  nextCaller : y.nextCaller = x.nextCaller
  foreground : y.foreground = x.foreground
  ready : y.ready = x.ready
  timers : y.timers = x.timers
  answers : y.answers = x.answers

/-! ## Steps -/

/-- What an exchange can come to in a step of `front`, or of an owner, with the requests that
were handed to the transport. -/
inductive Works (front : Option Task) (x₀ : Exchange) :
    List (String × PullRequest) → Exchange → Prop where
  | refl : Works front x₀ [] x₀
  | opened (p : Purpose) : Works front x₀ [] (x₀.openSub p).1
  | aside {ps : List (String × PullRequest)} {x y : Exchange} (h : Works front x₀ ps x)
      (hy : Beside x y) : Works front x₀ ps y
  | woken {ps : List (String × PullRequest)} {x : Exchange} (h : Works front x₀ ps x) (t : Task) :
      Works front x₀ ps (x.wake t)
  | roused {ps : List (String × PullRequest)} {x : Exchange} (h : Works front x₀ ps x) (t : Task)
      (ht : ∀ id, t ≠ .caller id) : Works front x₀ ps (x.clearTimer t)
  | rested {ps : List (String × PullRequest)} {x : Exchange} (h : Works front x₀ ps x) (t : Task)
      (due : Nat) (ht : ∀ id, t ≠ .caller id) : Works front x₀ ps (x.setTimer t due)
  | waited {ps : List (String × PullRequest)} {x : Exchange} (h : Works front x₀ ps x) {c : Caller}
      (due : Nat) (hc : x.callerOf? c.id = some c)
      (hd : ∀ i d, c.activity = .drain i d → due = d) :
      Works front x₀ ps (x.keepTimer (.caller c.id) due)
  | eased {ps : List (String × PullRequest)} {x : Exchange} (h : Works front x₀ ps x) (i : Nat)
      (g : Subscription → Subscription) (hg : ∀ s : Subscription, s.Eases (g s))
      (hw : (∀ s, (g s).worker = s.worker) ∨ front = some (.worker i)) :
      Works front x₀ ps (x.modifySub i g)
  | retracked {ps : List (String × PullRequest)} {x : Exchange} (h : Works front x₀ ps x)
      {i : Nat} {s : Subscription} {t : Tracker} (hs : x.subs[i]? = some s)
      (ht : t.monitor.closed = s.tracker.monitor.closed) :
      Works front x₀ ps ((x.setTracker i t).wakeDrainers i)
  | added {ps : List (String × PullRequest)} {x : Exchange} (h : Works front x₀ ps x) {i : Nat}
      {s : Subscription} (hs : x.subs[i]? = some s) (r : PullRequest) :
      Works front x₀ ps (x.setTracker i (s.tracker.added r))
  | closed {ps : List (String × PullRequest)} {x : Exchange} (h : Works front x₀ ps x) (i : Nat) :
      Works front x₀ ps (x.close i)
  | unwatched {ps : List (String × PullRequest)} {x : Exchange} (h : Works front x₀ ps x)
      (i : Nat) : Works front x₀ ps (x.endAlarm i)
  | ended {ps : List (String × PullRequest)} {x : Exchange} (h : Works front x₀ ps x) (i : Nat) :
      Works front x₀ ps (x.endWorker i)
  | left {ps : List (String × PullRequest)} {x : Exchange} (h : Works front x₀ ps x) (i : Nat) :
      Works front x₀ ps (x.unsubscribe i)
  | dropped {ps : List (String × PullRequest)} {x : Exchange} (h : Works front x₀ ps x) (i : Nat)
      (inside : Bool) (hu : x.isUsed i = false ∨ x₀.subs.size ≤ i) :
      Works front x₀ ps (x.dropSub i inside)
  | finished {ps : List (String × PullRequest)} {x : Exchange} (h : Works front x₀ ps x) (id : Nat)
      (a : Answer) (hf : front = some (.caller id) ∨ x₀.IsAsked id) :
      Works front x₀ ps (x.finish id a)
  | turned {ps : List (String × PullRequest)} {x : Exchange} (h : Works front x₀ ps x) {id : Nat}
      (hf : front = some (.caller id)) (a : Activity) : Works front x₀ ps (x.setActivity id a)
  | called {ps : List (String × PullRequest)} {x : Exchange} (h : Works front x₀ ps x)
      (a : Activity) : Works front x₀ ps (x.callBehind a).1
  | adjusted {ps : List (String × PullRequest)} {x : Exchange} (h : Works front x₀ ps x)
      {t : Transport} (ht : x.transport.Adjusts t) : Works front x₀ ps { x with transport := t }
  | sent {ps : List (String × PullRequest)} {x : Exchange} (h : Works front x₀ ps x) {c : Command}
      (hp : c.isPull = false) (hr : c.isRegister = false) (ha : c.asker? = none) :
      Works front x₀ ps (x.send c).1
  | carried {ps : List (String × PullRequest)} {x : Exchange} (h : Works front x₀ ps x)
      {i : Nat} {s : Subscription} (hs : x.subs[i]? = some s) (r : PullRequest) :
      Works front x₀ (ps ++ if (x.carry s.inbox r).2 matches .ok () then [(s.inbox, r)] else [])
        (x.carry s.inbox r).1
  | released {ps : List (String × PullRequest)} {x : Exchange} (h : Works front x₀ ps x)
      (inbox : String) : Works front x₀ ps (x.release inbox)
  | served {ps : List (String × PullRequest)} {x : Exchange} (h : Works front x₀ ps x)
      (hf : front = some .broker) {l l' : Loopback} (hl : x.transport = .loopback l)
      (hs : l.Serves l') : Works front x₀ ps { x with transport := .loopback l' }
  | accepted {ps : List (String × PullRequest)} {x : Exchange} (h : Works front x₀ ps x)
      (hf : front = some .broker) {l : Loopback} (hl : x.transport = .loopback l) {c : Command}
      {rest : Fifo Command} (hp : l.commands.pop? = some (c, rest)) :
      Works front x₀ ps { x with transport := .loopback { l with
        commands := rest, broker := l.broker.accept x.now c } }

variable {front : Option Task} {x₀ x y : Exchange} {ps : List (String × PullRequest)}

/-! ## Bookkeeping -/

theorem beside_note (x : Exchange) (e : Log.Entry) : Beside x (x.note e) :=
  ⟨rfl, rfl, rfl, rfl, rfl, rfl, rfl, rfl, rfl⟩

theorem Beside.trans {z : Exchange} (h : Beside x y) (h' : Beside y z) : Beside x z :=
  ⟨h'.now.trans h.now, h'.transport.trans h.transport, h'.subs.trans h.subs,
    h'.callers.trans h.callers, h'.nextCaller.trans h.nextCaller,
    h'.foreground.trans h.foreground, h'.ready.trans h.ready, h'.timers.trans h.timers,
    h'.answers.trans h.answers⟩

theorem beside_refl (x : Exchange) : Beside x x := ⟨rfl, rfl, rfl, rfl, rfl, rfl, rfl, rfl, rfl⟩

theorem beside_noteIf (x : Exchange) (b : Bool) (e : Log.Entry) : Beside x (x.noteIf b e) := by
  cases b with
  | true => exact beside_note x e
  | false => exact beside_refl x

theorem beside_foldl_note (es : List Log.Entry) (x : Exchange) : Beside x (es.foldl note x) := by
  induction es generalizing x with
  | nil => exact beside_refl x
  | cons e es ih => exact (beside_note x e).trans (ih (x.note e))

theorem beside_notify (x : Exchange) (n : Notice) : Beside x (x.notify n) := by
  unfold notify
  split
  · exact ⟨rfl, rfl, rfl, rfl, rfl, rfl, rfl, rfl, rfl⟩
  · cases n <;> exact beside_note x _

theorem beside_noteAccount (x : Exchange) (f : Frame) (d : Demand) :
    Beside x (x.noteAccount f d) := by
  unfold noteAccount
  cases f with
  | message m => exact (beside_noteIf x _ _).trans (beside_note _ _)
  | status s =>
    dsimp only
    split
    · exact beside_note x _
    · exact (beside_noteIf x _ _).trans (beside_note _ _)

theorem beside_countFrame (x : Exchange) (k : Intake) : Beside x (x.countFrame k) := by
  cases k <;> exact ⟨rfl, rfl, rfl, rfl, rfl, rfl, rfl, rfl, rfl⟩

theorem beside_noteCommand (x : Exchange) (c : Command) : Beside x (x.noteCommand c) := by
  unfold noteCommand
  split
  · exact beside_foldl_note _ x
  · exact beside_refl x

theorem beside_modifyFeed (x : Exchange) (i : Nat) (f : Feed → Feed) :
    Beside x (x.modifyFeed i f) := ⟨rfl, rfl, rfl, rfl, rfl, rfl, rfl, rfl, rfl⟩

namespace Works

theorem note (h : Works front x₀ ps x) (e : Log.Entry) : Works front x₀ ps (x.note e) :=
  h.aside (beside_note x e)

theorem notify (h : Works front x₀ ps x) (n : Notice) : Works front x₀ ps (x.notify n) :=
  h.aside (beside_notify x n)

theorem wakeIf (h : Works front x₀ ps x) (b : Bool) (t : Task) :
    Works front x₀ ps (x.wakeIf b t) := by
  cases b with
  | true => exact h.woken t
  | false => exact h

theorem wakeAll (h : Works front x₀ ps x) (ts : List Task) : Works front x₀ ps (x.wakeAll ts) := by
  unfold Exchange.wakeAll
  induction ts generalizing x with
  | nil => exact h
  | cons t ts ih => exact ih (h.woken t)

theorem closeFeed (h : Works front x₀ ps x) (inbox : String) :
    Works front x₀ ps (x.closeFeed inbox) := by
  unfold Exchange.closeFeed
  split
  · exact h
  · split
    · exact h
    · exact (h.aside (beside_modifyFeed x _ _)).wakeAll _

theorem popped (h : Works front x₀ ps x) (i : Nat) (rest : Fifo Frame) :
    Works front x₀ ps (x.popped i rest) :=
  (h.aside (beside_modifyFeed x _ _)).wakeIf _ _

/-- A command that neither asks for messages nor registers. -/
theorem publish (h : Works front x₀ ps x) (m : Message) :
    Works front x₀ ps (x.publish m).1 := by
  unfold Exchange.publish
  split
  · rename_i l hl
    refine sent (h.adjusted (t := .loopback { l with nextSequence := l.nextSequence + 1 }) ?_)
      rfl rfl rfl
    rw [hl]
    exact ⟨rfl, rfl, rfl⟩
  · exact h

/-! ## Pulls -/

theorem closed_of_issue {now : Nat} {r : PullRequest} {t u : Tracker}
    (h : t.issue now r = some u) : u.monitor.closed = t.monitor.closed :=
  (Tracker.issue_eq_some h).2.2.1

theorem closed_cancel (t : Tracker) (r : PullRequest) :
    (t.cancel r).monitor.closed = t.monitor.closed := by
  rcases Tracker.cancel_disarm_or r t with h | h
  · rw [h]
  · rw [h]
    rfl

theorem subs_retracked (x : Exchange) (i : Nat) (t : Tracker) :
    ((x.setTracker i t).wakeDrainers i).subs =
      x.subs.modify i fun s => { s with tracker := t } :=
  (congrArg Core.subs (core_wakeDrainers _ _)).trans (congrArg Core.subs (core_setTracker x i t))

/-- A pull on an open subscription hands its request to the transport, unless that fails. -/
theorem pull (h : Works front x₀ ps x) (i : Nat) (r : PullRequest) :
    ∃ qs, (qs = [] ∨ ∃ s, x.subs[i]? = some s ∧ s.closed = false ∧ qs = [(s.inbox, r)]) ∧
      Works front x₀ (ps ++ qs) (x.pull i r).1 := by
  unfold Exchange.pull
  cases hs : x.subs[i]? with
  | none => exact ⟨[], Or.inl rfl, (List.append_nil ps).symm ▸ h⟩
  | some s =>
    dsimp only
    split
    · exact ⟨[], Or.inl rfl, (List.append_nil ps).symm ▸ h⟩
    · rename_i hc
      cases ht : s.tracker.issue x.now r with
      | none => exact ⟨[], Or.inl rfl, (List.append_nil ps).symm ▸ h.added hs r⟩
      | some t =>
        dsimp only
        have hstarted := (h.retracked hs (closed_of_issue ht)).note (Journal.pullStarted r t.demand)
        have hz := hstarted.note (Journal.publishingPull s.inbox r)
        have hsub : ((((x.setTracker i t).wakeDrainers i).note
            (Journal.pullStarted r t.demand)).note (Journal.publishingPull s.inbox r)).subs[i]? =
              some { s with tracker := t } := by
          show ((x.setTracker i t).wakeDrainers i).subs[i]? = _
          rw [subs_retracked, Array.getElem?_modify, if_pos rfl, hs]
          rfl
        have hcarry := hz.carried hsub r
        have hsubs := subs_carry ((((x.setTracker i t).wakeDrainers i).note
          (Journal.pullStarted r t.demand)).note (Journal.publishingPull s.inbox r)) s.inbox r
        rw [← hsubs] at hsub
        dsimp only at hcarry
        split
        · rename_i z hz'
          rw [hz'] at hcarry
          refine ⟨[(s.inbox, r)], Or.inr ⟨s, rfl, by simpa using hc, rfl⟩, ?_⟩
          exact hcarry.aside ⟨rfl, rfl, rfl, rfl, rfl, rfl, rfl, rfl, rfl⟩
        · rename_i z e hz'
          rw [hz'] at hcarry hsub
          refine ⟨[], Or.inl rfl, ?_⟩
          exact ((hcarry.retracked hsub (closed_cancel t r)).note _).note _

end Works

end Exchange

end DemandFlow
