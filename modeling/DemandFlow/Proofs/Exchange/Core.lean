import DemandFlow.Proofs.Exchange.Views

/-
  The core of an exchange: its clock, transport, feeds, subscriptions, callers and what handlers
  took in. Log, counters, notices, the line of tasks and the timers stand outside. Here is what
  each small step on an exchange does to the core, most often nothing, so that no law about
  accounts has to look at bookkeeping.
-/

namespace DemandFlow.Exchange

/-- An exchange without its bookkeeping. -/
structure Core where
  now : Nat
  transport : Transport
  queueCapacity : Nat
  feeds : Array Feed
  subs : Array Subscription
  callers : List Caller
  handled : Array (Nat × Message)

def core (x : Exchange) : Core :=
  ⟨x.now, x.transport, x.queueCapacity, x.feeds, x.subs, x.callers, x.handled⟩

theorem skipsBooks_core : SkipsBooks core :=
  ⟨fun _ _ => rfl, fun _ _ => rfl, fun _ _ _ => rfl, fun _ _ => rfl⟩

variable (x : Exchange)

theorem subs_wake (t : Task) : (x.wake t).subs = x.subs :=
  congrArg Core.subs (skipsBooks_core.wake x t)

theorem subs_wakeAll (ts : List Task) : (x.wakeAll ts).subs = x.subs :=
  congrArg Core.subs (skipsBooks_core.wakeAll x ts)

theorem transport_wake (t : Task) : (x.wake t).transport = x.transport :=
  congrArg Core.transport (skipsBooks_core.wake x t)

theorem transport_wakeAll (ts : List Task) : (x.wakeAll ts).transport = x.transport :=
  congrArg Core.transport (skipsBooks_core.wakeAll x ts)

/-! ## Steps outside the core -/

@[simp] theorem core_note (e : Log.Entry) : (x.note e).core = x.core := rfl

@[simp] theorem core_count (f : Counters → Counters) : (x.count f).core = x.core := rfl

@[simp] theorem core_wake (t : Task) : (x.wake t).core = x.core := skipsBooks_core.wake x t

@[simp] theorem core_wakeIf (b : Bool) (t : Task) : (x.wakeIf b t).core = x.core :=
  skipsBooks_core.wakeIf x b t

@[simp] theorem core_wakeAll (ts : List Task) : (x.wakeAll ts).core = x.core :=
  skipsBooks_core.wakeAll x ts

@[simp] theorem core_wakeDrainers (i : Nat) : (x.wakeDrainers i).core = x.core := core_wakeAll x _

@[simp] theorem core_wakeLeavers (i : Nat) : (x.wakeLeavers i).core = x.core := core_wakeAll x _

@[simp] theorem core_wakeHeldUp : x.wakeHeldUp.core = x.core := core_wakeIf x _ _

@[simp] theorem core_keepTimer (t : Task) (due : Nat) : (x.keepTimer t due).core = x.core :=
  skipsBooks_core.keepTimer x t due

@[simp] theorem core_notify (n : Notice) : (x.notify n).core = x.core := by
  unfold notify
  split
  · rfl
  · split <;> rfl

@[simp] theorem core_noteAccount (f : Frame) (d : Demand) : (x.noteAccount f d).core = x.core :=
  skipsBooks_core.noteAccount x f d

@[simp] theorem core_countFrame (k : Intake) : (x.countFrame k).core = x.core :=
  skipsBooks_core.countFrame x k

@[simp] theorem core_noteCommand (c : Broker.Command) : (x.noteCommand c).core = x.core :=
  skipsBooks_core.noteCommand x c

/-! ## Steps on one part of the core -/

theorem core_modifyFeed (i : Nat) (f : Feed → Feed) :
    (x.modifyFeed i f).core = { x.core with feeds := x.core.feeds.modify i f } := rfl

theorem core_modifySub (i : Nat) (f : Subscription → Subscription) :
    (x.modifySub i f).core = { x.core with subs := x.core.subs.modify i f } := rfl

theorem core_addFeed (inbox : String) (capacity : Nat) (reader : Option Nat) :
    (x.addFeed inbox capacity reader).core =
      { x.core with feeds := x.core.feeds.push (.start inbox capacity reader) } := rfl

theorem core_pushSub (s : Subscription) :
    { x with subs := x.subs.push s }.core = { x.core with subs := x.core.subs.push s } := rfl

theorem core_setBroker (l : Loopback) (b : Broker.State) :
    (x.setBroker l b).core = { x.core with transport := .loopback { l with broker := b } } := rfl

/-- The subscriptions once a new caller has joined the line in which its activity reads. -/
def joined (a : Activity) (id : Nat) (ss : Array Subscription) : Array Subscription :=
  match sourceOf? a with
  | none => ss
  | some i => ss.modify i fun s => { s with readers := s.readers ++ [id] }

/-- A new caller joins the callers, and the line in which it reads. -/
theorem core_callBehind (a : Activity) : (x.callBehind a).1.core = { x.core with
    subs := joined a x.nextCaller x.core.subs
    callers := x.core.callers ++ [⟨x.nextCaller, a⟩] } := by
  unfold callBehind enroll joined
  rw [core_wake]
  dsimp only
  cases sourceOf? a <;> rfl

theorem core_setTracker (i : Nat) (t : Tracker) :
    (x.setTracker i t).core =
      { x.core with subs := x.core.subs.modify i fun s => { s with tracker := t } } := by
  unfold setTracker
  rw [core_wakeIf, core_modifySub]

/-- A command that is handed to a broker that is there stands behind all others. -/
theorem core_send {l : Loopback} (h : x.core.transport = .loopback l) (ha : l.alive = true)
    (c : Broker.Command) : (x.send c).2 = true ∧
      (x.send c).1.core =
        { x.core with transport := .loopback { l with commands := l.commands.push c } } := by
  have ht : x.transport = .loopback l := h
  unfold send
  rw [ht]
  dsimp only
  rw [if_pos ha]
  exact ⟨rfl, core_wake _ _⟩

theorem core_account (i : Nat) (s : Subscription) (f : Frame) :
    (x.account i s f).core = { x.core with
      subs := x.core.subs.modify i fun u =>
        { u with tracker := s.tracker.account x.core.now f } } := by
  unfold account
  dsimp only
  rw [core_countFrame, core_noteAccount, core_wakeDrainers, core_setTracker]
  rfl

/-! ## Steps on the transport -/

variable {x : Exchange} {l : Loopback}

theorem core_carry (h : x.core.transport = .loopback l) (ha : l.alive = true) (inbox : String)
    (r : PullRequest) : (x.carry inbox r).2 = .ok () ∧
      (x.carry inbox r).1.core = { x.core with
        transport := .loopback { l with commands := l.commands.push (.pull inbox r.onWire) } } := by
  have ht : x.transport = .loopback l := h
  obtain ⟨hs, hc⟩ := core_send
    (x := x.note (Journal.pullEncoded inbox (Pull.encode r).utf8ByteSize)) h ha
    (.pull inbox r.onWire)
  unfold carry
  rw [ht]
  dsimp only
  rw [hs]
  exact ⟨rfl, hc⟩

theorem core_publish (h : x.core.transport = .loopback l) (ha : l.alive = true) (m : Message) :
    (x.publish m).2 = l.nextSequence ∧
      (x.publish m).1.core = { x.core with
        transport := .loopback { l with
          nextSequence := l.nextSequence + 1
          commands := l.commands.push (.publish (m.withReply (ackSubject l.nextSequence))) } } := by
  have ht : x.transport = .loopback l := h
  have hc := (core_send
    (x := { x with transport := .loopback { l with nextSequence := l.nextSequence + 1 } })
    rfl ha (.publish (m.withReply (ackSubject l.nextSequence)))).2
  unfold publish
  rw [ht]
  exact ⟨rfl, hc⟩

/-- A request that goes out is added to the demand and stands behind all other commands. -/
theorem core_pull (h : x.core.transport = .loopback l) (ha : l.alive = true) {i : Nat}
    {s : Subscription} (hs : x.core.subs[i]? = some s) (hc : s.closed = false) {r : PullRequest}
    {t : Tracker} (ht : s.tracker.issue x.core.now r = some t) :
    (x.pull i r).2 = .ok () ∧
      (x.pull i r).1.core = { x.core with
        transport := .loopback { l with commands := l.commands.push (.pull s.inbox r.onWire) }
        subs := x.core.subs.modify i fun u => { u with tracker := t } } := by
  have hs' : x.subs[i]? = some s := hs
  have ht' : s.tracker.issue x.now r = some t := ht
  have hy : ((((x.setTracker i t).wakeDrainers i).note (Journal.pullStarted r t.demand)).note
      (Journal.publishingPull s.inbox r)).core =
        { x.core with subs := x.core.subs.modify i fun u => { u with tracker := t } } := by
    rw [core_note, core_note, core_wakeDrainers, core_setTracker]
  obtain ⟨hok, hcore⟩ := core_carry (l := l) (by rw [hy]; exact h) ha s.inbox r
  unfold pull
  rw [hs']
  dsimp only
  rw [if_neg (ne_true_of_eq_false hc), ht']
  dsimp only
  rw [← Prod.eta (carry _ _ _), hok]
  dsimp only
  refine ⟨rfl, ?_⟩
  rw [core_count, hcore, hy]

/-- A request whose alarm period passes the longest span is added to the demand all the same,
and nothing is sent. -/
theorem core_pull_overflow {i : Nat} {s : Subscription} (hs : x.core.subs[i]? = some s)
    (hc : s.closed = false) {r : PullRequest} (ht : s.tracker.issue x.core.now r = none) :
    (x.pull i r).1.core = { x.core with
      subs := x.core.subs.modify i fun u => { u with tracker := s.tracker.added r } } := by
  have hs' : x.subs[i]? = some s := hs
  have ht' : s.tracker.issue x.now r = none := ht
  unfold pull
  rw [hs']
  dsimp only
  rw [if_neg (ne_true_of_eq_false hc), ht']
  exact core_setTracker x i _

/-- A pull on a subscription that is closed or not there does nothing. -/
theorem core_pull_closed {i : Nat} (h : ∀ s, x.core.subs[i]? = some s → s.closed = true)
    (r : PullRequest) : (x.pull i r).1.core = x.core := by
  unfold pull
  cases hs : x.subs[i]? with
  | none => rfl
  | some s =>
    dsimp only
    rw [if_pos (h s hs)]

theorem core_subscribe (h : x.core.transport = .loopback l) (ha : l.alive = true)
    (reader : Option Nat) :
    (x.subscribe reader).2 = .ok (x.core.feeds.size, s!"_INBOX.loopback.{l.nextInbox}") ∧
      (x.subscribe reader).1.core = { x.core with
        transport := .loopback { l with
          nextInbox := l.nextInbox + 1
          commands := l.commands.push (.register s!"_INBOX.loopback.{l.nextInbox}") }
        feeds := x.core.feeds.push (.start s!"_INBOX.loopback.{l.nextInbox}"
          l.broker.limits.frameCapacity reader) } := by
  have ht : x.transport = .loopback l := h
  obtain ⟨hs, hc⟩ := core_send
    (x := { x with transport := .loopback { l with nextInbox := l.nextInbox + 1 } })
    rfl ha (.register s!"_INBOX.loopback.{l.nextInbox}")
  unfold subscribe
  rw [ht]
  dsimp only
  rw [hs]
  refine ⟨rfl, ?_⟩
  rw [if_pos rfl]
  show (addFeed _ _ _ _).core = _
  rw [core_addFeed, hc]
  rfl

theorem core_openSub (h : x.core.transport = .loopback l) (ha : l.alive = true) (p : Purpose) :
    (x.openSub p).2 = .ok x.core.subs.size ∧
      (x.openSub p).1.core = { x.core with
        transport := .loopback { l with
          nextInbox := l.nextInbox + 1
          commands := l.commands.push (.register s!"_INBOX.loopback.{l.nextInbox}") }
        feeds := x.core.feeds.push (.start s!"_INBOX.loopback.{l.nextInbox}"
          l.broker.limits.frameCapacity (some x.core.subs.size))
        subs := x.core.subs.push (.start s!"_INBOX.loopback.{l.nextInbox}" x.core.feeds.size
          x.core.now x.core.queueCapacity p) } := by
  obtain ⟨hok, hc⟩ := core_subscribe h ha (some x.core.subs.size)
  cases hy : x.subscribe (some x.core.subs.size) with
  | mk y res =>
    rw [hy] at hok hc
    dsimp only at hok hc
    subst hok
    have hy' : x.subscribe (some x.subs.size) =
      (y, .ok (x.core.feeds.size, s!"_INBOX.loopback.{l.nextInbox}")) := hy
    unfold openSub
    dsimp only
    rw [hy']
    dsimp only
    refine ⟨rfl, ?_⟩
    rw [core_note, core_wake, core_wake, core_pushSub, hc]
    have hn : y.now = x.core.now := congrArg Core.now hc
    have hq : y.queueCapacity = x.core.queueCapacity := congrArg Core.queueCapacity hc
    rw [hn, hq]

theorem openWith_eq {x y z : Exchange} {p : Purpose} {r : PullRequest} {i : Nat}
    (hopen : x.openSub p = (y, .ok i)) (hpull : y.pull i r = (z, .ok ())) :
    x.openWith p r = (z, .ok i) := by
  unfold openWith
  rw [hopen]
  dsimp only
  rw [hpull]

theorem modify_push_size {α : Type} (xs : Array α) (a : α) (f : α → α) :
    (xs.push a).modify xs.size f = xs.push (f a) := by
  refine Array.ext_getElem? fun j => ?_
  rw [Array.getElem?_modify, Array.getElem?_push, Array.getElem?_push]
  by_cases hj : j = xs.size
  · rw [if_pos hj.symm, if_pos hj, if_pos hj]
    rfl
  · rw [if_neg (Ne.symm hj), if_neg hj, if_neg hj]

/-- A subscription opens, and then its first request goes out. -/
theorem core_openWith (h : x.core.transport = .loopback l) (ha : l.alive = true) (p : Purpose)
    {r : PullRequest} {t : Tracker} (ht : (Tracker.start x.core.now).issue x.core.now r = some t) :
    ∃ y z, x.openSub p = (y, .ok x.core.subs.size) ∧
      y.pull x.core.subs.size r = (z, .ok ()) ∧
      z.core = { x.core with
        transport := .loopback { l with
          nextInbox := l.nextInbox + 1
          commands := (l.commands.push (.register s!"_INBOX.loopback.{l.nextInbox}")).push
            (.pull s!"_INBOX.loopback.{l.nextInbox}" r.onWire) }
        feeds := x.core.feeds.push (.start s!"_INBOX.loopback.{l.nextInbox}"
          l.broker.limits.frameCapacity (some x.core.subs.size))
        subs := x.core.subs.push { Subscription.start s!"_INBOX.loopback.{l.nextInbox}"
          x.core.feeds.size x.core.now x.core.queueCapacity p with tracker := t } } := by
  obtain ⟨hok, hc⟩ := core_openSub h ha p
  obtain ⟨y, hy⟩ : ∃ y, x.openSub p = (y, .ok x.core.subs.size) := ⟨_, Prod.ext rfl hok⟩
  rw [hy] at hc
  dsimp only at hc
  let s : Subscription := .start s!"_INBOX.loopback.{l.nextInbox}" x.core.feeds.size x.core.now
    x.core.queueCapacity p
  have hsub : y.core.subs[x.core.subs.size]? = some s := by
    rw [hc]
    exact Array.getElem?_push_size
  have hissue : s.tracker.issue y.core.now r = some t := by
    rw [hc]
    exact ht
  obtain ⟨hpull, hpulled⟩ := core_pull (x := y) (l := { l with
      nextInbox := l.nextInbox + 1
      commands := l.commands.push (.register s!"_INBOX.loopback.{l.nextInbox}") })
    (by rw [hc]) ha hsub rfl hissue
  obtain ⟨z, hz⟩ : ∃ z, y.pull x.core.subs.size r = (z, .ok ()) := ⟨_, Prod.ext rfl hpull⟩
  rw [hz] at hpulled
  refine ⟨y, z, hy, hz, ?_⟩
  dsimp only at hpulled
  rw [hpulled, hc]
  dsimp only
  rw [modify_push_size]
  rfl

/-- More is asked for if it is time to; a pull that fails may be logged. -/
theorem refill_cases (x : Exchange) (i : Nat) (c : Continuous) :
    x.refill i c = x ∧ (∀ s, x.subs[i]? = some s → c.refill? s.demand = none) ∨
    ∃ s r, x.subs[i]? = some s ∧ c.refill? s.demand = some r ∧
      (x.refill i c = ((x.note (Journal.refilling s.inbox r)).pull i r).1 ∨
        ∃ e, x.refill i c = ((x.note (Journal.refilling s.inbox r)).pull i r).1.note e) := by
  unfold refill
  cases hs : x.subs[i]? with
  | none => exact Or.inl ⟨rfl, fun _ hu => by cases hu⟩
  | some s =>
    dsimp only
    cases hr : c.refill? s.demand with
    | none => exact Or.inl ⟨rfl, fun u hu => Option.some.inj hu ▸ hr⟩
    | some r =>
      refine Or.inr ⟨s, r, rfl, hr, ?_⟩
      dsimp only
      split
      · rename_i hy
        exact Or.inl (congrArg Prod.fst hy).symm
      · rename_i hy
        exact Or.inr ⟨_, by rw [hy]⟩
      · rename_i hy
        exact Or.inl (congrArg Prod.fst hy).symm

/-! ## The end of a subscription -/

/-- Feeds of which the first one of an inbox has lost its writer. -/
def shutAt (inbox : String) (fs : Array Feed) : Array Feed :=
  match fs.findIdx? fun f => f.inbox == inbox with
  | none => fs
  | some i => fs.modify i Feed.shut

theorem core_closeFeed (x : Exchange) (inbox : String) :
    (x.closeFeed inbox).core = { x.core with feeds := shutAt inbox x.core.feeds } := by
  have hf : x.core.feeds = x.feeds := rfl
  unfold closeFeed feedOf? shutAt
  rw [hf]
  cases hi : x.feeds.findIdx? fun f => f.inbox == inbox with
  | none => rfl
  | some i =>
    dsimp only
    have hlt : i < x.feeds.size := (Array.findIdx?_eq_some_iff_findIdx_eq.1 hi).1
    rw [Array.getElem?_eq_getElem hlt]
    dsimp only
    rw [core_wakeAll, core_modifyFeed]
    rfl

theorem core_abandonFeed (x : Exchange) (i : Nat) :
    (x.abandonFeed i).core = { x.core with feeds := x.core.feeds.modify i Feed.abandon } := by
  unfold abandonFeed
  rw [core_wakeHeldUp, core_modifyFeed]

theorem core_release (h : x.core.transport = .loopback l) (ha : l.alive = true)
    (inbox : String) : (x.release inbox).core = { x.core with
      transport := .loopback { l with commands := l.commands.push (.unsubscribe inbox) } } := by
  have ht : x.transport = .loopback l := h
  unfold release
  rw [ht]
  exact (core_send x h ha _).2

/-! ## One subscription -/

theorem modify_id {α : Type} (xs : Array α) (i : Nat) : xs.modify i id = xs := by
  refine Array.ext_getElem? fun j => ?_
  rw [Array.getElem?_modify]
  split
  · cases xs[j]? <;> rfl
  · rfl

theorem modify_modify {α : Type} (xs : Array α) (i : Nat) (f g : α → α) :
    (xs.modify i f).modify i g = xs.modify i (g ∘ f) := by
  refine Array.ext_getElem? fun j => ?_
  rw [Array.getElem?_modify, Array.getElem?_modify, Array.getElem?_modify]
  split
  · cases xs[j]? <;> rfl
  · rfl

/-- What stands in an array after a change stood there before, or comes from what did. -/
theorem getElem?_modify_eq_some {α : Type} {xs : Array α} {i j : Nat} {f : α → α} {b : α}
    (h : (xs.modify i f)[j]? = some b) :
    (∃ a, i = j ∧ xs[j]? = some a ∧ f a = b) ∨ i ≠ j ∧ xs[j]? = some b := by
  rw [Array.getElem?_modify] at h
  split at h
  · rename_i hij
    obtain ⟨a, ha, he⟩ := Option.map_eq_some_iff.1 h
    exact Or.inl ⟨a, hij, ha, he⟩
  · rename_i hij
    exact Or.inr ⟨hij, h⟩

theorem modify_congr {α : Type} {xs : Array α} {i : Nat} {f g : α → α}
    (h : ∀ a, xs[i]? = some a → f a = g a) : xs.modify i f = xs.modify i g := by
  refine Array.ext_getElem? fun j => ?_
  rw [Array.getElem?_modify, Array.getElem?_modify]
  split
  · rename_i hij
    subst hij
    cases hx : xs[i]? with
    | none => rfl
    | some a => exact congrArg some (h a hx)
  · rfl

/-- Subscriptions of which one was shut down. -/
def shutDown (i : Nat) (ss : Array Subscription) : Array Subscription :=
  ss.modify i fun s => { s with
    closed := true
    tracker := { s.tracker with monitor := s.tracker.monitor.shutdown } }

theorem core_close (x : Exchange) (i : Nat) :
    (x.close i).core = { x.core with subs := shutDown i x.core.subs } := by
  have hx : x.core.subs = x.subs := rfl
  unfold close
  cases hs : x.subs[i]? with
  | none =>
    have hnone : ∀ s, x.core.subs[i]? ≠ some s := fun s h => by
      rw [hx, hs] at h
      cases h
    have hsame : shutDown i x.core.subs = x.core.subs :=
      (modify_congr (g := id) fun s h => absurd h (hnone s)).trans (modify_id _ _)
    rw [hsame]
  | some s =>
    dsimp only
    rw [core_setTracker, core_wake, core_modifySub]
    refine congrArg (fun ss => { x.core with subs := ss }) ?_
    dsimp only
    rw [modify_modify]
    refine modify_congr fun u hu => ?_
    cases hs.symm.trans hu
    rfl

/-- The owner of a subscription that is over tells the transport, unless that was done. -/
theorem core_unsubscribe (h : x.core.transport = .loopback l) (ha : l.alive = true) (i : Nat) :
    (x.unsubscribe i).core = { x.core with subs := shutDown i x.core.subs } ∨
      ∃ s, x.core.subs[i]? = some s ∧ (x.unsubscribe i).core = { x.core with
        transport := .loopback { l with commands := l.commands.push (.unsubscribe s.inbox) }
        subs := (shutDown i x.core.subs).modify i fun s => { s with claimed := true } } := by
  have hc := core_close x i
  have hsubs : (x.close i).subs = shutDown i x.core.subs := congrArg Core.subs hc
  unfold unsubscribe
  dsimp only
  cases hs : (x.close i).subs[i]? with
  | none => exact Or.inl hc
  | some s =>
    dsimp only
    split
    · exact Or.inl hc
    · rw [hsubs, shutDown, Array.getElem?_modify, if_pos rfl] at hs
      obtain ⟨u, hu, rfl⟩ := Option.map_eq_some_iff.1 hs
      refine Or.inr ⟨u, hu, ?_⟩
      have ht : ((x.close i).modifySub i fun s => { s with claimed := true }).core.transport =
          .loopback l := by
        rw [core_modifySub, hc]
        exact h
      rw [core_note, core_release ht ha, core_modifySub, hc]

/-- A worker that ends shuts its subscription down and drops its feed. -/
theorem core_endWorker (x : Exchange) (i : Nat) :
    (x.endWorker i).core = { x.core with subs := shutDown i x.core.subs } ∨
      ∃ s, x.core.subs[i]? = some s ∧ (x.endWorker i).core = { x.core with
        feeds := x.core.feeds.modify s.feed Feed.abandon
        subs := (shutDown i x.core.subs).modify i fun s => { s with worker := .ended } } := by
  have hc := core_close x i
  have hsubs : (x.close i).subs = shutDown i x.core.subs := congrArg Core.subs hc
  unfold endWorker
  dsimp only
  cases hs : (x.close i).subs[i]? with
  | none => exact Or.inl hc
  | some s =>
    rw [hsubs, shutDown, Array.getElem?_modify, if_pos rfl] at hs
    obtain ⟨u, hu, rfl⟩ := Option.map_eq_some_iff.1 hs
    refine Or.inr ⟨u, hu, ?_⟩
    dsimp only
    rw [core_wake, core_wakeLeavers, core_wakeAll, core_abandonFeed, core_note, core_modifySub, hc]

/-! ## The broker's turn -/

/-- A frame is posted, or dropped, or stands as long as the feed is full; where nobody reads
any more, the broker forgets the inbox and the feed is shut. -/
theorem core_post (x : Exchange) (l : Loopback) (b : Broker.State) (inbox : String) (f : Frame) :
    (x.post l b inbox f).1.core = { x.core with transport := .loopback { l with broker := b } } ∧
        (b.knows inbox = false ∨ x.feedOf? inbox = none) ∨
    (x.post l b inbox f).1.core = x.core ∧
        (∃ i feed, x.feedOf? inbox = some i ∧ x.core.feeds[i]? = some feed ∧
          feed.isFull = true) ∨
    (∃ i feed, b.knows inbox = true ∧ x.feedOf? inbox = some i ∧ x.core.feeds[i]? = some feed ∧
      feed.reading = true ∧ feed.isFull = false ∧
      (x.post l b inbox f).1.core = { x.core with
        transport := .loopback { l with broker := b }
        feeds := x.core.feeds.modify i (·.push f) }) ∨
    (∃ i feed, b.knows inbox = true ∧ x.feedOf? inbox = some i ∧ x.core.feeds[i]? = some feed ∧
      feed.reading = false ∧
      (x.post l b inbox f).1.core = { x.core with
        transport := .loopback { l with broker := b.forget inbox }
        feeds := shutAt inbox x.core.feeds }) := by
  unfold post
  cases hk : b.knows inbox with
  | false =>
    refine Or.inl ⟨?_, Or.inl rfl⟩
    rw [if_neg Bool.false_ne_true, core_note, core_setBroker]
  | true =>
    rw [if_pos rfl]
    unfold feedAt?
    cases hi : x.feedOf? inbox with
    | none => exact Or.inl ⟨rfl, Or.inr rfl⟩
    | some i =>
      have hlt : i < x.feeds.size := (Array.findIdx?_eq_some_iff_findIdx_eq.1 hi).1
      have hf : x.core.feeds[i]? = some x.feeds[i] := Array.getElem?_eq_getElem hlt
      rw [Option.bind_some, Array.getElem?_eq_getElem hlt]
      dsimp only [Option.map_some]
      refine Or.inr ?_
      cases hr : x.feeds[i].reading with
      | false =>
        refine Or.inr (Or.inr ⟨i, x.feeds[i], rfl, rfl, hf, hr, ?_⟩)
        rw [if_neg Bool.false_ne_true, core_closeFeed, core_note, core_setBroker]
      | true =>
        rw [if_pos rfl]
        cases hfull : x.feeds[i].isFull with
        | true => exact Or.inl ⟨rfl, i, x.feeds[i], rfl, hf, hfull⟩
        | false =>
          refine Or.inr (Or.inl ⟨i, x.feeds[i], rfl, rfl, hf, hr, hfull, ?_⟩)
          rw [if_neg Bool.false_ne_true, core_wakeAll, core_modifyFeed, core_setBroker]

/-- What a command does to the feeds: the end of a subscription shuts its feed. -/
def shutBy (fs : Array Feed) : Broker.Command → Array Feed
  | .unsubscribe inbox => shutAt inbox fs
  | .publish _ | .register _ | .pull _ _ | .inject _ _ | .stats _ | .pullLog _ => fs

/-- The broker has taken in a command, and nobody has been told. -/
theorem core_accepted (h : x.core.transport = .loopback l) (c : Broker.Command)
    (rest : Fifo Broker.Command) : ((x.noteCommand c).modifyLoopback fun l =>
      { l with commands := rest, broker := l.broker.accept (x.noteCommand c).now c }).core =
        { x.core with transport := .loopback { l with
            commands := rest
            broker := l.broker.accept x.core.now c } } := by
  have hc : (x.noteCommand c).core = x.core := core_noteCommand x c
  have ht : (x.noteCommand c).transport = .loopback l := (congrArg Core.transport hc).trans h
  have hn : (x.noteCommand c).now = x.core.now := congrArg Core.now hc
  unfold modifyLoopback
  rw [ht, hn, ← hc]
  rfl

theorem core_takeCommand (h : x.core.transport = .loopback l) {c : Broker.Command}
    (hs : ∀ asker, c ≠ .stats asker) (hl : ∀ asker, c ≠ .pullLog asker)
    (rest : Fifo Broker.Command) : (x.takeCommand c rest).core = { x.core with
      transport := .loopback { l with
        commands := rest
        broker := l.broker.accept x.core.now c }
      feeds := shutBy x.core.feeds c } := by
  have hy := core_accepted h c rest
  unfold takeCommand
  dsimp only
  cases c with
  | publish m => exact hy
  | register inbox => exact hy
  | pull inbox r => exact hy
  | unsubscribe inbox =>
    refine (core_closeFeed _ inbox).trans ?_
    rw [hy]
    rfl
  | inject inbox f => exact hy
  | stats asker => exact absurd rfl (hs asker)
  | pullLog asker => exact absurd rfl (hl asker)

theorem core_closeFeeds (fs : List Feed) (x : Exchange) : ∃ feeds,
    (fs.foldl (fun x f => x.closeFeed f.inbox) x).core = { x.core with feeds := feeds } := by
  induction fs generalizing x with
  | nil => exact ⟨x.core.feeds, rfl⟩
  | cons f fs ih =>
    obtain ⟨feeds, h⟩ := ih (x.closeFeed f.inbox)
    exact ⟨feeds, by rw [List.foldl_cons, h, core_closeFeed]⟩

/-- A broker that ends takes no more commands, and feeds are shut. -/
theorem core_endBroker (x : Exchange) (l : Loopback) : ∃ feeds, (x.endBroker l).core =
    { x.core with transport := .loopback { l with alive := false }, feeds := feeds } := by
  unfold endBroker
  dsimp only
  rw [← Array.foldl_toList]
  exact core_closeFeeds _ _

/-- A broker with nothing to do settles what is due or goes to sleep; it does not end while
somebody holds it. -/
theorem idle_cases (x : Exchange) (hh : l.held = true) :
    x.idle l = (x.setBroker l (l.broker.fireTimers x.core.now), true) ∨
    (∃ due, x.idle l = (x.setTimer .broker due, false)) ∨
    x.idle l = (x.clearTimer .broker, false) := by
  unfold idle
  cases l.broker.deadline with
  | none =>
    dsimp only
    rw [hh, Bool.true_or, if_pos rfl]
    exact Or.inr (Or.inr rfl)
  | some due =>
    dsimp only
    split
    · exact Or.inl rfl
    · rw [hh, Bool.true_or, if_pos rfl]
      exact Or.inr (Or.inl ⟨due, rfl⟩)

/-- The broker does a chore, posts, takes in a command or idles. -/
theorem brokerStep_cases (h : x.core.transport = .loopback l) (ha : l.alive = true) :
    (∃ b, l.broker.agenda ≠ [] ∧ l.broker.work x.core.now = (b, none) ∧
      x.brokerStep = (x.setBroker l b, true)) ∨
    (∃ b inbox f, l.broker.work x.core.now = (b, some (inbox, f)) ∧
      x.brokerStep = x.post l b inbox f) ∨
    (∃ c rest, l.broker.agenda = [] ∧ l.commands.pop? = some (c, rest) ∧
      x.brokerStep = (x.takeCommand c rest, true)) ∨
    (l.broker.agenda = [] ∧ l.commands.toList = [] ∧ x.brokerStep = x.idle l) := by
  have ht : x.transport = .loopback l := h
  have hn : x.now = x.core.now := rfl
  unfold brokerStep
  rw [ht]
  dsimp only
  rw [if_pos ha]
  cases hag : l.broker.agenda with
  | cons d ds =>
    dsimp only
    cases hw : l.broker.work x.core.now with
    | mk b o =>
      rw [hn, hw]
      cases o with
      | none => exact Or.inl ⟨b, List.cons_ne_nil _ _, rfl, rfl⟩
      | some q => exact Or.inr (Or.inl ⟨b, q.1, q.2, rfl, rfl⟩)
  | nil =>
    dsimp only
    cases hp : l.commands.pop? with
    | none => exact Or.inr (Or.inr (Or.inr ⟨rfl, Fifo.pop?_eq_none_iff.1 hp, rfl⟩))
    | some q => exact Or.inr (Or.inr (Or.inl ⟨q.1, q.2, rfl, rfl, rfl⟩))

/-! ## A caller's turn -/

section Caller

variable {id i : Nat}

/-- Whoever is done has no turn left. -/
theorem callerStep_of_none (h : (x.callers.find? fun c => c.id = id) = none) :
    x.callerStep id = (x, false) := by
  unfold callerStep
  rw [h]

theorem callerStep_of_nobody (h : x.callers = []) : x.callerStep id = (x, false) :=
  callerStep_of_none (by rw [h]; rfl)

theorem callerStep_of_fetch {mode : FetchMode}
    (h : (x.callers.find? fun c => c.id = id) = some ⟨id, .fetch i mode⟩) :
    x.callerStep id = x.fetchStep id i mode := by
  unfold callerStep
  rw [h]

theorem callerStep_of_drain {due : Nat}
    (h : (x.callers.find? fun c => c.id = id) = some ⟨id, .drain i due⟩) :
    x.callerStep id = x.drainStep id i due := by
  unfold callerStep
  rw [h]

theorem callerStep_of_leave {a : Answer}
    (h : (x.callers.find? fun c => c.id = id) = some ⟨id, .leave i a⟩) :
    x.callerStep id = x.leaveStep id i a := by
  unfold callerStep
  rw [h]

end Caller

end DemandFlow.Exchange
