import DemandFlow.Proofs.Accounts.Balance
import DemandFlow.Proofs.Accounts.Queue
import DemandFlow.Proofs.Exchange.Moves

/-
  Runs of any number of subscriptions on one broker, in which every order of moves is allowed,
  and what all of them keep: inboxes have their numbered names and their feeds, requests stand
  behind the registration of their inbox, and the accounts of each subscription that is not over
  are balanced against what is on its way.
-/

namespace DemandFlow.Accounts

open Broker (Command Live Lined inboxName asked carried)
open Exchange (Core shutAt shutDown)

/-- What can happen next. -/
inductive Move where
  /-- A subscription is opened. -/
  | opened (p : Purpose)
  | pull (sub : Nat) (r : PullRequest)
  | publish (m : Message)
  /-- The broker does its next chore or takes in its next command. -/
  | broker
  /-- The broker looks at its timers after some time. -/
  | timers (later : Nat)
  /-- The worker of a subscription manages its next frame. -/
  | manage (sub : Nat)
  | unsubscribe (sub : Nat)
  /-- The worker of a subscription ends and drops its feed. -/
  | leave (sub : Nat)

/-- An exchange with the requests that were added to demand, the latest first, each with the
number of its subscription. -/
structure Run where
  exchange : Exchange
  pulled : List (Nat × PullRequest)

/-- Whether a subscription is there and not shut down. -/
def isOpen (x : Exchange) (i : Nat) : Bool := (x.subs[i]?).any fun s => !s.closed

namespace Run

def start (l : Broker.Limits) (keepsNotices : Bool) (queueCapacity : Nat) : Run :=
  ⟨.start (.loopback (.start l true)) keepsNotices queueCapacity, []⟩

def next (w : Run) : Move → Run
  | .opened p => ⟨(w.exchange.openSub p).1, w.pulled⟩
  | .pull i r =>
    ⟨(w.exchange.pull i r).1, if isOpen w.exchange i then (i, r) :: w.pulled else w.pulled⟩
  | .publish m => ⟨(w.exchange.publish m).1, w.pulled⟩
  | .broker => ⟨w.exchange.brokerStep.1, w.pulled⟩
  | .timers later => ⟨w.exchange.fire later, w.pulled⟩
  | .manage i => ⟨w.exchange.manage i, w.pulled⟩
  | .unsubscribe i => ⟨w.exchange.unsubscribe i, w.pulled⟩
  | .leave i => ⟨w.exchange.endWorker i, w.pulled⟩

/-- The run after some moves. -/
def after (w : Run) (ms : List Move) : Run := ms.foldl next w

end Run

/-! ## What a run keeps -/

/-- The requests of one subscription. -/
def requestsOf (i : Nat) (pulled : List (Nat × PullRequest)) : List PullRequest :=
  (pulled.filter fun p => p.1 = i).map Prod.snd

/-- What is on its way to an inbox: asked for, owed, or carried by the frames of its feed. -/
def onWay (inbox : String) (l : Loopback) (f : Feed) : Nat :=
  asked inbox l.commands.toList + l.broker.owed inbox + carried f.frames.toList

/-- Inboxes, feeds and subscriptions go together, and commands stand in order. -/
structure Wired (c : Core) (l : Loopback) : Prop where
  transport : c.transport = .loopback l
  alive : l.alive = true
  held : l.held = true
  next : l.nextInbox = c.subs.size + 1
  sizes : c.feeds.size = c.subs.size
  feeds : ∀ (i : Nat) (f : Feed), c.feeds[i]? = some f →
    f.inbox = inboxName (i + 1) ∧ ∀ a ∈ f.frames.toList, a.Honest
  subs : ∀ (i : Nat) (s : Subscription), c.subs[i]? = some s →
    s.feed = i ∧ s.inbox = inboxName (i + 1)
  lined : Lined (c.subs.size + 1) l.broker l.commands.toList
  sound : l.broker.Sound

/-- A law about demand beside what is on its way holds of every subscription that is not over,
and of those that are still to come. -/
structure Keeps (P : Nat → Demand → Nat → Prop) (c : Core) (l : Loopback) : Prop
    extends Wired c l where
  fresh : ∀ i, c.subs.size ≤ i → P i .none 0
  kept : ∀ (i : Nat) (s : Subscription) (f : Feed), c.subs[i]? = some s → c.feeds[i]? = some f →
    Live s.inbox l.broker l.commands.toList → f.reading = true →
      P i s.demand (onWay s.inbox l f)

/-- Subscriptions with the same inboxes and feeds. -/
def Placed (ss ss' : Array Subscription) : Prop :=
  ss'.size = ss.size ∧ ∀ (i : Nat) (s' : Subscription), ss'[i]? = some s' →
    ∃ s : Subscription, ss[i]? = some s ∧ s'.inbox = s.inbox ∧ s'.feed = s.feed

/-- Subscriptions that differ in nothing that the accounts look at. -/
def Alike (ss ss' : Array Subscription) : Prop :=
  ss'.size = ss.size ∧ ∀ (i : Nat) (s' : Subscription), ss'[i]? = some s' →
    ∃ s : Subscription, ss[i]? = some s ∧ s'.inbox = s.inbox ∧ s'.feed = s.feed ∧
      s'.demand = s.demand

/-- Feeds of the same inboxes into which only honest frames came. -/
def Continued (fs fs' : Array Feed) : Prop :=
  fs'.size = fs.size ∧ ∀ (i : Nat) (f' : Feed), fs'[i]? = some f' →
    ∃ f : Feed, fs[i]? = some f ∧ f'.inbox = f.inbox ∧
      ∀ a ∈ f'.frames.toList, a ∈ f.frames.toList ∨ a.Honest

theorem alike_refl (ss : Array Subscription) : Alike ss ss :=
  ⟨rfl, fun _ s h => ⟨s, h, rfl, rfl, rfl⟩⟩

theorem placed_of_alike {ss ss' : Array Subscription} (h : Alike ss ss') : Placed ss ss' := by
  refine ⟨h.1, fun i s' hs' => ?_⟩
  obtain ⟨s, hs, hi, hf, _⟩ := h.2 i s' hs'
  exact ⟨s, hs, hi, hf⟩

theorem placed_refl (ss : Array Subscription) : Placed ss ss := placed_of_alike (alike_refl ss)

theorem placed_modify (ss : Array Subscription) (i : Nat) {g : Subscription → Subscription}
    (hg : ∀ s, (g s).inbox = s.inbox ∧ (g s).feed = s.feed) : Placed ss (ss.modify i g) := by
  refine ⟨Array.size_modify, ?_⟩
  intro j s' hs'
  rcases Exchange.getElem?_modify_eq_some hs' with ⟨s, _, hs, rfl⟩ | ⟨_, hs⟩
  · exact ⟨s, hs, (hg s).1, (hg s).2⟩
  · exact ⟨s', hs, rfl, rfl⟩

theorem continued_refl (fs : Array Feed) : Continued fs fs :=
  ⟨rfl, fun _ f h => ⟨f, h, rfl, fun _ ha => Or.inl ha⟩⟩

theorem alike_modify {ss ss' : Array Subscription} (h : Alike ss ss') (i : Nat)
    {g : Subscription → Subscription}
    (hg : ∀ s, (g s).inbox = s.inbox ∧ (g s).feed = s.feed ∧ (g s).demand = s.demand) :
    Alike ss (ss'.modify i g) := by
  refine ⟨Array.size_modify.trans h.1, ?_⟩
  intro j s' hs'
  rcases Exchange.getElem?_modify_eq_some hs' with ⟨u, _, hu, rfl⟩ | ⟨_, hu⟩
  · obtain ⟨s, hs, hi, hf, hd⟩ := h.2 j u hu
    obtain ⟨gi, gf, gd⟩ := hg u
    exact ⟨s, hs, gi.trans hi, gf.trans hf, gd.trans hd⟩
  · exact h.2 j s' hu

theorem alike_shutDown (i : Nat) (ss : Array Subscription) : Alike ss (shutDown i ss) :=
  alike_modify (alike_refl ss) i fun _ => ⟨rfl, rfl, rfl⟩

theorem getElem?_shutAt {inbox : String} {fs : Array Feed} {i : Nat} {f' : Feed}
    (h : (shutAt inbox fs)[i]? = some f') :
    ∃ f : Feed, fs[i]? = some f ∧ (f' = f ∨ f' = f.shut) := by
  unfold shutAt at h
  split at h
  · exact ⟨f', h, Or.inl rfl⟩
  · rcases Exchange.getElem?_modify_eq_some h with ⟨f, _, hf, rfl⟩ | ⟨_, hf⟩
    · exact ⟨f, hf, Or.inr rfl⟩
    · exact ⟨f', hf, Or.inl rfl⟩

theorem continued_shutAt (inbox : String) (fs : Array Feed) :
    Continued fs (shutAt inbox fs) := by
  refine ⟨?_, ?_⟩
  · unfold shutAt
    split
    · rfl
    · exact Array.size_modify
  · intro i f' h
    obtain ⟨f, hf, he⟩ := getElem?_shutAt h
    rcases he with rfl | rfl
    · exact ⟨f', hf, rfl, fun _ ha => Or.inl ha⟩
    · exact ⟨f, hf, rfl, fun _ ha => Or.inl ha⟩

theorem continued_modify (fs : Array Feed) (i : Nat) {g : Feed → Feed}
    (hg : ∀ f, fs[i]? = some f → (g f).inbox = f.inbox ∧
      ∀ a ∈ (g f).frames.toList, a ∈ f.frames.toList ∨ a.Honest) :
    Continued fs (fs.modify i g) := by
  refine ⟨Array.size_modify, ?_⟩
  intro j f' h
  rcases Exchange.getElem?_modify_eq_some h with ⟨f, rfl, hf, rfl⟩ | ⟨_, hf⟩
  · obtain ⟨hi, ha⟩ := hg f hf
    exact ⟨f, hf, hi, ha⟩
  · exact ⟨f', hf, rfl, fun _ ha => Or.inl ha⟩

/-- Wires hold as long as names stay, commands stay in order and frames stay honest. -/
theorem wired_mono {c c' : Core} {l l' : Loopback} (h : Wired c l)
    (ht : c'.transport = .loopback l') (ha : l'.alive = l.alive) (hh : l'.held = l.held)
    (hn : l'.nextInbox = l.nextInbox) (hs : Placed c.subs c'.subs)
    (hf : Continued c.feeds c'.feeds)
    (hl : Lined (c.subs.size + 1) l'.broker l'.commands.toList) (hsd : l'.broker.Sound) :
    Wired c' l' := by
  refine ⟨ht, ha.trans h.alive, hh.trans h.held, ?_, ?_, ?_, ?_, ?_, hsd⟩
  · rw [hn, h.next, hs.1]
  · rw [hf.1, h.sizes, hs.1]
  · intro i f' hf'
    obtain ⟨f, hfi, hi, hfr⟩ := hf.2 i f' hf'
    obtain ⟨hin, hho⟩ := h.feeds i f hfi
    refine ⟨hi.trans hin, fun a ha => ?_⟩
    rcases hfr a ha with ha | ha
    · exact hho a ha
    · exact ha
  · intro i s' hs'
    obtain ⟨s, hsi, hi, hfd⟩ := hs.2 i s' hs'
    obtain ⟨h1, h2⟩ := h.subs i s hsi
    exact ⟨hfd.trans h1, hi.trans h2⟩
  · rw [hs.1]
    exact hl

/-- A law is kept where nothing moves but what is on its way, and its sum stays. -/
theorem keeps_carry {P : Nat → Demand → Nat → Prop} {c c' : Core} {l l' : Loopback}
    (h : Keeps P c l) (hw : Wired c' l') (hs : Alike c.subs c'.subs)
    (hb : ∀ (i : Nat) (s : Subscription) (f' : Feed), c.subs[i]? = some s → c'.feeds[i]? = some f' →
      Live s.inbox l'.broker l'.commands.toList → f'.reading = true →
        ∃ f : Feed, c.feeds[i]? = some f ∧ Live s.inbox l.broker l.commands.toList ∧
          f.reading = true ∧ onWay s.inbox l' f' = onWay s.inbox l f) : Keeps P c' l' := by
  refine ⟨hw, ?_, ?_⟩
  · intro i hi
    rw [hs.1] at hi
    exact h.fresh i hi
  · intro i s' f' hs' hf' hl hr
    obtain ⟨s, hsi, hin, _, hd⟩ := hs.2 i s' hs'
    rw [hin] at hl ⊢
    obtain ⟨f, hf, hlive, hread, he⟩ := hb i s f' hsi hf' hl hr
    rw [hd, he]
    exact h.kept i s f hsi hf hlive hread

/-! ## What is on its way -/

/-- A command that joins the line brings what it asks for. -/
theorem onWay_send (inbox : String) (l : Loopback) (f : Feed) (d : Command) (k n : Nat) :
    onWay inbox { l with
        nextInbox := k
        nextSequence := n
        commands := l.commands.push d } f = onWay inbox l f + d.asks inbox := by
  unfold onWay
  dsimp only
  rw [Fifo.toList_push, Broker.asked_append, Broker.asked_cons]
  show _ + (_ + 0) + _ + _ = _
  omega

/-- A frame that goes into the feed brings what it carries. -/
theorem onWay_push (inbox : String) (l : Loopback) (f : Feed) (a : Frame) :
    onWay inbox l (f.push a) = onWay inbox l f + a.weight := by
  unfold onWay
  rw [Feed.toList_push, Broker.carried_append, Broker.carried_cons]
  show _ + (_ + (_ + 0)) = _
  omega

/-- A frame that is taken from the feed takes with it what it carries. -/
theorem onWay_pop {f : Feed} {a : Frame} {rest : Fifo Frame}
    (h : f.frames.toList = a :: rest.toList) (inbox : String) (l : Loopback) :
    onWay inbox l f = a.weight + onWay inbox l { f with frames := rest } := by
  unfold onWay
  dsimp only
  rw [h, Broker.carried_cons]
  omega

/-! ## Requests of one subscription -/

theorem requestsOf_cons_self (i : Nat) (r : PullRequest) (pulled : List (Nat × PullRequest)) :
    requestsOf i ((i, r) :: pulled) = r :: requestsOf i pulled := by
  unfold requestsOf
  rw [List.filter_cons_of_pos (by simp)]
  rfl

theorem requestsOf_cons_other {i j : Nat} (h : j ≠ i) (r : PullRequest)
    (pulled : List (Nat × PullRequest)) :
    requestsOf i ((j, r) :: pulled) = requestsOf i pulled := by
  unfold requestsOf
  rw [List.filter_cons_of_neg (by simpa using h)]

end DemandFlow.Accounts
