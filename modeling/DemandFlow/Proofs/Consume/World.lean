import DemandFlow.Exchange.Consume
import DemandFlow.Proofs.Accounts.Queue
import DemandFlow.Proofs.Consume.Worker

/-
  The world of one continuous consumer: an exchange with nothing else on it, messages that are
  published and time that goes on at any moment, and tasks that make their steps in any order.
  The record keeps what was stored and what the consumer took in. `Follows` says how such a world
  stands for a flow, and that whoever has something to do stands in line for it.
-/

namespace DemandFlow

open Broker (Chore Command inboxName)

/-- The heartbeat of the options can be watched: three of them are a span. -/
def ConsumeOptions.Beats (o : ConsumeOptions) : Prop :=
  (o.heartbeat.times? Monitor.multiplier).isSome = true

/-! ## Worlds -/

/-- A task makes one step and leaves the line when it cannot go on. -/
def Exchange.turn (x : Exchange) (t : Task) : Exchange :=
  if (x.stepOf t).2 then (x.stepOf t).1
  else { (x.stepOf t).1 with ready := (x.stepOf t).1.ready.erase t }

/-- The frame that a task takes in with its next step. -/
def Exchange.reads? (x : Exchange) : Task → Option Frame
  | .worker i =>
    match x.subs[i]? with
    | none => none
    | some s =>
      if s.closed = false ∧ s.worker = .reading then
        ((x.feeds[s.feed]?).bind fun feed => feed.frames.pop?).map Prod.fst
      else none
  | .broker | .alarm _ | .farewell _ | .caller _ => none

/-- The message that a handler publishes in the next step of a task, as it will be stored. -/
def Exchange.replies? (x : Exchange) (t : Task) : Option Message :=
  match x.reads? t, t, x.transport with
  | some f, .worker i, .loopback l =>
    match (x.subs[i]?).map Subscription.purpose with
    | some (.continuous c) =>
      (c.handler.reply f).map fun m => m.withReply (Exchange.ackSubject l.nextSequence)
    | _ => none
  | _, _, _ => none

structure World where
  exchange : Exchange
  /-- All messages that were published, as they are stored. -/
  stored : List Message
  /-- All frames that the consumer took in. -/
  taken : List Frame

namespace World

/-- What can happen next. -/
inductive Move where
  | publish (m : Message)
  /-- Time goes on, and sleepers whose time has come wake. -/
  | clock (later : Nat)
  /-- A task that stands in line makes one step. -/
  | turn (t : Task)
  /-- The broker, when it stands in line, looks at its timers although commands wait. -/
  | timers

/-- A broker with nothing on it. -/
def empty (l : Broker.Limits) (keepsNotices : Bool) (queueCapacity : Nat) : World :=
  ⟨.start (.loopback (.start l true)) keepsNotices queueCapacity, [], []⟩

def next (w : World) : Move → World
  | .publish m =>
    ⟨(w.exchange.publish m).1,
      w.stored ++ [m.withReply (Exchange.ackSubject (w.exchange.publish m).2)], w.taken⟩
  | .clock later => ⟨w.exchange.ring (w.exchange.now + later), w.stored, w.taken⟩
  | .turn t =>
    if t ∈ w.exchange.ready then
      ⟨w.exchange.turn t, w.stored ++ (w.exchange.replies? t).toList,
        w.taken ++ (w.exchange.reads? t).toList⟩
    else w
  | .timers =>
    if .broker ∈ w.exchange.ready then ⟨w.exchange.fire 0, w.stored, w.taken⟩ else w

/-- The world after some moves. -/
def after (w : World) (ms : List Move) : World := ms.foldl next w

/-- A continuous consumer is opened. -/
def opened (o : ConsumeOptions) (h : Handler) (w : World) : World :=
  ⟨(w.exchange.openContinuous o h).1, w.stored, w.taken⟩

/-- A continuous consumer is opened on a broker with nothing else on it, after some moves in which
messages may have been published. -/
def start (l : Broker.Limits) (keepsNotices : Bool) (queueCapacity : Nat) (before : List Move)
    (o : ConsumeOptions) (h : Handler) : World :=
  ((empty l keepsNotices queueCapacity).after before).opened o h

/-! ## What can be seen of a world -/

/-- The messages with which the handler was called. -/
def called (w : World) : List Message := messagesOf w.taken

/-- The accounts of the consumer. -/
def demand (w : World) : Demand :=
  ((w.exchange.subs[0]?).map Subscription.demand).getD .none

def isActive (w : World) : Bool :=
  match (w.exchange.subs[0]?).map Subscription.purpose with
  | some (.continuous c) => decide (c.mode = .active)
  | _ => false

/-- The pulls that wait at the broker. -/
def waiting (w : World) : List Broker.WaitingPull :=
  match w.exchange.transport with
  | .loopback l => l.broker.waiting
  | .scripted _ => []

/-- The messages of the stream that were not handed out. -/
def unread (w : World) : List Message :=
  match w.exchange.transport with
  | .loopback l => l.broker.stream.toList.drop l.broker.cursor
  | .scripted _ => []

end World

/-! ## How a world stands for a flow -/

/-- The registration of the one inbox is in line, after some messages that were published before,
and nothing was sent to the inbox yet. -/
structure Registering (l : Loopback) (a : Flow) : Prop where
  inboxes : l.broker.inboxes = []
  waiting : a.waiting = []
  out : a.out = []
  commands : ∃ (ms : List Message) (rest : List Command),
    a.queue = ms.map Command.publish ++ rest ∧
      l.commands.toList = ms.map Command.publish ++ .register (inboxName 1) :: rest

/-- A broker and its commands stand for a flow: the one inbox is registered, or will be. -/
structure Linked (l : Loopback) (a : Flow) : Prop where
  registered : (l.broker.inboxes = [inboxName 1] ∧ l.commands.toList = a.queue) ∨ Registering l a
  stream : l.broker.stream.toList = a.given ++ a.unread
  cursor : l.broker.cursor = a.given.length
  waiting : l.broker.waiting = a.waiting
  agenda : l.broker.agenda =
    a.out.map (Chore.post (inboxName 1)) ++ if a.handing then [Chore.handOut] else []
  limits : l.broker.limits.Unlimited

/-- One feed and one subscription stand for a flow. -/
structure Solo (o : ConsumeOptions) (h : Handler) (c : Exchange.Core) (a : Flow) (l : Loopback)
    (feed : Feed) (s : Subscription) : Prop where
  transport : c.transport = .loopback l
  feeds : c.feeds = #[feed]
  subs : c.subs = #[s]
  callers : c.callers = []
  alive : l.alive = true
  held : l.held = true
  linked : Linked l a
  feedInbox : feed.inbox = inboxName 1
  reading : feed.reading = true
  writing : feed.writing = true
  reader : feed.reader = some 0
  capacity : 0 < feed.capacity
  frames : feed.frames.toList = a.frames
  inbox : s.inbox = inboxName 1
  feed : s.feed = 0
  opened : s.closed = false
  worker : s.worker = .reading
  purpose : ∃ n, s.purpose = .continuous { Continuous.start o h with handled := n }
  demand : s.demand = a.demand
  handled : c.handled.toList =
    ((messagesOf a.taken).filter fun m => (h.fails m).isNone).map fun m => (0, m)

/-- The broker has nothing to do, or is held up by a full feed. -/
def BrokerRests (l : Loopback) (feed : Feed) : Prop :=
  (l.broker.agenda = [] ∧ l.commands.toList = []) ∨ (l.broker.agenda ≠ [] ∧ feed.isFull = true)

/-- Only the crew stands in line or sleeps. -/
structure Crewed (x : Exchange) : Prop where
  foreground : x.foreground = none
  foregroundReady : x.foregroundReady = false
  crew : ∀ t ∈ x.ready, t ∈ Exchange.crew
  sleepers : ∀ e ∈ x.timers, e.task ∈ Exchange.crew

/-- Whoever of the crew has something to do stands in line. -/
structure Awake (x : Exchange) (l : Loopback) (feed : Feed) : Prop extends Crewed x where
  broker : .broker ∈ x.ready ∨ BrokerRests l feed
  worker : .worker 0 ∈ x.ready ∨ feed.frames.toList = []

structure Follows (o : ConsumeOptions) (h : Handler) (w : World) (a : Flow) (l : Loopback)
    (feed : Feed) (s : Subscription) : Prop where
  solo : Solo o h w.exchange.core a l feed s
  awake : Awake w.exchange l feed
  stored : w.stored = a.stored
  taken : w.taken = a.taken

/-! ## Small changes -/

section

variable {o : ConsumeOptions} {h : Handler} {c : Exchange.Core} {a : Flow} {l : Loopback}
  {feed : Feed} {s : Subscription} {x y : Exchange}

/-- The one feed is that of the one inbox. -/
theorem findIdx?_solo (hs : Solo o h c a l feed s) :
    (c.feeds.findIdx? fun f => f.inbox == inboxName 1) = some 0 := by
  rw [hs.feeds]
  have hb : (feed.inbox == inboxName 1) = true := by
    rw [hs.feedInbox]
    exact beq_self_eq_true _
  refine Array.findIdx?_eq_some_iff_getElem.2 ⟨Nat.zero_lt_one, hb, ?_⟩
  intro j hj
  exact absurd hj (Nat.not_lt_zero j)

/-- What is not seen by a flow may change in a subscription. -/
theorem solo_modifySub (hs : Solo o h c a l feed s) {g : Subscription → Subscription}
    (hg : (g s).inbox = s.inbox ∧ (g s).feed = s.feed ∧ (g s).closed = s.closed ∧
      (g s).worker = s.worker ∧ (g s).purpose = s.purpose ∧ (g s).demand = s.demand) :
    Solo o h { c with subs := c.subs.modify 0 g } a l feed (g s) := by
  obtain ⟨hi, hf, hc, hw, hp, hd⟩ := hg
  have hsub : c.subs.modify 0 g = #[g s] := by
    rw [hs.subs]
    rfl
  exact { hs with
    subs := hsub
    inbox := hi.trans hs.inbox
    feed := hf.trans hs.feed
    opened := hc.trans hs.opened
    worker := hw.trans hs.worker
    purpose := by rw [hp]; exact hs.purpose
    demand := hd.trans hs.demand }

theorem solo_now (hs : Solo o h c a l feed s) (now : Nat) :
    Solo o h { c with now := now } a l feed s := { hs with }

/-- The broker changes, and the flow with it. -/
theorem solo_setLoopback {b : Flow} {l' : Loopback} (hs : Solo o h c a l feed s)
    (hl : Linked l' b) (ha : l'.alive = l.alive) (hh : l'.held = l.held)
    (hf : b.frames = a.frames) (hd : b.demand = a.demand) (ht : b.taken = a.taken) :
    Solo o h { c with transport := .loopback l' } b l' feed s :=
  { hs with
    transport := rfl
    alive := ha.trans hs.alive
    held := hh.trans hs.held
    linked := hl
    frames := hs.frames.trans hf.symm
    demand := hs.demand.trans hd.symm
    handled := by rw [ht]; exact hs.handled }

theorem Crewed.stirred (hc : Crewed x) (hst : Exchange.Stirred x y) : Crewed y where
  foreground := hst.foreground.trans hc.foreground
  foregroundReady := hst.foregroundReady.trans hc.foregroundReady
  crew := fun t ht => (hst.woken t ht).elim (hc.crew t) id
  sleepers := fun e he => (hst.timers e he).elim (hc.sleepers e) id

theorem Crewed.erase (hc : Crewed x) (t : Task) :
    Crewed { x with ready := x.ready.erase t } :=
  { hc with crew := fun u hu => hc.crew u (List.mem_of_mem_erase hu) }

/-- Whoever stood in line still does; the rest has to be seen to. -/
theorem awake_stirred {l' : Loopback} {feed' : Feed} (ha : Awake x l feed)
    (hst : Exchange.Stirred x y) (hb : .broker ∈ y.ready ∨ BrokerRests l' feed')
    (hw : .worker 0 ∈ y.ready ∨ feed'.frames.toList = []) : Awake y l' feed' :=
  ⟨ha.toCrewed.stirred hst, hb, hw⟩

/-- A task leaves the line when there is nothing left for it to do. -/
theorem awake_erase (ha : Awake x l feed) {t : Task} (hb : t = .broker → BrokerRests l feed)
    (hw : t = .worker 0 → feed.frames.toList = []) :
    Awake { x with ready := x.ready.erase t } l feed := by
  refine ⟨ha.toCrewed.erase t, ?_, ?_⟩
  · by_cases ht : t = .broker
    · exact Or.inr (hb ht)
    · rcases ha.broker with hm | hm
      · exact Or.inl ((List.mem_erase_of_ne fun e => ht e.symm).2 hm)
      · exact Or.inr hm
  · by_cases ht : t = .worker 0
    · exact Or.inr (hw ht)
    · rcases ha.worker with hm | hm
      · exact Or.inl ((List.mem_erase_of_ne fun e => ht e.symm).2 hm)
      · exact Or.inr hm

end

end DemandFlow
