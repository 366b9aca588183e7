import DemandFlow.Proofs.Consume.Serve
import DemandFlow.Proofs.Fetch.Descent
import DemandFlow.Proofs.Fetch.Schedule
import DemandFlow.Proofs.Lane.Work

/-
  How an exchange hosts an errand: its broker, one feed, one subscription and one caller stand
  for it, and nobody else has anything to do. Each turn of the broker is one step of the errand,
  or the broker has nothing to do.
-/

namespace DemandFlow

open Broker (Chore Command WaitingPull weigh publishedBy)

/-! ## What a fetch counts -/

/-- The state of a fetch with these options that has given its caller these messages. Without a
byte budget its bytes do not matter. -/
structure Fetch.Counts (o : FetchOptions) (got : List Message) (finished : Bool) (f : Fetch) :
    Prop where
  maxMessages : f.maxMessages = o.maxMessages
  maxBytes : f.maxBytes = o.maxBytes
  messages : f.messages = got.length
  bytes : 0 < o.maxBytes → f.bytes = weigh got
  finished : f.finished = finished

namespace Fetch

variable {o : FetchOptions} {got : List Message} {b : Bool} {f : Fetch}

theorem counts_start (o : FetchOptions) : Counts o [] false (.start o) :=
  ⟨rfl, rfl, rfl, fun _ => rfl, rfl⟩

theorem Counts.finish (h : Counts o got b f) : Counts o got true f.finish :=
  ⟨h.maxMessages, h.maxBytes, h.messages, h.bytes, rfl⟩

/-- Bytes are counted exactly as long as they fit a word. -/
theorem Counts.receive (h : Counts o got b f) {m : Message}
    (hm : 0 < o.maxBytes → weigh got + m.size ≤ Count.top) :
    Counts o (got ++ [m]) b (f.receive m) := by
  refine ⟨h.maxMessages, h.maxBytes, ?_, fun hb => ?_, h.finished⟩
  · show f.messages + 1 = _
    rw [h.messages, List.length_append, List.length_singleton]
  · show Count.add f.bytes m.size = _
    rw [h.bytes hb, Count.add_of_le (hm hb), Broker.weigh_snoc]

theorem Counts.isFull_iff (h : Counts o got b f) : f.isFull = true ↔ o.Full got := by
  unfold isFull FetchOptions.Full
  rw [Bool.or_eq_true, Bool.and_eq_true, decide_eq_true_eq, decide_eq_true_eq, decide_eq_true_eq,
    h.maxMessages, h.maxBytes, h.messages]
  exact or_congr_right (and_congr_right fun hb => by rw [h.bytes hb])

end Fetch

namespace Errand

/-! ## The parts -/

/-- Where in an exchange a fetch takes place. -/
structure Place where
  sub : Nat
  feed : Nat
  caller : Nat
  /-- Answers that were given before. -/
  answers : List (Nat × Answer)

/-- The caller of the fetch, as long as it has no answer. -/
def Place.callersAt (P : Place) (a : Errand) : List Caller :=
  match a.stage with
  | .reading => [⟨P.caller, .fetch P.sub (.batch a.got.reverse)⟩]
  | .leaving => [⟨P.caller, .leave P.sub (.batch a.got)⟩]
  | .answered => []

def Place.answersAt (P : Place) (a : Errand) : List (Nat × Answer) :=
  match a.stage with
  | .reading | .leaving => P.answers
  | .answered => P.answers ++ [(P.caller, .batch a.got)]

/-- The caller of the fetch is the latest one. -/
def Place.deskAt (P : Place) (a : Errand) : List (Nat × Answer) × Nat :=
  (P.answersAt a, P.caller + 1)

/-- A loopback that stores the next message under the number `n`. -/
structure Served (T : Terms) (n : Nat) (a : Errand) (l : Loopback) : Prop where
  alive : l.alive = true
  held : l.held = true
  sequence : l.nextSequence = n
  limits : l.broker.limits.Unlimited
  heartbeats : l.broker.limits.heartbeats = true
  stream : l.broker.stream.toList = T.past ++ a.given ++ a.unread
  cursor : l.broker.cursor = T.past.length + a.given.length
  known : l.broker.knows T.inbox = a.known
  waiting : l.broker.waiting = a.pull.toList
  received : l.broker.received = a.received
  agenda : l.broker.agenda =
    a.out.map (Chore.post T.inbox) ++ if a.handing then [Chore.handOut] else []
  commands : l.commands.toList = a.queue

structure Fed (a : Errand) (feed : Feed) : Prop where
  frames : feed.frames.toList = a.frames
  reading : feed.reading = decide (a.worker ≠ .ended)
  writing : a.stage = .reading → feed.writing = true
  lost : a.worker = .ended → a.frames = []
  capacity : 0 < feed.capacity

structure Attended (T : Terms) (P : Place) (a : Errand) (s : Subscription) : Prop where
  inbox : s.inbox = T.inbox
  feed : s.feed = P.feed
  closed : s.closed = decide (a.stage ≠ .reading)
  claimed : s.claimed = decide (a.stage ≠ .reading)
  watching : s.watching = a.watching
  alarms : s.alarms = []
  worker : s.worker = a.worker
  queue : s.queue.toList = a.deliveries
  capacity : 0 < s.capacity
  readers : a.stage = .reading → s.readers = [P.caller]
  purpose : ∃ f, s.purpose = .fetch f T.due ∧
    Fetch.Counts T.options a.got (decide (a.stage ≠ .reading)) f
  shut : s.tracker.monitor.closed = decide (a.stage ≠ .reading)
  seen : s.tracker.monitor.lastSeen = a.seen
  period : ∀ p, s.tracker.monitor.period = some p →
    ∃ d, T.beat = some d ∧ p.nanos = d.nanos * Monitor.multiplier

/-- The core of an exchange hosts an errand. -/
structure Hosts (T : Terms) (P : Place) (n : Nat) (a : Errand) (c : Exchange.Core) (l : Loopback)
    (feed : Feed) (s : Subscription) : Prop where
  now : c.now = a.now
  transport : c.transport = .loopback l
  inbox : (c.feeds.findIdx? fun f => f.inbox == T.inbox) = some P.feed
  feedAt : c.feeds[P.feed]? = some feed
  subAt : c.subs[P.sub]? = some s
  others : ∀ i u, i ≠ P.sub → c.subs[i]? = some u → u.isOver = true
  callers : c.callers = P.callersAt a
  served : Served T n a l
  fed : Fed a feed
  attended : Attended T P a s

/-- An exchange hosts an errand. -/
def Hosted (T : Terms) (P : Place) (n : Nat) (a : Errand) (x : Exchange) : Prop :=
  (∃ l feed s, Hosts T P n a x.core l feed s) ∧ x.desk = P.deskAt a

variable {T : Terms} {P : Place} {n k : Nat} {a b : Errand} {c : Exchange.Core}
  {x y : Exchange} {l l' : Loopback} {feed : Feed} {s : Subscription}

/-! ## Small changes -/

/-- What the broker leaves alone, frames that it posts apart. -/
def side (a : Errand) : Nat × List Frame × Worker × List Delivery × Bool × Nat × List Message ×
    Stage :=
  (a.now, a.frames, a.worker, a.deliveries, a.watching, a.seen, a.got, a.stage)

/-- The broker changes, and the errand with it. -/
theorem Hosts.serve (h : Hosts T P n a c l feed s) (hs : Served T k b l')
    (hside : b.side = a.side) :
    Hosts T P k b { c with transport := .loopback l' } l' feed s := by
  simp only [side, Prod.mk.injEq] at hside
  obtain ⟨hnow, hframes, hworker, hdeliveries, hwatching, hseen, hgot, hstage⟩ := hside
  have hcallers : P.callersAt b = P.callersAt a := by
    unfold Place.callersAt
    rw [hstage, hgot]
  obtain ⟨f, hpurpose, hcounts⟩ := h.attended.purpose
  exact { h with
    now := h.now.trans hnow.symm
    transport := rfl
    callers := h.callers.trans hcallers.symm
    served := hs
    fed := { h.fed with
      frames := h.fed.frames.trans hframes.symm
      reading := by rw [hworker]; exact h.fed.reading
      lost := by rw [hworker, hframes]; exact h.fed.lost
      writing := by rw [hstage]; exact h.fed.writing }
    attended := { h.attended with
      closed := by rw [hstage]; exact h.attended.closed
      claimed := by rw [hstage]; exact h.attended.claimed
      watching := h.attended.watching.trans hwatching.symm
      worker := h.attended.worker.trans hworker.symm
      queue := h.attended.queue.trans hdeliveries.symm
      readers := by rw [hstage]; exact h.attended.readers
      purpose := ⟨f, hpurpose, by rw [hgot, hstage]; exact hcounts⟩
      shut := by rw [hstage]; exact h.attended.shut
      seen := h.attended.seen.trans hseen.symm } }

theorem deskAt_of_side (hside : b.side = a.side) : P.deskAt b = P.deskAt a := by
  simp only [side, Prod.mk.injEq] at hside
  obtain ⟨_, _, _, _, _, _, hgot, hstage⟩ := hside
  unfold Place.deskAt Place.answersAt
  rw [hstage, hgot]

/-- Which feed is the first one of an inbox does not depend on what the feeds hold. -/
theorem findIdx?_modify (fs : Array Feed) (i : Nat) {g : Feed → Feed}
    (hg : ∀ f, (g f).inbox = f.inbox) (inbox : String) :
    ((fs.modify i g).findIdx? fun f => f.inbox == inbox) =
      fs.findIdx? fun f => f.inbox == inbox := by
  have hmap : (fs.modify i g).map Feed.inbox = fs.map Feed.inbox := by
    refine Array.ext_getElem? fun j => ?_
    rw [Array.getElem?_map, Array.getElem?_map, Array.getElem?_modify]
    split
    · cases fs[j]? with
      | none => rfl
      | some f => exact congrArg some (hg f)
    · rfl
  have hfind : ∀ gs : Array Feed, (gs.findIdx? fun f => f.inbox == inbox) =
      (gs.map Feed.inbox).findIdx? fun i => i == inbox := fun gs => by
    rw [Array.findIdx?_map]
    rfl
  rw [hfind, hfind, hmap]

/-- The caller goes on, and with it its subscription and the commands in line. -/
theorem Hosts.attend (h : Hosts T P n a c l feed s) {g : Subscription → Subscription}
    {cs : List Caller} (hnow : b.now = a.now) (hserved : Served T n b l') (hfed : Fed b feed)
    (hattended : Attended T P b (g s)) (hcallers : cs = P.callersAt b) :
    Hosts T P n b { c with
      transport := .loopback l'
      subs := c.subs.modify P.sub g
      callers := cs } l' feed (g s) :=
  { h with
    now := h.now.trans hnow.symm
    transport := rfl
    subAt := by
      dsimp only
      rw [Array.getElem?_modify, if_pos rfl, h.subAt]
      rfl
    others := fun i u hi hu => by
      dsimp only at hu
      rw [Array.getElem?_modify, if_neg fun e => hi e.symm] at hu
      exact h.others i u hi hu
    callers := hcallers
    served := hserved
    fed := hfed
    attended := hattended }

/-- The feed and the subscription of the errand change. -/
theorem Hosts.modify (h : Hosts T P n a c l feed s) {g : Feed → Feed}
    (hg : ∀ f, (g f).inbox = f.inbox) {k : Subscription → Subscription} (hserved : Served T n b l)
    (hfed : Fed b (g feed)) (hattended : Attended T P b (k s)) (hnow : b.now = a.now)
    (hcallers : P.callersAt b = P.callersAt a) :
    Hosts T P n b { c with
      feeds := c.feeds.modify P.feed g
      subs := c.subs.modify P.sub k } l (g feed) (k s) :=
  { h with
    now := h.now.trans hnow.symm
    inbox := (findIdx?_modify c.feeds P.feed hg T.inbox).trans h.inbox
    feedAt := by
      dsimp only
      rw [Array.getElem?_modify, if_pos rfl, h.feedAt]
      rfl
    subAt := by
      dsimp only
      rw [Array.getElem?_modify, if_pos rfl, h.subAt]
      rfl
    others := fun i u hi hu => by
      dsimp only at hu
      rw [Array.getElem?_modify, if_neg fun e => hi e.symm] at hu
      exact h.others i u hi hu
    callers := h.callers.trans hcallers.symm
    served := hserved
    fed := hfed
    attended := hattended }

theorem Hosts.modifyFeed (h : Hosts T P n a c l feed s) {g : Feed → Feed}
    (hg : ∀ f, (g f).inbox = f.inbox) {fs : List Frame}
    (hfed : Fed { a with frames := fs } (g feed)) :
    Hosts T P n { a with frames := fs } { c with feeds := c.feeds.modify P.feed g } l (g feed)
      s := by
  have hh := h.modify (k := id) hg (b := { a with frames := fs }) { h.served with } hfed
    { h.attended with } rfl rfl
  rwa [Exchange.modify_id] at hh

theorem Hosts.modifySub (h : Hosts T P n a c l feed s) {k : Subscription → Subscription}
    (hserved : Served T n b l) (hfed : Fed b feed) (hattended : Attended T P b (k s))
    (hnow : b.now = a.now) (hcallers : P.callersAt b = P.callersAt a) :
    Hosts T P n b { c with subs := c.subs.modify P.sub k } l feed (k s) := by
  have hh := h.modify (g := id) (fun _ => rfl) hserved hfed hattended hnow hcallers
  rwa [Exchange.modify_id] at hh

theorem Hosts.shutAt (h : Hosts T P n a c l feed s) :
    Exchange.shutAt T.inbox c.feeds = c.feeds.modify P.feed Feed.shut := by
  unfold Exchange.shutAt
  rw [h.inbox]

/-- A caller that does not read does not care whether its feed is still written. -/
theorem Hosts.shut (h : Hosts T P n a c l feed s) (hs : a.stage ≠ .reading) :
    Hosts T P n a { c with feeds := Exchange.shutAt T.inbox c.feeds } l feed.shut s := by
  rw [h.shutAt]
  exact h.modifyFeed (g := Feed.shut) (fun _ => rfl)
    { h.fed with writing := fun hr => absurd hr hs }

/-! ## What the broker is at -/

theorem Served.idle (h : Served T n a l) (hag : l.broker.agenda = []) : a.IsIdle :=
  Broker.State.idle_of_agenda h.agenda hag

/-- The message at the cursor is the first one that was not handed out. -/
theorem Served.unread (h : Served T n a l) {m : Message}
    (hm : l.broker.stream[l.broker.cursor]? = some m) : ∃ ms, a.unread = m :: ms :=
  Broker.State.unread_of_cursor h.stream (h.cursor.trans List.length_append.symm) hm

theorem Served.caught (h : Served T n a l) (hsz : l.broker.stream.size ≤ l.broker.cursor) :
    a.unread = [] :=
  Broker.State.unread_eq_nil h.stream (h.cursor.trans List.length_append.symm) hsz

theorem Served.pull_of_waiting (h : Served T n a l) {p : WaitingPull} {ps : List WaitingPull}
    (hw : l.broker.waiting = p :: ps) : a.pull = some p ∧ ps = [] := by
  have he := h.waiting
  rw [hw] at he
  cases hp : a.pull with
  | none =>
    rw [hp] at he
    cases he
  | some q =>
    rw [hp] at he
    obtain ⟨rfl, rfl⟩ := List.cons.inj he
    exact ⟨rfl, rfl⟩

theorem Served.pull_none (h : Served T n a l) (hw : l.broker.waiting = []) : a.pull = none := by
  have he := h.waiting
  rw [hw] at he
  exact Option.toList_eq_nil_iff.1 he.symm

/-! ## What the broker does -/

/-- A chore that is no post hands out. -/
theorem Served.work (h : Served T n a l) (hs : Sound T a) (hag : l.broker.agenda ≠ [])
    {b' : Broker.State} (hw : l.broker.work a.now = (b', none)) :
    ∃ b, Step T a b ∧ Served T n b { l with broker := b' } ∧ b.side = a.side := by
  obtain ⟨hclear, hhand, rfl⟩ := Broker.State.handOut_of_work h.agenda hag hw
  rcases Broker.State.handOut_cases a.now { l.broker with agenda := [] } with
    ⟨ho, hdone⟩ | ⟨m, p, rest, hm, hwait, hr, ho⟩ | ⟨m, p, rest, hm, hwait, hr, ho⟩
  · rw [ho]
    refine ⟨_, .settle a hclear hhand (hdone.imp h.caught h.pull_none), ?_, rfl⟩
    exact { h with agenda := by rw [hclear]; rfl }
  · obtain ⟨ms, hu⟩ := h.unread hm
    obtain ⟨hpull, rfl⟩ := h.pull_of_waiting hwait
    rw [ho]
    refine ⟨_, .refuse a m ms p hclear hhand hu hpull hr, ?_, rfl⟩
    refine { h with waiting := rfl, agenda := ?_ }
    dsimp only
    rw [hhand, (hs.pull p hpull).inbox]
    rfl
  · obtain ⟨ms, hu⟩ := h.unread hm
    obtain ⟨hpull, rfl⟩ := h.pull_of_waiting hwait
    rw [ho]
    refine ⟨_, .hand a m ms p hclear hhand hu hpull hr, ?_, rfl⟩
    refine { h with stream := ?_, cursor := ?_, waiting := ?_, agenda := ?_ }
    · show l.broker.stream.toList = T.past ++ (a.given ++ [m]) ++ ms
      rw [h.stream, hu]
      simp
    · show l.broker.cursor + 1 = T.past.length + (a.given ++ [m]).length
      rw [h.cursor, List.length_append, List.length_singleton, Nat.add_assoc]
    · show (if _ then [] else [_]) = (kept _).toList
      unfold kept
      split
      · rfl
      · rfl
    · show (Broker.State.handed _ m ++ [Chore.handOut]) ++ [] = _
      rw [List.append_nil, Broker.handed_eq_map, WaitingPull.inbox_charged,
        (hs.pull p hpull).inbox]
      dsimp only
      rw [hhand, if_pos rfl]

/-- The commands that can stand at the head of the line. -/
theorem Sound.command (hs : Sound T a) {k : Command} {rest : List Command}
    (next : a.queue = k :: rest) :
    (∃ m, k = .publish m) ∨ k = .register T.inbox ∨
      (k = .pull T.inbox T.request ∧ a.known = true) ∨
      (k = .unsubscribe T.inbox ∧ a.stage ≠ .reading) := by
  cases hk : k.message? with
  | some m =>
    cases k with
    | publish m' => exact Or.inl ⟨m', rfl⟩
    | _ => cases hk
  | none =>
    have hcalls := calls_cons next hk
    have hin : k ∈ a.calls := by rw [hcalls]; exact List.mem_cons_self
    by_cases hst : a.stage = .reading
    · obtain ⟨stop, hr⟩ := hs.reads hst
      rcases (hr.standing.of_call hin).2.calls with ⟨_, hc⟩ | ⟨hknown, hc⟩
      · rw [hcalls] at hc
        exact Or.inr (Or.inl (List.cons.inj hc).1)
      · rw [hcalls] at hc
        exact Or.inr (Or.inr (Or.inl ⟨(List.cons.inj hc).1, hknown⟩))
    · exact Or.inr (Or.inr (Or.inr ⟨(hs.leaves hst).calls k hin, hst⟩))

/-- A command that is no question is taken in. -/
theorem Served.accept (h : Served T n a l) (hs : Sound T a) (hag : l.broker.agenda = [])
    {k : Command} {rest : Fifo Command} (hp : l.commands.pop? = some (k, rest)) :
    ∃ b, Step T a b ∧
      Served T n b { l with commands := rest, broker := l.broker.accept a.now k } ∧
      b.side = a.side := by
  have hidle := h.idle hag
  have hnext : a.queue = k :: rest.toList := h.commands.symm.trans (Fifo.toList_of_pop? hp)
  have hout := hidle.1
  rcases hs.command hnext with ⟨m, rfl⟩ | rfl | ⟨rfl, hk⟩ | ⟨rfl, hst⟩
  · refine ⟨_, .store a m rest.toList hidle hnext, ?_, rfl⟩
    refine { h with stream := ?_, agenda := ?_, commands := rfl }
    · show (l.broker.stream.push m).toList = T.past ++ a.given ++ (a.unread ++ [m])
      rw [Array.toList_push, h.stream, List.append_assoc]
    · show [Chore.handOut] ++ l.broker.agenda = a.out.map _ ++ [Chore.handOut]
      rw [hag, hout]
      rfl
  · refine ⟨_, .register a rest.toList hidle hnext, ?_, rfl⟩
    refine { h with known := ?_, commands := rfl }
    show (T.inbox :: l.broker.inboxes.filter _).contains T.inbox = true
    exact List.contains_iff_mem.2 List.mem_cons_self
  · refine ⟨_, .grant a rest.toList hidle hnext hk, ?_, rfl⟩
    have hknows : l.broker.knows T.inbox = true := h.known.trans hk
    have hnone : a.pull = none := by
      by_cases hst : a.stage = .reading
      · obtain ⟨stop, hr⟩ := hs.reads hst
        have hin : Command.pull T.inbox T.request ∈ a.calls := by
          rw [calls_cons hnext rfl]
          exact List.mem_cons_self
        exact (hr.standing.of_call hin).2.pull
      · have hin : Command.pull T.inbox T.request ∈ a.calls := by
          rw [calls_cons hnext rfl]
          exact List.mem_cons_self
        cases (hs.leaves hst).calls _ hin
    rw [accept_pull h.limits hknows rfl, h.heartbeats]
    refine { h with waiting := ?_, received := ?_, agenda := ?_, commands := rfl }
    · dsimp only
      rw [h.waiting, hnone]
      rfl
    · dsimp only
      rw [h.received]
    · dsimp only
      rw [hag, hout]
      rfl
  · refine ⟨_, .forget a rest.toList hidle hnext, ?_, rfl⟩
    refine { h with known := Broker.State.knows_forget _ _, waiting := ?_, commands := rfl }
    show l.broker.waiting.filter _ = []
    rw [h.waiting, List.filter_eq_nil_iff]
    intro p hp
    have hin := (hs.pull p (Option.mem_toList.1 hp)).inbox
    simp [hin]

/-- Whether anything is due or not, the broker looks at its timers. -/
theorem Served.fire (h : Served T n a l) (hs : Sound T a) (hag : l.broker.agenda = []) :
    (l.broker.fireTimers a.now = l.broker ∧
        ∀ p, a.pull = some p → (Broker.State.due a.now p).1 = none) ∨
      (∃ b, Step T a b ∧ Served T n b { l with broker := l.broker.fireTimers a.now } ∧
        b.side = a.side) ∧ ∃ t, l.broker.deadline = some t ∧ t ≤ a.now := by
  have hidle := h.idle hag
  cases hpull : a.pull with
  | none =>
    refine Or.inl ⟨?_, fun p hp => by cases hp⟩
    have hw : l.broker.waiting = [] := by rw [h.waiting, hpull]; rfl
    unfold Broker.State.fireTimers Broker.State.first
    rw [hw]
    dsimp only [List.filterMap_nil, List.nil_append]
    rw [← hw]
  | some p =>
    have hw : l.broker.waiting = [p] := by rw [h.waiting, hpull]; rfl
    cases hdue : (Broker.State.due a.now p).1 with
    | none =>
      refine Or.inl ⟨?_, fun q hq => by rw [← Option.some.inj hq]; exact hdue⟩
      have hsame : (Broker.State.due a.now p).2 = some p := by
        unfold Broker.State.due at hdue ⊢
        split
        · rename_i he
          rw [if_pos he] at hdue
          cases hdue
        · rename_i he
          rw [if_neg he] at hdue
          split
          · rename_i hb hd
            rw [hb, hd] at hdue
            cases hdue
          · rfl
      unfold Broker.State.fireTimers Broker.State.first
      rw [hw]
      simp only [List.filterMap_cons, hdue, hsame, Option.map_none, List.filterMap_nil,
        List.nil_append]
      rw [← hw]
    | some f =>
      have hdeadline : ∃ t, l.broker.deadline = some t ∧ t ≤ a.now := by
        unfold Broker.State.deadline
        rw [hw]
        exact Broker.deadline_le_of_due hdue
      refine Or.inr ⟨⟨_, .due a p f hidle hpull hdue, ?_, rfl⟩, hdeadline⟩
      refine { h with waiting := ?_, agenda := ?_ }
      · show l.broker.waiting.filterMap _ = (Broker.State.due a.now p).2.toList
        rw [hw]
        unfold List.filterMap
        cases (Broker.State.due a.now p).2 <;> rfl
      · show l.broker.waiting.filterMap _ ++ l.broker.agenda = _
        rw [hag, hw, List.append_nil]
        simp only [List.filterMap_cons, hdue, Option.map_some, List.filterMap_nil, hidle.2,
          (hs.pull p hpull).inbox]
        rfl

/-- The next frame is handed over to be posted. -/
theorem Served.post (h : Served T n a l) {b' : Broker.State} {inbox : String} {f : Frame}
    (hw : l.broker.work a.now = (b', some (inbox, f))) :
    ∃ rest, a.out = f :: rest ∧ inbox = T.inbox ∧
      Served T n { a with out := rest } { l with broker := b' } := by
  obtain ⟨rest, cs, hout, hin, rfl, hrest⟩ := Broker.State.post_of_work h.agenda hw
  exact ⟨rest, hout, hin, { h with agenda := hrest }⟩

end Errand

end DemandFlow
