import DemandFlow.Proofs.Consume.Rest
import DemandFlow.Proofs.Demand.Withdrawal
import DemandFlow.Proofs.Exchange.Free
import DemandFlow.Proofs.Fetch.Runs

/-
  The start of an errand. Where no subscription is open and no call is under way, whatever was
  published waits on the stream or in line. A fetch that is opened there with accepted options
  sends its one request, and its caller stands in line: the exchange hosts an errand at its
  opening.
-/

namespace DemandFlow

open Broker (Chore Command inboxName publishedBy)

/-! ## Accepted options -/

namespace FetchOptions

variable {s : Settings} {o : FetchOptions}

theorem check_of_build (h : s.build = .ok o) : Timing.check o.expires o.heartbeat = .ok () := by
  unfold Settings.build at h
  dsimp only at h
  split at h
  · cases hr : Timing.resolve s.expires s.heartbeat with
    | error f =>
      rw [hr] at h
      cases h
    | ok q =>
      rw [hr] at h
      cases h
      exact Timing.check_of_resolve hr
  · cases h

/-- Accepted options whose expiry and byte budget fit a word are timed. -/
theorem timed_of_build (h : s.build = .ok o) (he : o.expires.nanos ≤ Count.top)
    (hb : o.maxBytes ≤ Count.top) : o.Timed := by
  have hc := check_of_build h
  obtain ⟨hleast, hmost, _⟩ := Timing.check_eq_ok_iff.1 hc
  have hpos : 0 < Timing.leastExpires.nanos := by decide
  have htop : Timing.mostHeartbeat.nanos ≤ Count.top := by decide
  exact ⟨Nat.lt_of_lt_of_le hpos hleast, he, Nat.le_trans hmost htop, Timing.times?_of_check hc,
    hb⟩

theorem Timed.onWire (ho : o.Timed) : o.request.onWire = o.request :=
  PullRequest.onWire_eq_iff.2
    ⟨fun _ hd => PullRequest.eq_of_nonzero? hd ▸ ho.expires_le,
      fun _ hd => PullRequest.eq_of_nonzero? hd ▸ ho.heartbeat_le⟩

/-- The request of a fetch goes out at once. -/
theorem Timed.exists_issue (ho : o.Timed) (now : Nat) :
    ∃ t, (Tracker.start now).issue now o.request = some t := by
  refine Option.isSome_iff_exists.1 (Option.isSome_iff_ne_none.2 fun hnone => ?_)
  have hperiod := Tracker.issue_eq_none_iff.1 hnone
  cases hd : o.request.heartbeat with
  | none =>
    rw [hd] at hperiod
    cases hperiod
  | some d =>
    obtain ⟨q, hq⟩ := Option.isSome_iff_exists.1 ho.period
    rw [hd, PullRequest.eq_of_nonzero? hd, Monitor.periodFor?, hq] at hperiod
    cases hperiod

end FetchOptions

/-- The monitor of a first request is open, has just seen something, and waits for several
heartbeats. -/
theorem Tracker.monitor_of_issue {now : Nat} {r : PullRequest} {t : Tracker}
    (h : (start now).issue now r = some t) : t.monitor.closed = false ∧ t.monitor.lastSeen = now ∧
      ∀ p, t.monitor.period = some p →
        ∃ d, r.heartbeat = some d ∧ p.nanos = d.nanos * Monitor.multiplier := by
  obtain ⟨hperiod, _, hclosed, _⟩ := issue_eq_some h
  refine ⟨hclosed, ?_, fun p hp => ?_⟩
  · unfold issue Monitor.configure at h
    rw [Option.map_map, Option.map_eq_some_iff] at h
    obtain ⟨p, _, rfl⟩ := h
    cases p <;> rfl
  · rw [hp] at hperiod
    cases hd : r.heartbeat with
    | none =>
      rw [hd] at hperiod
      cases hperiod
    | some d =>
      rw [hd] at hperiod
      obtain ⟨q, hq, he⟩ := Option.map_eq_some_iff.1 hperiod
      rw [← Option.some.inj he]
      exact ⟨d, rfl, (Span.times?_eq_some.1 hq).2⟩

/-! ## The errand -/

/-- A broker to which a new subscription has sent its request. -/
def Loopback.asked (l : Loopback) (r : PullRequest) : Loopback :=
  { l with
    nextInbox := l.nextInbox + 1
    commands := (l.commands.push (.register (inboxName l.nextInbox))).push
      (.pull (inboxName l.nextInbox) r) }

namespace Exchange

/-- An exchange on which no subscription is open and no call is under way, with a broker that
beats. -/
structure Vacant (x : Exchange) (l : Loopback) : Prop extends l.IsFree where
  heartbeats : l.broker.limits.heartbeats = true
  transport : x.transport = .loopback l
  feeds : ∀ f ∈ x.feeds, ∃ k < l.nextInbox, f.inbox = inboxName k
  subs : ∀ (i : Nat) (s : Subscription), x.subs[i]? = some s → s.isOver = true
  callers : x.callers = []
  answers : ∀ p ∈ x.answers, p.1 < x.nextCaller

theorem vacant_start {limits : Broker.Limits} (hu : limits.Unlimited)
    (hh : limits.heartbeats = true) (keepsNotices : Bool) (queueCapacity : Nat) :
    (start (.loopback (.start limits true)) keepsNotices queueCapacity).Vacant
      (.start limits true) where
  toIsFree := .start hu
  heartbeats := hh
  transport := rfl
  feeds := fun f hf => absurd hf (Array.not_mem_empty f)
  subs := fun i s hs => by cases hs
  callers := rfl
  answers := fun p hp => by cases hp

variable {x y : Exchange} {l : Loopback}

/-- The broker does not know the next inbox. -/
theorem Vacant.knows_next (h : x.Vacant l) : l.broker.knows (inboxName l.nextInbox) = false := by
  unfold Broker.State.knows
  rw [List.contains_eq_mem, decide_eq_false_iff_not]
  intro hin
  obtain ⟨k, hk, he⟩ := h.inboxes _ hin
  have := Broker.inboxName_injective he
  omega

/-- No feed has the next inbox. -/
theorem Vacant.findIdx?_push (h : x.Vacant l) {feed : Feed}
    (hf : feed.inbox = inboxName l.nextInbox) :
    ((x.feeds.push feed).findIdx? fun f => f.inbox == inboxName l.nextInbox) =
      some x.feeds.size := by
  have hnone : (x.feeds.findIdx? fun f => f.inbox == inboxName l.nextInbox) = none := by
    rw [Array.findIdx?_eq_none_iff]
    intro f hin
    obtain ⟨k, hk, he⟩ := h.feeds f hin
    rw [he, beq_eq_false_iff_ne]
    intro hname
    have := Broker.inboxName_injective hname
    omega
  rw [Array.findIdx?_push, hnone, if_pos (by rw [hf]; exact beq_self_eq_true _)]
  rfl

/-- Where a fetch takes place that starts now. -/
def placeOf (x : Exchange) : Errand.Place := ⟨x.subs.size, x.feeds.size, x.nextCaller, x.answers⟩

/-- The terms of a fetch that starts now. -/
def termsOf (x : Exchange) (l : Loopback) (o : FetchOptions) : Errand.Terms :=
  ⟨o, inboxName l.nextInbox, x.now, l.broker.stream.toList.take l.broker.cursor,
    l.broker.received⟩

/-- The errand of a fetch that starts now. -/
def errandOf (x : Exchange) (l : Loopback) (o : FetchOptions) : Errand :=
  .opening (x.termsOf l o) (l.broker.stream.toList.drop l.broker.cursor)
    (!l.broker.agenda.isEmpty) l.commands.toList

end Exchange

namespace Errand

variable {x : Exchange} {l : Loopback} {o : FetchOptions}

/-- An errand starts sound. -/
theorem sound_opening {T : Terms} (ho : T.options.Timed) {unread : List Message} {handing : Bool}
    {commands : List Command} (hc : ∀ c ∈ commands, ∃ m, c = .publish m)
    (hs : ∀ m ∈ unread ++ publishedBy commands, 0 < m.size) :
    Sound T (opening T unread handing commands) := by
  have hcalls : (opening T unread handing commands).calls =
      [.register T.inbox, .pull T.inbox T.request] := by
    have hnone : commands.filter (fun c => c.message?.isNone) = [] := by
      rw [List.filter_eq_nil_iff]
      intro c hin
      obtain ⟨m, rfl⟩ := hc c hin
      exact Bool.false_ne_true
    unfold calls opening
    rw [List.filter_append, hnone]
    rfl
  have hpub : publishedBy (opening T unread handing commands).queue = publishedBy commands :=
    (Broker.publishedBy_append _ _).trans (List.append_nil _)
  refine ⟨?_, Or.inl rfl, List.nil_prefix, hs, ⟨Nat.zero_le _, fun _ => Nat.zero_le _⟩,
    Or.inr (Or.inr rfl), fun p hp => (by cases hp), fun _ => ⟨[], ?_⟩, fun h => absurd rfl h⟩
  · rw [hpub]
    exact (List.append_nil _).symm
  · have hstart : (opening T unread handing commands).now = T.start := rfl
    exact {
      standing := .asked ⟨rfl, rfl, rfl, Or.inl ⟨rfl, hcalls⟩, rfl, rfl⟩
      arrives := rfl
      fair := fun d hd => by cases hd
      worker := fun hw => by cases hw
      early := Nat.le_add_right _ _
      alert := fun d _ => Nat.le_add_right _ _
      beats := fun p d t hp => by cases hp
      ready := fun hd => by
        have hpos := ho.expires_pos
        have hle : T.start + T.options.expires.nanos ≤ T.start := hd
        omega }

end Errand

namespace Exchange

variable {x y : Exchange} {l : Loopback} {o : FetchOptions}

/-- The subscription of a fetch that starts now. -/
def fetchSub (x : Exchange) (l : Loopback) (o : FetchOptions) (t : Tracker) : Subscription :=
  { Subscription.start (inboxName l.nextInbox) x.feeds.size x.now x.queueCapacity
      (.fetch (.start o) (x.now + o.expires.nanos)) with tracker := t }

/-- A fetch that starts on a vacant exchange opens its subscription and sends its request. -/
theorem Vacant.openWith (h : x.Vacant l) (ho : o.Timed) {t : Tracker}
    (ht : (Tracker.start x.now).issue x.now o.request = some t) :
    ∃ y, x.openWith (.fetch (.start o) (x.now + o.expires.nanos)) o.request =
        (y, .ok x.subs.size) ∧
      y.desk = x.desk ∧
      y.core = { x.core with
        transport := .loopback (l.asked o.request)
        feeds := x.feeds.push (.start (inboxName l.nextInbox) l.broker.limits.frameCapacity
          (some x.subs.size))
        subs := x.subs.push (x.fetchSub l o t) } := by
  obtain ⟨y, z, hy, hz, hc⟩ := core_openWith (x := x) h.transport h.alive
    (.fetch (.start o) (x.now + o.expires.nanos)) ht
  refine ⟨z, openWith_eq hy hz, ?_, ?_⟩
  · have hpulled := skips_desk.pull y x.core.subs.size o.request
    have hopened := skips_desk.openSub x (.fetch (.start o) (x.now + o.expires.nanos))
    rw [hz] at hpulled
    rw [hy] at hopened
    exact hpulled.trans hopened
  · rw [hc, ho.onWire]
    rfl

/-- The fetch and its caller are an errand at its opening. -/
theorem Vacant.hosted (h : x.Vacant l) {t : Tracker}
    (ht : (Tracker.start x.now).issue x.now o.request = some t) (hdesk : y.desk = x.desk)
    (hc : y.core = { x.core with
      transport := .loopback (l.asked o.request)
      feeds := x.feeds.push (.start (inboxName l.nextInbox) l.broker.limits.frameCapacity
        (some x.subs.size))
      subs := x.subs.push (x.fetchSub l o t) }) :
    Errand.Hosted (x.termsOf l o) x.placeOf l.nextSequence (x.errandOf l o)
      (y.callBehind (.fetch x.subs.size (.batch []))).1 := by
  obtain ⟨hclosed, hseen, hperiod⟩ := Tracker.monitor_of_issue ht
  have hnext : y.nextCaller = x.nextCaller := congrArg Prod.snd hdesk
  have hcore := core_callBehind y (.fetch x.subs.size (.batch []))
  rw [hc, hnext] at hcore
  dsimp only [joined, sourceOf?] at hcore
  rw [modify_push_size, show x.core.callers = [] from h.callers] at hcore
  have hcursor : (l.broker.stream.toList.take l.broker.cursor).length = l.broker.cursor := by
    rw [List.length_take, Array.length_toList]
    exact Nat.min_eq_left h.cursor
  refine ⟨⟨l.asked o.request, .start (inboxName l.nextInbox) l.broker.limits.frameCapacity
    (some x.subs.size), { x.fetchSub l o t with readers := [x.nextCaller] }, hcore ▸ ?_⟩,
    (desk_callBehind y _).trans (congrArg (fun d : _ × Nat => (d.1, d.2 + 1)) hdesk)⟩
  exact {
    now := rfl
    transport := rfl
    inbox := h.findIdx?_push rfl
    feedAt := Array.getElem?_push_size
    subAt := Array.getElem?_push_size
    others := fun i u hi hu => by
      dsimp only at hu
      rw [Array.getElem?_push, if_neg (show ¬i = x.subs.size from hi)] at hu
      exact h.subs i u hu
    callers := rfl
    served := {
      alive := h.alive
      held := h.held
      sequence := rfl
      limits := h.limits
      heartbeats := h.heartbeats
      stream := by
        show l.broker.stream.toList = List.take _ _ ++ [] ++ List.drop _ _
        rw [List.append_nil, List.take_append_drop]
      cursor := hcursor.symm
      known := h.knows_next
      waiting := h.waiting
      received := rfl
      agenda := by
        show l.broker.agenda = [] ++ if (!l.broker.agenda.isEmpty) = true then [.handOut] else []
        rcases h.agenda with he | he
        · rw [he]
          rfl
        · rw [he]
          rfl
      commands := by
        show ((l.commands.push _).push _).toList = l.commands.toList ++ [_, _]
        rw [Fifo.toList_push, Fifo.toList_push, List.append_assoc]
        rfl }
    fed := {
      frames := rfl
      reading := rfl
      writing := fun _ => rfl
      lost := fun hw => by cases hw
      capacity := Nat.le_max_left 1 _ }
    attended := {
      inbox := rfl
      feed := rfl
      closed := rfl
      claimed := rfl
      watching := rfl
      alarms := rfl
      worker := rfl
      queue := rfl
      capacity := Nat.le_max_left 1 _
      readers := fun _ => rfl
      purpose := ⟨.start o, rfl, Fetch.counts_start o⟩
      shut := hclosed
      seen := hseen
      period := hperiod } }

end Exchange

end DemandFlow
