import DemandFlow.Proofs.Consume.Rest
import DemandFlow.Proofs.Silence.Ages
import DemandFlow.Proofs.Silence.Serving

/-
  A continuous consumer that a live broker tends. Whenever its monitor is armed, no more than one
  heartbeat has gone by since the feed was last seen. Requests and frames show the feed now; while
  nothing is under way, the demand that keeps the monitor armed means that a pull waits, and its
  timer stops the clock in time.
-/

namespace DemandFlow

open Broker (Command inboxName)
open Exchange (Core)

/-! ## Requests -/

namespace ConsumeOptions

/-- The heartbeat with which a consumer asks, if it asks for any. -/
def beat? (o : ConsumeOptions) : Option Span := PullRequest.nonzero? (some o.heartbeat)

/-- A request as a consumer with these options sends it, and as the broker reads it. -/
structure Asks (o : ConsumeOptions) (r : PullRequest) : Prop where
  goesOut : r.GoesOut
  heartbeat : r.heartbeat = o.beat?
  wire : r.onWire.heartbeat = o.beat?
  fits : r.onWire.Fits

variable {o : ConsumeOptions} {st : Settings}

theorem beat_pos {d : Span} (h : o.beat? = some d) : 0 < d.nanos := by
  refine Nat.pos_of_ne_zero fun hz => ?_
  have hd : d = .zero := congrArg Span.mk hz
  exact PullRequest.nonzero?_ne_zero _ (h.trans (congrArg some hd))

/-- Heartbeats that are accepted fit a word, so the broker reads them as they are sent. -/
theorem wire_beat (hb : st.build = .ok o) : o.beat?.map PullRequest.wireSpan = o.beat? := by
  have hle := (Timing.check_eq_ok_iff.1 (check_of_build hb)).2.1
  have htop : Timing.mostHeartbeat.nanos ≤ Count.top := by decide
  have hsame : PullRequest.wireSpan o.heartbeat = o.heartbeat :=
    congrArg Span.mk (Nat.min_eq_left (Nat.le_trans hle htop))
  unfold beat? PullRequest.nonzero?
  split
  · rfl
  · rw [Option.map_some, hsame]

theorem asks_next (hb : st.build = .ok o) (hfit : o.Fits) {d : Demand} {r : PullRequest}
    (hr : (RefillPlan.ofOptions o).next? d = some r) : o.Asks r := by
  have hbeat : r.heartbeat = o.beat? := by
    unfold RefillPlan.next? at hr
    split at hr
    · cases hr
      rfl
    · split at hr
      · cases hr
        rfl
      · cases hr
  refine ⟨goesOut_next (beats_of_build hb) hr, hbeat, ?_,
    (RefillPlan.issues_onWire (RefillPlan.issues_next hfit hr)).fits⟩
  show r.heartbeat.map PullRequest.wireSpan = o.beat?
  rw [hbeat]
  exact wire_beat hb

end ConsumeOptions

/-! ## Trackers -/

/-- The monitor of an open subscription is armed only for demand, with the period that goes with
the heartbeat; its feed was last seen at `seen`, which is no longer ago than a heartbeat. -/
structure Tracker.Heeds (beat : Option Span) (now seen : Nat) (t : Tracker) : Prop where
  coherent : t.Coherent false
  period : t.monitor.armed = true → Monitor.periodFor? beat = some t.monitor.period
  lastSeen : t.monitor.armed = true → t.monitor.lastSeen = seen
  timely : t.monitor.armed = true → ∀ d, beat = some d → now ≤ seen + d.nanos

namespace Tracker

variable {beat : Option Span} {now seen : Nat} {t u : Tracker}

theorem heeds_start (beat : Option Span) (now seen : Nat) : (start now).Heeds beat now seen :=
  ⟨coherent_start now, Bool.noConfusion, Bool.noConfusion, Bool.noConfusion⟩

/-- A request shows the feed now. -/
theorem Heeds.issue (h : t.Heeds beat now seen) {r : PullRequest} (hr : r.heartbeat = beat)
    (hi : t.issue now r = some u) : u.Heeds beat now now := by
  have hopen := h.coherent.opened rfl
  refine ⟨coherent_issue h.coherent hi, fun _ => hr ▸ (issue_eq_some hi).1, fun harm => ?_,
    fun _ d _ => Nat.le_add_right now _⟩
  unfold Tracker.issue Monitor.configure at hi
  rw [Option.map_map, Option.map_eq_some_iff] at hi
  obtain ⟨p, _, rfl⟩ := hi
  cases p with
  | none => cases harm
  | some d =>
    have hcl : ({ t.monitor with period := some d } : Monitor).closed = false := hopen
    show (Monitor.arm now { t.monitor with period := some d }).lastSeen = now
    unfold Monitor.arm
    rw [hcl]
    rfl

/-- So does a frame. -/
theorem Heeds.account (h : t.Heeds beat now seen) (f : Frame) :
    (t.account now f).Heeds beat now now := by
  obtain ⟨_, hseen, hperiod⟩ := monitor_account now f t
  refine ⟨coherent_account h.coherent now f, fun harm => ?_, fun _ => hseen,
    fun _ d _ => Nat.le_add_right now _⟩
  rw [hperiod]
  exact h.period (armed_of_account harm)

/-- To look at the monitor shows nothing. -/
theorem Heeds.looked (h : t.Heeds beat now seen) :
    Heeds beat now seen { t with monitor := t.monitor.seen now } := by
  have hc := coherent_seen h.coherent now
  unfold Monitor.seen at hc ⊢
  split at hc <;> exact ⟨hc, h.period, h.lastSeen, h.timely⟩

/-- Time goes on, but not past the next heartbeat while the monitor is armed. -/
theorem Heeds.later (h : t.Heeds beat now seen) {later : Nat}
    (hl : t.monitor.armed = true → ∀ d, beat = some d → later ≤ seen + d.nanos) :
    t.Heeds beat later seen :=
  { h with timely := hl }

/-- No alarm is due as long as less than three heartbeats have gone by. -/
theorem Heeds.quiet (h : t.Heeds beat now seen) (hb : ∀ d, beat = some d → 0 < d.nanos)
    (d : Span) : t.monitor.look now ≠ .alarm d := by
  intro hl
  obtain ⟨_, harm, _, p, hp, hle⟩ := Monitor.look_eq_alarm hl
  have hperiod := h.period harm
  rw [hp] at hperiod
  cases hbeat : beat with
  | none =>
    rw [hbeat] at hperiod
    cases hperiod
  | some e =>
    rw [hbeat] at hperiod
    obtain ⟨q, hq, hpq⟩ := Option.map_eq_some_iff.1 hperiod
    cases hpq
    have hthree := (Span.times?_eq_some.1 hq).2
    have hpos := hb e hbeat
    have htime := h.timely harm e hbeat
    have hmult : Monitor.multiplier = 3 := rfl
    rw [h.lastSeen harm, hthree, hmult] at hle
    omega

end Tracker

/-! ## The end -/

/-- There is a subscription, and no monitor is open. -/
def AllShut (ss : Array Subscription) : Prop :=
  ss.size ≠ 0 ∧ ∀ (i : Nat) (s : Subscription), ss[i]? = some s → s.tracker.monitor.closed = true

theorem allShut_shutDown (s : Subscription) : AllShut (Exchange.shutDown 0 #[s]) := by
  refine ⟨Nat.one_ne_zero, fun i u hu => ?_⟩
  cases i with
  | zero =>
    cases hu
    rfl
  | succ i => cases hu

theorem AllShut.modify {ss : Array Subscription} (h : AllShut ss) (i : Nat)
    {g : Subscription → Subscription} (hg : ∀ s, (g s).tracker = s.tracker) :
    AllShut (ss.modify i g) := by
  refine ⟨by rw [Array.size_modify]; exact h.1, fun j u hu => ?_⟩
  rcases Exchange.getElem?_modify_eq_some hu with ⟨s, _, hs, rfl⟩ | ⟨_, hs⟩
  · rw [hg]
    exact h.2 j s hs
  · exact h.2 j u hs

/-- A worker that ends shuts its monitor. -/
theorem allShut_endWorker {x : Exchange} {s : Subscription} (h : x.core.subs = #[s]) :
    AllShut (x.endWorker 0).subs := by
  rcases Exchange.core_endWorker x 0 with hc | ⟨_, _, hc⟩
  · rw [show (x.endWorker 0).subs = _ from congrArg Core.subs hc, h]
    exact allShut_shutDown s
  · rw [show (x.endWorker 0).subs = _ from congrArg Core.subs hc, h]
    exact (allShut_shutDown s).modify 0 fun _ => rfl

/-- So does whoever unsubscribes. -/
theorem allShut_unsubscribe {x : Exchange} {l : Loopback} {s : Subscription}
    (h : x.core.subs = #[s]) (ht : x.core.transport = .loopback l) (ha : l.alive = true) :
    AllShut (x.unsubscribe 0).subs := by
  rcases Exchange.core_unsubscribe ht ha 0 with hc | ⟨_, _, hc⟩
  · rw [show (x.unsubscribe 0).subs = _ from congrArg Core.subs hc, h]
    exact allShut_shutDown s
  · rw [show (x.unsubscribe 0).subs = _ from congrArg Core.subs hc, h]
    exact (allShut_shutDown s).modify 0 fun _ => rfl

/-! ## The consumer -/

/-- The subscription of a continuous consumer that is open, as its worker leaves it. -/
structure Subscription.Consumes (o : ConsumeOptions) (now seen : Nat) (s : Subscription) :
    Prop where
  opened : s.closed = false
  reads : s.worker = .reading
  alarms : s.alarms = []
  purpose : ∃ k : Continuous, s.purpose = .continuous k ∧ k.plan = .ofOptions o ∧
    k.mode ≠ .closed
  heeds : s.tracker.Heeds o.beat? now seen

/-- A call that ends the first subscription, or waits for its end. -/
def Activity.Ends : Activity → Prop
  | .drain i _ | .leave i _ => i = 0
  | _ => False

/-- The only subscription is that of a consumer, a broker serves it, and all calls end it. -/
structure Tended (o : ConsumeOptions) (seen : Nat) (c : Core) (l : Loopback)
    (s : Subscription) : Prop where
  serving : Serving o.beat? seen c l
  subs : c.subs = #[s]
  sub : s.Consumes o c.now seen
  callers : ∀ k ∈ c.callers, k.activity.Ends

namespace Tended

variable {o : ConsumeOptions} {seen : Nat} {c c' : Core} {l l' : Loopback} {s s' : Subscription}
  {x y : Exchange}

theorem subAt (h : Tended o seen c l s) : c.subs[0]? = some s := by
  rw [h.subs]
  rfl

theorem inbox (h : Tended o seen c l s) : s.inbox = inboxName 1 :=
  (h.serving.keeps.subs 0 s h.subAt).2

/-- The broker goes on. -/
theorem carry (h : Tended o seen c l s) (fs : Array Feed)
    (hc : c' = { c with transport := .loopback l', feeds := fs })
    (hs : Serving o.beat? seen c' l') : Tended o seen c' l' s := by
  subst hc
  exact ⟨hs, h.subs, h.sub, h.callers⟩

/-- The subscription changes in nothing that the accounts look at. -/
theorem become (h : Tended o seen c l s) {g : Subscription → Subscription}
    (hg : ∀ u, (g u).inbox = u.inbox ∧ (g u).feed = u.feed ∧ (g u).demand = u.demand)
    (hs : (g s).Consumes o c.now seen) :
    Tended o seen { c with subs := c.subs.modify 0 g } l (g s) where
  serving := h.serving.alike (Accounts.alike_modify (Accounts.alike_refl _) 0 hg)
  subs := by
    rw [h.subs]
    rfl
  sub := hs
  callers := h.callers

/-- The alarm task looks at the monitor and finds nothing to raise. -/
theorem alarmStep (h : Tended o seen x.core l s) :
    x.raises? 0 = none ∧ ∃ s', Tended o seen (x.alarmStep 0).1.core l s' := by
  have hsub : x.subs[0]? = some s := h.subAt
  have hquiet := h.sub.heeds.quiet (fun _ => ConsumeOptions.beat_pos)
  have hsaw : Tended o seen (x.sawMonitor 0).core l
      { s with tracker := { s.tracker with monitor := s.tracker.monitor.seen x.core.now } } :=
    h.become (g := fun u =>
        { u with tracker := { u.tracker with monitor := u.tracker.monitor.seen x.core.now } })
      (fun _ => ⟨rfl, rfl, rfl⟩)
      ⟨h.sub.opened, h.sub.reads, h.sub.alarms, h.sub.purpose, h.sub.heeds.looked⟩
  have hended : Tended o seen (x.endAlarm 0).core l { s with watching := false } := by
    unfold Exchange.endAlarm
    rw [Exchange.core_wakeLeavers]
    exact h.become (g := fun u => { u with watching := false }) (fun _ => ⟨rfl, rfl, rfl⟩)
      { h.sub with }
  unfold Exchange.raises? Exchange.alarmStep
  rw [hsub]
  dsimp only
  cases hw : s.watching with
  | false => exact ⟨rfl, s, h⟩
  | true =>
    rw [if_pos rfl, if_pos rfl]
    cases hl : s.tracker.monitor.look x.now with
    | alarm d => exact absurd hl (hquiet d)
    | stop =>
      have hc := h.sub.heeds.coherent.opened rfl
      unfold Monitor.look at hl
      rw [hc, if_neg Bool.false_ne_true] at hl
      split at hl
      · cases hl
      · split at hl
        · cases hl
        · split at hl <;> cases hl
    | breakDown =>
      refine ⟨?_, _, hended⟩
      cases s.tracker.monitor.period <;> rfl
    | wait =>
      refine ⟨?_, _, hsaw⟩
      cases s.tracker.monitor.period <;> rfl
    | sleep due =>
      refine ⟨?_, _, hsaw⟩
      cases s.tracker.monitor.period <;> rfl

/-! ## The worker -/

section Worker

variable {st : ConsumeOptions.Settings} {k : Continuous}

/-- The handler publishes a message, or not. -/
theorem answered (h : Tended o seen c l s) (m : Option Message) :
    Tended o seen { c with transport := .loopback (l.answered m) } (l.answered m) s := by
  cases m with
  | none =>
    refine h.carry c.feeds rfl (h.serving.same rfl ?_ rfl rfl)
    exact h.serving.keeps.transport.symm
  | some m => exact h.carry c.feeds rfl (h.serving.publish _ _)

/-- A frame is heeded: the feed is seen now. -/
theorem heed (h : Tended o seen x.core l s) (hplan : k.plan = .ofOptions o)
    (hm : k.mode ≠ .closed) {feed : Feed} {f : Frame} {rest : Fifo Frame}
    (hf : x.core.feeds[s.feed]? = some feed) (hpop : feed.frames.toList = f :: rest.toList) :
    ((x.popped s.feed rest).heed 0 s k f).core.now = x.core.now ∧
      ((x.popped s.feed rest).heed 0 s k f).core.feeds =
        (x.core.feeds.modify s.feed fun feed => { feed with frames := rest }) ∧
      ∃ l' s', Tended o x.core.now ((x.popped s.feed rest).heed 0 s k f).core l' s' := by
  have hpopped := Exchange.core_popped x s.feed rest
  have hcore := Exchange.core_heed (x := x.popped s.feed rest) (i := 0) (s := s) (c := k) (f := f)
    (by rw [hpopped]; exact h.serving.keeps.transport) h.serving.keeps.alive
  rw [hpopped] at hcore
  have hmanaged : Tended o x.core.now { x.core with
      feeds := x.core.feeds.modify s.feed fun feed => { feed with frames := rest }
      subs := x.core.subs.modify 0 fun u =>
        { u with tracker := s.tracker.account x.core.now f } } l
      { s with tracker := s.tracker.account x.core.now f } :=
    ⟨h.serving.managed h.subAt hf hpop, by rw [h.subs]; rfl,
      ⟨h.sub.opened, h.sub.reads, h.sub.alarms, h.sub.purpose, h.sub.heeds.account f⟩, h.callers⟩
  have hanswered := hmanaged.answered (k.handler.reply f)
  rw [hcore]
  refine ⟨rfl, rfl, ?_⟩
  cases hh : k.handler.heard f with
  | none =>
    exact ⟨_, _, hanswered.serving.same rfl rfl rfl rfl, hanswered.subs, hanswered.sub,
      hanswered.callers⟩
  | some m =>
    have hcounted := hanswered.become
      (g := fun u => { u with purpose := .continuous { k with handled := k.handled + 1 } })
      (fun _ => ⟨rfl, rfl, rfl⟩)
      ⟨hanswered.sub.opened, hanswered.sub.reads, hanswered.sub.alarms,
        ⟨{ k with handled := k.handled + 1 }, rfl, hplan, hm⟩, hanswered.sub.heeds⟩
    exact ⟨_, _, hcounted.serving.same rfl rfl rfl rfl, hcounted.subs, hcounted.sub,
      hcounted.callers⟩

/-- More is asked for, if it is time to. -/
theorem refill (hb : st.build = .ok o) (hfit : o.Fits) (h : Tended o seen x.core l s)
    (hn : x.core.now = seen) (hplan : k.plan = .ofOptions o) :
    (x.refill 0 k).core.feeds = x.core.feeds ∧
      ∃ l' s', Tended o seen (x.refill 0 k).core l' s' := by
  subst hn
  have hasks : ∀ r, k.refill? s.demand = some r → o.Asks r := by
    intro r hr
    unfold Continuous.refill? at hr
    split at hr
    · rw [hplan] at hr
      exact ConsumeOptions.asks_next hb hfit hr
    · cases hr
    · cases hr
  have hissue : ∀ r, k.refill? s.demand = some r → (s.tracker.issue x.core.now r).isSome := by
    intro r hr
    refine Option.isSome_iff_ne_none.2 fun hn => ?_
    exact Accounts.issue_eq_none_iff.1 hn (hasks r hr).goesOut
  rcases Exchange.core_refill h.serving.keeps.transport h.serving.keeps.alive h.subAt h.sub.opened
    hissue with ⟨_, he⟩ | ⟨r, t, hr, ht, hd, hc, _⟩
  · rw [he]
    exact ⟨rfl, l, s, h⟩
  · have ha := hasks r hr
    rw [hc]
    refine ⟨rfl, _, { s with tracker := t },
      h.serving.issued h.inbox h.subAt ha.fits rfl ha.wire hd, ?_,
      ⟨h.sub.opened, h.sub.reads, h.sub.alarms, h.sub.purpose,
        h.sub.heeds.issue ha.heartbeat ht⟩, h.callers⟩
    rw [h.subs]
    rfl

theorem workerStep_eq (h : Tended o seen x.core l s) : x.workerStep 0 = x.readStep 0 s := by
  have hsub : x.subs[0]? = some s := h.subAt
  unfold Exchange.workerStep
  rw [hsub]
  dsimp only
  rw [h.sub.reads]
  dsimp only
  rw [if_neg (ne_true_of_eq_false h.sub.opened)]

/-- The worker takes in a frame. -/
theorem takes (hb : st.build = .ok o) (hfit : o.Fits) (h : Tended o seen x.core l s)
    {feed : Feed} {f : Frame} {rest : Fifo Frame} (hf : x.core.feeds[s.feed]? = some feed)
    (hp : feed.frames.pop? = some (f, rest)) :
    (x.workerStep 0).1.core.feeds =
        (x.core.feeds.modify s.feed fun feed => { feed with frames := rest }) ∧
      ∃ l' s', Tended o x.core.now (x.workerStep 0).1.core l' s' := by
  obtain ⟨k, hk, hplan, hm⟩ := h.sub.purpose
  obtain ⟨hn, hfeeds, l₁, s₁, h₁⟩ := h.heed hplan hm hf (Fifo.toList_of_pop? hp)
  rw [h.workerStep_eq, (Exchange.readStep_of_frame h.subAt hf hp).2,
    Exchange.takeFrame_eq_heed hk hm]
  dsimp only
  split
  · obtain ⟨hsame, hrefilled⟩ := refill hb hfit h₁ hn hplan
    exact ⟨hsame.trans hfeeds, hrefilled⟩
  · exact ⟨hfeeds, l₁, s₁, h₁⟩

/-- The worker takes in a frame, or finds none, or ends because its feed is at its end. -/
theorem workerStep (hb : st.build = .ok o) (hfit : o.Fits) (h : Tended o seen x.core l s) :
    (∃ seen' l' s', Tended o seen' (x.workerStep 0).1.core l' s') ∨
      AllShut (x.workerStep 0).1.subs := by
  cases hf : x.feeds[s.feed]? with
  | none =>
    refine Or.inl ⟨seen, l, s, ?_⟩
    rw [h.workerStep_eq]
    unfold Exchange.readStep
    rw [hf]
    exact h
  | some feed =>
    cases hp : feed.frames.pop? with
    | some q => exact Or.inl ⟨_, (h.takes hb hfit hf hp).2⟩
    | none =>
      rw [h.workerStep_eq]
      unfold Exchange.readStep
      rw [hf]
      dsimp only
      rw [hp]
      dsimp only
      split
      · refine Or.inl ⟨seen, l, s, ?_⟩
        rw [h.sub.alarms]
        exact h
      · exact Or.inr (allShut_endWorker h.subs)

/-- Where the worker can do nothing no frame lies in the feed. -/
theorem frames_of_rest (hb : st.build = .ok o) (hfit : o.Fits) (h : Tended o seen x.core l s)
    (hr : (x.workerStep 0).1.core = x.core) (i : Nat) (f : Feed)
    (hf : x.core.feeds[i]? = some f) : f.frames.toList = [] := by
  have hlt := (Array.getElem?_eq_some_iff.1 hf).1
  have hi : i = s.feed := by
    have hsizes := h.serving.keeps.sizes
    have hfeed := (h.serving.keeps.subs 0 s h.subAt).1
    rw [h.subs] at hsizes
    have hone : x.core.feeds.size = 1 := hsizes
    omega
  subst hi
  cases hp : f.frames.pop? with
  | none => exact Fifo.pop?_eq_none_iff.1 hp
  | some q =>
    have hfeeds := (h.takes hb hfit hf hp).1
    rw [hr] at hfeeds
    have hsame : x.core.feeds[s.feed]? = some { f with frames := q.2 } := by
      rw [hfeeds, Array.getElem?_modify, if_pos rfl, hf]
      rfl
    have hframes : f.frames = q.2 :=
      congrArg Feed.frames (Option.some.inj (hf.symm.trans hsame))
    have hpop := Fifo.toList_of_pop? hp
    rw [hframes] at hpop
    exact absurd hpop (List.cons_ne_self q.1 _).symm

end Worker

end Tended

end DemandFlow
