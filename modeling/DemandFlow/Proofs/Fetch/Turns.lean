import DemandFlow.Proofs.Fetch.Hosts

/-
  The turns of an exchange that hosts an errand. Each is one step of the errand, or its task has
  nothing to do, or the alarm task has looked at a monitor that is not silent for long.
-/

namespace DemandFlow

open Broker (Chore Command WaitingPull weigh publishedBy)

namespace Errand

/-! ## Who has nothing to do -/

/-- The broker cannot post before the worker reads, or waits for commands or for the clock. -/
def BrokerIdle (a : Errand) : Prop :=
  (a.worker ≠ .ended ∧ a.frames ≠ []) ∨
    a.IsIdle ∧ a.queue = [] ∧ ∀ p, a.pull = some p → (Broker.State.due a.now p).1 = none

/-- The worker has ended, or waits for a frame or for room. -/
def WorkerIdle (a : Errand) : Prop :=
  a.worker = .ended ∨ a.stage = .reading ∧
    (a.worker = .reading ∧ a.frames = [] ∨ a.worker ≠ .reading ∧ a.deliveries ≠ [])

/-- The alarm task has ended, or waits for silence. -/
def AlarmIdle (a : Errand) : Prop := a.watching = false ∨ a.stage = .reading

/-- The caller has its answer, or waits for a delivery or for the tasks to end. -/
def CallerIdle (T : Terms) (a : Errand) : Prop :=
  a.stage = .answered ∨
    (a.stage = .reading ∧ a.deliveries = [] ∧ ¬T.options.Full a.got ∧ a.now < T.due) ∨
    a.stage = .leaving ∧ (a.worker ≠ .ended ∨ a.watching = true)

/-- Whether the alarm task of a subscription has not seen the latest of its monitor. -/
def stirs (x : Exchange) (i : Nat) : Bool :=
  ((x.subs[i]?).map fun s => s.tracker.monitor.stirred).getD false

/-- What a turn comes to. -/
inductive Turned (T : Terms) (P : Place) (n : Nat) (a : Errand) (idle : Prop)
    (x y : Exchange) : Prop
  | same (content : y.content = x.content) (idle : idle)
  | step (b : Errand) (step : Step T a b) (hosted : Hosted T P n b y)
  | saw (hosted : Hosted T P n a y) (before : stirs x P.sub = true)
    (after : stirs y P.sub = false) (idle : idle)

variable {T : Terms} {P : Place} {n : Nat} {a b : Errand} {c : Exchange.Core} {x y : Exchange}
  {l : Loopback} {feed : Feed} {s : Subscription}

/-! ## The broker -/

theorem Hosts.hosted (h : Hosts T P n b c l feed s) (hc : y.core = c)
    (hy : y.desk = P.deskAt b) : Hosted T P n b y :=
  ⟨⟨l, feed, s, hc ▸ h⟩, hy⟩

/-- Nobody has been answered. -/
theorem Hosts.hosted_of_side (h : Hosts T P n b c l feed s) (hc : y.core = c)
    (ha : x.desk = P.deskAt a) (hy : y.desk = x.desk) (hside : b.side = a.side) :
    Hosted T P n b y :=
  h.hosted hc (hy.trans (ha.trans (deskAt_of_side hside).symm))

/-- A frame is posted, dropped or lost, or has to wait. -/
theorem turned_post (h : Hosts T P n a x.core l feed s) (ha : x.desk = P.deskAt a)
    (hs : Sound T a) {b' : Broker.State} {inbox : String} {f : Frame}
    (hw : l.broker.work a.now = (b', some (inbox, f))) :
    Turned T P n a (BrokerIdle a) x (x.post l b' inbox f).1 := by
  obtain ⟨rest, hout, rfl, hserved⟩ := h.served.post hw
  have hy := Exchange.skips_desk.post x l b' T.inbox f
  have hknown : b'.knows T.inbox = a.known := hserved.known
  have hinbox : x.feedOf? T.inbox = some P.feed := h.inbox
  rcases Exchange.core_post x l b' T.inbox f with ⟨hc, hk⟩ | ⟨hc, i, feed', hi, hf, hfull⟩ |
    ⟨i, feed', hk, hi, hf, hr, _, hc⟩ | ⟨i, feed', hk, hi, hf, hr, hc⟩
  · have hk' : a.known = false := by
      rw [← hknown]
      refine hk.resolve_right fun hn => ?_
      rw [hinbox] at hn
      cases hn
    exact .step _ (.drop a f rest hout hk')
      ((h.serve hserved rfl).hosted_of_side (a := a) hc ha hy rfl)
  · cases hinbox.symm.trans hi
    cases h.feedAt.symm.trans hf
    have hframes : a.frames ≠ [] := by
      intro hn
      have hsize : feed.frames.size = 0 := by
        rw [← Fifo.length_toList, h.fed.frames, hn]
        rfl
      have hcap := h.fed.capacity
      have hle : feed.capacity ≤ feed.frames.size := of_decide_eq_true hfull
      omega
    exact .same (Prod.ext hc hy) (Or.inl ⟨fun he => hframes (h.fed.lost he), hframes⟩)
  · cases hinbox.symm.trans hi
    cases h.feedAt.symm.trans hf
    have hworker : a.worker ≠ .ended := of_decide_eq_true (h.fed.reading.symm.trans hr)
    have hfed : Fed { a with out := rest, frames := a.frames ++ [f] } (feed.push f) :=
      { h.fed with
        frames := by rw [Feed.toList_push, h.fed.frames]
        lost := fun he => absurd he hworker }
    have hh := (h.serve hserved rfl).modifyFeed (g := fun feed => feed.push f) (fun _ => rfl) hfed
    exact .step _ (.post a f rest hout (hknown.symm.trans hk) hworker)
      (hh.hosted hc (hy.trans ha))
  · cases hinbox.symm.trans hi
    cases h.feedAt.symm.trans hf
    have hworker : a.worker = .ended := by
      have hnot := h.fed.reading.symm.trans hr
      exact not_not.1 (of_decide_eq_false hnot)
    have hst : a.stage ≠ .reading := fun hst => by
      obtain ⟨stop, hreads⟩ := hs.reads hst
      exact hreads.worker hworker
    have hlost : Served T n { a with out := rest, known := false, pull := none }
        { l with broker := b'.forget T.inbox } :=
      { hserved with
        known := Broker.State.knows_forget _ _
        waiting := by
          show b'.waiting.filter _ = []
          rw [show b'.waiting = a.pull.toList from hserved.waiting, List.filter_eq_nil_iff]
          intro p hp
          simp [(hs.pull p (Option.mem_toList.1 hp)).inbox] }
    exact .step _ (.lose a f rest hout (hknown.symm.trans hk) hworker)
      (((h.serve hlost rfl).shut hst).hosted_of_side (a := a) hc ha hy rfl)

/-- A command is taken in. -/
theorem turned_command (h : Hosts T P n a x.core l feed s) (ha : x.desk = P.deskAt a)
    (hs : Sound T a) (hag : l.broker.agenda = []) {k : Command} {rest : Fifo Command}
    (hp : l.commands.pop? = some (k, rest)) :
    Turned T P n a (BrokerIdle a) x (x.takeCommand k rest) := by
  obtain ⟨b, hstep, hserved, hside⟩ := h.served.accept hs hag hp
  have hnext : a.queue = k :: rest.toList := h.served.commands.symm.trans (Fifo.toList_of_pop? hp)
  have hcommand := hs.command hnext
  have hstats : ∀ asker, k ≠ .stats asker := by
    rintro asker rfl
    simp at hcommand
  have hlog : ∀ asker, k ≠ .pullLog asker := by
    rintro asker rfl
    simp at hcommand
  have hc := Exchange.core_takeCommand h.transport hstats hlog rest
  have hy := Exchange.desk_takeCommand x hstats hlog rest
  rw [h.now] at hc
  have hh := h.serve hserved hside
  rcases hcommand with ⟨m, rfl⟩ | rfl | ⟨rfl, _⟩ | ⟨rfl, hst⟩
  · exact .step b hstep (hh.hosted_of_side hc ha hy hside)
  · exact .step b hstep (hh.hosted_of_side hc ha hy hside)
  · exact .step b hstep (hh.hosted_of_side hc ha hy hside)
  · have hst' : b.stage ≠ .reading := by
      rw [show b.stage = a.stage from congrArg (fun t => t.2.2.2.2.2.2.2) hside]
      exact hst
    exact .step b hstep ((hh.shut hst').hosted_of_side hc ha hy hside)

/-- The broker's turn. -/
theorem turned_broker (h : Hosts T P n a x.core l feed s) (ha : x.desk = P.deskAt a)
    (hs : Sound T a) : Turned T P n a (BrokerIdle a) x x.brokerStep.1 := by
  rcases Exchange.brokerStep_cases h.transport h.served.alive with ⟨b', hag, hw, he⟩ |
    ⟨b', inbox, f, hw, he⟩ | ⟨k, rest, hag, hp, he⟩ | ⟨hag, hempty, he⟩
  · rw [h.now] at hw
    obtain ⟨b, hstep, hserved, hside⟩ := h.served.work hs hag hw
    rw [he]
    exact .step b hstep ((h.serve hserved hside).hosted_of_side rfl ha rfl hside)
  · rw [h.now] at hw
    rw [he]
    exact turned_post h ha hs hw
  · rw [he]
    exact turned_command h ha hs hag hp
  · have hqueue : a.queue = [] := h.served.commands.symm.trans hempty
    rw [he]
    rcases h.served.fire hs hag with ⟨hsame, hnone⟩ | ⟨⟨b, hstep, hserved, hside⟩, t, ht, hle⟩
    · refine .same ?_ (Or.inr ⟨h.served.idle hag, hqueue, hnone⟩)
      rcases Exchange.idle_cases x h.served.held with hi | ⟨due, hi⟩ | hi
      · rw [hi, h.now, hsame]
        refine Prod.ext ?_ rfl
        show { x.core with transport := .loopback l } = x.core
        rw [← h.transport]
      · rw [hi]
        rfl
      · rw [hi]
        rfl
    · have hnow : x.now = a.now := h.now
      have hi : x.idle l = (x.setBroker l (l.broker.fireTimers a.now), true) := by
        unfold Exchange.idle
        rw [ht]
        dsimp only
        rw [if_pos (by rw [hnow]; exact hle), hnow]
      rw [hi]
      exact .step b hstep ((h.serve hserved hside).hosted_of_side rfl ha rfl hside)

/-- The broker looks at its timers although commands wait. -/
theorem turned_timers (h : Hosts T P n a x.core l feed s) (ha : x.desk = P.deskAt a)
    (hs : Sound T a) : Turned T P n a True x (x.fire 0) := by
  have hy := Exchange.desk_fire x 0
  rcases Exchange.core_fire h.transport 0 with hc | ⟨hag, hc⟩
  · exact .same (Prod.ext hc hy) trivial
  · rw [Nat.add_zero, h.now] at hc
    rcases h.served.fire hs hag with ⟨hsame, _⟩ | ⟨⟨b, hstep, hserved, hside⟩, _⟩
    · refine .same (Prod.ext ?_ hy) trivial
      rw [hsame] at hc
      refine hc.trans ?_
      rw [← h.now]
      show { x.core with transport := .loopback l } = x.core
      rw [← h.transport]
    · rw [← h.now] at hc hserved
      exact .step b hstep ((h.serve hserved hside).hosted_of_side hc ha hy hside)

/-! ## The worker -/

theorem Attended.closed_iff (h : Attended T P a s) : s.closed = true ↔ a.stage ≠ .reading := by
  rw [h.closed, decide_eq_true_eq]

/-- A worker whose subscription is shut down ends. -/
theorem turned_quit (h : Hosts T P n a x.core l feed s) (ha : x.desk = P.deskAt a)
    (hst : a.stage ≠ .reading) (hw : a.worker ≠ .ended) :
    Turned T P n a (WorkerIdle a) x (x.endWorker P.sub) := by
  have hc := Exchange.core_endWorker_of h.subAt
  rw [h.attended.feed] at hc
  have hfed : Fed { a with worker := .ended, frames := [] } feed.abandon :=
    ⟨rfl, rfl, fun hr => absurd hr hst, fun _ => rfl, h.fed.capacity⟩
  have hclosed : decide (a.stage ≠ .reading) = true := decide_eq_true hst
  have hattended : Attended T P { a with worker := .ended, frames := [] } s.ended :=
    { h.attended with
      closed := hclosed.symm
      worker := rfl
      shut := hclosed.symm }
  have hh := h.modify (b := { a with worker := .ended, frames := [] }) (g := Feed.abandon)
    (k := Subscription.ended) (fun _ => rfl) { h.served with } hfed hattended rfl rfl
  exact .step _ (.quit a hst hw)
    (hh.hosted hc ((Exchange.skips_desk.endWorker x P.sub).trans ha))

/-- A worker that takes in a frame for a fetch holds what the frame leads to, if anything. -/
theorem core_takeFrame_of_fetch {i : Nat} {f : Frame} {rest : Fifo Frame}
    (ht : Exchange.Takes x i s f rest) {fetch : Fetch} {due : Nat}
    (hp : s.purpose = .fetch fetch due) :
    ((x.popped s.feed rest).takeFrame i s f).1.core = { x.core with
        feeds := x.core.feeds.modify s.feed fun feed => { feed with frames := rest }
        subs := x.core.subs.modify i fun _ => s.takes x.now f } ∧
      ((x.popped s.feed rest).takeFrame i s f).1.desk = x.desk := by
  have hdesk : ((x.popped s.feed rest).account i s f).desk = x.desk := by
    rw [Exchange.skips_desk.account, Exchange.desk_popped]
  have hafter : s.after f = .of f.delivery? := by
    unfold Subscription.after
    rw [hp]
    rfl
  unfold Frame.delivery? at hafter
  unfold Exchange.takeFrame
  rw [hp]
  cases hk : Intake.ofFrame f with
  | message m =>
    rw [hk] at hafter
    exact ⟨Exchange.core_managed_hold ht hafter rfl, hdesk⟩
  | heartbeat =>
    rw [hk] at hafter
    exact ⟨Exchange.core_managed_reading ht hafter, hdesk⟩
  | terminus st =>
    rw [hk] at hafter
    exact ⟨Exchange.core_managed_hold ht hafter rfl, hdesk⟩
  | warning st =>
    rw [hk] at hafter
    exact ⟨(Exchange.core_notify _ _).trans (Exchange.core_managed_reading ht hafter),
      (Exchange.desk_notify _ _).trans hdesk⟩
  | error st =>
    rw [hk] at hafter
    exact ⟨Exchange.core_managed_hold ht hafter (Exchange.core_notify _ _),
      (Exchange.desk_notify _ _).trans hdesk⟩

/-- A worker that reads takes in the next frame. -/
theorem turned_take (h : Hosts T P n a x.core l feed s) (ha : x.desk = P.deskAt a)
    (hst : a.stage = .reading) (hw : a.worker = .reading) {f : Frame} {rest : Fifo Frame}
    (hp : feed.frames.pop? = some (f, rest)) :
    Turned T P n a (WorkerIdle a) x (x.readStep P.sub s).1 := by
  have hfeed : x.feeds[s.feed]? = some feed := by
    rw [h.attended.feed]
    exact h.feedAt
  have hnext : a.frames = f :: rest.toList := h.fed.frames.symm.trans (Fifo.toList_of_pop? hp)
  have hclosed : s.closed = false := by
    rw [h.attended.closed, hst]
    rfl
  have htakes : Exchange.Takes x P.sub s f rest :=
    ⟨h.subAt, hclosed, h.attended.worker.trans hw, feed, hfeed, hp⟩
  obtain ⟨fetch, hpurpose, hcounts⟩ := h.attended.purpose
  obtain ⟨hc, hy⟩ := core_takeFrame_of_fetch htakes hpurpose
  obtain ⟨hshut, hseen, hperiod⟩ := Tracker.monitor_account x.now f s.tracker
  rw [h.attended.feed] at hc hy
  have hread : (x.readStep P.sub s).1 = ((x.popped P.feed rest).takeFrame P.sub s f).1 := by
    rw [(Exchange.readStep_of_frame h.subAt hfeed hp).2, h.attended.feed]
  have hworker : s.after f = .of f.delivery? := by
    unfold Subscription.after
    rw [hpurpose]
    rfl
  have hnow : x.now = a.now := h.now
  let b : Errand := { a with frames := rest.toList, worker := .of f.delivery?, seen := a.now }
  have hopen : b.worker ≠ .ended := by
    show Worker.of f.delivery? ≠ .ended
    cases f.delivery? <;> exact fun he => by cases he
  have hfed : Fed b { feed with frames := rest } :=
    { h.fed with
      frames := rfl
      reading := by
        show feed.reading = _
        rw [h.fed.reading, hw, decide_eq_true hopen]
        rfl
      lost := fun he => absurd he hopen }
  have hattended : Attended T P b (s.takes x.now f) :=
    { h.attended with
      worker := hworker
      purpose := ⟨fetch, hpurpose, hcounts⟩
      shut := hshut.trans h.attended.shut
      seen := hseen.trans hnow
      period := fun p hp => h.attended.period p (hperiod.symm.trans hp) }
  have hh := h.modify (b := b) (g := fun feed => { feed with frames := rest })
    (k := fun _ => s.takes x.now f) (fun _ => rfl) { h.served with } hfed hattended rfl rfl
  rw [hread]
  exact .step b (.take a f rest.toList hst hw hnext) (hh.hosted hc (hy.trans ha))

/-- The worker puts its delivery in the queue, which has room for it if nothing else is there. -/
theorem turned_hold (h : Hosts T P n a x.core l feed s) (ha : x.desk = P.deskAt a)
    (hst : a.stage = .reading) {d : Delivery} (hworker : a.worker = .holding d) :
    Turned T P n a (WorkerIdle a) x (x.holdStep P.sub s d).1 := by
  unfold Exchange.holdStep
  split
  · have hh := h.modifySub
      (b := { a with deliveries := a.deliveries ++ [d], worker := .reading })
      (k := fun s => s.enqueue d) { h.served with }
      { h.fed with
        reading := by rw [h.fed.reading, hworker]; rfl
        lost := fun he => by cases he }
      { h.attended with
        worker := rfl
        queue := (Fifo.toList_push _ _).trans (congrArg (· ++ [d]) h.attended.queue) } rfl rfl
    exact .step _ (.enqueue a d hst hworker) (hh.hosted (Exchange.core_wakeAll _ _)
      ((Exchange.skips_desk.wakeAll _ _).trans ha))
  · rename_i hroom
    refine .same rfl (Or.inr ⟨hst, Or.inr ⟨?_, fun hn => ?_⟩⟩)
    · rw [hworker]
      exact fun he => by cases he
    · have hsize : s.queue.size = 0 := by
        rw [← Fifo.length_toList, h.attended.queue, hn]
        rfl
      unfold Subscription.hasRoom at hroom
      rw [hsize] at hroom
      exact hroom (decide_eq_true h.attended.capacity)

/-- The worker's turn. -/
theorem turned_worker (h : Hosts T P n a x.core l feed s) (ha : x.desk = P.deskAt a) :
    Turned T P n a (WorkerIdle a) x (x.workerStep P.sub).1 := by
  have hsub : x.subs[P.sub]? = some s := h.subAt
  unfold Exchange.workerStep
  rw [hsub]
  dsimp only
  by_cases hst : a.stage = .reading
  · have hclosed : ¬s.closed = true := by
      rw [h.attended.closed_iff, not_not]
      exact hst
    cases hw : s.worker with
    | ended => exact .same rfl (Or.inl (h.attended.worker.symm.trans hw))
    | holding d =>
      dsimp only
      rw [if_neg hclosed]
      exact turned_hold h ha hst (h.attended.worker.symm.trans hw)
    | reading =>
      have hworker : a.worker = .reading := h.attended.worker.symm.trans hw
      dsimp only
      rw [if_neg hclosed]
      cases hp : feed.frames.pop? with
      | some q => exact turned_take h ha hst hworker hp
      | none =>
        have hfeed : x.feeds[s.feed]? = some feed := by
          rw [h.attended.feed]
          exact h.feedAt
        have hidle : x.readStep P.sub s = (x, false) := by
          unfold Exchange.readStep
          rw [hfeed]
          dsimp only
          rw [hp]
          dsimp only
          rw [if_pos (h.fed.writing hst), h.attended.alarms]
        rw [hidle]
        exact .same rfl (Or.inr ⟨hst, Or.inl ⟨hworker,
          h.fed.frames.symm.trans (Fifo.pop?_eq_none_iff.1 hp)⟩⟩)
  · have hclosed : s.closed = true := h.attended.closed_iff.2 hst
    cases hw : s.worker with
    | ended => exact .same rfl (Or.inl (h.attended.worker.symm.trans hw))
    | holding d =>
      dsimp only
      rw [if_pos hclosed]
      refine turned_quit h ha hst fun he => ?_
      rw [← h.attended.worker, hw] at he
      cases he
    | reading =>
      dsimp only
      rw [if_pos hclosed]
      refine turned_quit h ha hst fun he => ?_
      rw [← h.attended.worker, hw] at he
      cases he

/-! ## The alarm task -/

/-- A monitor that has seen a frame or a beat lately raises no alarm. -/
theorem look_of_alert (h : Attended T P a s) (hs : Sound T a) (hst : a.stage = .reading)
    (d : Span) : s.tracker.monitor.look a.now ≠ .alarm d := by
  intro hlook
  obtain ⟨_, _, _, p, hp, hle⟩ := Monitor.look_eq_alarm hlook
  obtain ⟨beat, hbeat, hnanos⟩ := h.period p hp
  obtain ⟨stop, hreads⟩ := hs.reads hst
  have halert := hreads.alert beat hbeat
  have hpos := beat_pos T hbeat
  have hmult : Monitor.multiplier = 3 := rfl
  rw [h.seen, hnanos, hmult] at hle
  omega

/-- The alarm task looks at its monitor, and nothing else happens. -/
theorem turned_saw (h : Hosts T P n a x.core l feed s) (ha : x.desk = P.deskAt a)
    (hst : a.stage = .reading)
    (hseen : s.tracker.monitor.seen a.now = { s.tracker.monitor with stirred := false })
    (hc : y.core = (x.sawMonitor P.sub).core) (hy : y.desk = x.desk) :
    Turned T P n a (AlarmIdle a) x y := by
  have hnow : x.now = a.now := h.now
  have hsub : x.subs[P.sub]? = some s := h.subAt
  have hsaw : (x.sawMonitor P.sub).core = { x.core with
      subs := x.core.subs.modify P.sub fun _ => { s with tracker := { s.tracker with
        monitor := { s.tracker.monitor with stirred := false } } } } := by
    unfold Exchange.sawMonitor
    rw [Exchange.core_modifySub]
    refine congrArg (fun ss => { x.core with subs := ss }) (Exchange.modify_congr fun u hu => ?_)
    cases h.subAt.symm.trans hu
    rw [hnow, hseen]
  have hhosted : Hosted T P n a y := by
    have hh := h.modifySub (b := a) (k := fun _ => { s with tracker := { s.tracker with
      monitor := { s.tracker.monitor with stirred := false } } }) h.served h.fed
      { h.attended with } rfl rfl
    exact hh.hosted (hc.trans hsaw) (hy.trans ha)
  cases hstirred : s.tracker.monitor.stirred with
  | true =>
    refine .saw hhosted ?_ ?_ (Or.inr hst)
    · unfold stirs
      rw [hsub]
      exact hstirred
    · unfold stirs
      rw [show y.subs = _ from congrArg Exchange.Core.subs (hc.trans hsaw),
        Array.getElem?_modify, if_pos rfl, h.subAt]
      rfl
  | false =>
    refine .same (Prod.ext (hc.trans (hsaw.trans ?_)) hy) (Or.inr hst)
    have hsame : x.core.subs.modify P.sub (fun _ => { s with tracker := { s.tracker with
        monitor := { s.tracker.monitor with stirred := false } } }) =
        x.core.subs.modify P.sub id := by
      refine Exchange.modify_congr fun u hu => ?_
      cases h.subAt.symm.trans hu
      rw [← hstirred]
      rfl
    rw [hsame, Exchange.modify_id]
    rfl

/-- The turn of the alarm task. -/
theorem turned_alarm (h : Hosts T P n a x.core l feed s) (ha : x.desk = P.deskAt a)
    (hs : Sound T a) : Turned T P n a (AlarmIdle a) x (x.alarmStep P.sub).1 := by
  have hsub : x.subs[P.sub]? = some s := h.subAt
  have hnow : x.now = a.now := h.now
  unfold Exchange.alarmStep
  rw [hsub]
  dsimp only
  split
  · rename_i hwatching
    have hwatch : a.watching = true := h.attended.watching.symm.trans hwatching
    have hended : ∀ y : Exchange, y.core = x.core → y.desk = x.desk →
        Turned T P n a (AlarmIdle a) x (y.endAlarm P.sub) := by
      intro y hc hy
      have hh := h.modifySub (b := { a with watching := false })
        (k := fun s => { s with watching := false }) { h.served with } { h.fed with }
        { h.attended with watching := rfl } rfl rfl
      refine .step _ (.rest a hwatch) (hh.hosted ?_ ?_)
      · unfold Exchange.endAlarm
        rw [Exchange.core_wakeLeavers, ← hc]
        rfl
      · exact (Exchange.skips_desk.endAlarm y P.sub).trans (hy.trans ha)
    by_cases hst : a.stage = .reading
    · have hno := look_of_alert h.attended hs hst
      rw [hnow]
      cases hlook : s.tracker.monitor.look a.now with
      | stop =>
        have hopen : s.tracker.monitor.closed = false := by
          rw [h.attended.shut, hst]
          rfl
        unfold Monitor.look at hlook
        rw [if_neg (ne_true_of_eq_false hopen)] at hlook
        split at hlook
        · cases hlook
        · split at hlook
          · cases hlook
          · split at hlook <;> cases hlook
      | breakDown => exact hended x rfl rfl
      | wait =>
        refine turned_saw h ha hst ?_ rfl rfl
        unfold Monitor.seen
        rw [hlook]
      | sleep due =>
        refine turned_saw h ha hst ?_ rfl rfl
        unfold Monitor.seen
        rw [hlook]
      | alarm d => exact absurd hlook (hno d)
    · have hlook : s.tracker.monitor.look x.now = .stop := by
        unfold Monitor.look
        rw [if_pos (h.attended.shut.trans (decide_eq_true hst))]
      rw [hlook]
      exact hended (x.note Journal.monitorStopped) rfl rfl
  · rename_i hwatching
    exact .same rfl (Or.inl (h.attended.watching.symm.trans (Bool.eq_false_iff.2 hwatching)))

end Errand

end DemandFlow
