import DemandFlow.Proofs.Wake.Parting

/-
  A fetch beside all that can happen. What its reader sees, the shelf of the subscription, changes
  only when the worker has its turn or somebody reads: nobody else adds a delivery or takes one,
  counts a message or gives the fetch another state. So what is said of a shelf stays true in
  every other move (`Reserved.next`). It does so in those of the worker if it says nothing of what
  a worker changes, and in those of readers if it is true of every shelf of a fetch that is over.
-/

namespace DemandFlow

/-- What a reader sees of a subscription. -/
structure Shelf where
  queue : Fifo Delivery
  readers : List Nat
  purpose : Purpose
  worker : Worker

def Subscription.shelf (s : Subscription) : Shelf := ⟨s.queue, s.readers, s.purpose, s.worker⟩

namespace Shelf

/-- A property of shelves from which a fetch takes. -/
def OfFetch (P : Shelf → Prop) : Prop := ∀ h, P h → ∃ f due, h.purpose = .fetch f due

/-- A property that workers leave true until they pass a delivery on or end. -/
def Holds (P : Shelf → Prop) : Prop := ∀ h w, w ≠ .ended → P h → P { h with worker := w }

/-- A property that workers leave true. -/
def Busy (P : Shelf → Prop) : Prop := ∀ h q w, P h → P { h with queue := q, worker := w }

/-- A property that readers leave true: the fetch is over, whatever the queue is. -/
structure Idle (P : Shelf → Prop) : Prop where
  line : ∀ h q rs, P h → P { h with queue := q, readers := rs }
  finished : ∀ h f due, P h → h.purpose = .fetch f due → f.finished = true

theorem Busy.holds {P : Shelf → Prop} (h : Busy P) : Holds P := fun g w _ hg => h g g.queue w hg

end Shelf

namespace Exchange

/-- A subscription is there with a shelf of which `P` holds, and whoever reads from it is one of
`R`. -/
structure Reserved (P : Shelf → Prop) (R : Nat → Prop) (i : Nat) (x : Exchange) : Prop where
  shelf : ∃ s : Subscription, x.subs[i]? = some s ∧ P s.shelf
  readers : ∀ c ∈ x.callers, sourceOf? c.activity = some i → R c.id

/-- The subscription from which a call reads. -/
def Move.reads? : Move → Option Nat
  | .read i _ | .readAll i _ | .collect i _ => some i
  | _ => none

variable {P : Shelf → Prop} {R : Nat → Prop} {i j n : Nat} {x y : Exchange}

/-- At the end of its feed the worker ends. -/
theorem readStep_of_ended {s : Subscription} {feed : Feed} (hf : x.feeds[s.feed]? = some feed)
    (hpop : feed.frames.pop? = none) (hw : feed.writing = false) :
    x.readStep j s = ((x.note (Journal.feedEnded s.inbox)).endWorker j, false) := by
  unfold readStep
  rw [hf]
  dsimp only
  rw [hpop]
  dsimp only
  rw [if_neg (ne_true_of_eq_false hw)]

namespace Reserved

/-! ## Steps elsewhere -/

theorem same (h : Reserved P R i x) (hs : y.subs = x.subs) (hc : y.callers = x.callers) :
    Reserved P R i y :=
  ⟨hs.symm ▸ h.shelf, hc.symm ▸ h.readers⟩

theorem of_core (h : Reserved P R i x) (hy : y.core = x.core) : Reserved P R i y :=
  h.same (congrArg Core.subs hy) (congrArg Core.callers hy)

theorem stays (h : Reserved P R i x) (hy : Stays x y) (hs : y.subs = x.subs) : Reserved P R i y :=
  h.same hs hy.callers

/-- One subscription changes; if it is this one, in a way that leaves `P` true. -/
theorem alter (h : Reserved P R i x) {g : Subscription → Subscription}
    (hs : y.subs = x.subs.modify j g) (hc : y.callers = x.callers)
    (hg : j = i → ∀ s : Subscription, P s.shelf → P (g s).shelf) : Reserved P R i y := by
  obtain ⟨s, hx, hP⟩ := h.shelf
  refine ⟨?_, hc.symm ▸ h.readers⟩
  rw [hs, Array.getElem?_modify]
  by_cases hj : j = i
  · rw [if_pos hj, hx]
    exact ⟨g s, rfl, hg hj s hP⟩
  · rw [if_neg hj]
    exact ⟨s, hx, hP⟩

theorem modifySub (h : Reserved P R i x) (j : Nat) {g : Subscription → Subscription}
    (hg : j = i → ∀ s : Subscription, P s.shelf → P (g s).shelf) :
    Reserved P R i (x.modifySub j g) := h.alter rfl rfl hg

/-- A change of a subscription beside its shelf. -/
theorem beside (h : Reserved P R i x) {g : Subscription → Subscription} (hy : Stays x y)
    (hs : y.subs = x.subs.modify j g) (hg : ∀ s : Subscription, (g s).shelf = s.shelf) :
    Reserved P R i y :=
  h.alter hs hy.callers fun _ s hP => (hg s).symm ▸ hP

theorem note (h : Reserved P R i x) (e : Log.Entry) : Reserved P R i (x.note e) := h.of_core rfl

theorem wake (h : Reserved P R i x) (t : Task) : Reserved P R i (x.wake t) :=
  h.of_core (core_wake x t)

theorem wakeAll (h : Reserved P R i x) (ts : List Task) : Reserved P R i (x.wakeAll ts) :=
  h.of_core (core_wakeAll x ts)

theorem notify (h : Reserved P R i x) (a : Notice) : Reserved P R i (x.notify a) :=
  h.of_core (core_notify x a)

theorem keepTimer (h : Reserved P R i x) (t : Task) (due : Nat) :
    Reserved P R i (x.keepTimer t due) := h.of_core (core_keepTimer x t due)

theorem closeFeed (h : Reserved P R i x) (inbox : String) : Reserved P R i (x.closeFeed inbox) :=
  h.stays (stays_closeFeed x inbox) (subs_of_affairs (skips_affairs.closeFeed x inbox))

theorem send (h : Reserved P R i x) (c : Broker.Command) : Reserved P R i (x.send c).1 :=
  h.stays (stays_send x c) (subs_of_affairs (skips_affairs.send x c))

theorem publish (h : Reserved P R i x) (m : Message) : Reserved P R i (x.publish m).1 := by
  unfold Exchange.publish
  split
  · rename_i l _
    have hnumbered : Reserved P R i
        { x with transport := .loopback { l with nextSequence := l.nextSequence + 1 } } :=
      h.same rfl rfl
    exact hnumbered.send _
  · exact h

theorem release (h : Reserved P R i x) (inbox : String) : Reserved P R i (x.release inbox) :=
  h.stays (stays_release x inbox) (subs_release x inbox)

/-! ## Owners -/

theorem openSub (h : Reserved P R i x) (p : Purpose) : Reserved P R i (x.openSub p).1 := by
  rcases subs_openSub x p with hs | ⟨inbox, feed, now, capacity, hs⟩
  · exact h.stays (stays_openSub x p) hs
  · obtain ⟨s, hx, hP⟩ := h.shelf
    refine ⟨⟨s, ?_, hP⟩, (stays_openSub x p).callers.symm ▸ h.readers⟩
    obtain ⟨hlt, _⟩ := Array.getElem?_eq_some_iff.1 hx
    rw [hs, Array.getElem?_push, if_neg (Nat.ne_of_lt hlt)]
    exact hx

/-- Another tracker. -/
theorem retracked (h : Reserved P R i x) (t : Tracker)
    (hs : y.subs = x.subs.modify j fun s => { s with tracker := t }) (hc : y.callers = x.callers) :
    Reserved P R i y := h.alter hs hc fun _ _ hP => hP

theorem pull (h : Reserved P R i x) (j : Nat) (r : PullRequest) :
    Reserved P R i (x.pull j r).1 := by
  cases hs : x.subs[j]? with
  | none =>
    unfold Exchange.pull
    rw [hs]
    exact h
  | some s =>
    cases hc : s.closed with
    | true =>
      unfold Exchange.pull
      rw [hs]
      dsimp only
      rw [if_pos hc]
      exact h
    | false =>
      obtain ⟨t, ⟨_, hy⟩ | ⟨_, hy⟩⟩ := core_pull_cases hs hc r
      · exact h.retracked t (congrArg Core.subs hy) (congrArg Core.callers hy)
      · exact h.retracked t (congrArg Core.subs hy) (congrArg Core.callers hy)

theorem unsubscribe (h : Reserved P R i x) (j : Nat) : Reserved P R i (x.unsubscribe j) :=
  h.beside (stays_unsubscribe x j) (subs_unsubscribe x j) fun _ => rfl

theorem dropSub (h : Reserved P R i x) (j : Nat) (inside : Bool) :
    Reserved P R i (x.dropSub j inside) :=
  h.beside (stays_dropSub x j inside) (subs_dropSub x j inside) fun _ => rfl

theorem openWith (h : Reserved P R i x) (p : Purpose) (r : PullRequest) :
    Reserved P R i (x.openWith p r).1 := by
  have ho := h.openSub p
  unfold Exchange.openWith
  split
  · rename_i hy
    rw [hy] at ho
    exact ho
  · rename_i k hy
    rw [hy] at ho
    have hp := ho.pull k r
    split
    · rename_i hz
      rw [hz] at hp
      exact hp.dropSub k true
    · rename_i hz
      rw [hz] at hp
      exact hp

theorem openContinuous (h : Reserved P R i x) (o : ConsumeOptions) (d : Handler) :
    Reserved P R i (x.openContinuous o d).1 := by
  have ho := h.openWith (.continuous (.start o d)) o.initial
  unfold Exchange.openContinuous
  split
  · rename_i hy
    rw [hy] at ho
    exact ho
  · rename_i hy
    rw [hy] at ho
    exact ho.note _

/-- To close a consumer leaves a fetch alone. -/
theorem closeContinuous (hP : Shelf.OfFetch P) (h : Reserved P R i x) (j : Nat) :
    Reserved P R i (x.closeContinuous j) := by
  refine h.modifySub j fun _ s hs => ?_
  obtain ⟨f, due, hp⟩ := hP _ hs
  rw [show s.purpose = .fetch f due from hp]
  exact hs

theorem discard (h : Reserved P R i x) (j : Nat) (inside : Bool) :
    Reserved P R i (x.discard j inside) := by
  unfold Exchange.discard
  split
  · exact h.modifySub j fun _ _ hP => hP
  · exact h.dropSub j inside

theorem dropOrphans (h : Reserved P R i x) : Reserved P R i x.dropOrphans := by
  unfold Exchange.dropOrphans
  refine List.foldlRecOn _ _ h fun y hy k _ => ?_
  split
  · split
    · exact hy.dropSub k true
    · exact hy
  · exact hy

/-- A new caller that reads from the subscription is one of `R`. -/
theorem callBehind (h : Reserved P R i x) (a : Activity)
    (ha : sourceOf? a = some i → Shelf.Idle P ∧ R x.nextCaller) :
    Reserved P R i (x.callBehind a).1 := by
  have hline : ∃ s : Subscription, (x.callBehind a).1.subs[i]? = some s ∧ P s.shelf := by
    obtain ⟨s, hx, hP⟩ := h.shelf
    rw [show Exchange.subs _ = joined a x.nextCaller x.subs from
      congrArg Core.subs (core_callBehind x a)]
    unfold joined
    cases hsource : sourceOf? a with
    | none => exact ⟨s, hx, hP⟩
    | some j =>
      dsimp only
      rw [Array.getElem?_modify]
      by_cases hj : j = i
      · rw [if_pos hj, hx]
        exact ⟨_, rfl, (ha (hj ▸ hsource)).1.line _ _ _ hP⟩
      · rw [if_neg hj]
        exact ⟨s, hx, hP⟩
  refine ⟨hline, fun c hc hsource => ?_⟩
  rw [callers_callBehind] at hc
  rcases List.mem_append.1 hc with hc | hc
  · exact h.readers c hc hsource
  · cases List.mem_singleton.1 hc
    exact (ha hsource).2

theorem drainBehind (hP : Shelf.OfFetch P) (h : Reserved P R i x) (j : Nat) (grace : Span) :
    Reserved P R i (x.drainBehind j grace) := by
  unfold Exchange.drainBehind beginDrain
  cases hs : x.subs[j]? with
  | none => exact h
  | some s =>
    dsimp only
    cases hp : s.purpose with
    | manual | fetch _ _ => exact h
    | continuous c =>
      dsimp only
      cases c.drain? with
      | none => exact h
      | some d =>
        dsimp only
        refine callBehind (.note (h.modifySub j fun hj => ?_) _) _ nofun
        -- the subscription is another one, since this one belongs to a fetch
        obtain ⟨u, hu, hPu⟩ := h.shelf
        obtain ⟨f, due, hf⟩ := hP _ hPu
        cases (hj ▸ hs).symm.trans hu
        cases hp.symm.trans hf

/-! ## The tasks of subscriptions -/

theorem farewell (h : Reserved P R i x) (j : Nat) : Reserved P R i (x.farewell j) := by
  unfold Exchange.farewell
  split
  · exact h
  · exact (h.release _).note _

theorem alarmStep (h : Reserved P R i x) (j : Nat) : Reserved P R i (x.alarmStep j).1 := by
  have hsaw : Reserved P R i (x.sawMonitor j) := h.modifySub j fun _ _ hP => hP
  have hend : ∀ {z : Exchange}, Reserved P R i z → Reserved P R i (z.endAlarm j) := fun {z} hz =>
    hz.alter (subs_endAlarm z j) (stays_endAlarm z j).callers fun _ _ hP => hP
  unfold Exchange.alarmStep
  split
  · exact h
  · split
    · split
      · exact hend (h.note _)
      · exact hsaw.same rfl rfl
      · exact hsaw.same rfl rfl
      · dsimp only
        refine Reserved.wake ?_ _
        exact (hsaw.note _).modifySub j fun _ _ hP => hP
      · exact hend h
    · exact h

/-- What happens to another subscription. -/
theorem elsewhere (h : Reserved P R i x) (hj : j ≠ i) (g : Subscription → Subscription) :
    Reserved P R i (x.modifySub j g) := h.modifySub j fun he => absurd he hj

theorem hold (h : Reserved P R i x) (hj : j = i → Shelf.Holds P) (d : Delivery) :
    Reserved P R i (x.hold j d) := h.modifySub j fun he s hs => hj he s.shelf _ nofun hs

theorem endWorker (h : Reserved P R i x) (hj : j = i → Shelf.Busy P) :
    Reserved P R i (x.endWorker j) :=
  h.alter (subs_endWorker x j) (stays_endWorker x j).callers fun he s hs =>
    hj he s.shelf s.queue .ended hs

theorem refill (h : Reserved P R i x) (j : Nat) (c : Continuous) :
    Reserved P R i (x.refill j c) := by
  rcases refill_cases x j c with ⟨he, _⟩ | ⟨s, r, _, _, he | ⟨e, he⟩⟩
  · rw [he]
    exact h
  · exact he ▸ (h.note _).pull j r
  · exact he ▸ ((h.note _).pull j r).note e

theorem handle (h : Reserved P R i x) (hj : j ≠ i) (inbox : String) (c : Continuous)
    (m : Message) : Reserved P R i (x.handle j inbox c m) := by
  have hkept : Reserved P R i (x.kept j c m) :=
    (h.elsewhere hj fun s =>
      { s with purpose := .continuous { c with handled := c.handled + 1 } }).same rfl rfl
  rcases handle_cases x j inbox c m with ⟨_, e, he⟩ | ⟨_, he | ⟨a, he⟩⟩
  · exact he ▸ h.note e
  · exact he ▸ hkept
  · exact he ▸ hkept.publish a

theorem handleMessage (h : Reserved P R i x) (hj : j ≠ i) (inbox : String) (c : Continuous)
    (m : Message) : Reserved P R i (x.handleMessage j inbox c m).1 := by
  unfold Exchange.handleMessage
  split
  · exact h.endWorker fun he => absurd he hj
  · exact (h.handle hj _ _ _).refill j _
  · exact (h.handle hj _ _ _).refill j _

theorem handleTerminus (h : Reserved P R i x) (j : Nat) (inbox : String) (c : Continuous)
    (st : Status) : Reserved P R i (x.handleTerminus j inbox c st) := by
  unfold Exchange.handleTerminus
  split
  · exact h.notify _
  · exact (h.note _).refill j c

/-- From a frame the worker of a fetch comes to hold a delivery. -/
theorem takeFrame (h : Reserved P R i x) {s : Subscription}
    (hj : j = i → Shelf.Holds P ∧ ∃ f due, s.purpose = .fetch f due) (f : Frame) :
    Reserved P R i (x.takeFrame j s f).1 := by
  have ha : Reserved P R i (x.account j s f) := by
    have hy := core_account x j s f
    exact h.retracked _ (congrArg Core.subs hy) (congrArg Core.callers hy)
  have hhold : j = i → Shelf.Holds P := fun he => (hj he).1
  unfold Exchange.takeFrame
  dsimp only
  split
  · exact ha
  · rename_i st _
    exact ha.notify (.warning s.inbox st)
  · rename_i hp
    refine ha.handleMessage (fun he => ?_) _ _ _
    obtain ⟨_, g, due, hg⟩ := hj he
    cases hp.symm.trans hg
  · exact ha.handleTerminus j _ _ _
  · rename_i st _
    have hn := (ha.note (Journal.fatalStatus s.inbox st)).notify (.error s.inbox st)
    split
    · exact hn
    · exact hn.hold hhold _
  · exact ha.hold hhold _
  · exact ha.hold hhold _

theorem takeAlarm (h : Reserved P R i x) (hj : j = i → Shelf.Holds P) (s : Subscription)
    (d : Span) : Reserved P R i (x.takeAlarm j s d) := by
  have hc : Reserved P R i (x.count Counters.addAlarm) := h.same rfl rfl
  have hn := hc.notify (.alarm s.inbox d)
  unfold Exchange.takeAlarm
  dsimp only
  split
  · exact hn
  · exact hn.hold hj _

/-- The worker reads, unless it finds the end of the feed. -/
theorem readStep_open (h : Reserved P R i x) {s : Subscription}
    (hj : j = i → Shelf.Holds P ∧ ∃ f due, s.purpose = .fetch f due)
    (hopen : ∀ feed, x.feeds[s.feed]? = some feed → feed.frames.pop? = none →
      feed.writing = true) : Reserved P R i (x.readStep j s).1 := by
  unfold Exchange.readStep
  split
  · exact h
  · rename_i feed hf
    split
    · rename_i f rest _
      have hp : Reserved P R i (x.popped s.feed rest) := by
        have hy := core_popped x s.feed rest
        exact h.same (congrArg Core.subs hy) (congrArg Core.callers hy)
      exact hp.takeFrame hj f
    · rename_i hpop
      rw [if_pos (hopen feed hf hpop)]
      split
      · exact h
      · rename_i rest _
        have hrest : Reserved P R i (x.modifySub j fun s => { s with alarms := rest }) :=
          h.modifySub j fun _ _ hP => hP
        exact hrest.takeAlarm (fun he => (hj he).1) s _

theorem readStep (h : Reserved P R i x) {s : Subscription}
    (hj : j = i → Shelf.Busy P ∧ ∃ f due, s.purpose = .fetch f due) :
    Reserved P R i (x.readStep j s).1 := by
  by_cases hend : ∃ feed, x.feeds[s.feed]? = some feed ∧ feed.frames.pop? = none ∧
      feed.writing = false
  · obtain ⟨feed, hf, hpop, hw⟩ := hend
    rw [readStep_of_ended hf hpop hw]
    exact endWorker (h.note _) fun he => (hj he).1
  · refine h.readStep_open (fun he => ⟨(hj he).1.holds, (hj he).2⟩) fun feed hf hpop => ?_
    exact eq_true_of_ne_false fun hw => hend ⟨feed, hf, hpop, hw⟩

theorem workerStep (hP : Shelf.OfFetch P) (h : Reserved P R i x) (j : Nat)
    (hj : j = i → Shelf.Busy P) : Reserved P R i (x.workerStep j).1 := by
  unfold Exchange.workerStep
  split
  · exact h
  · rename_i s hs
    have hfetch : j = i → ∃ f due, s.purpose = .fetch f due := by
      rintro rfl
      obtain ⟨u, hu, hPu⟩ := h.shelf
      cases hs.symm.trans hu
      exact hP _ hPu
    cases s.worker with
    | ended => exact h
    | holding d =>
      dsimp only
      split
      · exact h.endWorker hj
      · unfold Exchange.holdStep
        split
        · have hy : Reserved P R i (x.modifySub j (·.enqueue d)) :=
            h.modifySub j fun he u hu => hj he u.shelf _ _ hu
          exact hy.wakeAll _
        · exact h
    | reading =>
      dsimp only
      split
      · exact h.endWorker hj
      · exact h.readStep fun he => ⟨hj he, hfetch he⟩

/-! ## The broker -/

theorem finish (h : Reserved P R i x) (n : Nat) (a : Answer) : Reserved P R i (x.finish n a) :=
  ⟨h.shelf, fun c hc => h.readers c (List.mem_filter.1 hc).1⟩

theorem post (h : Reserved P R i x) (l : Loopback) (b : Broker.State) (inbox : String)
    (f : Frame) : Reserved P R i (x.post l b inbox f).1 := by
  rcases core_post x l b inbox f with ⟨hc, _⟩ | ⟨hc, _⟩ | ⟨_, _, _, _, _, _, _, hc⟩ |
    ⟨_, _, _, _, _, _, hc⟩ <;> exact h.same (congrArg Core.subs hc) (congrArg Core.callers hc)

theorem takeCommand (h : Reserved P R i x) {l : Loopback} (hl : x.transport = .loopback l)
    (c : Broker.Command) (rest : Fifo Broker.Command) :
    Reserved P R i (x.takeCommand c rest) := by
  have hc := core_accepted hl c rest
  have hy := h.same (congrArg Core.subs hc) (congrArg Core.callers hc)
  unfold Exchange.takeCommand commandEffect
  dsimp only
  split
  · exact hy.closeFeed _
  · exact (hy.finish _ _).wake _
  · exact (hy.finish _ _).wake _
  · exact hy

theorem endBroker (h : Reserved P R i x) (l : Loopback) : Reserved P R i (x.endBroker l) := by
  obtain ⟨_, hc⟩ := core_endBroker x l
  exact h.same (congrArg Core.subs hc) (congrArg Core.callers hc)

theorem idle (h : Reserved P R i x) (l : Loopback) : Reserved P R i (x.idle l).1 := by
  unfold Exchange.idle
  split
  · split
    · exact h.same rfl rfl
    · split
      · exact h.same rfl rfl
      · exact h.endBroker l
  · split
    · exact h.same rfl rfl
    · exact h.endBroker l

theorem brokerStep (h : Reserved P R i x) : Reserved P R i x.brokerStep.1 := by
  unfold Exchange.brokerStep
  split
  · exact h
  · rename_i l hl
    split
    · split
      · split
        · exact h.post _ _ _ _
        · exact h.same rfl rfl
      · split
        · exact h.takeCommand hl _ _
        · exact h.idle l
    · exact h

/-! ## Callers -/

/-- A caller goes on to read from the subscription only if it did before. -/
theorem setActivity (h : Reserved P R i x) (n : Nat) {a : Activity}
    (ha : sourceOf? a = some i → R n) : Reserved P R i (x.setActivity n a) := by
  refine ⟨h.shelf, fun c hc hsource => ?_⟩
  obtain ⟨d, hd, he⟩ := List.mem_map.1 hc
  by_cases hn : d.id = n
  · rw [if_pos hn] at he
    subst he
    exact ha hsource
  · rw [if_neg hn] at he
    exact h.readers c (he ▸ hd) hsource

/-- Readers of other subscriptions change the queue and the line there. -/
theorem line (h : Reserved P R i x) (hj : j = i → Shelf.Idle P) {q : Subscription → Fifo Delivery}
    {rs : Subscription → List Nat} : Reserved P R i (x.modifySub j fun s =>
      { s with queue := q s, readers := rs s }) :=
  h.modifySub j fun he s hP => (hj he).line _ (q s) (rs s) hP

theorem joinLine (h : Reserved P R i x) (hj : j = i → Shelf.Idle P) (n : Nat) :
    Reserved P R i (x.joinLine n j) := h.line hj

theorem leaveLine (h : Reserved P R i x) (hj : j = i → Shelf.Idle P) (n : Nat) :
    Reserved P R i (x.leaveLine n j) := by
  unfold Exchange.leaveLine
  split
  · exact h
  · exact Reserved.wakeAll (h.line hj) _

theorem look (h : Reserved P R i x) (hj : j = i → Shelf.Idle P) (n : Nat) (s : Subscription)
    (due : Option Nat) : Reserved P R i (x.look n j s due).1 := by
  rcases look_cases x n j s due with ⟨d, rest, _, he⟩ | ⟨l, _, he⟩ | he
  · rw [he]
    exact Reserved.leaveLine (Reserved.wake (h.line hj) _) hj n
  · rw [he]
    exact h.leaveLine hj n
  · rw [he]
    exact h

theorem waitUntil (h : Reserved P R i x) (n : Nat) (due : Option Nat) :
    Reserved P R i (x.waitUntil n due) := by
  cases due with
  | none => exact h
  | some due => exact h.keepTimer _ _

theorem readStepOf (h : Reserved P R i x) (hj : j = i → Shelf.Idle P) (n : Nat)
    (due : Option Nat) : Reserved P R i (x.readStepOf n j due).1 := by
  unfold Exchange.readStepOf
  split
  · exact h.finish n _
  · rename_i s _
    have hl := h.look hj n s due
    dsimp only
    split
    · exact hl.finish n _
    · exact hl.waitUntil n due

theorem readAllStep (h : Reserved P R i x) (hj : j = i → Shelf.Idle P ∧ R n) (timeout : Span)
    (due : Option Nat) (got : List Message) :
    Reserved P R i (x.readAllStep n j timeout due got).1 := by
  have hi : j = i → Shelf.Idle P := fun he => (hj he).1
  unfold Exchange.readAllStep
  split
  · exact h.finish n _
  · rename_i s _
    have hl := h.look hi n s due
    dsimp only
    split
    · refine Reserved.joinLine (hl.setActivity n fun ha => ?_) hi n
      exact (hj (Option.some.inj ha)).2
    · exact hl.finish n _
    · exact hl.waitUntil n due

theorem endFetch (h : Reserved P R i x) (hj : j ≠ i) (n : Nat) (f : Fetch) (due : Nat)
    (reason : String) (a : Answer) : Reserved P R i (x.endFetch n j f due reason a) := by
  unfold Exchange.endFetch
  exact (Reserved.unsubscribe ((h.elsewhere hj _).note _) j).setActivity n nofun

theorem gotMessage (h : Reserved P R i x) (hj : j ≠ i) (n : Nat) (mode : FetchMode)
    (m : Message) : Reserved P R i (x.gotMessage n j mode m).1 := by
  have hgo : ∀ mode, Reserved P R i ((x.setActivity n (.fetch j mode)).joinLine n j) := by
    intro mode
    have hset := h.setActivity n (a := .fetch j mode) fun ha => absurd (Option.some.inj ha) hj
    exact hset.joinLine (fun he => absurd he hj) n
  cases mode with
  | one => exact h.finish n _
  | batch got => exact hgo _
  | stream items => exact hgo _

/-- The step of a fetch from another subscription. -/
theorem fetchStep_of_ne (h : Reserved P R i x) (hj : j ≠ i) (n : Nat) (mode : FetchMode) :
    Reserved P R i (x.fetchStep n j mode).1 := by
  have hi : j = i → Shelf.Idle P := fun he => absurd he hj
  unfold Exchange.fetchStep
  split
  · exact h.finish n _
  · rename_i s _
    split
    · rename_i f due _
      split
      · exact (h.leaveLine hi n).finish n _
      · split
        · exact (h.leaveLine hi n).endFetch hj n f due _ _
        · have hl := h.look hi n s (some due)
          split
          · rename_i hy
            rw [hy] at hl
            exact hl.waitUntil n (some due)
          · rename_i hy
            rw [hy] at hl
            exact hl.endFetch hj n f due _ _
          · rename_i hy
            rw [hy] at hl
            split
            · exact Reserved.gotMessage (hl.elsewhere hj _) hj n mode _
            · exact hl.endFetch hj n f due _ _
            · exact hl
    · exact h.finish n _

/-- A fetch that is over only says so. -/
theorem fetchStep_of_over {s : Subscription} {f : Fetch} {due : Nat} (hs : x.subs[i]? = some s)
    (hp : s.purpose = .fetch f due) (hf : f.finished = true) (n : Nat) (mode : FetchMode) :
    x.fetchStep n i mode = ((x.leaveLine n i).finish n (mode.last (.ok none)), false) := by
  unfold Exchange.fetchStep
  rw [hs]
  dsimp only
  rw [hp]
  dsimp only
  rw [if_pos hf]

theorem fetchStep (hP : Shelf.OfFetch P) (h : Reserved P R i x) (hj : j = i → Shelf.Idle P)
    (n : Nat) (mode : FetchMode) : Reserved P R i (x.fetchStep n j mode).1 := by
  by_cases he : j = i
  · subst he
    obtain ⟨s, hs, hs'⟩ := h.shelf
    obtain ⟨f, due, hf⟩ := hP _ hs'
    rw [fetchStep_of_over hs hf ((hj rfl).finished _ f due hs' hf)]
    exact (h.leaveLine hj n).finish n _
  · exact h.fetchStep_of_ne he n mode

theorem stopWith (hP : Shelf.OfFetch P) (h : Reserved P R i x) (n j : Nat) (a : Answer) :
    Reserved P R i (x.stopWith n j a) := by
  unfold Exchange.stopWith
  exact ((h.closeContinuous hP j).unsubscribe j).setActivity n nofun

theorem drainStep (hP : Shelf.OfFetch P) (h : Reserved P R i x) (n j due : Nat) :
    Reserved P R i (x.drainStep n j due).1 := by
  unfold Exchange.drainStep
  split
  · exact h.finish n _
  · split
    · exact h.stopWith hP n j _
    · split
      · exact (h.note _).stopWith hP n j _
      · exact h.keepTimer _ _

/-- The turn of a caller that may read from the subscription only if that changes nothing. -/
theorem callerStep (hP : Shelf.OfFetch P) (h : Reserved P R i x) (n : Nat)
    (hn : R n → Shelf.Idle P) : Reserved P R i (x.callerStep n).1 := by
  unfold Exchange.callerStep
  split
  · exact h
  · rename_i c hc
    have hread : sourceOf? c.activity = some i → R n := fun hs =>
      (show c.id = n by simpa using List.find?_some hc) ▸
        h.readers c (List.mem_of_find?_eq_some hc) hs
    split
    · split
      · exact h.finish n _
      · exact h.keepTimer _ _
    · rename_i ha
      rw [ha] at hread
      exact h.readStepOf (fun he => hn (hread (congrArg some he))) n _
    · rename_i ha
      rw [ha] at hread
      refine h.readAllStep (fun he => ?_) _ _ _
      exact ⟨hn (hread (congrArg some he)), hread (congrArg some he)⟩
    · rename_i ha
      rw [ha] at hread
      exact h.fetchStep hP (fun he => hn (hread (congrArg some he))) n _
    · exact h.drainStep hP n _ _
    · unfold leaveStep
      split
      · exact h.finish n _
      · split
        · exact h.finish n _
        · exact h
    · unfold watchStep
      split
      · exact h.finish n _
      · split
        · exact h.finish n _
        · exact h.keepTimer _ _
    · exact h

/-! ## Moves -/

theorem stepOf (hP : Shelf.OfFetch P) (h : Reserved P R i x) (t : Task)
    (hwork : t = .worker i → Shelf.Busy P) (ht : ∀ n, t = .caller n → R n → Shelf.Idle P) :
    Reserved P R i (x.stepOf t).1 := by
  cases t with
  | broker => exact h.brokerStep
  | alarm j => exact h.alarmStep j
  | worker j => exact h.workerStep hP j fun he => hwork (congrArg Task.worker he)
  | farewell j => exact h.farewell j
  | caller n => exact h.callerStep hP n (ht n rfl)

/-- What is said of the shelf stays true in every move but those of its worker and of readers, and
in these if workers and readers leave it true. -/
theorem next (hP : Shelf.OfFetch P) (h : Reserved P R i x) (m : Move)
    (hwork : m = .turn (.worker i) → Shelf.Busy P)
    (hreads : m.reads? = some i → Shelf.Idle P ∧ ∀ n, R n)
    (hturn : ∀ n, m = .turn (.caller n) → R n → Shelf.Idle P) : Reserved P R i (x.next m) := by
  have hcall : ∀ a, sourceOf? a = m.reads? → Reserved P R i (x.callBehind a).1 := fun a ha =>
    h.callBehind a fun hs => ⟨(hreads (ha.symm.trans hs)).1, (hreads (ha.symm.trans hs)).2 _⟩
  cases m with
  | manual => exact h.openSub _
  | fetch st =>
    show Reserved P R i (x.openFetch st).1
    unfold openFetch
    split
    · exact h
    · exact h.openWith _ _
  | consume o d => exact h.openContinuous o d
  | pull j w =>
    show Reserved P R i (x.pullBy j w)
    unfold pullBy
    split
    · unfold pullFor
      split
      · exact h
      · exact h.pull j _
    · exact h
  | read j timeout => exact hcall _ rfl
  | readAll j timeout => exact hcall _ rfl
  | collect j mode => exact hcall _ rfl
  | drain j grace => exact h.drainBehind hP j grace
  | stop j => exact ((h.closeContinuous hP j).unsubscribe j).callBehind _ nofun
  | unsubscribe j => exact (h.unsubscribe j).callBehind _ nofun
  | discard j inside => exact h.discard j inside
  | dropOrphans => exact h.dropOrphans
  | publish a => exact h.publish a
  | letGo =>
    show Reserved P R i x.letGo
    unfold letGo modifyLoopback
    refine Reserved.wake ?_ _
    split <;> exact h.same rfl rfl
  | slip inbox f => exact h.send _
  | feed j f =>
    show Reserved P R i (x.feedFrame j f)
    unfold feedFrame
    split
    · exact h
    · split
      · exact wakeAll (x := x.modifyFeed j (·.push f)) (h.same rfl rfl) _
      · exact h
  | closeFeed inbox => exact h.closeFeed inbox
  | fail s p =>
    show Reserved P R i (x.fail s p)
    unfold fail
    split
    · exact h
    · exact h.same rfl rfl
  | clock now => exact wakeAll (x := x.clocked now) (h.same rfl rfl) _
  | timers =>
    show Reserved P R i (x.fire 0)
    unfold fire
    dsimp only
    split
    · split <;> exact h.same rfl rfl
    · exact h.same rfl rfl
  | turn t =>
    exact h.stepOf hP t (fun hn => hwork (congrArg Move.turn hn))
      fun n hn => hturn n (congrArg Move.turn hn)

theorem follow (hP : Shelf.OfFetch P) (h : Reserved P R i x) (m : Move)
    (hwork : m = .turn (.worker i) → Shelf.Busy P)
    (hreads : m.reads? = some i → Shelf.Idle P ∧ ∀ n, R n)
    (hturn : ∀ n, m = .turn (.caller n) → R n → Shelf.Idle P) :
    Reserved P R i (x.follow m) := by
  have hnext := h.next hP m hwork hreads hturn
  cases m with
  | turn t =>
    show Reserved P R i (x.turn t)
    rcases turn_cases x t with ⟨_, he⟩ | ⟨_, he⟩
    · exact he ▸ hnext
    · exact he ▸ hnext.same rfl rfl
  | _ => exact hnext

end Reserved

end Exchange

end DemandFlow
