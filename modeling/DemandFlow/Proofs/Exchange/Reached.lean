import DemandFlow.Proofs.Exchange.Moves

/-
  The states that an exchange can reach, on any transport. `Ensues` counts as steps only what
  touches a tracker, opens a subscription or shuts one down at one instant, and leaves all else
  free; `Reached` adds the alarm task and the clock. Whoever is due in an exchange stays within
  these states. So a law of the trackers needs one case for each step of `Ensues` or `Reached`.
-/

namespace DemandFlow.Exchange

variable {x₀ x y : Exchange} {opens : Bool}

/-- Trackers are left alone, and nobody is shut down. -/
def Untouched (ss ss' : Array Subscription) : Prop :=
  ∀ (i : Nat) (s' : Subscription), ss'[i]? = some s' →
    ∃ s : Subscription, ss[i]? = some s ∧ s'.tracker = s.tracker ∧ s'.closed = s.closed

/-- So they are, and alarms wait as before. -/
structure Undisturbed (ss ss' : Array Subscription) : Prop where
  size : ss'.size = ss.size
  sub : ∀ (i : Nat) (s' : Subscription), ss'[i]? = some s' →
    ∃ s : Subscription, ss[i]? = some s ∧ s'.tracker = s.tracker ∧ s'.closed = s.closed ∧
      s'.alarms = s.alarms

/-- What an exchange can come to at one instant while no alarm is raised or taken in: what
subscriptions do comes in any order, and all else may change as it will while it leaves the
trackers alone. Subscriptions are opened only where that is allowed. -/
inductive Ensues (opens : Bool) (x₀ : Exchange) : Exchange → Prop where
  | refl : Ensues opens x₀ x₀
  | opened {x : Exchange} (h : Ensues opens x₀ x) (p : Purpose) (ho : opens = true) :
      Ensues opens x₀ (x.openSub p).1
  | pulled {x : Exchange} (h : Ensues opens x₀ x) (i : Nat) (r : PullRequest) :
      Ensues opens x₀ (x.pull i r).1
  | managed {x : Exchange} (h : Ensues opens x₀ x) (i : Nat) : Ensues opens x₀ (x.manage i)
  | closed {x : Exchange} (h : Ensues opens x₀ x) (i : Nat) : Ensues opens x₀ (x.close i)
  | elsewhere {x y : Exchange} (h : Ensues opens x₀ x) (hn : y.now = x.now)
      (hs : Undisturbed x.subs y.subs) : Ensues opens x₀ y

/-- The states of exchanges on any transport: what subscriptions do comes in any order, and all
else may change as it will while it leaves the trackers alone. -/
inductive Reached : Exchange → Prop where
  | start (t : Transport) (keepsNotices : Bool) (queueCapacity : Nat) :
      Reached (.start t keepsNotices queueCapacity)
  | opened {x : Exchange} (h : Reached x) (p : Purpose) : Reached (x.openSub p).1
  | pulled {x : Exchange} (h : Reached x) (i : Nat) (r : PullRequest) : Reached (x.pull i r).1
  | managed {x : Exchange} (h : Reached x) (i : Nat) : Reached (x.manage i)
  | watched {x : Exchange} (h : Reached x) (i : Nat) : Reached (x.alarmStep i).1
  | closed {x : Exchange} (h : Reached x) (i : Nat) : Reached (x.close i)
  | elsewhere {x y : Exchange} (h : Reached x) (hs : Untouched x.subs y.subs) : Reached y

theorem Undisturbed.untouched {ss ss' : Array Subscription} (h : Undisturbed ss ss') :
    Untouched ss ss' := by
  intro i s' hs'
  obtain ⟨s, hs, ht, hc, _⟩ := h.sub i s' hs'
  exact ⟨s, hs, ht, hc⟩

/-- What ensues on a state that can be reached can be reached. -/
theorem Reached.ensues (h : Reached x) (hy : Ensues opens x y) : Reached y := by
  induction hy with
  | refl => exact h
  | opened _ p _ ih => exact ih.opened p
  | pulled _ i r ih => exact ih.pulled i r
  | managed _ i ih => exact ih.managed i
  | closed _ i ih => exact ih.closed i
  | elsewhere _ _ hs ih => exact ih.elsewhere hs.untouched

/-! ## Steps that leave the subscriptions alone -/

/-- The instant, and the subscriptions. -/
def affairs (x : Exchange) : Nat × Array Subscription := (x.now, x.subs)

theorem affairs_of_core (h : y.core = x.core) : y.affairs = x.affairs :=
  congrArg (fun c => (c.now, c.subs)) h

theorem subs_of_affairs (h : y.affairs = x.affairs) : y.subs = x.subs := congrArg Prod.snd h

theorem subs_note (x : Exchange) (e : Log.Entry) : (x.note e).subs = x.subs := rfl

theorem skips_affairs : SkipsWires affairs where
  note := fun _ _ => rfl
  count := fun _ _ => rfl
  line := fun _ _ _ => rfl
  timers := fun _ _ => rfl
  transport := fun _ _ => rfl
  feeds := fun _ _ => rfl

theorem subs_carry (x : Exchange) (inbox : String) (r : PullRequest) :
    (x.carry inbox r).1.subs = x.subs := subs_of_affairs (skips_affairs.carry x inbox r)

theorem subs_subscribe (x : Exchange) (reader : Option Nat) :
    (x.subscribe reader).1.subs = x.subs := subs_of_affairs (skips_affairs.subscribe x reader)

theorem subs_release (x : Exchange) (inbox : String) : (x.release inbox).subs = x.subs :=
  subs_of_affairs (skips_affairs.release x inbox)

theorem subs_publish (x : Exchange) (m : Message) : (x.publish m).1.subs = x.subs :=
  subs_of_affairs (skips_affairs.publish x m)

theorem affairs_takeCommand {l : Loopback} (h : x.transport = .loopback l) (c : Broker.Command)
    (rest : Fifo Broker.Command) : (x.takeCommand c rest).affairs = x.affairs := by
  have hy : ((x.noteCommand c).modifyLoopback fun l =>
      { l with commands := rest, broker := l.broker.accept (x.noteCommand c).now c }).affairs =
        x.affairs := congrArg (fun c : Core => (c.now, c.subs)) (core_accepted h c rest)
  unfold takeCommand commandEffect
  dsimp only
  split
  · exact (skips_affairs.closeFeed _ _).trans hy
  · exact (skips_affairs.wake _ _).trans hy
  · exact (skips_affairs.wake _ _).trans hy
  · exact hy

theorem affairs_endBroker (x : Exchange) (l : Loopback) :
    (x.endBroker l).affairs = x.affairs := by
  obtain ⟨_, h⟩ := core_endBroker x l
  exact congrArg (fun c : Core => (c.now, c.subs)) h

theorem affairs_brokerStep (x : Exchange) : x.brokerStep.1.affairs = x.affairs := by
  unfold brokerStep
  split
  · rfl
  · rename_i l hl
    split
    · split
      · split
        · exact skips_affairs.post _ _ _ _ _
        · rfl
      · split
        · exact affairs_takeCommand hl _ _
        · unfold idle
          split
          · split
            · rfl
            · split
              · rfl
              · exact affairs_endBroker x l
          · split
            · rfl
            · exact affairs_endBroker x l
    · rfl

/-! ## Steps of the tasks -/

theorem undisturbed_refl (ss : Array Subscription) : Undisturbed ss ss :=
  ⟨rfl, fun _ s hs => ⟨s, hs, rfl, rfl, rfl⟩⟩

theorem undisturbed_modify (ss : Array Subscription) (i : Nat) {g : Subscription → Subscription}
    (hg : ∀ s, (g s).tracker = s.tracker ∧ (g s).closed = s.closed ∧ (g s).alarms = s.alarms) :
    Undisturbed ss (ss.modify i g) := by
  refine ⟨Array.size_modify, fun j s' hs' => ?_⟩
  rcases getElem?_modify_eq_some hs' with ⟨s, _, hs, rfl⟩ | ⟨_, hs⟩
  · exact ⟨s, hs, hg s⟩
  · exact ⟨s', hs, rfl, rfl, rfl⟩

theorem untouched_modify (ss : Array Subscription) (i : Nat) {g : Subscription → Subscription}
    (hg : ∀ s, (g s).tracker = s.tracker ∧ (g s).closed = s.closed) :
    Untouched ss (ss.modify i g) := by
  intro j s' hs'
  rcases getElem?_modify_eq_some hs' with ⟨s, _, hs, rfl⟩ | ⟨_, hs⟩
  · exact ⟨s, hs, hg s⟩
  · exact ⟨s', hs, rfl, rfl⟩

/-- The worker of a subscription is about to take in an alarm. -/
structure TakesAlarm (x : Exchange) (i : Nat) (s : Subscription) (d : Span)
    (rest : List Span) : Prop where
  sub : x.subs[i]? = some s
  opened : s.closed = false
  worker : s.worker = .reading
  feed : ∃ feed, x.feeds[s.feed]? = some feed ∧ feed.frames.pop? = none ∧ feed.writing = true
  alarms : s.alarms = d :: rest

theorem TakesAlarm.workerStep {i : Nat} {s : Subscription} {d : Span} {rest : List Span}
    (h : TakesAlarm x i s d rest) : x.workerStep i =
      ((x.modifySub i fun s => { s with alarms := rest }).takeAlarm i s d, true) := by
  obtain ⟨feed, hf, hp, hw⟩ := h.feed
  unfold Exchange.workerStep
  rw [h.sub]
  dsimp only
  rw [h.worker]
  dsimp only
  rw [if_neg (ne_true_of_eq_false h.opened)]
  unfold readStep
  rw [hf]
  dsimp only
  rw [hp]
  dsimp only
  rw [if_pos hw, h.alarms]

namespace Ensues

theorem same (h : Ensues opens x₀ x) (hy : y.affairs = x.affairs) : Ensues opens x₀ y := by
  refine .elsewhere h (congrArg Prod.fst hy) ?_
  rw [subs_of_affairs hy]
  exact undisturbed_refl x.subs

theorem of_core (h : Ensues opens x₀ x) (hy : y.core = x.core) : Ensues opens x₀ y :=
  h.same (affairs_of_core hy)

theorem modifySub (h : Ensues opens x₀ x) (i : Nat) {g : Subscription → Subscription}
    (hg : ∀ s, (g s).tracker = s.tracker ∧ (g s).closed = s.closed ∧ (g s).alarms = s.alarms) :
    Ensues opens x₀ (x.modifySub i g) :=
  .elsewhere h rfl (undisturbed_modify x.subs i hg)

theorem note (h : Ensues opens x₀ x) (e : Log.Entry) : Ensues opens x₀ (x.note e) := h.same rfl

theorem wake (h : Ensues opens x₀ x) (t : Task) : Ensues opens x₀ (x.wake t) :=
  h.of_core (core_wake x t)

theorem wakeIf (h : Ensues opens x₀ x) (b : Bool) (t : Task) : Ensues opens x₀ (x.wakeIf b t) :=
  h.of_core (core_wakeIf x b t)

theorem wakeAll (h : Ensues opens x₀ x) (ts : List Task) : Ensues opens x₀ (x.wakeAll ts) :=
  h.of_core (core_wakeAll x ts)

theorem notify (h : Ensues opens x₀ x) (n : Notice) : Ensues opens x₀ (x.notify n) :=
  h.of_core (core_notify x n)

theorem abandonFeed (h : Ensues opens x₀ x) (i : Nat) : Ensues opens x₀ (x.abandonFeed i) :=
  h.same (congrArg (fun c : Core => (c.now, c.subs)) (core_abandonFeed x i))

theorem release (h : Ensues opens x₀ x) (inbox : String) : Ensues opens x₀ (x.release inbox) :=
  h.same (skips_affairs.release x inbox)

theorem hold (h : Ensues opens x₀ x) (i : Nat) (d : Delivery) : Ensues opens x₀ (x.hold i d) :=
  h.modifySub i fun _ => ⟨rfl, rfl, rfl⟩

theorem endWorker (h : Ensues opens x₀ x) (i : Nat) : Ensues opens x₀ (x.endWorker i) := by
  unfold Exchange.endWorker
  dsimp only
  split
  · exact h.closed i
  · refine .wake (.wakeAll (.wakeAll (.abandonFeed (.note ?_ _) _) _) _) _
    exact (h.closed i).modifySub i fun _ => ⟨rfl, rfl, rfl⟩

theorem unsubscribe (h : Ensues opens x₀ x) (i : Nat) : Ensues opens x₀ (x.unsubscribe i) := by
  unfold Exchange.unsubscribe
  dsimp only
  split
  · exact h.closed i
  · split
    · exact h.closed i
    · refine .note (.release ?_ _) _
      exact (h.closed i).modifySub i fun _ => ⟨rfl, rfl, rfl⟩

theorem dropSub (h : Ensues opens x₀ x) (i : Nat) (inside : Bool) :
    Ensues opens x₀ (x.dropSub i inside) := by
  unfold Exchange.dropSub
  dsimp only
  split
  · exact h.closed i
  · split
    · exact h.closed i
    · refine .wakeIf ?_ _ _
      exact (h.closed i).modifySub i fun _ => ⟨rfl, rfl, rfl⟩

/-! ## The worker -/

theorem refill (h : Ensues opens x₀ x) (i : Nat) (c : Continuous) :
    Ensues opens x₀ (x.refill i c) := by
  rcases refill_cases x i c with ⟨he, _⟩ | ⟨s, r, _, _, he | ⟨e, he⟩⟩
  · rw [he]
    exact h
  · exact he ▸ (h.note _).pulled i r
  · exact he ▸ ((h.note _).pulled i r).note e

theorem handle (h : Ensues opens x₀ x) (i : Nat) (inbox : String) (c : Continuous) (m : Message) :
    Ensues opens x₀ (x.handle i inbox c m) := by
  unfold Exchange.handle
  split
  · exact h.note _
  · have hcounted : Ensues opens x₀ (x.modifySub i fun s =>
        { s with purpose := .continuous { c with handled := c.handled + 1 } }) :=
      h.modifySub i fun _ => ⟨rfl, rfl, rfl⟩
    dsimp only
    split
    · exact hcounted.same rfl
    · exact hcounted.same (skips_affairs.publish _ _)

theorem handleTerminus (h : Ensues opens x₀ x) (i : Nat) (inbox : String) (c : Continuous)
    (s : Status) : Ensues opens x₀ (x.handleTerminus i inbox c s) := by
  unfold Exchange.handleTerminus
  split
  · exact h.notify _
  · exact (h.note _).refill i c

/-- What follows once a frame is entered into the accounts touches no tracker but by a pull. -/
theorem takeFrame {i : Nat} {s : Subscription} {f : Frame} (h : Ensues opens x₀ (x.account i s f)) :
    Ensues opens x₀ (x.takeFrame i s f).1 := by
  unfold Exchange.takeFrame
  dsimp only
  split
  · exact h
  · rename_i st _
    exact h.notify (.warning s.inbox st)
  · unfold handleMessage
    split
    · exact h.endWorker i
    · exact (h.handle i _ _ _).refill i _
    · exact (h.handle i _ _ _).refill i _
  · rename_i st c _ _
    exact h.handleTerminus i s.inbox c st
  · rename_i st _
    have hn := (h.note (Journal.fatalStatus s.inbox st)).notify (.error s.inbox st)
    split
    · exact hn
    · exact hn.hold i _
  · exact h.hold i _
  · exact h.hold i _

theorem takeAlarm (h : Ensues opens x₀ x) (i : Nat) (s : Subscription) (d : Span) :
    Ensues opens x₀ (x.takeAlarm i s d) := by
  have hc : Ensues opens x₀ (x.count Counters.addAlarm) := h.same rfl
  have hn := hc.notify (.alarm s.inbox d)
  unfold Exchange.takeAlarm
  dsimp only
  split
  · exact hn
  · exact hn.hold i _

theorem holdStep (h : Ensues opens x₀ x) (i : Nat) (s : Subscription) (d : Delivery) :
    Ensues opens x₀ (x.holdStep i s d).1 := by
  unfold Exchange.holdStep
  split
  · refine .wakeAll ?_ _
    exact h.modifySub i fun _ => ⟨rfl, rfl, rfl⟩
  · exact h

theorem workerStep (h : Ensues opens x₀ x) {i : Nat} (hno : ∀ s d rest, ¬x.TakesAlarm i s d rest) :
    Ensues opens x₀ (x.workerStep i).1 := by
  unfold Exchange.workerStep
  split
  · exact h
  · rename_i s hs
    cases hw : s.worker with
    | ended => exact h
    | holding d =>
      dsimp only
      split
      · exact h.endWorker i
      · exact h.holdStep i s d
    | reading =>
      dsimp only
      split
      · exact h.endWorker i
      · rename_i hc
        cases hf : x.feeds[s.feed]? with
        | none =>
          unfold Exchange.readStep
          rw [hf]
          exact h
        | some feed =>
          cases hp : feed.frames.pop? with
          | some q =>
            obtain ⟨hmanage, hread⟩ := readStep_of_frame hs hf hp
            rw [hread]
            exact takeFrame (hmanage ▸ h.managed i)
          | none =>
            unfold Exchange.readStep
            rw [hf]
            dsimp only
            rw [hp]
            dsimp only
            split
            · rename_i hwr
              cases ha : s.alarms with
              | nil => exact h
              | cons d rest =>
                exact absurd ⟨hs, by simpa using hc, hw, ⟨feed, hf, hp, hwr⟩, ha⟩ (hno s d rest)
            · exact (h.note _).endWorker i

/-! ## Callers -/

theorem finish (h : Ensues opens x₀ x) (id : Nat) (a : Answer) :
    Ensues opens x₀ (x.finish id a) := h.same rfl

theorem keepTimer (h : Ensues opens x₀ x) (t : Task) (due : Nat) :
    Ensues opens x₀ (x.keepTimer t due) := h.same (skips_affairs.keepTimer x t due)

theorem setActivity (h : Ensues opens x₀ x) (id : Nat) (a : Activity) :
    Ensues opens x₀ (x.setActivity id a) := h.same rfl

theorem joinLine (h : Ensues opens x₀ x) (id i : Nat) : Ensues opens x₀ (x.joinLine id i) :=
  h.modifySub i fun _ => ⟨rfl, rfl, rfl⟩

theorem leaveLine (h : Ensues opens x₀ x) (id i : Nat) : Ensues opens x₀ (x.leaveLine id i) := by
  unfold Exchange.leaveLine
  split
  · exact h
  · refine .wakeAll ?_ _
    exact h.modifySub i fun _ => ⟨rfl, rfl, rfl⟩

theorem look (h : Ensues opens x₀ x) (id i : Nat) (s : Subscription) (due : Option Nat) :
    Ensues opens x₀ (x.look id i s due).1 := by
  rcases look_cases x id i s due with ⟨d, rest, _, he⟩ | ⟨l, _, he⟩ | he
  · rw [he]
    refine leaveLine (.wake ?_ _) id i
    exact h.modifySub i fun _ => ⟨rfl, rfl, rfl⟩
  · rw [he]
    exact h.leaveLine id i
  · rw [he]
    exact h

theorem waitUntil (h : Ensues opens x₀ x) (id : Nat) (due : Option Nat) :
    Ensues opens x₀ (x.waitUntil id due) := by
  cases due with
  | none => exact h
  | some due => exact h.keepTimer _ _

theorem readStepOf (h : Ensues opens x₀ x) (id i : Nat) (due : Option Nat) :
    Ensues opens x₀ (x.readStepOf id i due).1 := by
  unfold Exchange.readStepOf
  split
  · exact h.finish id _
  · rename_i s _
    have hl := h.look id i s due
    dsimp only
    split
    · exact hl.finish id _
    · exact hl.waitUntil id due

theorem readAllStep (h : Ensues opens x₀ x) (id i : Nat) (timeout : Span) (due : Option Nat)
    (got : List Message) : Ensues opens x₀ (x.readAllStep id i timeout due got).1 := by
  unfold Exchange.readAllStep
  split
  · exact h.finish id _
  · rename_i s _
    have hl := h.look id i s due
    dsimp only
    split
    · exact (hl.setActivity id _).joinLine id i
    · exact hl.finish id _
    · exact hl.waitUntil id due

theorem endFetch (h : Ensues opens x₀ x) (id i : Nat) (f : Fetch) (due : Nat) (reason : String)
    (answer : Answer) : Ensues opens x₀ (x.endFetch id i f due reason answer) := by
  have hf : Ensues opens x₀ (x.modifySub i fun s => { s with purpose := .fetch f.finish due }) :=
    h.modifySub i fun _ => ⟨rfl, rfl, rfl⟩
  unfold Exchange.endFetch
  exact ((hf.note _).unsubscribe i).setActivity id _

theorem gotMessage (h : Ensues opens x₀ x) (id i : Nat) (mode : FetchMode) (m : Message) :
    Ensues opens x₀ (x.gotMessage id i mode m).1 := by
  cases mode with
  | one => exact h.finish id _
  | batch got => exact (h.setActivity id _).joinLine id i
  | stream items => exact (h.setActivity id _).joinLine id i

theorem fetchStep (h : Ensues opens x₀ x) (id i : Nat) (mode : FetchMode) :
    Ensues opens x₀ (x.fetchStep id i mode).1 := by
  unfold Exchange.fetchStep
  split
  · exact h.finish id _
  · rename_i s _
    split
    · rename_i f due _
      split
      · exact (h.leaveLine id i).finish id _
      · split
        · exact (h.leaveLine id i).endFetch id i f due _ _
        · have hl := h.look id i s (some due)
          split
          · rename_i hy
            rw [hy] at hl
            exact hl.waitUntil id (some due)
          · rename_i hy
            rw [hy] at hl
            exact hl.endFetch id i f due _ _
          · rename_i hy
            rw [hy] at hl
            split
            · refine gotMessage ?_ id i mode _
              exact hl.modifySub i fun _ => ⟨rfl, rfl, rfl⟩
            · exact hl.endFetch id i f due _ _
            · exact hl
    · exact h.finish id _

theorem stopWith (h : Ensues opens x₀ x) (id i : Nat) (answer : Answer) :
    Ensues opens x₀ (x.stopWith id i answer) := by
  have hc : Ensues opens x₀ (x.closeContinuous i) := h.modifySub i fun s => by
    split <;> exact ⟨rfl, rfl, rfl⟩
  unfold Exchange.stopWith
  exact (hc.unsubscribe i).setActivity id _

theorem drainStep (h : Ensues opens x₀ x) (id i due : Nat) :
    Ensues opens x₀ (x.drainStep id i due).1 := by
  unfold Exchange.drainStep
  split
  · exact h.finish id _
  · split
    · exact h.stopWith id i _
    · split
      · exact (h.note _).stopWith id i _
      · exact h.keepTimer _ _

theorem callerStep (h : Ensues opens x₀ x) (id : Nat) : Ensues opens x₀ (x.callerStep id).1 := by
  unfold Exchange.callerStep
  split
  · exact h
  · split
    · split
      · exact h.finish id _
      · exact h.keepTimer _ _
    · exact h.readStepOf id _ _
    · exact h.readAllStep id _ _ _ _
    · exact h.fetchStep id _ _
    · exact h.drainStep id _ _
    · unfold leaveStep
      split
      · exact h.finish id _
      · split
        · exact h.finish id _
        · exact h
    · unfold watchStep
      split
      · exact h.finish id _
      · split
        · exact h.finish id _
        · exact h.keepTimer _ _
    · exact h

/-! ## Whoever is due -/

theorem farewell (h : Ensues opens x₀ x) (i : Nat) : Ensues opens x₀ (x.farewell i) := by
  unfold Exchange.farewell
  split
  · exact h
  · exact (h.release _).note _

theorem brokerStep (h : Ensues opens x₀ x) : Ensues opens x₀ x.brokerStep.1 :=
  h.same (affairs_brokerStep x)

theorem dropOrphans (h : Ensues opens x₀ x) : Ensues opens x₀ x.dropOrphans := by
  unfold Exchange.dropOrphans
  refine List.foldlRecOn _ _ h fun y hy i _ => ?_
  split
  · split
    · exact hy.dropSub i true
    · exact hy
  · exact hy

end Ensues

namespace Reached

theorem same (h : Reached x) (hs : y.subs = x.subs) : Reached y := by
  refine .elsewhere h ?_
  rw [hs]
  exact (undisturbed_refl x.subs).untouched

theorem stepOf (h : Reached x) (t : Task) : Reached (x.stepOf t).1 := by
  have hr : ∀ {y : Exchange}, Ensues false y y := .refl
  cases t with
  | broker => exact h.ensues hr.brokerStep
  | alarm i => exact h.watched i
  | farewell i => exact h.ensues (hr.farewell i)
  | caller id => exact h.ensues (hr.callerStep id)
  | worker i =>
    show Reached (x.workerStep i).1
    by_cases ha : ∃ s d rest, x.TakesAlarm i s d rest
    · obtain ⟨s, d, rest, ha⟩ := ha
      rw [ha.workerStep]
      refine .ensues ?_ (hr.takeAlarm i s d)
      exact h.elsewhere (untouched_modify x.subs i fun _ => ⟨rfl, rfl⟩)
    · exact h.ensues (hr.workerStep fun s d rest hn => ha ⟨s, d, rest, hn⟩)

end Reached

end DemandFlow.Exchange
