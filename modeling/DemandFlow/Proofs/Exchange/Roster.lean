import DemandFlow.Proofs.Exchange.Moves

/-
  Who stands in line, where one subscription is all there is. Its crew is the broker, its alarm
  task and its worker. Steps of the crew only add members of it behind the line and only put
  them to sleep; whoever stands in line stays there until its own step is over.
-/

namespace DemandFlow.Exchange

/-- The tasks of a broker with one subscription. -/
def crew : List Task := [.broker, .alarm 0, .worker 0]

theorem broker_mem_crew : Task.broker ∈ crew := List.mem_cons_self

theorem alarm_mem_crew : Task.alarm 0 ∈ crew := List.mem_cons_of_mem _ List.mem_cons_self

theorem worker_mem_crew : Task.worker 0 ∈ crew :=
  List.mem_cons_of_mem _ (List.mem_cons_of_mem _ List.mem_cons_self)

theorem ne_caller_of_mem_crew {t : Task} (h : t ∈ crew) (id : Nat) : t ≠ .caller id := by
  intro e
  subst e
  simp [crew] at h

/-- After each move these tasks take turns. -/
def rounds {Move : Type} (turn : Task → Move) (ts : List Task) (ms : List Move) : List Move :=
  ms.flatMap fun m => m :: ts.map turn

/-- Members of the crew were put in line or to sleep, and nothing else happened to the line. -/
structure Stirred (x y : Exchange) : Prop where
  foreground : y.foreground = x.foreground
  foregroundReady : y.foregroundReady = x.foregroundReady
  ready : x.ready <+: y.ready
  woken : ∀ t ∈ y.ready, t ∈ x.ready ∨ t ∈ crew
  timers : ∀ e ∈ y.timers, e ∈ x.timers ∨ e.task ∈ crew

variable {x y z : Exchange}

theorem Stirred.refl (x : Exchange) : Stirred x x :=
  ⟨rfl, rfl, List.prefix_refl _, fun _ h => Or.inl h, fun _ h => Or.inl h⟩

theorem Stirred.trans (h : Stirred x y) (g : Stirred y z) : Stirred x z := by
  refine ⟨g.foreground.trans h.foreground, g.foregroundReady.trans h.foregroundReady,
    h.ready.trans g.ready, ?_, ?_⟩
  · intro t ht
    rcases g.woken t ht with ht | ht
    · exact h.woken t ht
    · exact Or.inr ht
  · intro e he
    rcases g.timers e he with he | he
    · exact h.timers e he
    · exact Or.inr he

theorem Stirred.mem (h : Stirred x y) {t : Task} (ht : t ∈ x.ready) : t ∈ y.ready :=
  h.ready.subset ht

/-- What leaves line and sleepers alone. -/
theorem stirred_of_same (hf : y.foreground = x.foreground)
    (hfr : y.foregroundReady = x.foregroundReady) (hr : y.ready = x.ready)
    (ht : y.timers = x.timers) : Stirred x y :=
  ⟨hf, hfr, hr ▸ List.prefix_refl _, fun _ h => Or.inl (hr ▸ h), fun _ h => Or.inl (ht ▸ h)⟩

theorem stirred_note (x : Exchange) (e : Log.Entry) : Stirred x (x.note e) :=
  stirred_of_same rfl rfl rfl rfl

theorem stirred_noteIf (x : Exchange) (b : Bool) (e : Log.Entry) : Stirred x (x.noteIf b e) := by
  cases b with
  | true => exact stirred_note x e
  | false => exact Stirred.refl x

theorem stirred_count (x : Exchange) (f : Counters → Counters) : Stirred x (x.count f) :=
  stirred_of_same rfl rfl rfl rfl

theorem stirred_modifyFeed (x : Exchange) (i : Nat) (f : Feed → Feed) :
    Stirred x (x.modifyFeed i f) := stirred_of_same rfl rfl rfl rfl

theorem stirred_modifySub (x : Exchange) (i : Nat) (f : Subscription → Subscription) :
    Stirred x (x.modifySub i f) := stirred_of_same rfl rfl rfl rfl

theorem stirred_setBroker (x : Exchange) (l : Loopback) (b : Broker.State) :
    Stirred x (x.setBroker l b) := stirred_of_same rfl rfl rfl rfl

theorem stirred_foldl_note (es : List Log.Entry) (x : Exchange) :
    Stirred x (es.foldl note x) := by
  induction es generalizing x with
  | nil => exact Stirred.refl x
  | cons e es ih => exact (stirred_note x e).trans (ih (x.note e))

/-! ## Waking and sleeping -/

theorem ready_wake (x : Exchange) {t : Task} (h : ∀ id, t ≠ .caller id) :
    x.wake t = if x.ready.contains t then x else { x with ready := x.ready ++ [t] } := by
  cases t with
  | caller id => exact absurd rfl (h id)
  | broker => rfl
  | alarm i => rfl
  | worker i => rfl
  | farewell i => rfl

theorem stirred_wake (x : Exchange) {t : Task} (h : t ∈ crew) : Stirred x (x.wake t) := by
  rw [ready_wake x (ne_caller_of_mem_crew h)]
  split
  · exact Stirred.refl x
  · refine ⟨rfl, rfl, List.prefix_append _ _, ?_, fun _ he => Or.inl he⟩
    intro u hu
    rcases List.mem_append.1 hu with hu | hu
    · exact Or.inl hu
    · rw [List.mem_singleton.1 hu]
      exact Or.inr h

theorem mem_ready_wake (x : Exchange) {t : Task} (h : ∀ id, t ≠ .caller id) :
    t ∈ (x.wake t).ready := by
  rw [ready_wake x h]
  split
  · rename_i hc
    exact List.contains_iff_mem.1 hc
  · exact List.mem_append_right _ (List.mem_singleton.2 rfl)

theorem stirred_wakeIf (x : Exchange) (b : Bool) {t : Task} (h : t ∈ crew) :
    Stirred x (x.wakeIf b t) := by
  cases b with
  | true => exact stirred_wake x h
  | false => exact Stirred.refl x

theorem stirred_wakeAll (ts : List Task) (h : ∀ t ∈ ts, t ∈ crew) (x : Exchange) :
    Stirred x (x.wakeAll ts) := by
  induction ts generalizing x with
  | nil => exact Stirred.refl x
  | cons t ts ih =>
    exact (stirred_wake x (h t List.mem_cons_self)).trans
      (ih (fun u hu => h u (List.mem_cons_of_mem _ hu)) (x.wake t))

theorem stirred_clearTimer (x : Exchange) (t : Task) : Stirred x (x.clearTimer t) :=
  ⟨rfl, rfl, List.prefix_refl _, fun _ h => Or.inl h,
    fun _ h => Or.inl (List.mem_filter.1 h).1⟩

theorem stirred_setTimer (x : Exchange) {t : Task} (h : t ∈ crew) (due : Nat) :
    Stirred x (x.setTimer t due) := by
  refine ⟨rfl, rfl, List.prefix_refl _, fun _ hu => Or.inl hu, ?_⟩
  intro e he
  rcases List.mem_append.1 he with he | he
  · exact Or.inl (List.mem_filter.1 he).1
  · rw [List.mem_singleton.1 he]
    exact Or.inr h

theorem stirred_wakeHeldUp (x : Exchange) : Stirred x x.wakeHeldUp :=
  stirred_wakeIf x _ broker_mem_crew

/-- Nobody waits for an activity where there are no callers. -/
theorem wakeDrainers_of_no_callers (h : x.core.callers = []) (i : Nat) :
    x.wakeDrainers i = x := by
  have hc : x.callers = [] := h
  unfold wakeDrainers callersAt
  rw [hc]
  rfl

theorem wakeLeavers_of_no_callers (h : x.core.callers = []) (i : Nat) :
    x.wakeLeavers i = x := by
  have hc : x.callers = [] := h
  unfold wakeLeavers callersAt
  rw [hc]
  rfl

/-! ## Steps of the transport and of a subscription -/

theorem stirred_notify (x : Exchange) (n : Notice) : Stirred x (x.notify n) := by
  unfold notify
  split
  · exact stirred_of_same rfl rfl rfl rfl
  · cases n <;> exact stirred_note x _

theorem stirred_noteAccount (x : Exchange) (f : Frame) (d : Demand) :
    Stirred x (x.noteAccount f d) := by
  unfold noteAccount
  cases f with
  | message m => exact (stirred_noteIf x _ _).trans (stirred_note _ _)
  | status s =>
    dsimp only
    split
    · exact stirred_note x _
    · exact (stirred_noteIf x _ _).trans (stirred_note _ _)

theorem stirred_countFrame (x : Exchange) (k : Intake) : Stirred x (x.countFrame k) := by
  cases k with
  | heartbeat => exact Stirred.refl x
  | message m => exact stirred_of_same rfl rfl rfl rfl
  | terminus s => exact stirred_of_same rfl rfl rfl rfl
  | warning s => exact stirred_of_same rfl rfl rfl rfl
  | error s => exact stirred_of_same rfl rfl rfl rfl

theorem stirred_noteCommand (x : Exchange) (c : Broker.Command) :
    Stirred x (x.noteCommand c) := by
  unfold noteCommand
  split
  · exact stirred_foldl_note _ x
  · exact Stirred.refl x

theorem stirred_setTracker (x : Exchange) (t : Tracker) : Stirred x (x.setTracker 0 t) :=
  (stirred_modifySub x 0 _).trans (stirred_wakeIf _ _ alarm_mem_crew)

theorem stirred_send (x : Exchange) (c : Broker.Command) : Stirred x (x.send c).1 := by
  unfold send
  split
  · split
    · rename_i l _ _
      have hs : Stirred x { x with transport := .loopback { l with
          commands := l.commands.push c } } := stirred_of_same rfl rfl rfl rfl
      exact hs.trans (stirred_wake _ broker_mem_crew)
    · exact stirred_note x _
  · exact Stirred.refl x

variable {l : Loopback}

/-- Whoever sends to a broker that is there wakes it. -/
theorem broker_mem_ready_send (h : x.core.transport = .loopback l) (ha : l.alive = true)
    (c : Broker.Command) : Task.broker ∈ (x.send c).1.ready := by
  have ht : x.transport = .loopback l := h
  unfold send
  rw [ht]
  dsimp only
  rw [if_pos ha]
  exact mem_ready_wake _ fun id => by simp

theorem stirred_publish (h : x.core.transport = .loopback l) (ha : l.alive = true) (m : Message) :
    Stirred x (x.publish m).1 ∧ Task.broker ∈ (x.publish m).1.ready := by
  have ht : x.transport = .loopback l := h
  unfold publish
  rw [ht]
  dsimp only
  have hs : Stirred x { x with transport := .loopback { l with
      nextSequence := l.nextSequence + 1 } } := stirred_of_same rfl rfl rfl rfl
  exact ⟨hs.trans (stirred_send _ _),
    broker_mem_ready_send (l := { l with nextSequence := l.nextSequence + 1 }) rfl ha _⟩

theorem stirred_carry (h : x.core.transport = .loopback l) (ha : l.alive = true)
    (inbox : String) (r : PullRequest) :
    Stirred x (x.carry inbox r).1 ∧ Task.broker ∈ (x.carry inbox r).1.ready := by
  have ht : x.transport = .loopback l := h
  unfold carry
  rw [ht]
  dsimp only
  exact ⟨(stirred_note x _).trans (stirred_send _ _),
    broker_mem_ready_send (x := x.note _) h ha _⟩

/-- A request that goes out wakes the broker. -/
theorem stirred_pull (h : x.core.transport = .loopback l) (ha : l.alive = true)
    (hn : x.core.callers = []) {s : Subscription} (hs : x.core.subs[0]? = some s)
    (hc : s.closed = false) {r : PullRequest} {t : Tracker}
    (ht : s.tracker.issue x.core.now r = some t) :
    Stirred x (x.pull 0 r).1 ∧ Task.broker ∈ (x.pull 0 r).1.ready := by
  have hs' : x.subs[0]? = some s := hs
  have ht' : s.tracker.issue x.now r = some t := ht
  have hcore : (x.setTracker 0 t).core =
      { x.core with subs := x.core.subs.modify 0 fun u => { u with tracker := t } } :=
    core_setTracker x 0 t
  have hd : (x.setTracker 0 t).wakeDrainers 0 = x.setTracker 0 t :=
    wakeDrainers_of_no_callers (by rw [hcore]; exact hn) 0
  have hy : ((((x.setTracker 0 t).note (Journal.pullStarted r t.demand)).note
      (Journal.publishingPull s.inbox r))).core.transport = .loopback l := by
    rw [core_note, core_note, hcore]
    exact h
  obtain ⟨hst, hb⟩ := stirred_carry hy ha s.inbox r
  obtain ⟨hok, _⟩ := core_carry hy ha s.inbox r
  unfold pull
  rw [hs']
  dsimp only
  rw [if_neg (ne_true_of_eq_false hc), ht']
  dsimp only
  rw [hd, ← Prod.eta (carry _ _ _), hok]
  dsimp only
  have hpre := ((stirred_setTracker x t).trans
    (stirred_note _ (Journal.pullStarted r t.demand))).trans
      (stirred_note _ (Journal.publishingPull s.inbox r))
  exact ⟨(hpre.trans hst).trans (stirred_count _ _), hb⟩

theorem stirred_account (hn : x.core.callers = []) (s : Subscription) (f : Frame) :
    Stirred x (x.account 0 s f) := by
  have hcore := core_setTracker x 0 (s.tracker.account x.now f)
  have hd : (x.setTracker 0 (s.tracker.account x.now f)).wakeDrainers 0 =
      x.setTracker 0 (s.tracker.account x.now f) :=
    wakeDrainers_of_no_callers (by rw [hcore]; exact hn) 0
  unfold account
  dsimp only
  rw [hd]
  exact ((stirred_setTracker x _).trans (stirred_noteAccount _ _ _)).trans
    (stirred_countFrame _ _)

theorem stirred_popped (x : Exchange) (i : Nat) (rest : Fifo Frame) :
    Stirred x (x.popped i rest) :=
  (stirred_modifyFeed x i _).trans (stirred_wakeHeldUp _)

/-- A frame that leaves a feed wakes a broker that is held up. -/
theorem broker_mem_ready_popped (h : x.core.transport = .loopback l) (hag : l.broker.agenda ≠ [])
    (i : Nat) (rest : Fifo Frame) : Task.broker ∈ (x.popped i rest).ready := by
  have ht : (x.modifyFeed i fun feed => { feed with frames := rest }).transport = .loopback l := h
  have hheld : (x.modifyFeed i fun feed => { feed with frames := rest }).isHeldUp = true := by
    unfold isHeldUp
    rw [ht]
    cases hl : l.broker.agenda with
    | nil => exact absurd hl hag
    | cons d ds => simp [hl]
  unfold popped wakeHeldUp
  rw [hheld]
  exact mem_ready_wake _ fun id => by simp

/-! ## Steps of the broker and of the alarm task -/

theorem stirred_takeCommand (x : Exchange) {c : Broker.Command}
    (hu : ∀ inbox, c ≠ .unsubscribe inbox) (hs : ∀ asker, c ≠ .stats asker)
    (hl : ∀ asker, c ≠ .pullLog asker) (rest : Fifo Broker.Command) :
    Stirred x (x.takeCommand c rest) := by
  have hm : ∀ (y : Exchange) (g : Loopback → Loopback), Stirred y (y.modifyLoopback g) := by
    intro y g
    unfold modifyLoopback
    split
    · exact stirred_of_same rfl rfl rfl rfl
    · exact Stirred.refl y
  have hst := (stirred_noteCommand x c).trans (hm (x.noteCommand c) fun l =>
    { l with commands := rest, broker := l.broker.accept (x.noteCommand c).now c })
  unfold takeCommand
  dsimp only
  cases c with
  | publish m => exact hst
  | register inbox => exact hst
  | pull inbox r => exact hst
  | unsubscribe inbox => exact absurd rfl (hu inbox)
  | inject inbox f => exact hst
  | stats asker => exact absurd rfl (hs asker)
  | pullLog asker => exact absurd rfl (hl asker)

/-- The alarm task changes nothing in its subscription but the monitor, its own end and the
alarms that it passes on. -/
theorem alarmStep_cases (hn : x.core.callers = []) {s : Subscription}
    (hs : x.core.subs[0]? = some s) : Stirred x (x.alarmStep 0).1 ∧
      ∃ g : Subscription → Subscription, (∃ w m as, g s = { s with
          watching := w, tracker := { s.tracker with monitor := m }, alarms := as }) ∧
        (x.alarmStep 0).1.core = { x.core with subs := x.core.subs.modify 0 g } := by
  have hs' : x.subs[0]? = some s := hs
  let saw : Subscription → Subscription := fun u =>
    { u with tracker := { u.tracker with monitor := u.tracker.monitor.seen x.now } }
  have hsaw : Stirred x (x.sawMonitor 0) := stirred_modifySub x 0 saw
  have hid : x.core = { x.core with subs := x.core.subs.modify 0 id } := by
    rw [modify_id]
  -- the log does not matter
  have hend : ∀ y : Exchange, Stirred x y → y.core = x.core → Stirred x (y.endAlarm 0) ∧
      (y.endAlarm 0).core =
        { x.core with subs := x.core.subs.modify 0 fun u => { u with watching := false } } := by
    intro y hy hc
    have hny : y.core.callers = [] := hc ▸ hn
    unfold endAlarm
    dsimp only
    rw [wakeLeavers_of_no_callers (by exact hny)]
    refine ⟨(hy.trans (stirred_modifySub y 0 _)).trans (stirred_clearTimer _ _), ?_⟩
    rw [← hc]
    rfl
  unfold alarmStep
  rw [hs']
  dsimp only
  split
  · cases s.tracker.monitor.look x.now with
    | stop =>
      obtain ⟨hst, hcore⟩ := hend (x.note Journal.monitorStopped) (stirred_note x _) rfl
      exact ⟨hst, fun u => { u with watching := false },
        ⟨false, s.tracker.monitor, s.alarms, rfl⟩, hcore⟩
    | breakDown =>
      obtain ⟨hst, hcore⟩ := hend x (Stirred.refl x) rfl
      exact ⟨hst, fun u => { u with watching := false },
        ⟨false, s.tracker.monitor, s.alarms, rfl⟩, hcore⟩
    | wait =>
      exact ⟨hsaw.trans (stirred_clearTimer _ _), saw,
        ⟨s.watching, s.tracker.monitor.seen x.now, s.alarms, rfl⟩, rfl⟩
    | sleep due =>
      exact ⟨hsaw.trans (stirred_setTimer _ alarm_mem_crew due), saw,
        ⟨s.watching, s.tracker.monitor.seen x.now, s.alarms, rfl⟩, rfl⟩
    | alarm d =>
      refine ⟨((hsaw.trans (stirred_note _ _)).trans (stirred_modifySub _ 0 _)).trans
        (stirred_wake _ worker_mem_crew), fun u => { saw u with alarms := u.alarms ++ [d] },
        ⟨s.watching, s.tracker.monitor.seen x.now, s.alarms ++ [d], rfl⟩, ?_⟩
      dsimp only
      rw [core_wake, core_modifySub, core_note]
      unfold sawMonitor
      rw [core_modifySub]
      dsimp only
      rw [modify_modify]
      rfl
  · exact ⟨Stirred.refl x, id, ⟨s.watching, s.tracker.monitor, s.alarms, rfl⟩, hid⟩

/-! ## A subscription opens -/

theorem stirred_subscribe (x : Exchange) (reader : Option Nat) :
    Stirred x (x.subscribe reader).1 := by
  unfold subscribe
  dsimp only
  split
  · rename_i l _
    have hs : Stirred x { x with transport := .loopback { l with nextInbox := l.nextInbox + 1 } } :=
      stirred_of_same rfl rfl rfl rfl
    have hsend := hs.trans (stirred_send _ (.register s!"_INBOX.loopback.{l.nextInbox}"))
    split
    · exact hsend.trans (stirred_of_same rfl rfl rfl rfl)
    · exact hsend
  · split
    · exact Stirred.refl x
    · exact stirred_of_same rfl rfl rfl rfl

/-- The first subscription puts its two tasks in line. -/
theorem stirred_openSub (hi : x.core.subs.size = 0) (p : Purpose) :
    Stirred x (x.openSub p).1 := by
  have hi' : x.subs.size = 0 := hi
  refine openSub_keeps (stirred_subscribe x _) fun y feed inbox hy => ?_
  have hpush : Stirred y { y with
      subs := y.subs.push (.start inbox feed y.now y.queueCapacity p) } :=
    stirred_of_same rfl rfl rfl rfl
  rw [hi']
  exact (((hy.trans hpush).trans (stirred_wake _ alarm_mem_crew)).trans
    (stirred_wake _ worker_mem_crew)).trans (stirred_note _ _)

end DemandFlow.Exchange
