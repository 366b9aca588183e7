import DemandFlow.Exchange.Consume

/-
  Views of an exchange that leave parts of it out. A small step touches few parts, and a view
  without these is the same afterwards. Three sizes of view are enough: without the bookkeeping,
  without what carries frames and commands as well, and without the subscriptions too.
-/

namespace DemandFlow.Exchange

variable {α : Type}

/-! ## Without the bookkeeping -/

/-- A view that leaves out the log, the counters, the line of tasks and the timers. -/
structure SkipsBooks (view : Exchange → α) : Prop where
  note : ∀ (x : Exchange) (e : Log.Entry), view (x.note e) = view x
  count : ∀ (x : Exchange) (f : Counters → Counters), view (x.count f) = view x
  line : ∀ (x : Exchange) (ready : List Task) (front : Bool),
    view { x with ready := ready, foregroundReady := front } = view x
  timers : ∀ (x : Exchange) (ts : List Timer), view { x with timers := ts } = view x

namespace SkipsBooks

variable {view : Exchange → α} (h : SkipsBooks view) (x : Exchange)
include h

theorem noteIf (b : Bool) (e : Log.Entry) : view (x.noteIf b e) = view x := by
  cases b with
  | true => exact h.note x e
  | false => rfl

theorem foldl_note (es : List Log.Entry) : view (es.foldl Exchange.note x) = view x := by
  induction es generalizing x with
  | nil => rfl
  | cons e es ih => rw [List.foldl_cons, ih, h.note]

theorem wake (t : Task) : view (x.wake t) = view x := by
  unfold Exchange.wake
  split
  · split
    · exact h.line x x.ready true
    · split
      · rfl
      · exact h.line x _ x.foregroundReady
  · split
    · rfl
    · exact h.line x _ x.foregroundReady

theorem wakeIf (b : Bool) (t : Task) : view (x.wakeIf b t) = view x := by
  cases b with
  | true => exact h.wake x t
  | false => rfl

theorem wakeAll (ts : List Task) : view (x.wakeAll ts) = view x := by
  unfold Exchange.wakeAll
  induction ts generalizing x with
  | nil => rfl
  | cons t ts ih => rw [List.foldl_cons, ih, h.wake]

theorem keepTimer (t : Task) (due : Nat) : view (x.keepTimer t due) = view x := by
  unfold Exchange.keepTimer
  split
  · rfl
  · exact h.timers x _

theorem noteAccount (f : Frame) (d : Demand) : view (x.noteAccount f d) = view x := by
  unfold Exchange.noteAccount
  cases f with
  | message m => exact (h.note _ _).trans (h.noteIf x _ _)
  | status s =>
    dsimp only
    split
    · exact h.note x _
    · exact (h.note _ _).trans (h.noteIf x _ _)

theorem countFrame (k : Intake) : view (x.countFrame k) = view x := by
  cases k with
  | heartbeat => rfl
  | message m => exact h.count x _
  | terminus s => exact h.count x (·.addStatus .terminus)
  | warning s => exact h.count x (·.addStatus .warning)
  | error s => exact h.count x (·.addStatus .error)

theorem noteCommand (c : Broker.Command) : view (x.noteCommand c) = view x := by
  unfold Exchange.noteCommand
  split
  · exact h.foldl_note x _
  · rfl

end SkipsBooks

/-! ## Without the transport and the feeds -/

/-- A view that leaves out the transport and the feeds as well. -/
structure SkipsWires (view : Exchange → α) : Prop extends SkipsBooks view where
  transport : ∀ (x : Exchange) (t : Transport), view { x with transport := t } = view x
  feeds : ∀ (x : Exchange) (fs : Array Feed), view { x with feeds := fs } = view x

namespace SkipsWires

variable {view : Exchange → α} (h : SkipsWires view) (x : Exchange)
include h

theorem send (c : Broker.Command) : view (x.send c).1 = view x := by
  unfold Exchange.send
  split
  · split
    · dsimp only
      exact (h.wake _ _).trans (h.transport x _)
    · exact h.note x _
  · rfl

theorem closeFeed (inbox : String) : view (x.closeFeed inbox) = view x := by
  unfold Exchange.closeFeed
  split
  · rfl
  · split
    · rfl
    · exact (h.wakeAll _ _).trans (h.feeds x _)

theorem abandonFeed (i : Nat) : view (x.abandonFeed i) = view x :=
  (h.wakeIf _ _ _).trans (h.feeds x _)

theorem subscribe (reader : Option Nat) : view (x.subscribe reader).1 = view x := by
  unfold Exchange.subscribe
  dsimp only
  split
  · split
    · exact (h.feeds _ _).trans ((h.send _ _).trans (h.transport x _))
    · exact (h.send _ _).trans (h.transport x _)
  · split
    · rfl
    · exact (h.feeds _ _).trans (h.transport x _)

theorem carry (inbox : String) (r : PullRequest) : view (x.carry inbox r).1 = view x := by
  unfold Exchange.carry
  split
  · exact (h.send _ _).trans (h.note x _)
  · split
    · rfl
    · exact h.transport x _

theorem release (inbox : String) : view (x.release inbox) = view x := by
  unfold Exchange.release
  split
  · exact h.send x _
  · exact (h.closeFeed _ _).trans (h.transport x _)

theorem publish (m : Message) : view (x.publish m).1 = view x := by
  unfold Exchange.publish
  split
  · exact (h.send _ _).trans (h.transport x _)
  · rfl

theorem post (l : Loopback) (b : Broker.State) (inbox : String) (f : Frame) :
    view (x.post l b inbox f).1 = view x := by
  unfold Exchange.post
  split
  · split
    · exact h.transport x _
    · split
      · split
        · exact h.timers x _
        · exact (h.wakeAll _ _).trans ((h.feeds _ _).trans (h.transport x _))
      · exact (h.closeFeed _ _).trans ((h.note _ _).trans (h.transport x _))
  · exact (h.note _ _).trans (h.transport x _)

end SkipsWires

/-! ## Without the subscriptions -/

/-- A subscription opens behind the others and its two tasks are woken, once it has a feed. -/
theorem openSub_keeps {P : Exchange → Prop} {x : Exchange} {p : Purpose}
    (hx : P (x.subscribe (some x.subs.size)).1)
    (hadd : ∀ (y : Exchange) (feed : Nat) (inbox : String), P y →
      P ((({ y with subs := y.subs.push (.start inbox feed y.now y.queueCapacity p) }.wake
        (.alarm x.subs.size)).wake (.worker x.subs.size)).note
          (Journal.subscriptionOpened inbox))) : P (x.openSub p).1 := by
  unfold openSub
  dsimp only
  split
  · rename_i hy
    rw [hy] at hx
    exact hx
  · rename_i y feed inbox hy
    rw [hy] at hx
    exact hadd y feed inbox hx

/-- The number of a subscription that is opened is the next one. -/
theorem eq_size_of_openSub {x : Exchange} {p : Purpose} {j : Nat}
    (h : (x.openSub p).2 = .ok j) : j = x.subs.size := by
  unfold openSub at h
  dsimp only at h
  split at h
  · cases h
  · exact (Except.ok.inj h).symm

/-- Who looks at a queue takes a delivery and leaves the line, leaves it without one, or waits. -/
theorem look_cases (x : Exchange) (id i : Nat) (s : Subscription) (due : Option Nat) :
    (∃ d rest, s.queue.pop? = some (d, rest) ∧ x.look id i s due =
      (((x.modifySub i fun s => { s with queue := rest }).wake (.worker i)).leaveLine id i,
        .taken (some d))) ∨
    (∃ l, (l = .taken none ∨ l = .late) ∧ x.look id i s due = (x.leaveLine id i, l)) ∨
    x.look id i s due = (x, .waiting) := by
  unfold look
  dsimp only
  split
  · split
    · rename_i d rest hp
      exact Or.inl ⟨d, rest, hp, rfl⟩
    · split
      · exact Or.inr (Or.inl ⟨_, Or.inl rfl, rfl⟩)
      · split
        · exact Or.inr (Or.inl ⟨_, Or.inr rfl, rfl⟩)
        · exact Or.inr (Or.inr rfl)
  · split
    · exact Or.inr (Or.inl ⟨_, Or.inr rfl, rfl⟩)
    · exact Or.inr (Or.inr rfl)

/-- A view that leaves out the subscriptions as well. -/
structure SkipsSubs (view : Exchange → α) : Prop extends SkipsWires view where
  subs : ∀ (x : Exchange) (ss : Array Subscription), view { x with subs := ss } = view x

namespace SkipsSubs

variable {view : Exchange → α} (h : SkipsSubs view) (x : Exchange)
include h

theorem setTracker (i : Nat) (t : Tracker) : view (x.setTracker i t) = view x :=
  (h.wakeIf _ _ _).trans (h.subs x _)

theorem retracked (i : Nat) (t : Tracker) :
    view ((x.setTracker i t).wakeDrainers i) = view x :=
  (h.wakeAll _ _).trans (h.setTracker x i t)

theorem account (i : Nat) (s : Subscription) (f : Frame) : view (x.account i s f) = view x :=
  (h.countFrame _ _).trans ((h.noteAccount _ _ _).trans (h.retracked x i _))

theorem openSub (p : Purpose) : view (x.openSub p).1 = view x :=
  openSub_keeps (P := fun y => view y = view x) (h.subscribe x _) fun y _ _ hy =>
    (h.note _ _).trans ((h.wake _ _).trans ((h.wake _ _).trans ((h.subs y _).trans hy)))

theorem pull (i : Nat) (r : PullRequest) : view (x.pull i r).1 = view x := by
  unfold Exchange.pull
  split
  · rfl
  · rename_i s _
    split
    · rfl
    · split
      · exact h.setTracker x i _
      · rename_i t _
        have hcarry := (h.carry ((((x.setTracker i t).wakeDrainers i).note
          (Journal.pullStarted r t.demand)).note (Journal.publishingPull s.inbox r)) s.inbox
            r).trans ((h.note _ _).trans ((h.note _ _).trans (h.retracked x i t)))
        dsimp only
        split
        · rename_i hy
          rw [hy] at hcarry
          exact (h.count _ _).trans hcarry
        · rename_i y e hy
          rw [hy] at hcarry
          exact (h.note _ _).trans ((h.note _ _).trans ((h.retracked y i _).trans hcarry))

theorem close (i : Nat) : view (x.close i) = view x := by
  unfold Exchange.close
  split
  · rfl
  · exact (h.setTracker _ _ _).trans ((h.wake _ _).trans (h.subs x _))

theorem unsubscribe (i : Nat) : view (x.unsubscribe i) = view x := by
  unfold Exchange.unsubscribe
  dsimp only
  split
  · exact h.close x i
  · split
    · exact h.close x i
    · exact (h.note _ _).trans ((h.release _ _).trans ((h.subs _ _).trans (h.close x i)))

theorem dropSub (i : Nat) (inside : Bool) : view (x.dropSub i inside) = view x := by
  unfold Exchange.dropSub
  dsimp only
  split
  · exact h.close x i
  · split
    · exact h.close x i
    · exact (h.wakeIf _ _ _).trans ((h.subs _ _).trans (h.close x i))

theorem endAlarm (i : Nat) : view (x.endAlarm i) = view x :=
  (h.wakeAll _ _).trans ((h.timers _ _).trans (h.subs x _))

theorem endWorker (i : Nat) : view (x.endWorker i) = view x := by
  unfold Exchange.endWorker
  dsimp only
  split
  · exact h.close x i
  · refine (h.wake _ _).trans ((h.wakeAll _ _).trans ((h.wakeAll _ _).trans ?_))
    exact (h.abandonFeed _ _).trans ((h.note _ _).trans ((h.subs _ _).trans (h.close x i)))

theorem leaveLine (id i : Nat) : view (x.leaveLine id i) = view x := by
  unfold Exchange.leaveLine
  split
  · rfl
  · exact (h.wakeAll _ _).trans (h.subs x _)

theorem look (id i : Nat) (s : Subscription) (due : Option Nat) :
    view (x.look id i s due).1 = view x := by
  rcases look_cases x id i s due with ⟨d, rest, _, he⟩ | ⟨l, _, he⟩ | he
  · rw [he]
    exact (h.leaveLine _ id i).trans ((h.wake _ _).trans (h.subs x _))
  · rw [he]
    exact h.leaveLine x id i
  · rw [he]

end SkipsSubs

theorem skips_callers : SkipsSubs Exchange.callers where
  note := fun _ _ => rfl
  count := fun _ _ => rfl
  line := fun _ _ _ => rfl
  timers := fun _ _ => rfl
  transport := fun _ _ => rfl
  feeds := fun _ _ => rfl
  subs := fun _ _ => rfl

theorem skips_now : SkipsSubs Exchange.now where
  note := fun _ _ => rfl
  count := fun _ _ => rfl
  line := fun _ _ _ => rfl
  timers := fun _ _ => rfl
  transport := fun _ _ => rfl
  feeds := fun _ _ => rfl
  subs := fun _ _ => rfl

end DemandFlow.Exchange
