import DemandFlow.Proofs.Exchange.Withdrawal
import DemandFlow.Proofs.Lane.Reach

/-
  How monitors age. At one instant, while no alarm is raised or taken in, monitors that are shut
  stay shut, subscriptions that are shut down have theirs shut, and what a monitor has seen last
  stays or is seen now. Every move but the clock, the alarm task and the worker that takes in an
  alarm keeps within this.
-/

namespace DemandFlow

/-! ## Trackers -/

/-- A tracker has changed at one instant: its monitor does not open again, and has last seen
what it had, or has seen something now. -/
structure Tracker.Ages (now : Nat) (t t' : Tracker) : Prop where
  shut : t.monitor.closed = true → t'.monitor.closed = true
  seen : t'.monitor.lastSeen = t.monitor.lastSeen ∨ t'.monitor.lastSeen = now

namespace Tracker

variable {now : Nat} {t t' t'' : Tracker}

theorem ages_refl (now : Nat) (t : Tracker) : t.Ages now t := ⟨id, Or.inl rfl⟩

theorem Ages.trans (h : t.Ages now t') (h' : t'.Ages now t'') : t.Ages now t'' := by
  refine ⟨fun hc => h'.shut (h.shut hc), ?_⟩
  rcases h'.seen with he | he
  · rw [he]
    exact h.seen
  · exact Or.inr he

theorem ages_added (now : Nat) (r : PullRequest) (t : Tracker) : t.Ages now (t.added r) :=
  ⟨id, Or.inl rfl⟩

theorem ages_issue {r : PullRequest} (h : t.issue now r = some t') : t.Ages now t' := by
  simp only [issue, Monitor.configure, Option.map_map, Option.map_eq_some_iff] at h
  obtain ⟨p, _, rfl⟩ := h
  dsimp only [Function.comp_apply]
  split
  · unfold Monitor.arm
    split
    · exact ⟨id, Or.inl rfl⟩
    · exact ⟨id, Or.inr rfl⟩
  · exact ⟨id, Or.inl rfl⟩

theorem ages_disarmIf (now : Nat) (b : Bool) (d : Demand) (t : Tracker) :
    t.Ages now ⟨d, if b then t.monitor.disarm else t.monitor⟩ := by
  cases b <;> exact ⟨id, Or.inl rfl⟩

theorem ages_cancel (now : Nat) (r : PullRequest) (t : Tracker) : t.Ages now (t.cancel r) :=
  ages_disarmIf now _ _ t

theorem ages_account (now : Nat) (f : Frame) (t : Tracker) : t.Ages now (t.account now f) := by
  obtain ⟨hc, hs, _⟩ := monitor_account now f t
  exact ⟨fun h => hc.trans h, Or.inr hs⟩

theorem seen_fields (now : Nat) (m : Monitor) :
    (m.seen now).closed = m.closed ∧ (m.seen now).lastSeen = m.lastSeen := by
  unfold Monitor.seen
  split <;> exact ⟨rfl, rfl⟩

/-- To look at a monitor shows it nothing. -/
theorem ages_seen (now : Nat) (t : Tracker) :
    t.Ages now { t with monitor := t.monitor.seen now } := by
  obtain ⟨hc, hs⟩ := seen_fields now t.monitor
  exact ⟨fun h => hc.trans h, Or.inl hs⟩

end Tracker

/-! ## Subscriptions -/

namespace Subscription

/-- A subscription has changed at one instant: its tracker has aged, and when it is shut down, so
is its monitor. -/
structure Matures (now : Nat) (s s' : Subscription) : Prop where
  tracker : s.tracker.Ages now s'.tracker
  closed : s'.closed = true → s.closed = true ∨ s'.tracker.monitor.closed = true

/-- A subscription has changed at one instant, and its alarms wait as before. -/
structure Ages (now : Nat) (s s' : Subscription) : Prop extends Matures now s s' where
  alarms : s'.alarms = s.alarms

/-- The monitor of a subscription that is shut down is shut, and nothing was seen later than
now. -/
structure Timely (now : Nat) (s : Subscription) : Prop where
  shut : s.closed = true → s.tracker.monitor.closed = true
  seen : s.tracker.monitor.lastSeen ≤ now

/-- A subscription that was opened now. -/
structure IsYoung (now : Nat) (s : Subscription) : Prop where
  shut : s.closed = true → s.tracker.monitor.closed = true
  seen : s.tracker.monitor.lastSeen = now
  alarms : s.alarms = []

variable {now : Nat} {s s' s'' : Subscription}

theorem Matures.shut (h : s.Matures now s')
    (hs : s.closed = true → s.tracker.monitor.closed = true) (hc : s'.closed = true) :
    s'.tracker.monitor.closed = true := by
  rcases h.closed hc with hc' | hc'
  · exact h.tracker.shut (hs hc')
  · exact hc'

theorem Matures.timely (h : s.Matures now s') (ht : s.Timely now) : s'.Timely now := by
  refine ⟨h.shut ht.shut, ?_⟩
  rcases h.tracker.seen with he | he
  · rw [he]
    exact ht.seen
  · exact Nat.le_of_eq he

theorem Matures.lastSeen_le (h : s.Matures now s') (ht : s.Timely now) :
    s.tracker.monitor.lastSeen ≤ s'.tracker.monitor.lastSeen := by
  rcases h.tracker.seen with he | he
  · exact Nat.le_of_eq he.symm
  · rw [he]
    exact ht.seen

theorem ages_refl (now : Nat) (s : Subscription) : s.Ages now s :=
  ⟨⟨Tracker.ages_refl now s.tracker, Or.inl⟩, rfl⟩

theorem Ages.trans (h : s.Ages now s') (h' : s'.Ages now s'') : s.Ages now s'' := by
  refine ⟨⟨h.tracker.trans h'.tracker, fun hc => ?_⟩, h'.alarms.trans h.alarms⟩
  rcases h'.closed hc with hc' | hc'
  · exact (h.closed hc').imp_right h'.tracker.shut
  · exact Or.inr hc'

theorem Ages.young (h : s.Ages now s') (hy : s.IsYoung now) : s'.IsYoung now := by
  refine ⟨h.shut hy.shut, ?_, h.alarms.trans hy.alarms⟩
  rcases h.tracker.seen with he | he
  · exact he.trans hy.seen
  · exact he

theorem IsYoung.timely (h : s.IsYoung now) : s.Timely now := ⟨h.shut, Nat.le_of_eq h.seen⟩

theorem Timely.later (h : s.Timely now) {later : Nat} (hl : now ≤ later) : s.Timely later :=
  ⟨h.shut, Nat.le_trans h.seen hl⟩

theorem isYoung_start (inbox : String) (feed now capacity : Nat) (p : Purpose) :
    (start inbox feed now capacity p).IsYoung now :=
  ⟨fun hc => (by cases hc), rfl, rfl⟩

/-- The subscription once an alarm was raised. -/
def raised (now : Nat) (d : Span) (s : Subscription) : Subscription :=
  { s with
    tracker := { s.tracker with monitor := s.tracker.monitor.seen now }
    alarms := s.alarms ++ [d] }

end Subscription

/-! ## Exchanges -/

namespace Exchange

/-- Each subscription has aged, or was opened now. -/
structure Older (x y : Exchange) : Prop where
  now : y.now = x.now
  size : x.subs.size ≤ y.subs.size
  sub : ∀ (i : Nat) (s' : Subscription), y.subs[i]? = some s' →
    (∃ s, x.subs[i]? = some s ∧ s.Ages x.now s') ∨ x.subs.size ≤ i ∧ s'.IsYoung x.now

variable {x₀ x y z : Exchange} {opens : Bool}

theorem older_refl (x : Exchange) : Older x x :=
  ⟨rfl, Nat.le_refl _, fun _ s hs => Or.inl ⟨s, hs, s.ages_refl x.now⟩⟩

theorem older_of_affairs (h : y.affairs = x.affairs) : Older x y := by
  have hs := subs_of_affairs h
  exact ⟨congrArg Prod.fst h, Nat.le_of_eq (congrArg Array.size hs.symm),
    fun i s hi => Or.inl ⟨s, hs ▸ hi, s.ages_refl x.now⟩⟩

theorem Older.trans (h : Older x y) (h' : Older y z) : Older x z := by
  refine ⟨h'.now.trans h.now, Nat.le_trans h.size h'.size, fun i s'' hs'' => ?_⟩
  rcases h'.sub i s'' hs'' with ⟨s', hs', ha'⟩ | ⟨hi, hy⟩
  · rw [h.now] at ha'
    rcases h.sub i s' hs' with ⟨s, hs, ha⟩ | ⟨hi, hy⟩
    · exact Or.inl ⟨s, hs, ha.trans ha'⟩
    · exact Or.inr ⟨hi, ha'.young hy⟩
  · rw [h.now] at hy
    exact Or.inr ⟨Nat.le_trans h.size hi, hy⟩

/-- Only one subscription changes. -/
theorem older_modify {i : Nat} {g : Subscription → Subscription} (hn : y.now = x.now)
    (hs : y.subs = x.subs.modify i g)
    (hg : ∀ s, x.subs[i]? = some s → s.Ages x.now (g s)) : Older x y := by
  refine ⟨hn, ?_, fun j s' hs' => Or.inl ?_⟩
  · have hsize : y.subs.size = x.subs.size := by rw [hs, Array.size_modify]
    exact Nat.le_of_eq hsize.symm
  · rw [hs] at hs'
    rcases getElem?_modify_eq_some hs' with ⟨s, rfl, hsi, rfl⟩ | ⟨_, hsi⟩
    · exact ⟨s, hsi, hg s hsi⟩
    · exact ⟨s', hsi, s'.ages_refl x.now⟩

/-- A subscription opens behind the others. -/
theorem older_push {s : Subscription} (hn : y.now = x.now) (hs : y.subs = x.subs.push s)
    (hy : s.IsYoung x.now) : Older x y := by
  refine ⟨hn, ?_, fun i s' hs' => ?_⟩
  · rw [hs, Array.size_push]
    exact Nat.le_succ _
  · rw [hs, Array.getElem?_push] at hs'
    split at hs'
    · rename_i hi
      cases hs'
      exact Or.inr ⟨Nat.le_of_eq hi.symm, hy⟩
    · exact Or.inl ⟨s', hs', s'.ages_refl x.now⟩

theorem older_openSub (x : Exchange) (p : Purpose) : Older x (x.openSub p).1 := by
  refine openSub_keeps (older_of_affairs (skips_affairs.subscribe x _)) fun y feed inbox hy => ?_
  have hpush : Older y { y with
      subs := y.subs.push (.start inbox feed y.now y.queueCapacity p) } :=
    older_push rfl rfl (Subscription.isYoung_start ..)
  refine hy.trans (hpush.trans (older_of_affairs ?_))
  exact (skips_affairs.wake _ _).trans (skips_affairs.wake _ _)

/-- The tracker of a subscription is replaced. -/
theorem older_retracked {i : Nat} {s : Subscription} {t : Tracker} (hs : x.subs[i]? = some s)
    (hn : y.now = x.now) (hy : y.subs = retracked i t x.subs)
    (ht : s.tracker.Ages x.now t) : Older x y := by
  refine older_modify hn hy fun u hu => ?_
  cases hs.symm.trans hu
  exact ⟨⟨ht, Or.inl⟩, rfl⟩

theorem older_pull (x : Exchange) (i : Nat) (r : PullRequest) : Older x (x.pull i r).1 := by
  have hn := skips_now.pull x i r
  rcases pull_cases x i r with ⟨_, he⟩ | ⟨s, hs, _, ⟨_, _, he⟩ | ⟨t, ht, ⟨_, he⟩ | ⟨_, _, he⟩⟩⟩
  · rw [he]
    exact older_refl x
  · exact older_retracked hs hn he (Tracker.ages_added x.now r s.tracker)
  · exact older_retracked hs hn he (Tracker.ages_issue ht)
  · exact older_retracked hs hn he ((Tracker.ages_issue ht).trans (Tracker.ages_cancel x.now r t))

theorem older_manage (x : Exchange) (i : Nat) : Older x (x.manage i) := by
  rcases core_manage x i with hc | ⟨s, feed, f, rest, hs, _, _, hc⟩
  · exact older_of_affairs (affairs_of_core hc)
  · exact older_retracked hs (congrArg Core.now hc) (congrArg Core.subs hc)
      (Tracker.ages_account x.now f s.tracker)

theorem older_close (x : Exchange) (i : Nat) : Older x (x.close i) := by
  have hc := core_close x i
  have hs : (x.close i).subs = x.subs.modify i fun s => { s with
      closed := true
      tracker := { s.tracker with monitor := s.tracker.monitor.shutdown } } :=
    congrArg Core.subs hc
  exact older_modify (congrArg Core.now hc) hs fun s _ =>
    ⟨⟨⟨fun _ => rfl, Or.inl rfl⟩, fun _ => Or.inr rfl⟩, rfl⟩

/-- What ensues has aged. -/
theorem Ensues.older (h : Ensues opens x y) : Older x y := by
  induction h with
  | refl => exact older_refl x
  | opened _ p _ ih => exact ih.trans (older_openSub _ p)
  | pulled _ i r ih => exact ih.trans (older_pull _ i r)
  | managed _ i ih => exact ih.trans (older_manage _ i)
  | closed _ i ih => exact ih.trans (older_close _ i)
  | elsewhere _ hn hs ih =>
    refine ih.trans ⟨hn, Nat.le_of_eq hs.size.symm, fun i s' hs' => Or.inl ?_⟩
    obtain ⟨s, hi, ht, hc, ha⟩ := hs.sub i s' hs'
    exact ⟨s, hi, ⟨ht ▸ Tracker.ages_refl _ _, fun h => Or.inl (hc.symm.trans h)⟩, ha⟩

/-- Unless a subscription is opened there are as many as before. -/
theorem Ensues.size (h : Ensues false x y) : y.subs.size = x.subs.size := by
  induction h with
  | refl => rfl
  | opened _ p ho => cases ho
  | @pulled y _ i r ih =>
    rcases pull_cases y i r with ⟨_, he⟩ | ⟨s, _, _, ⟨_, _, he⟩ | ⟨t, _, ⟨_, he⟩ | ⟨_, _, he⟩⟩⟩
    · rw [he]
      exact ih
    all_goals
      rw [he, retracked, Array.size_modify]
      exact ih
  | @managed y _ i ih =>
    rcases core_manage y i with hc | ⟨s, feed, f, rest, _, _, _, hc⟩
    · exact (congrArg (fun c : Core => c.subs.size) hc).trans ih
    · exact (congrArg (fun c : Core => c.subs.size) hc).trans (Array.size_modify.trans ih)
  | @closed y _ i ih =>
    exact (congrArg (fun c : Core => c.subs.size) (core_close y i)).trans
      (Array.size_modify.trans ih)
  | elsewhere _ _ hs ih => exact hs.size.trans ih

/-! ## The alarm task -/

/-- The alarm that the alarm task raises when it looks at a monitor, with the period that is
over. -/
def raises? (x : Exchange) (i : Nat) : Option (Span × Span) :=
  match x.subs[i]? with
  | none => none
  | some s =>
    if s.watching then
      match s.tracker.monitor.period, s.tracker.monitor.look x.now with
      | some p, .alarm d => some (p, d)
      | _, _ => none
    else none

/-- An alarm is raised for a monitor that is open and armed, after a silence of its period. -/
theorem raises?_eq_some {i : Nat} {p d : Span} (h : x.raises? i = some (p, d)) :
    ∃ s, x.subs[i]? = some s ∧ s.watching = true ∧ s.tracker.monitor.look x.now = .alarm d ∧
      s.tracker.monitor.closed = false ∧ d.nanos = x.now - s.tracker.monitor.lastSeen ∧
      s.tracker.monitor.lastSeen + p.nanos ≤ x.now := by
  unfold raises? at h
  cases hs : x.subs[i]? with
  | none =>
    rw [hs] at h
    cases h
  | some s =>
    rw [hs] at h
    dsimp only at h
    split at h
    · rename_i hw
      split at h
      · rename_i q e hq he
        cases h
        obtain ⟨hc, _, rfl, p', hp', hle⟩ := Monitor.look_eq_alarm he
        cases hq.symm.trans hp'
        exact ⟨s, rfl, hw, he, hc, rfl, hle⟩
      · cases h
    · cases h

theorem Ensues.endAlarm (h : Ensues opens x₀ x) (i : Nat) : Ensues opens x₀ (x.endAlarm i) := by
  have hm : Ensues opens x₀ (x.modifySub i fun s => { s with watching := false }) :=
    h.modifySub i fun _ => ⟨rfl, rfl, rfl⟩
  have hc : Ensues opens x₀ ((x.modifySub i fun s => { s with watching := false }).clearTimer
      (.alarm i)) := hm.same rfl
  exact hc.wakeAll _

/-- The alarm task raises an alarm, or leaves all alarms as they are. -/
theorem watch_cases (x : Exchange) (i : Nat) :
    (∃ p d, x.raises? i = some (p, d) ∧ (x.alarmStep i).1.now = x.now ∧
      (x.alarmStep i).1.subs = x.subs.modify i (Subscription.raised x.now d)) ∨
    x.raises? i = none ∧ Older x (x.alarmStep i).1 := by
  have hsaw : Older x (x.sawMonitor i) :=
    older_modify (i := i) (g := fun s =>
      { s with tracker := { s.tracker with monitor := s.tracker.monitor.seen x.now } }) rfl rfl
        fun s _ => ⟨⟨Tracker.ages_seen x.now s.tracker, Or.inl⟩, rfl⟩
  unfold alarmStep raises?
  cases hs : x.subs[i]? with
  | none => exact Or.inr ⟨rfl, older_refl x⟩
  | some s =>
    dsimp only
    split
    · cases hl : s.tracker.monitor.look x.now with
      | stop =>
        have hend : Ensues false x ((x.note Journal.monitorStopped).endAlarm i) :=
          (Ensues.refl.note _).endAlarm i
        refine Or.inr ⟨?_, hend.older⟩
        cases s.tracker.monitor.period <;> rfl
      | breakDown =>
        have hend : Ensues false x (x.endAlarm i) := Ensues.refl.endAlarm i
        refine Or.inr ⟨?_, hend.older⟩
        cases s.tracker.monitor.period <;> rfl
      | wait =>
        refine Or.inr ⟨?_, hsaw.trans (older_of_affairs rfl)⟩
        cases s.tracker.monitor.period <;> rfl
      | sleep due =>
        refine Or.inr ⟨?_, hsaw.trans (older_of_affairs rfl)⟩
        cases s.tracker.monitor.period <;> rfl
      | alarm d =>
        obtain ⟨_, _, _, p, hp, _⟩ := Monitor.look_eq_alarm hl
        refine Or.inl ⟨p, d, by rw [hp], ?_, ?_⟩
        · exact congrArg Core.now (core_wake _ _)
        · refine (congrArg Core.subs (core_wake _ _)).trans ?_
          unfold sawMonitor modifySub
          dsimp only [note, core]
          rw [modify_modify]
          rfl
    · exact Or.inr ⟨rfl, older_refl x⟩

end Exchange

end DemandFlow
