import DemandFlow.Bench
import DemandFlow.Proofs.Demand.Withdrawal

/-
  The alarm task beside direct calls. At any instant something is called, or the clock moves on,
  or the task looks at the monitor; that it looks only when it was stirred or when its timer is
  over is not needed for safety. Beside the run goes a log: when the monitor was touched, which
  requests were started, and each alarm with the monitor that it was raised for. An alarm is
  raised for the silence since the last touch, and no two alarms without a touch in between.
-/

namespace DemandFlow

/-! ## What calls do to a monitor -/

namespace Monitor

/-- A monitor after calls at `now` that touched it or did not: to touch it is what a frame does,
and to arm it where that has an effect. -/
structure Hears (now : Nat) (touch : Bool) (m m' : Monitor) : Prop where
  lastSeen : m'.lastSeen = if touch then now else m.lastSeen
  alarmed : m'.alarmed = (!touch && m.alarmed)
  armed : m'.armed = true → touch = true ∨ m.armed = true
  shut : (m.closed = true → m.armed = false) → m'.closed = true → m'.armed = false

variable {now : Nat} {touch touch' : Bool} {m m' m'' : Monitor}

theorem Hears.trans (h : Hears now touch m m') (h' : Hears now touch' m' m'') :
    Hears now (touch' || touch) m m'' := by
  refine ⟨?_, ?_, fun ha => ?_, fun hs => h'.shut (h.shut hs)⟩
  · rw [h'.lastSeen, h.lastSeen]
    cases touch' <;> rfl
  · rw [h'.alarmed, h.alarmed]
    cases touch' <;> rfl
  · rcases h'.armed ha with ht | ha
    · exact Or.inl (by rw [ht]; rfl)
    · exact (h.armed ha).imp_left fun ht => by rw [ht, Bool.or_true]

theorem hears_refl (now : Nat) (m : Monitor) : Hears now false m m :=
  ⟨rfl, rfl, Or.inr, id⟩

theorem hears_record (now : Nat) (m : Monitor) : Hears now true m (m.record now) :=
  ⟨rfl, rfl, fun _ => Or.inl rfl, id⟩

theorem hears_arm (now : Nat) (m : Monitor) :
    Hears now (m.period.isSome && !m.closed) m (m.arm now) := by
  unfold arm
  cases m.period <;> cases m.closed
  · exact hears_refl now m
  · exact hears_refl now m
  · exact ⟨rfl, rfl, fun _ => Or.inl rfl, fun _ h => nomatch h⟩
  · exact hears_refl now m

theorem hears_disarm (now : Nat) (m : Monitor) : Hears now false m m.disarm :=
  ⟨rfl, rfl, fun h => absurd h Bool.false_ne_true, fun _ _ => rfl⟩

/-- At most disarmed. -/
theorem hears_of_or (now : Nat) (h : m' = m ∨ m' = m.disarm) : Hears now false m m' := by
  rcases h with rfl | rfl
  · exact hears_refl now m'
  · exact hears_disarm now m

theorem hears_shutdown (now : Nat) (m : Monitor) : Hears now false m m.shutdown :=
  ⟨rfl, rfl, fun h => absurd h Bool.false_ne_true, fun _ _ => rfl⟩

theorem isSome_periodFor {heartbeat : Option Span} {p : Option Span}
    (h : periodFor? heartbeat = some p) : p.isSome = heartbeat.isSome := by
  cases heartbeat with
  | none => cases h; rfl
  | some d =>
    obtain ⟨q, _, rfl⟩ := Option.map_eq_some_iff.1 h
    rfl

theorem hears_period (now : Nat) (p : Option Span) (m : Monitor) :
    Hears now false m { m with period := p } := ⟨rfl, rfl, Or.inr, id⟩

end Monitor

namespace Tracker

open Monitor

variable {now : Nat} {t t' : Tracker} {r : PullRequest}

/-- A request touches the monitor when it asks for heartbeats and the monitor is open. -/
theorem hears_issue (h : t.issue now r = some t') :
    Hears now (r.heartbeat.isSome && !t.monitor.closed) t.monitor t'.monitor := by
  obtain ⟨_, p, hp, hm⟩ := monitor_issue h
  have hset := hears_period now p t.monitor
  rw [← isSome_periodFor hp, hm]
  cases p with
  | none => exact hset.trans (hears_disarm now _)
  | some p =>
    have harm := hset.trans (hears_arm now { t.monitor with period := some p })
    rwa [Bool.or_false] at harm

/-- Every frame touches the monitor. -/
theorem hears_account (now : Nat) (f : Frame) (t : Tracker) :
    Hears now true t.monitor (t.account now f).monitor :=
  (hears_record now t.monitor).trans (hears_of_or now (account_record_or now f t))

end Tracker

namespace Bench

open Monitor

/-! ## Calls -/

namespace State

/-- The request that a call starts. -/
def starts (s : State) : Step → Option PullRequest
  | .issue d =>
    match d.build with
    | .ok r => if s.accounting && (periodFor? r.heartbeat).isSome then some r else none
    | .error _ => none
  | _ => none

/-- Whether a call touches the monitor: a frame does, and so does what arms it while a heartbeat
is configured and it is not shut down. -/
def touches (s : State) : Step → Bool
  | .record | .manage _ => true
  | .arm => s.tracker.monitor.period.isSome && !s.tracker.monitor.closed
  | .issue d =>
    (s.starts (.issue d)).any fun r => r.heartbeat.isSome && !s.tracker.monitor.closed
  | _ => false

variable {s : State} {st : Step}

theorem now_act (s : State) (st : Step) : (s.act st).1.now = s.now := by
  cases st <;> unfold act <;> dsimp only <;> repeat' split
  all_goals rfl

/-- A task that was started is left alone. -/
theorem watcher_act (st : Step) (h : s.watcher ≠ .absent) : (s.act st).1.watcher = s.watcher := by
  cases st with
  | run =>
    unfold act
    dsimp only
    rw [if_neg h]
  | _ =>
    unfold act
    dsimp only
    repeat' split
    all_goals rfl

/-- A request is started, or the monitor is left alone. -/
theorem act_issue (s : State) (d : PullRequest.Draft) :
    (∃ r t, s.starts (.issue d) = some r ∧ s.tracker.issue s.now r = some t ∧
      (s.act (.issue d)).1 = { s with tracker := t }) ∨
    (s.starts (.issue d) = none ∧ ∃ t : Tracker, t.monitor = s.tracker.monitor ∧
      (s.act (.issue d)).1 = { s with tracker := t }) := by
  obtain ⟨now, accounting, tracker, watcher, heard, waiters⟩ := s
  unfold act starts
  dsimp only
  cases d.build with
  | error e => exact Or.inr ⟨rfl, tracker, rfl, rfl⟩
  | ok r =>
    cases accounting with
    | false => exact Or.inr ⟨rfl, tracker, rfl, rfl⟩
    | true =>
      dsimp only
      cases hi : tracker.issue now r with
      | none =>
        have hp := Tracker.issue_eq_none_iff.1 hi
        exact Or.inr ⟨by simp [hp], tracker.added r, rfl, rfl⟩
      | some t =>
        have hp := (Tracker.issue_eq_some hi).1
        exact Or.inl ⟨r, t, by simp [hp], hi, rfl⟩

theorem hears_act (s : State) (st : Step) :
    Hears s.now (s.touches st) s.tracker.monitor (s.act st).1.tracker.monitor := by
  cases st with
  | issue d =>
    rcases act_issue s d with ⟨r, t, hs, ht, he⟩ | ⟨hs, t, ht, he⟩
    · rw [he, touches, hs]
      exact Tracker.hears_issue ht
    · rw [he, touches, hs, ht]
      exact hears_refl _ _
  | cancel d =>
    unfold act
    dsimp only
    split
    · exact hears_refl _ _
    · split
      · exact hears_of_or _ (Tracker.cancel_disarm_or _ _)
      · exact hears_refl _ _
  | track m =>
    unfold act
    dsimp only
    split
    · exact hears_of_or _ (Tracker.settle_disarm_or _ _ _)
    · exact hears_refl _ _
  | reconcile st =>
    unfold act
    dsimp only
    split
    · exact hears_of_or _ (Tracker.reconcile_disarm_or _ _)
    · exact hears_refl _ _
  | manage f =>
    unfold act
    dsimp only
    split
    · exact Tracker.hears_account _ _ _
    · exact hears_record _ _
  | configure heartbeat =>
    unfold act
    dsimp only
    split
    · exact hears_refl _ _
    · rename_i m hm
      obtain ⟨p, _, rfl⟩ := Option.map_eq_some_iff.1 hm
      exact hears_period _ p _
  | arm => exact hears_arm _ _
  | disarm => exact hears_disarm _ _
  | record => exact hears_record _ _
  | shutdown => exact hears_shutdown _ _
  | run =>
    unfold act
    dsimp only
    split
    · exact ⟨rfl, rfl, Or.inr, id⟩
    · exact hears_refl _ _
  | dropReceiver | wait | advance | debug => exact hears_refl _ _

end State

/-! ## Looking -/

theorem State.now_watch (s : State) : s.watch.1.now = s.now := by
  unfold State.watch
  dsimp only
  split
  all_goals try split
  all_goals rfl

/-- The task raises an alarm, which is heard if someone receives it, or just has seen what is
new. -/
theorem State.watch_cases (s : State) :
    (∃ d, s.tracker.monitor.look s.now = .alarm d ∧
      s.watch.1.tracker.monitor = { s.tracker.monitor with alarmed := true, stirred := false } ∧
      s.watch.2 = if s.heard then [d] else []) ∨
    ((∀ d, s.tracker.monitor.look s.now ≠ .alarm d) ∧
      s.watch.1.tracker.monitor = { s.tracker.monitor with stirred := false } ∧
      s.watch.2 = []) := by
  unfold State.watch seen
  dsimp only
  cases hl : s.tracker.monitor.look s.now with
  | stop | wait | sleep | breakDown => exact Or.inr ⟨fun _ => Watch.noConfusion, rfl, rfl⟩
  | alarm d =>
    refine Or.inl ⟨d, rfl, ?_⟩
    dsimp only
    split <;> exact ⟨rfl, rfl⟩

/-- No alarm is raised twice in an episode. -/
theorem not_alarmed_of_look {now : Nat} {m : Monitor} {d : Span} (h : m.look now = .alarm d) :
    m.alarmed = false := by
  refine Bool.eq_false_iff.2 fun ha => ?_
  unfold look at h
  rw [deadline_of_alarmed ha] at h
  split at h <;> cases h

/-! ## The log -/

/-- What is written down: the monitor was touched, a request was started, or an alarm was raised
for this monitor. Logs show the latest entry first. -/
inductive Entry where
  | touched (t : Nat)
  | started (heartbeat : Option Span)
  | alarm (t : Nat) (m : Monitor) (silentFor : Span)
deriving DecidableEq

/-- When the monitor was touched last. -/
def lastTouch : List Entry → Option Nat
  | [] => none
  | .touched t :: _ => some t
  | .started _ :: es | .alarm _ _ _ :: es => lastTouch es

/-- Whether an alarm was raised since the last touch. -/
def sounded : List Entry → Bool
  | [] | .touched _ :: _ => false
  | .alarm _ _ _ :: _ => true
  | .started _ :: es => sounded es

/-- Each alarm was raised for a monitor that is open and armed, for the time since the last touch,
which is a period at least; and none was raised since then before. -/
def Fair : List Entry → Prop
  | [] => True
  | .touched _ :: es | .started _ :: es => Fair es
  | .alarm t m d :: es =>
    (m.armed = true ∧ m.closed = false ∧ ∃ s p, lastTouch es = some s ∧ s + d.nanos = t ∧
      m.period = some p ∧ p.nanos ≤ d.nanos) ∧ sounded es = false ∧ Fair es

/-- In a fair log this holds of each alarm. -/
theorem Fair.alarm {late early : List Entry} {t : Nat} {m : Monitor} {d : Span}
    (h : Fair (late ++ .alarm t m d :: early)) : Fair (.alarm t m d :: early) := by
  induction late with
  | nil => exact h
  | cons e late ih =>
    cases e with
    | touched | started => exact ih h
    | alarm => exact ih h.2.2

/-- An alarm that was raised before goes with a touch in between. -/
theorem touch_of_sounded {mid early : List Entry} {t : Nat} {m : Monitor} {d : Span}
    (h : sounded (mid ++ .alarm t m d :: early) = false) : ∃ s, .touched s ∈ mid := by
  induction mid with
  | nil => cases h
  | cons e mid ih =>
    cases e with
    | touched s => exact ⟨s, List.mem_cons_self⟩
    | started => exact (ih h).imp fun s hs => List.mem_cons_of_mem _ hs
    | alarm => cases h

/-! ## Runs -/

/-- What can happen: a call, the clock moving on, or the alarm task looking at the monitor. -/
inductive Act where
  | call (st : Step)
  | clock (d : Nat)
  | look

/-- A bench with its log. -/
structure Vigil where
  state : State
  log : List Entry

/-- What a call leaves in the log. -/
def State.marks (s : State) (st : Step) : List Entry :=
  (if s.touches st then [.touched s.now] else []) ++
    (s.starts st).toList.map fun r => .started r.heartbeat

namespace Vigil

def start (accounting : Bool) : Vigil := ⟨.start accounting, []⟩

def monitor (v : Vigil) : Monitor := v.state.tracker.monitor

/-- A task that is not running does not look. -/
def next (v : Vigil) : Act → Vigil
  | .call st => ⟨(v.state.act st).1, v.state.marks st ++ v.log⟩
  | .clock d => ⟨{ v.state with now := v.state.now + d }, v.log⟩
  | .look =>
    if v.state.isRunning then
      ⟨v.state.watch.1, v.state.watch.2.map (.alarm v.state.now v.monitor) ++ v.log⟩
    else v

/-- The vigil after these acts. -/
def after (accounting : Bool) (as : List Act) : Vigil := as.foldl next (start accounting)

/-- The log and the monitor go together. -/
structure Sound (v : Vigil) : Prop where
  seen : ∀ t, lastTouch v.log = some t → v.monitor.lastSeen = t
  touched : v.monitor.armed = true → (lastTouch v.log).isSome = true
  past : v.monitor.lastSeen ≤ v.state.now
  shut : v.monitor.closed = true → v.monitor.armed = false
  alarmed : sounded v.log = true → v.monitor.alarmed = true
  fair : Fair v.log

theorem sound_start (accounting : Bool) : (start accounting).Sound :=
  ⟨nofun, nofun, Nat.le_refl _, fun _ => rfl, nofun, trivial⟩

variable {v : Vigil} {st : Step}

/-! ## One act -/

/-- What a call leaves in the log says when it touched the monitor, and no more. -/
theorem log_call (v : Vigil) (st : Step) :
    lastTouch (v.next (.call st)).log =
        (if v.state.touches st then some v.state.now else lastTouch v.log) ∧
      sounded (v.next (.call st)).log = (!v.state.touches st && sounded v.log) ∧
      (Fair v.log → Fair (v.next (.call st)).log) := by
  unfold next State.marks
  dsimp only
  cases v.state.touches st <;> cases v.state.starts st <;> exact ⟨rfl, rfl, id⟩

theorem Sound.call (h : v.Sound) (st : Step) : (v.next (.call st)).Sound := by
  have hears : Hears v.state.now (v.state.touches st) v.monitor (v.next (.call st)).monitor :=
    State.hears_act v.state st
  obtain ⟨htouch, hsounded, hfair⟩ := log_call v st
  have hnow : (v.next (.call st)).state.now = v.state.now := State.now_act v.state st
  refine ⟨?_, fun ha => ?_, ?_, hears.shut h.shut, fun hs => ?_, hfair h.fair⟩
  · rw [htouch, hears.lastSeen]
    split
    · exact fun t ht => Option.some.inj ht
    · exact h.seen
  · rw [htouch]
    split
    · rfl
    · rename_i hno
      exact h.touched ((hears.armed ha).resolve_left hno)
  · rw [hnow, hears.lastSeen]
    split
    · exact Nat.le_refl _
    · exact h.past
  · rw [hsounded, Bool.and_eq_true] at hs
    rw [hears.alarmed, hs.1, h.alarmed hs.2]
    rfl

/-- What was seen and whether the monitor is armed stays, while no call is made. -/
theorem Sound.keep (h : v.Sound) {w : Vigil} {alarmed stirred : Bool}
    (hm : w.monitor = { v.monitor with alarmed := alarmed, stirred := stirred })
    (hnow : v.state.now ≤ w.state.now) (htouch : lastTouch w.log = lastTouch v.log)
    (halarmed : sounded w.log = true → alarmed = true) (hfair : Fair w.log) : w.Sound := by
  refine ⟨?_, ?_, ?_, ?_, ?_, hfair⟩
  · rw [htouch, hm]
    exact h.seen
  · rw [htouch, hm]
    exact h.touched
  · rw [hm]
    exact Nat.le_trans h.past hnow
  · rw [hm]
    exact h.shut
  · rw [hm]
    exact halarmed

theorem Sound.clock (h : v.Sound) (d : Nat) : (v.next (.clock d)).Sound :=
  h.keep rfl (Nat.le_add_right _ _) rfl h.alarmed h.fair

/-- An alarm that is raised now is a fair one. -/
theorem Sound.alarm (h : v.Sound) {d : Span} (hl : v.monitor.look v.state.now = .alarm d) :
    Fair (.alarm v.state.now v.monitor d :: v.log) := by
  obtain ⟨hc, ha, rfl, p, hp, hle⟩ := look_eq_alarm hl
  have hquiet : sounded v.log = false := Bool.eq_false_iff.2 fun hs =>
    absurd ((h.alarmed hs).symm.trans (not_alarmed_of_look hl)) Bool.noConfusion
  obtain ⟨t, ht⟩ := Option.isSome_iff_exists.1 (h.touched ha)
  refine ⟨⟨ha, hc, t, p, ht, ?_, hp, ?_⟩, hquiet, h.fair⟩
  · rw [← h.seen t ht]
    exact Nat.add_sub_of_le h.past
  · exact Nat.le_sub_of_add_le (Nat.add_comm _ _ ▸ hle)

theorem Sound.look (h : v.Sound) : (v.next .look).Sound := by
  unfold next
  dsimp only
  split
  · have hnow : v.state.now ≤ v.state.watch.1.now := Nat.le_of_eq v.state.now_watch.symm
    rcases v.state.watch_cases with ⟨d, hl, hm, hd⟩ | ⟨_, hm, hd⟩ <;> rw [hd]
    · split
      · exact h.keep hm hnow rfl (fun _ => rfl) (h.alarm hl)
      · exact h.keep hm hnow rfl (fun _ => rfl) h.fair
    · exact h.keep hm hnow rfl h.alarmed h.fair
  · exact h

/-- The log of every run goes with the monitor. -/
theorem sound_after (accounting : Bool) (as : List Act) : (after accounting as).Sound := by
  suffices h : ∀ v : Vigil, v.Sound → (as.foldl next v).Sound from h _ (sound_start accounting)
  induction as with
  | nil => exact fun _ h => h
  | cons a as ih =>
    intro v h
    refine ih (v.next a) ?_
    cases a with
    | call st => exact h.call st
    | clock d => exact h.clock d
    | look => exact h.look

end Vigil

end Bench

end DemandFlow
