import DemandFlow.Proofs.Silence.Vigil

/-
  Alarms on time. The owner of a tracker starts and withdraws requests and manages frames, and
  nobody else uses the monitor. The alarm task looks before the clock moves on whenever it was
  stirred, and its timer wakes it exactly when it is due, before anything is called at that
  instant. Then the deadline that the task sleeps for is always the monitor's own, although a
  request sets the period without stirring anybody: what follows in the same call stirs. So an
  alarm is raised at an instant exactly if it is due there, and before any call, as long as the
  task runs. It breaks down when it looks at a deadline that the clock cannot name, and then no
  later alarm is raised either.
-/

namespace DemandFlow

/-! ## What owners do to a monitor -/

namespace Monitor

/-- The alarm task is stirred, and an alarm is due a period from now if at all. -/
structure Restarts (now : Nat) (m : Monitor) : Prop where
  stirred : m.stirred = true
  counts : ∀ due, m.deadline = some due → ∃ p, m.period = some p ∧ due = now + p.nanos

theorem restarts_disarm (now : Nat) (m : Monitor) : m.disarm.Restarts now :=
  ⟨rfl, fun _ h => nomatch h⟩

theorem restarts_record (now : Nat) (m : Monitor) : (m.record now).Restarts now := by
  refine ⟨rfl, fun due h => ?_⟩
  obtain ⟨_, _, p, hp, hd⟩ := deadline_eq_some_iff.1 h
  exact ⟨p, hp, hd.symm⟩

theorem restarts_arm (now : Nat) {m : Monitor} (hp : m.period.isSome = true)
    (hc : m.closed = false) : (m.arm now).Restarts now := by
  have harm : m.arm now =
      { m with armed := true, alarmed := false, lastSeen := now, stirred := true } :=
    if_neg (by simp [hc, Option.isSome_iff_ne_none.1 hp])
  rw [harm]
  refine ⟨rfl, fun due h => ?_⟩
  obtain ⟨_, _, p, hp, hd⟩ := deadline_eq_some_iff.1 h
  exact ⟨p, hp, hd.symm⟩

/-- The alarm period of a request is longer than nothing. -/
theorem periodFor_pos {r : PullRequest} {p : Span} (h : periodFor? r.heartbeat = some (some p)) :
    0 < p.nanos := by
  cases hr : r.heartbeat with
  | none =>
    rw [hr] at h
    cases h
  | some b =>
    rw [hr] at h
    obtain ⟨q, hq, he⟩ := Option.map_eq_some_iff.1 h
    cases he
    have hne : b.nanos ≠ 0 := fun hz =>
      r.heartbeat_ne_zero (hr.trans (congrArg (fun n => some (Span.mk n)) hz))
    rw [(Span.times?_eq_some.1 hq).2]
    exact Nat.mul_pos (Nat.pos_of_ne_zero hne) (by decide)

end Monitor

namespace Bench

open Monitor

/-! ## Owners and timers -/

/-- The calls of an owner: starting a request whose alarm period is a span, withdrawing one, and
managing a frame. -/
def Step.isOwn : Step → Bool
  | .issue d =>
    match d.build with
    | .ok r => (periodFor? r.heartbeat).isSome
    | .error _ => true
  | .cancel _ | .manage _ => true
  | _ => false

/-- Whether the timer of the alarm task is over. -/
def State.isOver (s : State) : Bool :=
  match s.watcher with
  | .asleep due => decide (due ≤ s.now)
  | .absent | .waiting | .ended => false

/-- Whether the timer of the alarm task lets that much time go by. -/
def State.sleepsOn (s : State) (d : Nat) : Bool :=
  match s.watcher with
  | .asleep due => decide (s.now + d ≤ due)
  | .absent | .waiting | .ended => true

/-- Whether there is something new that the alarm task has not seen. -/
def State.hasNews (s : State) : Bool := s.isRunning && s.tracker.monitor.stirred

/-- What may happen next: nothing is called while the timer is over, and no time goes by past it
or while the task has not seen what is new. -/
def State.allows (s : State) : Act → Bool
  | .call st => st.isOwn && !s.isOver
  | .clock d => decide (0 < d) && !s.hasNews && s.sleepsOn d
  | .look => true

/-- The heartbeat of the request that was started last. -/
def lastHeartbeat : List Entry → Option Span
  | [] => none
  | .started heartbeat :: _ => heartbeat
  | .touched _ :: es | .alarm _ _ _ :: es => lastHeartbeat es

namespace Vigil

/-- Whether only what may happen happens. -/
def onTime : Vigil → List Act → Bool
  | _, [] => true
  | v, a :: as => v.state.allows a && (v.next a).onTime as

theorem onTime_append (v : Vigil) (as bs : List Act) :
    v.onTime (as ++ bs) = (v.onTime as && (as.foldl next v).onTime bs) := by
  induction as generalizing v with
  | nil => rfl
  | cons a as ih => rw [List.cons_append, onTime, onTime, ih, List.foldl_cons, Bool.and_assoc]

/-- A tracker whose alarm task was started. -/
def watched : Vigil := (start true).next (.call .run)

/-- An alarm is due at `t`: the monitor is armed, three heartbeats of the request that was started
last are over then since the last touch, and no alarm was raised since that touch. -/
structure DueAt (v : Vigil) (t : Nat) : Prop where
  armed : v.monitor.armed = true
  exact : ∃ s h, lastTouch v.log = some s ∧ lastHeartbeat v.log = some h ∧ t = s + 3 * h.nanos
  quiet : sounded v.log = false

/-- An alarm is due now. -/
def Due (v : Vigil) : Prop := v.DueAt v.state.now

/-- Whether the task looks while an alarm is due at an instant that the clock cannot name. -/
def BreaksDown : Vigil → List Act → Prop
  | _, [] => False
  | v, a :: as => (a = .look ∧ ∃ t, v.DueAt t ∧ clockEnd ≤ t) ∨ (v.next a).BreaksDown as

/-- The task has ended. -/
def Broken (v : Vigil) : Prop := v.state.watcher = .ended

/-- Whatever is new was seen, and then the task waits for the deadline of the monitor, which the
clock can name and which has not passed; at the deadline nothing is new. -/
structure Prompt (v : Vigil) : Prop where
  sound : v.Sound
  accounting : v.state.accounting = true
  heard : v.state.heard = true
  running : v.state.isRunning = true
  isOpen : v.monitor.closed = false
  period : periodFor? (lastHeartbeat v.log) = some v.monitor.period
  positive : ∀ p, v.monitor.period = some p → 0 < p.nanos
  sounds : v.monitor.alarmed = true → sounded v.log = true
  aligned : v.monitor.stirred = false →
    v.state.watcher = (v.monitor.deadline.elim .waiting .asleep)
  named : v.monitor.stirred = false → ∀ due, v.monitor.deadline = some due → due < clockEnd
  ahead : ∀ due, v.monitor.deadline = some due →
    v.state.now < due ∨ v.state.now = due ∧ v.monitor.stirred = false

theorem prompt_watched : watched.Prompt where
  sound := sound_after true [.call .run]
  accounting := rfl
  heard := rfl
  running := rfl
  isOpen := rfl
  period := rfl
  positive := nofun
  sounds := nofun
  aligned := nofun
  named := nofun
  ahead := nofun

variable {v : Vigil} {st : Step}

/-- An alarm is due exactly at the deadline of the monitor. -/
theorem Prompt.dueAt_iff (h : v.Prompt) {t : Nat} :
    v.DueAt t ↔ v.monitor.deadline = some t := by
  rw [deadline_eq_some_iff]
  constructor
  · rintro ⟨ha, ⟨s, b, hs, hb, hnow⟩, hq⟩
    refine ⟨ha, Bool.eq_false_iff.2 fun hal => ?_, ?_⟩
    · exact absurd (hq.symm.trans (h.sounds hal)) Bool.noConfusion
    · have hp := h.period
      rw [hb] at hp
      obtain ⟨p, hp, he⟩ := Option.map_eq_some_iff.1 hp
      refine ⟨p, he.symm, ?_⟩
      rw [h.sound.seen s hs, (Span.times?_eq_some.1 hp).2, hnow]
      exact congrArg (s + ·) (Nat.mul_comm _ _)
  · rintro ⟨ha, hal, p, hp, hnow⟩
    obtain ⟨s, hs⟩ := Option.isSome_iff_exists.1 (h.sound.touched ha)
    have hper := h.period
    rw [hp] at hper
    cases hb : lastHeartbeat v.log with
    | none =>
      rw [hb] at hper
      cases hper
    | some b =>
      rw [hb] at hper
      obtain ⟨q, hq, he⟩ := Option.map_eq_some_iff.1 hper
      cases he
      refine ⟨ha, ⟨s, b, hs, hb, ?_⟩, Bool.eq_false_iff.2 fun hso => ?_⟩
      · rw [← hnow, h.sound.seen s hs, (Span.times?_eq_some.1 hq).2]
        exact congrArg (s + ·) (Nat.mul_comm _ _)
      · exact absurd (hal.symm.trans (h.sound.alarmed hso)) Bool.noConfusion

theorem Prompt.due_iff (h : v.Prompt) : v.Due ↔ v.monitor.deadline = some v.state.now :=
  h.dueAt_iff

/-- A call of the owner leaves the monitor open. It stirs the task unless it leaves the monitor
alone, and only a request that is started sets the period. -/
theorem act_own {s : State} (hown : st.isOwn = true) (hacc : s.accounting = true)
    (hopen : s.tracker.monitor.closed = false) :
    ∃ t : Tracker, (s.act st).1 = { s with tracker := t } ∧ t.monitor.closed = false ∧
      (t.monitor = s.tracker.monitor ∨ t.monitor.Restarts s.now) ∧
      ((s.starts st = none ∧ t.monitor.period = s.tracker.monitor.period) ∨
        ∃ r, s.starts st = some r ∧ periodFor? r.heartbeat = some t.monitor.period) := by
  cases st with
  | issue d =>
    rcases State.act_issue s d with ⟨r, t, hs, ht, he⟩ | ⟨hs, t, ht, he⟩
    · obtain ⟨hp, _, hc, _⟩ := Tracker.issue_eq_some ht
      refine ⟨t, he, hc.trans hopen, Or.inr ?_, Or.inr ⟨r, hs, hp⟩⟩
      obtain ⟨_, p, _, hm⟩ := Tracker.monitor_issue ht
      rw [hm]
      split
      · rename_i hsome
        exact restarts_arm _ hsome hopen
      · exact restarts_disarm _ _
    · exact ⟨t, he, (congrArg closed ht).trans hopen, Or.inl ht,
        Or.inl ⟨hs, congrArg Monitor.period ht⟩⟩
  | cancel d =>
    unfold State.act
    dsimp only
    cases d.build with
    | error e => exact ⟨s.tracker, rfl, hopen, Or.inl rfl, Or.inl ⟨rfl, rfl⟩⟩
    | ok r =>
      refine ⟨s.tracker.cancel r, if_pos hacc, ?_⟩
      rcases Tracker.cancel_disarm_or r s.tracker with hm | hm <;> rw [hm]
      · exact ⟨hopen, Or.inl rfl, Or.inl ⟨rfl, rfl⟩⟩
      · exact ⟨hopen, Or.inr (restarts_disarm _ _), Or.inl ⟨rfl, rfl⟩⟩
  | manage f =>
    refine ⟨s.tracker.account s.now f, ?_, ?_⟩
    · unfold State.act
      dsimp only
      rw [if_pos hacc]
    · rcases Tracker.account_record_or s.now f s.tracker with hm | hm <;> rw [hm]
      · exact ⟨hopen, Or.inr (restarts_record _ _), Or.inl ⟨rfl, rfl⟩⟩
      · exact ⟨hopen, Or.inr (restarts_disarm _ _), Or.inl ⟨rfl, rfl⟩⟩
  | _ => cases hown

/-- Only a request that is started changes the heartbeat. -/
theorem lastHeartbeat_call (v : Vigil) (st : Step) : lastHeartbeat (v.next (.call st)).log =
    (v.state.starts st).elim (lastHeartbeat v.log) PullRequest.heartbeat := by
  unfold next State.marks
  dsimp only
  cases v.state.touches st <;> cases v.state.starts st <;> rfl

/-- Before a call no alarm is due. -/
theorem Prompt.not_due_of_call (h : v.Prompt) (hst : v.state.allows (.call st) = true) :
    ¬v.Due := by
  rw [h.due_iff]
  intro hd
  obtain ⟨_, hs⟩ := (h.ahead _ hd).resolve_left (Nat.lt_irrefl _)
  have hover : v.state.isOver = true := by
    unfold State.isOver
    rw [h.aligned hs, hd]
    exact decide_eq_true (Nat.le_refl _)
  unfold State.allows at hst
  rw [hover] at hst
  simp at hst

/-- After a call the next alarm is still to come. -/
theorem Prompt.ahead_call (h : v.Prompt) (hst : v.state.allows (.call st) = true) {due : Nat}
    (hd : (v.next (.call st)).monitor.deadline = some due) : v.state.now < due := by
  obtain ⟨hown, _⟩ := Bool.and_eq_true_iff.1 hst
  obtain ⟨t, he, _, hm, hp⟩ := act_own hown h.accounting h.isOpen
  have hmonitor : (v.next (.call st)).monitor = t.monitor := congrArg (·.tracker.monitor) he
  rw [hmonitor] at hd
  rcases hm with hm | hm
  · rw [hm] at hd
    refine (h.ahead due hd).resolve_right fun hnow => h.not_due_of_call hst ?_
    rw [h.due_iff, hnow.1]
    exact hd
  · obtain ⟨p, hq, rfl⟩ := hm.counts due hd
    refine Nat.lt_add_of_pos_right ?_
    rcases hp with ⟨_, hp⟩ | ⟨r, _, hp⟩
    · exact h.positive p (hp.symm.trans hq)
    · rw [hq] at hp
      exact periodFor_pos hp

theorem Prompt.call (h : v.Prompt) (hst : v.state.allows (.call st) = true) :
    (v.next (.call st)).Prompt := by
  obtain ⟨hown, _⟩ := Bool.and_eq_true_iff.1 hst
  obtain ⟨t, he, hopen, hm, hp⟩ := act_own hown h.accounting h.isOpen
  have hstate : (v.next (.call st)).state = { v.state with tracker := t } := he
  have hmonitor : (v.next (.call st)).monitor = t.monitor := congrArg (·.tracker.monitor) hstate
  refine ⟨h.sound.call st, ?_, ?_, ?_, hmonitor ▸ hopen, ?_, ?_, ?_, ?_, ?_, ?_⟩
  · rw [hstate]
    exact h.accounting
  · rw [hstate]
    exact h.heard
  · rw [hstate]
    exact h.running
  · rw [hmonitor, lastHeartbeat_call]
    rcases hp with ⟨hs, hp⟩ | ⟨r, hs, hp⟩ <;> rw [hs]
    · exact h.period.trans (congrArg some hp.symm)
    · exact hp
  · rw [hmonitor]
    rcases hp with ⟨hs, hp⟩ | ⟨r, hs, hp⟩
    · rw [hp]
      exact h.positive
    · intro p hq
      rw [hq] at hp
      exact periodFor_pos hp
  · have hears : (v.next (.call st)).monitor.alarmed =
        (!v.state.touches st && v.monitor.alarmed) := (State.hears_act v.state st).alarmed
    rw [hears, (log_call v st).2.1, Bool.and_eq_true, Bool.and_eq_true]
    exact And.imp_right h.sounds
  · rw [hmonitor]
    rcases hm with hm | hm
    · rw [hm, hstate]
      exact h.aligned
    · rw [hm.stirred]
      exact nofun
  · rw [hmonitor]
    rcases hm with hm | hm
    · rw [hm]
      exact h.named
    · rw [hm.stirred]
      exact nofun
  · rw [hstate]
    exact fun due hd => Or.inl (h.ahead_call hst hd)

/-- A call leaves no alarm that is due. -/
theorem Prompt.not_due_after_call (h : v.Prompt) (hst : v.state.allows (.call st) = true) :
    ¬(v.next (.call st)).Due := by
  rw [(h.call hst).due_iff]
  have hnow : (v.next (.call st)).state.now = v.state.now := State.now_act v.state st
  rw [hnow]
  exact fun hd => Nat.lt_irrefl _ (h.ahead_call hst hd)

/-- Time goes by only when the task has seen everything. -/
theorem Prompt.seen_of_clock (h : v.Prompt) {d : Nat} (hd : v.state.allows (.clock d) = true) :
    0 < d ∧ v.monitor.stirred = false ∧ v.state.sleepsOn d = true := by
  have hrunning := h.running
  unfold State.allows State.hasNews at hd
  rw [hrunning, Bool.true_and] at hd
  simp only [Bool.and_eq_true, Bool.not_eq_true', decide_eq_true_eq] at hd
  exact ⟨hd.1.1, hd.1.2, hd.2⟩

/-- Time that goes by ends at the deadline at the latest. -/
theorem Prompt.clock (h : v.Prompt) {d : Nat} (hd : v.state.allows (.clock d) = true) :
    (v.next (.clock d)).Prompt := by
  obtain ⟨_, hseen, hsleeps⟩ := h.seen_of_clock hd
  refine ⟨h.sound.clock d, h.accounting, h.heard, h.running, h.isOpen, h.period, h.positive,
    h.sounds, h.aligned, h.named, fun due hdue => ?_⟩
  have hasleep : v.state.watcher = .asleep due := by
    rw [h.aligned hseen, show v.monitor.deadline = some due from hdue]
    rfl
  have hle : v.state.now + d ≤ due := by
    unfold State.sleepsOn at hsleeps
    rw [hasleep] at hsleeps
    exact of_decide_eq_true hsleeps
  exact (Nat.lt_or_eq_of_le hle).imp_right fun he => ⟨he, hseen⟩

/-- The task has looked: nothing is new, and it goes on as `w`. -/
def looked (v : Vigil) (alarmed : Bool) (w : Watcher) (log : List Entry) : Vigil :=
  let m := { v.monitor with alarmed := alarmed, stirred := false }
  ⟨{ v.state with tracker := { v.state.tracker with monitor := m }, watcher := w }, log⟩

/-- The task waits, or sleeps on, or raises the alarm that is due, or breaks down. -/
theorem Prompt.look_cases (h : v.Prompt) :
    (v.monitor.deadline = none ∧ v.next .look = v.looked v.monitor.alarmed .waiting v.log) ∨
    (∃ due, v.monitor.deadline = some due ∧ due < clockEnd ∧ v.state.now < due ∧
      v.next .look = v.looked v.monitor.alarmed (.asleep due) v.log) ∨
    (∃ d, v.monitor.deadline = some v.state.now ∧ v.state.now < clockEnd ∧
      v.next .look = v.looked true .waiting (.alarm v.state.now v.monitor d :: v.log)) ∨
    (∃ due, v.monitor.deadline = some due ∧ clockEnd ≤ due ∧ v.state.now < due ∧
      v.next .look = v.looked v.monitor.alarmed .ended v.log) := by
  have hnext : v.next .look =
      ⟨v.state.watch.1, v.state.watch.2.map (.alarm v.state.now v.monitor) ++ v.log⟩ :=
    if_pos h.running
  have hlook : v.state.tracker.monitor.look v.state.now =
      v.monitor.deadline.elim .wait fun due => if clockEnd ≤ due then .breakDown
        else if v.state.now < due then .sleep due
        else .alarm ⟨v.state.now - v.monitor.lastSeen⟩ := by
    refine (if_neg (ne_true_of_eq_false h.isOpen)).trans ?_
    show _ = v.state.tracker.monitor.deadline.elim _ _
    cases v.state.tracker.monitor.deadline <;> rfl
  rw [hnext]
  unfold State.watch seen
  dsimp only
  cases hd : v.monitor.deadline with
  | none =>
    rw [hd] at hlook
    rw [hlook]
    exact Or.inl ⟨rfl, rfl⟩
  | some due =>
    refine Or.inr ?_
    rw [hd, Option.elim_some] at hlook
    rcases h.ahead due hd with hlt | ⟨rfl, hseen⟩
    · by_cases hn : clockEnd ≤ due
      · rw [if_pos hn] at hlook
        rw [hlook]
        exact Or.inr (Or.inr ⟨due, rfl, hn, hlt, rfl⟩)
      · rw [if_neg hn, if_pos hlt] at hlook
        rw [hlook]
        exact Or.inl ⟨due, rfl, Nat.lt_of_not_le hn, hlt, rfl⟩
    · have hn := h.named hseen _ hd
      rw [if_neg (Nat.not_le_of_lt hn), if_neg (Nat.lt_irrefl _)] at hlook
      rw [hlook]
      dsimp only
      rw [if_pos h.heard]
      exact Or.inr (Or.inl ⟨_, rfl, hn, rfl⟩)

/-- The task breaks down if an alarm is due at an instant that the clock cannot name. -/
theorem Prompt.broken_look (h : v.Prompt) {t : Nat} (ht : v.DueAt t) (hn : clockEnd ≤ t) :
    (v.next .look).Broken := by
  have hdue := h.dueAt_iff.1 ht
  rcases h.look_cases with ⟨hd, _⟩ | ⟨due, hd, hlt, _⟩ | ⟨d, hd, hlt, _⟩ | ⟨due, _, _, _, he⟩
  · exact absurd (hd.symm.trans hdue) nofun
  · cases hd.symm.trans hdue
    exact absurd hn (Nat.not_le_of_lt hlt)
  · cases hd.symm.trans hdue
    exact absurd hn (Nat.not_le_of_lt hlt)
  · rw [he]
    rfl

theorem Prompt.look (h : v.Prompt) (hn : ¬∃ t, v.DueAt t ∧ clockEnd ≤ t) :
    (v.next .look).Prompt := by
  have hsound := h.sound.look
  rcases h.look_cases with ⟨hd, he⟩ | ⟨due, hd, hlt, hnow, he⟩ | ⟨d, hd, _, he⟩ | ⟨due, hd, hle, _⟩
  · rw [he] at hsound ⊢
    refine ⟨hsound, h.accounting, h.heard, rfl, h.isOpen, h.period, h.positive, h.sounds,
      fun _ => ?_, fun _ due hdue => ?_, fun due hdue => ?_⟩
    · show Watcher.waiting = v.monitor.deadline.elim .waiting .asleep
      rw [hd]
      rfl
    · exact absurd (hd.symm.trans hdue) nofun
    · exact absurd (hd.symm.trans hdue) nofun
  · rw [he] at hsound ⊢
    refine ⟨hsound, h.accounting, h.heard, rfl, h.isOpen, h.period, h.positive, h.sounds,
      fun _ => ?_, fun _ due' hdue => ?_, fun due' hdue => Or.inl ?_⟩
    · show Watcher.asleep due = v.monitor.deadline.elim .waiting .asleep
      rw [hd]
      rfl
    · cases hd.symm.trans hdue
      exact hlt
    · cases hd.symm.trans hdue
      exact hnow
  · rw [he] at hsound ⊢
    have hnone : (v.looked true .waiting (.alarm v.state.now v.monitor d :: v.log)).monitor.deadline
        = none := deadline_of_alarmed rfl
    refine ⟨hsound, h.accounting, h.heard, rfl, h.isOpen, h.period, h.positive, fun _ => rfl,
      fun _ => ?_, fun _ due hdue => ?_, fun due hdue => ?_⟩
    · rw [hnone]
      rfl
    · rw [hnone] at hdue
      cases hdue
    · rw [hnone] at hdue
      cases hdue
  · exact absurd ⟨due, h.dueAt_iff.2 hd, hle⟩ hn

/-- Once the task has looked, no alarm is due, and some time may go by. -/
theorem Prompt.after_look (h : v.Prompt) (hn : ¬∃ t, v.DueAt t ∧ clockEnd ≤ t) :
    ¬(v.next .look).Due ∧ (v.next .look).state.allows (.clock 1) = true := by
  rw [(h.look hn).due_iff]
  rcases h.look_cases with ⟨hd, he⟩ | ⟨due, hd, _, hlt, he⟩ | ⟨d, hd, _, he⟩ | ⟨due, hd, hle, _⟩
  · rw [he]
    exact ⟨fun hdue => absurd (hd.symm.trans hdue) nofun, rfl⟩
  · rw [he]
    refine ⟨fun hdue => ?_, decide_eq_true (Nat.succ_le_of_lt hlt)⟩
    have hnow : due = v.state.now := Option.some.inj (hd.symm.trans hdue)
    exact Nat.ne_of_gt hlt hnow
  · rw [he]
    exact ⟨fun hdue => absurd ((deadline_of_alarmed rfl).symm.trans hdue) nofun, rfl⟩
  · exact absurd ⟨due, h.dueAt_iff.2 hd, hle⟩ hn

/-- Looking raises the alarm that is due, and no other. -/
theorem Prompt.log_look (h : v.Prompt) :
    (v.Due ∧ ∃ d, (v.next .look).log = .alarm v.state.now v.monitor d :: v.log) ∨
      (¬v.Due ∧ (v.next .look).log = v.log) := by
  rw [h.due_iff]
  rcases h.look_cases with ⟨hd, he⟩ | ⟨due, hd, _, hlt, he⟩ | ⟨d, hd, _, he⟩ |
    ⟨due, hd, _, hlt, he⟩ <;> rw [he]
  · exact Or.inr ⟨by rw [hd]; exact nofun, rfl⟩
  · refine Or.inr ⟨fun hnow => ?_, rfl⟩
    cases hd.symm.trans hnow
    exact Nat.lt_irrefl _ hlt
  · exact Or.inl ⟨hd, d, rfl⟩
  · refine Or.inr ⟨fun hnow => ?_, rfl⟩
    cases hd.symm.trans hnow
    exact Nat.lt_irrefl _ hlt

/-! ## A task that has ended -/

theorem Broken.next (h : v.Broken) (a : Act) : (v.next a).Broken := by
  cases a with
  | call st => exact (State.watcher_act st (by rw [h]; exact nofun)).trans h
  | clock d => exact h
  | look =>
    have hsame : v.next .look = v := if_neg (by unfold State.isRunning; rw [h]; exact nofun)
    exact hsame.symm ▸ h

theorem Broken.run (h : v.Broken) (as : List Act) : (as.foldl Vigil.next v).Broken := by
  induction as generalizing v with
  | nil => exact h
  | cons a as ih => exact ih (h.next a)

theorem Broken.not_running (h : v.Broken) : v.state.isRunning = false := by
  unfold State.isRunning
  rw [h]

theorem Broken.allows_clock (h : v.Broken) : v.state.allows (.clock 1) = true := by
  unfold State.allows State.hasNews State.sleepsOn
  rw [h.not_running, h]
  rfl

/-- It does not look any more. -/
theorem Broken.looks (h : v.Broken) (n : Nat) :
    (List.replicate n Act.look).foldl Vigil.next v = v := by
  induction n with
  | zero => rfl
  | succ n ih =>
    have hsame : v.next .look = v := if_neg (ne_true_of_eq_false h.not_running)
    rw [List.replicate_succ, List.foldl_cons, hsame, ih]

/-! ## Runs -/

/-- While an alarm is due, nothing else may happen than that the task looks. -/
theorem Prompt.not_due_of_allows (h : v.Prompt) {a : Act} (ha : a ≠ .look)
    (hallow : v.state.allows a = true) : ¬v.Due := by
  cases a with
  | look => exact absurd rfl ha
  | call st => exact h.not_due_of_call hallow
  | clock d =>
    obtain ⟨hpos, hseen, hsleeps⟩ := h.seen_of_clock hallow
    rw [h.due_iff]
    intro hd
    unfold State.sleepsOn at hsleeps
    rw [h.aligned hseen, hd] at hsleeps
    have hle : v.state.now + d ≤ v.state.now := of_decide_eq_true hsleeps
    omega

/-- The task is prompt until it breaks down. -/
theorem Prompt.run (h : v.Prompt) {as : List Act} (hon : v.onTime as = true) :
    ¬v.BreaksDown as ∧ (as.foldl next v).Prompt ∨ v.BreaksDown as ∧ (as.foldl next v).Broken := by
  induction as generalizing v with
  | nil => exact Or.inl ⟨id, h⟩
  | cons a as ih =>
    obtain ⟨ha, hon⟩ := Bool.and_eq_true_iff.1 hon
    by_cases hlost : a = .look ∧ ∃ t, v.DueAt t ∧ clockEnd ≤ t
    · obtain ⟨rfl, t, ht, hn⟩ := hlost
      exact Or.inr ⟨Or.inl ⟨rfl, t, ht, hn⟩, (h.broken_look ht hn).run as⟩
    · have hnext : (v.next a).Prompt := by
        cases a with
        | call st => exact h.call ha
        | clock d => exact h.clock ha
        | look => exact h.look fun ht => hlost ⟨rfl, ht⟩
      exact (ih hnext hon).imp (And.imp_left fun hno hyes => hyes.elim hlost hno)
        (And.imp_left Or.inr)

/-- However often the task looks while no alarm is due, nothing is raised. -/
theorem Prompt.log_looks (h : v.Prompt) (hd : ¬v.Due) (n : Nat) :
    ((List.replicate n Act.look).foldl next v).log = v.log := by
  induction n generalizing v with
  | zero => rfl
  | succ n ih =>
    have hlog : (v.next .look).log = v.log := h.log_look.elim (fun hl => absurd hl.1 hd) And.right
    rw [List.replicate_succ, List.foldl_cons, ← hlog]
    by_cases hn : ∃ t, v.DueAt t ∧ clockEnd ≤ t
    · obtain ⟨t, ht, hn⟩ := hn
      rw [(h.broken_look ht hn).looks n]
    · exact ih (h.look hn) (h.after_look hn).1

/-- The task may look, and then time may go by. -/
theorem Prompt.goes_on (h : v.Prompt) : v.onTime [.look, .clock 1] = true := by
  have hallows : (v.next .look).state.allows (.clock 1) = true := by
    by_cases hn : ∃ t, v.DueAt t ∧ clockEnd ≤ t
    · obtain ⟨t, ht, hn⟩ := hn
      exact (h.broken_look ht hn).allows_clock
    · exact (h.after_look hn).2
  unfold onTime onTime
  rw [hallows]
  rfl

/-- When the next call or move of the clock may come, the alarm that was due is raised, once, and
no other. -/
theorem Prompt.log_of_allows (h : v.Prompt) {n : Nat} {a : Act} (ha : a ≠ .look)
    (hon : v.onTime (List.replicate n .look ++ [a]) = true) :
    (v.Due ∧ ∃ d, ((List.replicate n Act.look).foldl next v).log =
        .alarm v.state.now v.monitor d :: v.log) ∨
      (¬v.Due ∧ ((List.replicate n Act.look).foldl next v).log = v.log) := by
  by_cases hd : v.Due
  · cases n with
    | zero => exact absurd hd (h.not_due_of_allows ha (Bool.and_eq_true_iff.1 hon).1)
    | succ n =>
      obtain ⟨_, d, hlog⟩ := h.log_look.resolve_right fun hl => hl.1 hd
      have hnamed : ¬∃ t, v.DueAt t ∧ clockEnd ≤ t := by
        rintro ⟨t, ht, hn⟩
        cases (h.due_iff.1 hd).symm.trans (h.dueAt_iff.1 ht)
        have hseen := ((h.ahead _ (h.due_iff.1 hd)).resolve_left (Nat.lt_irrefl _)).2
        exact absurd hn (Nat.not_le_of_lt (h.named hseen _ (h.due_iff.1 hd)))
      rw [List.replicate_succ, List.foldl_cons,
        (h.look hnamed).log_looks (h.after_look hnamed).1]
      exact Or.inl ⟨hd, d, hlog⟩
  · exact Or.inr ⟨hd, h.log_looks hd n⟩

/-- Requests are started and withdrawn and frames are managed, the alarm task runs as soon as it
is stirred, and its timer is exact. The task ends exactly if it looks once while an alarm is due
at an instant that the clock cannot name. Until then, at any point of a run: before the next call
or move of the clock an alarm is raised exactly if one is due, that is, if the monitor is armed,
three heartbeats of the last started request are over since the last touch, and none was raised
since; none is due right after a call, so each is raised before any call made at its instant.
From then on nothing is raised. And the run can always go on in time. -/
theorem alarm_iff_due {as : List Act} (h : watched.onTime as = true) :
    let v := as.foldl next watched
    (v.state.isRunning = true ↔ ¬watched.BreaksDown as) ∧
    (∀ n a, a ≠ .look → v.onTime (List.replicate n .look ++ [a]) = true →
      let w := (List.replicate n Act.look).foldl next v
      ((∃ m d, w.log = .alarm v.state.now m d :: v.log) ↔ v.Due ∧ ¬watched.BreaksDown as) ∧
      (¬(v.Due ∧ ¬watched.BreaksDown as) → w.log = v.log)) ∧
    (∀ bs st, as = bs ++ [.call st] → v.Due → watched.BreaksDown as) ∧
    v.onTime [.look, .clock 1] = true := by
  intro v
  rcases prompt_watched.run h with ⟨hno, hv⟩ | ⟨hyes, hv⟩
  · have hrunning : v.state.isRunning = true := hv.running
    refine ⟨⟨fun _ => hno, fun _ => hrunning⟩, fun n a ha hon => ?_, fun bs st he hd => ?_, ?_⟩
    · rcases hv.log_of_allows ha hon with ⟨hd, d, hlog⟩ | ⟨hd, hlog⟩
      · exact ⟨⟨fun _ => ⟨hd, hno⟩, fun _ => ⟨_, d, hlog⟩⟩, fun hnot => absurd ⟨hd, hno⟩ hnot⟩
      · refine ⟨⟨fun ⟨m, d, he⟩ => ?_, fun hdue => absurd hdue.1 hd⟩, fun _ => hlog⟩
        exact absurd (he.symm.trans hlog) (List.cons_ne_self _ _)
    · subst he
      rw [onTime_append] at h
      obtain ⟨hbs, hcall⟩ := Bool.and_eq_true_iff.1 h
      have hallow := (Bool.and_eq_true_iff.1 hcall).1
      have hlast : v = (bs.foldl next watched).next (.call st) := List.foldl_append
      rw [hlast] at hd hrunning
      rcases prompt_watched.run hbs with ⟨_, hbs⟩ | ⟨_, hbs⟩
      · exact absurd hd (hbs.not_due_after_call hallow)
      · exact absurd hrunning (ne_true_of_eq_false (hbs.next _).not_running)
    · exact hv.goes_on
  · have hrunning := hv.not_running
    refine ⟨⟨fun hr => ?_, fun hno => absurd hyes hno⟩, fun n a _ _ => ?_, fun _ _ _ _ => hyes, ?_⟩
    · exact absurd hr (ne_true_of_eq_false hrunning)
    · intro w
      have hw : w.log = v.log := congrArg log (hv.looks n)
      refine ⟨⟨fun ⟨m, d, he⟩ => ?_, fun hdue => absurd hyes hdue.2⟩, fun _ => hw⟩
      exact absurd (he.symm.trans hw) (List.cons_ne_self _ _)
    · unfold onTime onTime
      rw [(hv.next .look).allows_clock]
      rfl

/-- Five messages, with a heartbeat. -/
def beating (heartbeat : Span) : PullRequest.Draft := ⟨5, 0, none, some heartbeat, false⟩

/-- A request with a heartbeat of a second is followed by one of 100 ms while the task sleeps. -/
def shorterBeat : List Act :=
  [.look, .call (.issue (beating (.ofSecs 1))), .look, .clock (Span.ofMillis 50).nanos,
    .call (.issue (beating (.ofMillis 100))), .look, .clock (Span.ofMillis 300).nanos]

theorem shorterBeat_alarm :
    let v := shorterBeat.foldl next watched
    let w := [Act.look].foldl next v
    watched.onTime shorterBeat = true ∧ Act.clock 1 ≠ .look ∧
      v.onTime (List.replicate 1 .look ++ [.clock 1]) = true ∧ v.Due ∧
      ¬watched.BreaksDown shorterBeat ∧
      (∃ m d, w.log = .alarm (Span.ofMillis 350).nanos m d :: v.log) ∧
      v.onTime [.look, .clock 1] = true := by
  intro v w
  have hon : watched.onTime shorterBeat = true := by decide
  have hnext : v.onTime (List.replicate 1 .look ++ [.clock 1]) = true := by decide
  have hdue : v.Due := ⟨by decide, ⟨(Span.ofMillis 50).nanos, .ofMillis 100, by decide, by decide,
    by decide⟩, by decide⟩
  obtain ⟨hruns, halarm, _, hgoes⟩ := alarm_iff_due hon
  have hno : ¬watched.BreaksDown shorterBeat := hruns.1 (by decide)
  exact ⟨hon, nofun, hnext, hdue, hno, (halarm 1 (.clock 1) nofun hnext).1.2 ⟨hdue, hno⟩, hgoes⟩

/-- A request with a heartbeat of so many seconds that an alarm would be due past the end of the
clock, and then one with a heartbeat of 100 ms. -/
def longBeat : List Act :=
  [.look, .call (.issue (beating (.ofSecs 4000000000000000000))), .look,
    .call (.issue (beating (.ofMillis 100))), .look, .clock (Span.ofMillis 300).nanos]

/-- The task broke down as it looked after the first request, so the alarm of the second one is
due and not raised. -/
theorem longBeat_silent :
    let v := longBeat.foldl next watched
    let w := [Act.look].foldl next v
    watched.onTime longBeat = true ∧ v.Due ∧
      v.onTime (List.replicate 1 .look ++ [.clock 1]) = true ∧ w.log = v.log ∧
      watched.BreaksDown longBeat ∧ v.state.isRunning = false := by
  intro v w
  have hlost : ([.look, .call (.issue (beating (.ofSecs 4000000000000000000)))].foldl next
      watched).DueAt (Span.ofSecs 12000000000000000000).nanos :=
    ⟨by decide, ⟨0, .ofSecs 4000000000000000000, by decide, by decide, by decide⟩, by decide⟩
  have hbreaks : watched.BreaksDown longBeat :=
    Or.inr (Or.inr (Or.inl ⟨rfl, _, hlost, by decide⟩))
  exact ⟨by decide, ⟨by decide, ⟨0, .ofMillis 100, by decide, by decide, by decide⟩, by decide⟩,
    by decide, by decide, hbreaks, by decide⟩

end Vigil

end Bench

end DemandFlow
