import DemandFlow.Proofs.Silence.Prompt

/-
  When the monitor is armed. The tracker arms it with each request that asks for heartbeats, and
  disarms it with each request that does not and as soon as a window closes. If nobody else
  configures, arms or shuts down the monitor, then it is armed exactly while messages are
  outstanding and the request that was started last asked for heartbeats. Frames may come in and
  the alarm task may look at any time: neither changes this.
-/

namespace DemandFlow

namespace Demand

theorem messages_withdraw_le (d : Demand) (r : PullRequest) :
    (d.withdraw r).messages ≤ d.messages := by
  unfold withdraw
  dsimp only
  rw [messages_closeIf]
  split
  · exact Nat.zero_le _
  · exact Nat.sub_le _ _

end Demand

namespace Tracker

open Monitor

/-- The monitor has the period of this heartbeat and is armed while messages are outstanding,
if there is a period. -/
structure Attentive (heartbeat : Option Span) (t : Tracker) : Prop where
  coherent : t.Coherent false
  period : periodFor? heartbeat = some t.monitor.period
  armed : 0 < t.demand.messages → t.monitor.period.isSome = true → t.monitor.armed = true

variable {t u : Tracker} {heartbeat : Option Span} {now : Nat} {r : PullRequest}

theorem attentive_start (now : Nat) : (start now).Attentive none :=
  ⟨coherent_start now, rfl, fun h => absurd h (Nat.lt_irrefl 0)⟩

/-- An armed monitor goes with outstanding messages and a heartbeat. -/
theorem Attentive.armed_iff (h : t.Attentive heartbeat) : t.monitor.armed = true ↔
    0 < t.demand.messages ∧ heartbeat.isSome = true := by
  rw [← isSome_periodFor h.period]
  exact ⟨h.coherent.armed, fun ⟨hm, hp⟩ => h.armed hm hp⟩

/-- The period is three heartbeats. -/
theorem Attentive.nanos_period (h : t.Attentive heartbeat) :
    t.monitor.period.map Span.nanos = heartbeat.map fun d => 3 * d.nanos := by
  have hp := h.period
  cases heartbeat with
  | none =>
    rw [← Option.some.inj hp]
    rfl
  | some d =>
    obtain ⟨p, hp, he⟩ := Option.map_eq_some_iff.1 hp
    rw [← he, Option.map_some, Option.map_some, (Span.times?_eq_some.1 hp).2, Nat.mul_comm]
    rfl

/-! ## What the tracker does -/

theorem Attentive.issue (h : t.Attentive heartbeat) (hi : t.issue now r = some u) :
    u.Attentive r.heartbeat := by
  obtain ⟨hp, _, _, _, ha⟩ := issue_eq_some hi
  exact ⟨coherent_issue h.coherent hi, hp, fun _ hs => (ha (h.coherent.opened rfl)).trans hs⟩

/-- Whoever takes messages away disarms the monitor only when none are left. -/
theorem Attentive.of_disarmed (h : t.Attentive heartbeat) {d : Demand} (hd : d.Coherent)
    (hle : d.messages ≤ t.demand.messages) :
    Attentive heartbeat ⟨d, if d.isClosed then t.monitor.disarm else t.monitor⟩ := by
  refine ⟨coherent_of_disarmed h.coherent hd, ?_, fun hm hp => ?_⟩
  · dsimp only
    split <;> exact h.period
  · dsimp only at hm hp ⊢
    have hopen : d.isClosed = false := beq_eq_false_iff_ne.2 (Nat.ne_of_gt hm)
    rw [hopen] at hp ⊢
    exact h.armed (Nat.lt_of_lt_of_le hm hle) hp

theorem Attentive.cancel (h : t.Attentive heartbeat) (r : PullRequest) :
    (t.cancel r).Attentive heartbeat :=
  h.of_disarmed (Demand.coherent_withdraw h.coherent.demand r) (Demand.messages_withdraw_le _ r)

theorem Attentive.settle (h : t.Attentive heartbeat) (m b : Nat) :
    (t.settle m b).Attentive heartbeat :=
  h.of_disarmed (Demand.coherent_subtract h.coherent.demand m b)
    (Nat.le_trans (Demand.messages_subtract_le _ m b) (Nat.sub_le _ _))

theorem Attentive.reconcile (h : t.Attentive heartbeat) (s : Status) :
    (t.reconcile s).Attentive heartbeat := by
  unfold Tracker.reconcile
  cases s.pendingCounts with
  | none => exact h
  | some p => exact h.settle p.1 p.2

/-- What is new and whether an alarm was raised does not matter. -/
theorem Attentive.keep (h : t.Attentive heartbeat) {m : Monitor} (hc : m.closed = t.monitor.closed)
    (hp : m.period = t.monitor.period) (ha : m.armed = t.monitor.armed) :
    Attentive heartbeat { t with monitor := m } := by
  refine ⟨⟨h.coherent.demand, fun ho => hc.trans (h.coherent.opened ho), ?_⟩, ?_, ?_⟩
  · rw [ha, hp]
    exact h.coherent.armed
  · rw [hp]
    exact h.period
  · rw [ha, hp]
    exact h.armed

theorem Attentive.account (h : t.Attentive heartbeat) (now : Nat) (f : Frame) :
    (t.account now f).Attentive heartbeat := by
  have ho : (t.observe now).Attentive heartbeat := h.keep rfl rfl rfl
  cases f with
  | message m => exact ho.settle 1 m.size
  | status s =>
    unfold Tracker.account
    dsimp only
    split
    · exact ho
    · exact ho.reconcile s

theorem Attentive.seen (h : t.Attentive heartbeat) (now : Nat) :
    Attentive heartbeat { t with monitor := t.monitor.seen now } := by
  unfold Monitor.seen
  split <;> exact h.keep rfl rfl rfl

end Tracker

namespace Bench

open Monitor

/-! ## Runs that leave the monitor to the tracker -/

/-- Whether a call leaves the monitor to the tracker, which gets no request whose alarm period
passes the longest span. -/
def Step.isSparing : Step → Bool
  | .issue d =>
    match d.build with
    | .ok r => (periodFor? r.heartbeat).isSome
    | .error _ => true
  | .configure _ | .arm | .disarm | .record | .shutdown => false
  | _ => true

def Act.isSparing : Act → Bool
  | .call st => st.isSparing
  | .clock _ | .look => true

namespace Vigil

/-- Everything is accounted for, and the monitor goes with the last request that was started. -/
structure Attends (v : Vigil) : Prop where
  accounting : v.state.accounting = true
  tracker : v.state.tracker.Attentive (lastHeartbeat v.log)

variable {v : Vigil} {st : Step}

theorem attends_start : (start true).Attends := ⟨rfl, Tracker.attentive_start 0⟩

/-- One lemma for each call: a request that is started sets the heartbeat; no other call does. -/
theorem Attends.call (h : v.Attends) (hst : st.isSparing = true) : (v.next (.call st)).Attends := by
  suffices hs : (v.state.act st).1.accounting = true ∧ (v.state.act st).1.tracker.Attentive
      ((v.state.starts st).elim (lastHeartbeat v.log) PullRequest.heartbeat) from
    ⟨hs.1, (lastHeartbeat_call v st).symm ▸ hs.2⟩
  have hacc := h.accounting
  have htr := h.tracker
  cases st with
  | issue d =>
    rcases State.act_issue v.state d with ⟨r, t, hs, ht, he⟩ | ⟨hs, t, ht, he⟩
    · rw [he, hs]
      exact ⟨hacc, htr.issue ht⟩
    · -- the draft was refused: a request with such a period is none of these calls
      rw [hs]
      unfold Step.isSparing at hst
      unfold State.starts at hs
      unfold State.act
      dsimp only at hst hs ⊢
      cases hd : d.build with
      | error e => exact ⟨hacc, htr⟩
      | ok r =>
        rw [hd] at hst hs
        dsimp only at hst hs
        rw [hacc, hst] at hs
        cases hs
  | cancel d =>
    unfold State.act
    dsimp only
    cases d.build with
    | error e => exact ⟨hacc, htr⟩
    | ok r =>
      dsimp only
      rw [if_pos hacc]
      exact ⟨hacc, htr.cancel r⟩
  | track m =>
    unfold State.act
    dsimp only
    rw [if_pos hacc]
    exact ⟨hacc, htr.settle 1 m.size⟩
  | reconcile s =>
    unfold State.act
    dsimp only
    rw [if_pos hacc]
    exact ⟨hacc, htr.reconcile s⟩
  | manage f =>
    unfold State.act
    dsimp only
    rw [if_pos hacc]
    exact ⟨hacc, htr.account _ f⟩
  | run =>
    unfold State.act
    dsimp only
    split
    · exact ⟨hacc, htr.keep rfl rfl rfl⟩
    · exact ⟨hacc, htr⟩
  | dropReceiver | wait | advance | debug => exact ⟨hacc, htr⟩
  | configure | arm | disarm | record | shutdown => cases hst

theorem Attends.look (h : v.Attends) : (v.next .look).Attends := by
  unfold next
  dsimp only
  split
  · have htr := h.tracker.seen v.state.now
    have hlog : ∀ ds : List Span, lastHeartbeat (ds.map (.alarm v.state.now v.monitor) ++ v.log) =
        lastHeartbeat v.log := by
      intro ds
      induction ds with
      | nil => rfl
      | cons d ds ih => exact ih
    refine ⟨?_, (hlog _).symm ▸ ?_⟩
    · unfold State.watch
      dsimp only
      split
      all_goals try split
      all_goals exact h.accounting
    · unfold State.watch
      dsimp only
      split
      all_goals try split
      all_goals exact htr
  · exact h

theorem Attends.next (h : v.Attends) {a : Act} (ha : a.isSparing = true) : (v.next a).Attends := by
  cases a with
  | call st => exact h.call ha
  | clock d => exact ⟨h.accounting, h.tracker⟩
  | look => exact h.look

theorem attends_after {as : List Act} (has : as.all Act.isSparing = true) :
    (after true as).Attends := by
  suffices h : ∀ v : Vigil, v.Attends → (as.foldl Vigil.next v).Attends from h _ attends_start
  induction as with
  | nil => exact fun _ h => h
  | cons a as ih =>
    intro v h
    rw [List.all_cons, Bool.and_eq_true] at has
    exact ih has.2 (v.next a) (h.next has.1)

/-- A fresh tracker, whatever requests are started and withdrawn, whatever messages and statuses
it accounts for, and whenever the alarm task looks: without messages the window is closed, bytes
are tracked only while some are left, and the monitor is armed exactly while messages are
outstanding and the last request that was started asked for heartbeats, with three of them as its
period. -/
theorem armed_while_beating (as : List Act) (has : as.all Act.isSparing = true) :
    let v := after true as
    (v.state.pending.messages = 0 → v.state.pending = .none) ∧
    (v.state.pending.tracking = true → 0 < v.state.pending.bytes) ∧
    (v.monitor.armed = true ↔ 0 < v.state.pending.messages ∧ (lastHeartbeat v.log).isSome = true) ∧
    v.monitor.period.map Span.nanos = (lastHeartbeat v.log).map fun d => 3 * d.nanos := by
  intro v
  have h : v.Attends := attends_after has
  have hpending : v.state.pending = v.state.tracker.demand := if_pos h.accounting
  rw [hpending]
  exact ⟨h.tracker.coherent.demand.whole, h.tracker.coherent.demand.tracked, h.tracker.armed_iff,
    h.tracker.nanos_period⟩

/-- Two messages are asked for with a heartbeat, one comes in, and a request without a heartbeat
disarms the monitor; another one with a heartbeat is withdrawn, but its heartbeat stays. -/
def beatKept : List Act :=
  [.call (.issue ⟨2, 0, none, some (.ofSecs 2), false⟩),
    .call (.track (.plain "s" ByteArray.empty)),
    .call (.issue ⟨1, 0, none, none, false⟩),
    .call (.issue ⟨1, 0, none, some (.ofSecs 1), false⟩),
    .call (.cancel ⟨1, 0, none, some (.ofSecs 1), false⟩)]

theorem beatKept_armed :
    let v := after true beatKept
    beatKept.all Act.isSparing = true ∧ v.state.pending = ⟨2, 0, false⟩ ∧
      v.monitor.armed = true ∧ v.monitor.period.map Span.nanos = some (Span.ofSecs 3).nanos := by
  intro v
  have hall : beatKept.all Act.isSparing = true := by decide
  obtain ⟨_, _, harmed, hperiod⟩ := armed_while_beating beatKept hall
  have hlast : lastHeartbeat v.log = some (.ofSecs 1) := by decide
  exact ⟨hall, by decide, harmed.2 ⟨by decide, hlast ▸ rfl⟩, hperiod.trans (hlast ▸ rfl)⟩

end Vigil

end Bench

end DemandFlow
