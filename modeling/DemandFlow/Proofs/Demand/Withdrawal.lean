import DemandFlow.Proofs.Demand.Window

/-
  A request that is recorded and then does not reach the broker. Its counts are subtracted again,
  but what the record overwrote is not put back: whether bytes are tracked, the alarm period, and
  whether the alarm is armed. `withdraw_add_iff`, `add_eq_self_iff` and `unchanged_cancel_iff` say
  exactly when nothing is changed all the same.
-/

namespace DemandFlow

namespace Demand

/-- The counters fit a word, a window without messages is forgotten, and bytes are tracked only
while some are left. -/
structure Coherent (d : Demand) : Prop where
  whole : d.IsWhole
  tracked : d.tracking = true → 0 < d.bytes
  messages : d.messages ≤ Count.top
  bytes : d.bytes ≤ Count.top

theorem coherent_none : none.Coherent := by
  refine ⟨fun _ => rfl, ?_, Nat.zero_le _, Nat.zero_le _⟩
  intro h
  cases h

theorem coherent_closeIf {d : Demand} {closed : Bool} (hm : d.messages ≤ Count.top)
    (hb : d.bytes ≤ Count.top) (hw : closed = false → 0 < d.messages)
    (ht : closed = false → d.tracking = true → 0 < d.bytes) : (closeIf closed d).Coherent := by
  cases closed with
  | true => exact coherent_none
  | false =>
    have hpos := hw rfl
    refine ⟨fun h => ?_, ht rfl, hm, hb⟩
    have hz : d.messages = 0 := h
    omega

theorem coherent_add {d : Demand} (h : d.Coherent) (r : PullRequest) : (d.add r).Coherent := by
  refine ⟨isWhole_add, fun ht => ?_, Count.add_le_top _ _, Count.add_le_top _ _⟩
  have hpos : 0 < r.maxBytes := of_decide_eq_true ht
  have hb := h.bytes
  simp only [add, Count.add, Count.top] at hb ⊢
  omega

theorem coherent_subtract {d : Demand} (h : d.Coherent) (m b : Nat) :
    (d.subtract m b).Coherent := by
  have hm := h.messages
  have hb := h.bytes
  unfold subtract
  cases ht : d.tracking with
  | true =>
    refine coherent_closeIf (by dsimp only; omega) (by dsimp only; omega) ?_ ?_
    · simp only [Bool.or_eq_false_iff, beq_eq_false_iff_ne]
      omega
    · simp only [Bool.or_eq_false_iff, beq_eq_false_iff_ne]
      omega
  | false =>
    refine coherent_closeIf (by dsimp only; omega) hb ?_ ?_
    · simp only [beq_eq_false_iff_ne]
      omega
    · intro _ hf
      cases hf

theorem coherent_withdraw {d : Demand} (h : d.Coherent) (r : PullRequest) :
    (d.withdraw r).Coherent := by
  have hm := h.messages
  have hb := h.bytes
  refine coherent_closeIf (by dsimp only; omega) (by dsimp only; omega) ?_ ?_
  · simp only [beq_eq_false_iff_ne]
    omega
  · simp only [Bool.and_eq_true, bne_iff_ne]
    omega

/-- Where nothing was outstanding nothing is left. -/
theorem withdraw_add_none (r : PullRequest) : (none.add r).withdraw r = none := by
  have hz : Count.add 0 r.batch - r.batch = 0 := by
    unfold Count.add
    omega
  simp [add, withdraw, none, closeIf, hz]

/-- The counters come back unless one was held at the largest word; the tracking flag comes back
when the request sets it as it was. -/
theorem withdraw_add_iff {d : Demand} {r : PullRequest} (h : d.Coherent) (hr : r.Fits)
    (hpos : 0 < d.messages) : (d.add r).withdraw r = d ↔
      d.messages + r.batch ≤ Count.top ∧ d.bytes + r.maxBytes ≤ Count.top ∧
        d.tracking = (decide (0 < r.maxBytes) && decide (0 < d.bytes)) := by
  have hbatch := r.batch_pos
  have hm := h.messages
  have hb := h.bytes
  have hrb := hr.maxBytes
  cases d with
  | mk messages bytes tracking =>
    dsimp only at hpos hm hb ⊢
    have hmsg : Count.add messages r.batch - r.batch = messages ↔
        messages + r.batch ≤ Count.top := by
      unfold Count.add
      omega
    have hbyte : Count.add bytes r.maxBytes - r.maxBytes = bytes ↔
        bytes + r.maxBytes ≤ Count.top := by
      unfold Count.add
      omega
    unfold add withdraw closeIf
    dsimp only
    split
    · rename_i hz
      have hz' : Count.add messages r.batch - r.batch = 0 := by simpa using hz
      refine ⟨fun e => ?_, fun ⟨hle, _⟩ => ?_⟩
      · simp only [none, Demand.mk.injEq] at e
        omega
      · have := hmsg.2 hle
        omega
    · rw [Demand.mk.injEq, hmsg, hbyte]
      refine and_congr_right fun _ => and_congr_right fun hle => ?_
      rw [hbyte.2 hle, eq_comm]
      have hdec : (bytes != 0) = decide (0 < bytes) :=
        Bool.eq_iff_iff.2 (by simp [Nat.pos_iff_ne_zero])
      rw [hdec]

/-- A request is recorded without a trace only where all that it sets is at its most already. -/
theorem add_eq_self_iff {d : Demand} {r : PullRequest} (h : d.Coherent) : d.add r = d ↔
    d.messages = Count.top ∧ (r.maxBytes = 0 ∨ d.bytes = Count.top) ∧
      d.tracking = decide (0 < r.maxBytes) := by
  have hbatch := r.batch_pos
  have hm := h.messages
  have hb := h.bytes
  cases d with
  | mk messages bytes tracking =>
    dsimp only at hm hb ⊢
    have hmsg : Count.add messages r.batch = messages ↔ messages = Count.top := by
      unfold Count.add
      omega
    have hbyte : Count.add bytes r.maxBytes = bytes ↔ r.maxBytes = 0 ∨ bytes = Count.top := by
      unfold Count.add
      omega
    unfold add
    rw [Demand.mk.injEq, hmsg, hbyte, eq_comm (a := decide _)]

end Demand

namespace Tracker

/-- What the tracker of a subscription keeps: coherent demand, a monitor that is open as long as
the subscription is, and an alarm that is armed only for demand and with a period. -/
structure Coherent (closed : Bool) (t : Tracker) : Prop where
  demand : t.demand.Coherent
  opened : closed = false → t.monitor.closed = false
  armed : t.monitor.armed = true → 0 < t.demand.messages ∧ t.monitor.period.isSome = true

variable {t u : Tracker} {closed : Bool} {now : Nat} {r : PullRequest}

/-- A request that goes out sets the alarm period and arms or disarms the monitor by it. -/
theorem monitor_issue (h : t.issue now r = some u) :
    u.demand = t.demand.add r ∧ ∃ p, Monitor.periodFor? r.heartbeat = some p ∧
      u.monitor = if p.isSome then { t.monitor with period := p }.arm now
        else { t.monitor with period := p }.disarm := by
  unfold issue Monitor.configure at h
  rw [Option.map_map, Option.map_eq_some_iff] at h
  obtain ⟨p, hp, rfl⟩ := h
  exact ⟨rfl, p, hp, rfl⟩

theorem issue_eq_some (h : t.issue now r = some u) :
    Monitor.periodFor? r.heartbeat = some u.monitor.period ∧ u.demand = t.demand.add r ∧
      u.monitor.closed = t.monitor.closed ∧
      (u.monitor.armed = true → u.monitor.period.isSome = true) ∧
      (t.monitor.closed = false → u.monitor.armed = u.monitor.period.isSome) := by
  obtain ⟨hd, p, hp, hm⟩ := monitor_issue h
  rw [hm, hd]
  cases p with
  | none => simp [hp, Monitor.disarm]
  | some d => cases hc : t.monitor.closed <;> simp [hp, hc, Monitor.arm]

theorem issue_eq_none_iff : t.issue now r = none ↔ Monitor.periodFor? r.heartbeat = none := by
  simp [issue, Monitor.configure]

theorem cancel_disarm_or (r : PullRequest) (t : Tracker) :
    (t.cancel r).monitor = t.monitor ∨ (t.cancel r).monitor = t.monitor.disarm := by
  unfold cancel
  dsimp only
  split
  · exact Or.inr rfl
  · exact Or.inl rfl

theorem settle_disarm_or (m n : Nat) (t : Tracker) :
    (t.settle m n).monitor = t.monitor ∨ (t.settle m n).monitor = t.monitor.disarm := by
  unfold settle
  dsimp only
  split
  · exact Or.inr rfl
  · exact Or.inl rfl

theorem reconcile_disarm_or (s : Status) (t : Tracker) :
    (t.reconcile s).monitor = t.monitor ∨ (t.reconcile s).monitor = t.monitor.disarm := by
  unfold reconcile
  split
  · exact Or.inl rfl
  · exact settle_disarm_or _ _ t

/-- The monitor has seen a frame, and is disarmed at most. -/
theorem account_record_or (now : Nat) (f : Frame) (t : Tracker) :
    (t.account now f).monitor = t.monitor.record now ∨
      (t.account now f).monitor = (t.monitor.record now).disarm := by
  unfold account
  cases f with
  | message m => exact settle_disarm_or 1 m.size (t.observe now)
  | status st =>
    dsimp only
    split
    · exact Or.inl rfl
    · exact reconcile_disarm_or st (t.observe now)

theorem monitor_account (now : Nat) (f : Frame) (t : Tracker) :
    (t.account now f).monitor.closed = t.monitor.closed ∧
      (t.account now f).monitor.lastSeen = now ∧
      (t.account now f).monitor.period = t.monitor.period := by
  rcases account_record_or now f t with h | h <;> rw [h] <;> exact ⟨rfl, rfl, rfl⟩

theorem armed_of_account {now : Nat} {f : Frame} {t : Tracker}
    (h : (t.account now f).monitor.armed = true) : t.monitor.armed = true := by
  rcases account_record_or now f t with he | he <;> rw [he] at h
  · exact h
  · cases h

/-! ## What a tracker keeps -/

theorem coherent_start (now : Nat) : (start now).Coherent false := by
  refine ⟨Demand.coherent_none, fun _ => rfl, ?_⟩
  intro h
  cases h

theorem coherent_issue (h : t.Coherent closed) (hi : t.issue now r = some u) :
    u.Coherent closed := by
  obtain ⟨_, hd, hc, ha, _⟩ := issue_eq_some hi
  have hbatch := r.batch_pos
  refine ⟨hd ▸ Demand.coherent_add h.demand r, fun ho => hc.trans (h.opened ho), fun harm => ?_⟩
  refine ⟨?_, ha harm⟩
  rw [hd]
  simp only [Demand.add, Count.add, Count.top]
  omega

theorem coherent_added (h : t.Coherent closed) (r : PullRequest) : (t.added r).Coherent closed := by
  refine ⟨Demand.coherent_add h.demand r, h.opened, fun harm => ?_⟩
  obtain ⟨hpos, hp⟩ := h.armed harm
  refine ⟨?_, hp⟩
  simp only [added, Demand.add, Count.add, Count.top]
  omega

/-- Whoever changes the demand disarms the monitor when no messages are left. -/
theorem coherent_of_disarmed {d : Demand} (h : t.Coherent closed) (hd : d.Coherent) :
    Coherent closed ⟨d, if d.isClosed then t.monitor.disarm else t.monitor⟩ := by
  unfold Demand.isClosed
  refine ⟨hd, fun ho => ?_, fun harm => ?_⟩
  · dsimp only
    split
    · exact h.opened ho
    · exact h.opened ho
  · dsimp only at harm ⊢
    split at harm
    · cases harm
    · rename_i hz
      rw [if_neg hz]
      have hne : d.messages ≠ 0 := by simpa using hz
      exact ⟨Nat.pos_of_ne_zero hne, (h.armed harm).2⟩

theorem coherent_cancel (h : t.Coherent closed) (r : PullRequest) : (t.cancel r).Coherent closed :=
  coherent_of_disarmed h (Demand.coherent_withdraw h.demand r)

theorem coherent_settle (h : t.Coherent closed) (m b : Nat) : (t.settle m b).Coherent closed :=
  coherent_of_disarmed h (Demand.coherent_subtract h.demand m b)

theorem coherent_account (h : t.Coherent closed) (now : Nat) (f : Frame) :
    (t.account now f).Coherent closed := by
  have ho : (t.observe now).Coherent closed := ⟨h.demand, h.opened, h.armed⟩
  cases f with
  | message m => exact coherent_settle ho 1 m.size
  | status s =>
    unfold account reconcile
    dsimp only
    split
    · exact ho
    · cases s.pendingCounts with
      | none => exact ho
      | some p => exact coherent_settle ho p.1 p.2

theorem coherent_seen (h : t.Coherent closed) (now : Nat) :
    Coherent closed { t with monitor := t.monitor.seen now } := by
  unfold Monitor.seen
  split <;> exact ⟨h.demand, h.opened, h.armed⟩

theorem coherent_shutdown (h : t.Coherent closed) :
    Coherent true { t with monitor := t.monitor.shutdown } := by
  refine ⟨h.demand, ?_, ?_⟩
  · intro ho
    cases ho
  · intro harm
    cases harm

/-! ## What a request leaves behind that does not reach the broker -/

/-- Demand, alarm period and whether the alarm is armed are as they were. -/
structure Unchanged (t u : Tracker) : Prop where
  demand : u.demand = t.demand
  period : u.monitor.period = t.monitor.period
  armed : u.monitor.armed = t.monitor.armed

theorem unchanged_refl (t : Tracker) : t.Unchanged t := ⟨rfl, rfl, rfl⟩

/-- A request that sets nothing but what is set, so that taking its counts back undoes it. -/
structure Undoable (r : PullRequest) (t : Tracker) : Prop where
  period : Monitor.periodFor? r.heartbeat = some t.monitor.period
  demand : t.demand = .none ∨
    t.demand.messages + r.batch ≤ Count.top ∧ t.demand.bytes + r.maxBytes ≤ Count.top ∧
      t.demand.tracking = (decide (0 < r.maxBytes) && decide (0 < t.demand.bytes)) ∧
      (t.monitor.period.isSome = true → t.monitor.armed = true)

/-- All that a request adds to is at its most. -/
structure Saturated (r : PullRequest) (t : Tracker) : Prop where
  messages : t.demand.messages = Count.top
  bytes : r.maxBytes = 0 ∨ t.demand.bytes = Count.top
  tracking : t.demand.tracking = decide (0 < r.maxBytes)

theorem unchanged_added_iff (h : t.Coherent closed) (r : PullRequest) :
    t.Unchanged (t.added r) ↔ Saturated r t := by
  have hadd := Demand.add_eq_self_iff (r := r) h.demand
  refine ⟨fun hu => ?_, fun hs => ⟨hadd.2 ⟨hs.messages, hs.bytes, hs.tracking⟩, rfl, rfl⟩⟩
  obtain ⟨hm, hb, ht⟩ := hadd.1 hu.demand
  exact ⟨hm, hb, ht⟩

theorem monitor_cancel (t : Tracker) (r : PullRequest) :
    (t.cancel r).monitor.period = t.monitor.period ∧
      (t.cancel r).monitor.armed = (!(t.demand.withdraw r).isClosed && t.monitor.armed) := by
  unfold cancel
  dsimp only
  cases (t.demand.withdraw r).isClosed with
  | true => exact ⟨rfl, rfl⟩
  | false => exact ⟨rfl, rfl⟩

/-- A request is undone by the withdrawal exactly when it is undoable. -/
theorem unchanged_cancel_iff (h : t.Coherent false) (hr : r.Fits) (hi : t.issue now r = some u) :
    t.Unchanged (u.cancel r) ↔ Undoable r t := by
  obtain ⟨hp, hd, _, _, ha⟩ := issue_eq_some hi
  have harmed := ha (h.opened rfl)
  obtain ⟨hcp, hca⟩ := monitor_cancel u r
  have hcd : (u.cancel r).demand = (t.demand.add r).withdraw r := by
    unfold cancel
    rw [hd]
  rw [hd] at hca
  rcases Nat.eq_zero_or_pos t.demand.messages with hz | hpos
  · -- nothing was outstanding, so the window closes again
    have hnone : t.demand = .none := h.demand.whole hz
    have hback : (t.demand.add r).withdraw r = .none := by
      rw [hnone, Demand.withdraw_add_none]
    have hta : t.monitor.armed = false := by
      cases hm : t.monitor.armed with
      | false => rfl
      | true => exact absurd (h.armed hm).1 (by omega)
    rw [hback] at hcd hca
    refine ⟨fun hu => ⟨?_, Or.inl hnone⟩, fun hu => ⟨hcd.trans hnone.symm, ?_, hca.trans hta.symm⟩⟩
    · rw [hp, ← hcp, hu.period]
    · rw [hcp]
      exact Option.some.inj (hp.symm.trans hu.period)
  · have hback := Demand.withdraw_add_iff h.demand hr hpos
    have hne : t.demand ≠ .none := fun e => by
      rw [e] at hpos
      exact Nat.lt_irrefl _ hpos
    have hopen : t.demand.isClosed = false := beq_eq_false_iff_ne.2 (by omega)
    constructor
    · intro hu
      have hperiod : u.monitor.period = t.monitor.period := hcp.symm.trans hu.period
      have hsame : (t.demand.add r).withdraw r = t.demand := hcd.symm.trans hu.demand
      obtain ⟨hm, hb, ht⟩ := hback.1 hsame
      refine ⟨hperiod ▸ hp, Or.inr ⟨hm, hb, ht, fun hs => ?_⟩⟩
      rw [← hu.armed, hca, hsame, hopen, harmed, hperiod, hs]
      rfl
    · intro hu
      have hperiod : u.monitor.period = t.monitor.period :=
        Option.some.inj (hp.symm.trans hu.period)
      obtain ⟨hm, hb, ht, harm⟩ := hu.demand.resolve_left hne
      have hsame := hback.2 ⟨hm, hb, ht⟩
      refine ⟨hcd.trans hsame, hcp.trans hperiod, ?_⟩
      rw [hca, hsame, hopen, harmed, hperiod]
      cases hs : t.monitor.period.isSome with
      | true => simp [harm hs]
      | false =>
        cases hta : t.monitor.armed with
        | false => rfl
        | true => exact absurd (h.armed hta).2 (by simp [hs])

end Tracker

end DemandFlow
