import DemandFlow.Proofs.Silence.Chronicle
import DemandFlow.Proofs.Silence.Live

/-
  A live broker never triggers the alarm of a continuous consumer. Messages are published, calls
  are made and tasks take their turns in any order; the clock goes on only when all tasks rest,
  and no further than to the next instant at which one of them looks again. Until the consumer is
  opened there is no monitor, as long as it is open a broker tends it, and then its monitor is
  shut. So no monitor ever has an alarm to raise (`alerts_eq_nil`).
-/

namespace DemandFlow

open Exchange (Move)

/-! ## Moves in time -/

namespace Exchange

/-- A move in which only the broker takes part. -/
def Move.IsRemote : Move → Prop
  | .publish _ | .timers | .turn .broker => True
  | _ => False

/-- The clock can go on: all tasks rest, and none has to look again before. -/
structure Awaits (x : Exchange) (now : Nat) : Prop where
  rests : x.Rests
  later : x.now ≤ now
  rings : ∀ t, x.Rings t → now ≤ t

/-- A move in the life of the only consumer, which has these options, and in time. -/
def InTime (o : ConsumeOptions) (x : Exchange) : Move → Prop
  | .consume p _ => p = o ∧ x.subs.size = 0
  | .drain i _ | .stop i => i < x.subs.size
  | .publish _ | .timers => True
  | .turn t => t.isLasting = true
  | .clock now => x.Awaits now
  | _ => False

/-- Each move is made in time. -/
def RunsInTime (o : ConsumeOptions) (x : Exchange) : List Move → Prop
  | [] => True
  | m :: ms => x.InTime o m ∧ (x.next m).RunsInTime o ms

/-- No alarm is due: the consumer is not opened yet, or a broker tends it, or its monitor is
shut. -/
inductive Unalarmed (o : ConsumeOptions) (x : Exchange) : Prop
  | unopened (seen : Nat) (l : Loopback) (h : Unopened o seen x.core l)
  | tended (seen : Nat) (l : Loopback) (s : Subscription) (h : Tended o seen x.core l s)
  | shut (h : AllShut x.subs)

theorem core_alarmStep_of_none {x : Exchange} {i : Nat} (h : x.subs[i]? = none) :
    (x.alarmStep i).1.core = x.core := by
  unfold alarmStep
  rw [h]

theorem core_workerStep_of_none {x : Exchange} {i : Nat} (h : x.subs[i]? = none) :
    (x.workerStep i).1.core = x.core := by
  unfold workerStep
  rw [h]

end Exchange

section Moves

variable {o : ConsumeOptions} {st : ConsumeOptions.Settings} {beat : Option Span} {seen : Nat}
  {l : Loopback} {s : Subscription} {x : Exchange} {m : Move}

theorem Serving.remote (h : Serving beat seen x.core l) (hm : m.IsRemote) :
    ∃ l' fs, (x.next m).core = { x.core with transport := .loopback l', feeds := fs } ∧
      Serving beat seen (x.next m).core l' := by
  cases m with
  | publish m =>
    obtain ⟨_, hc⟩ := Exchange.core_publish h.keeps.transport h.keeps.alive m
    refine ⟨_, x.core.feeds, hc, ?_⟩
    rw [show (x.next (.publish m)).core = _ from hc]
    exact h.publish _ _
  | timers =>
    obtain ⟨l', hc, hs⟩ := h.fire
    exact ⟨l', x.core.feeds, hc, hs⟩
  | turn t =>
    cases t with
    | broker => exact h.brokerStep
    | _ => exact hm.elim
  | _ => exact hm.elim

theorem Unopened.next (hb : st.build = .ok o) (hfit : o.Fits) (h : Unopened o seen x.core l)
    (hm : x.InTime o m) : (x.next m).Unalarmed o := by
  have hsubs : x.subs = #[] := h.subs
  have hnone : ∀ i, x.subs[i]? = none := fun i => by
    rw [hsubs]
    exact Array.getElem?_empty
  have hremote : m.IsRemote → (x.next m).Unalarmed o := fun hr =>
    have ⟨l', fs, hc, hs⟩ := h.serving.remote hr
    .unopened seen l' (h.carry fs hc hs)
  have hsame : (x.next m).core = x.core → (x.next m).Unalarmed o := fun hc =>
    .unopened seen l (hc ▸ h)
  have hsize : ∀ i, ¬i < x.subs.size := fun i => by
    rw [hsubs]
    exact Nat.not_lt_zero i
  cases m with
  | publish _ | timers => exact hremote trivial
  | consume p hd =>
    obtain ⟨rfl, _⟩ := hm
    obtain ⟨l', s, ht⟩ := h.openContinuous hb hfit hd
    exact .tended x.now l' s ht
  | drain i _ | stop i => exact (hsize i hm).elim
  | clock now =>
    have hawaits : x.Awaits now := hm
    exact .unopened seen l (h.ring hawaits.rests hawaits.later)
  | turn t =>
    cases t with
    | broker => exact hremote trivial
    | alarm i => exact hsame (Exchange.core_alarmStep_of_none (hnone i))
    | worker i => exact hsame (Exchange.core_workerStep_of_none (hnone i))
    | caller id =>
      exact hsame (congrArg (fun p => p.1.core) (Exchange.callerStep_of_nobody h.callers))
    | farewell i => cases hm
  | _ => exact hm.elim

theorem Tended.next (hb : st.build = .ok o) (hfit : o.Fits) (h : Tended o seen x.core l s)
    (hm : x.InTime o m) : (x.next m).Unalarmed o := by
  have hsubs : x.subs = #[s] := h.subs
  have hzero : ∀ i, i < x.subs.size → i = 0 := fun i hi => by
    rw [hsubs] at hi
    exact Nat.lt_one_iff.1 hi
  have hnone : ∀ i, i ≠ 0 → x.subs[i]? = none := fun i hi =>
    Array.getElem?_eq_none (Nat.le_of_not_lt fun hlt => hi (hzero i hlt))
  have hremote : m.IsRemote → (x.next m).Unalarmed o := fun hr =>
    have ⟨l', fs, hc, hs⟩ := h.serving.remote hr
    .tended seen l' s (h.carry fs hc hs)
  have hsame : (x.next m).core = x.core → (x.next m).Unalarmed o := fun hc =>
    .tended seen l s (hc ▸ h)
  cases m with
  | publish _ | timers => exact hremote trivial
  | consume p hd =>
    have hnew : x.subs.size = 0 := hm.2
    rw [hsubs] at hnew
    exact absurd hnew Nat.one_ne_zero
  | drain i grace =>
    obtain rfl := hzero i hm
    obtain ⟨s', ht⟩ := h.drainBehind grace
    exact .tended seen l s' ht
  | stop i =>
    obtain rfl := hzero i hm
    exact .shut h.allShut_stopBehind
  | clock now =>
    have hawaits : x.Awaits now := hm
    exact .tended seen l s (h.ring hb hfit hawaits.rests hawaits.later hawaits.rings)
  | turn t =>
    cases t with
    | broker => exact hremote trivial
    | alarm i =>
      by_cases hi : i = 0
      · subst hi
        obtain ⟨_, s', ht⟩ := h.alarmStep
        exact .tended seen l s' ht
      · exact hsame (Exchange.core_alarmStep_of_none (hnone i hi))
    | worker i =>
      by_cases hi : i = 0
      · subst hi
        rcases h.workerStep hb hfit with ⟨seen', l', s', ht⟩ | hshut
        · exact .tended seen' l' s' ht
        · exact .shut hshut
      · exact hsame (Exchange.core_workerStep_of_none (hnone i hi))
    | caller id =>
      rcases h.callerStep id with ⟨l', s', ht⟩ | hshut
      · exact .tended seen l' s' ht
      · exact .shut hshut
    | farewell i => cases hm
  | _ => exact hm.elim

theorem AllShut.next (h : AllShut x.subs) (hm : m.mayOpen = false) :
    AllShut (x.next m).subs := by
  have hsize := x.size_next hm
  refine ⟨by rw [hsize]; exact h.1, fun i s' hs' => ?_⟩
  rcases x.passed_next m hs' with ⟨s, hs, hpass⟩ | ⟨hi, _⟩
  · exact hpass.tracker.shut (h.2 i s hs)
  · have hlt := (Array.getElem?_eq_some_iff.1 hs').1
    omega

end Moves

/-! ## No alarms -/

namespace Exchange

variable {o : ConsumeOptions} {st : ConsumeOptions.Settings} {x : Exchange} {m : Move}

theorem raised_eq_nil (h : ∀ i, x.raises? i = none) (m : Move) : x.raised m = [] := by
  refine List.eq_nil_iff_forall_not_mem.2 fun r hr => ?_
  have hsome := raises?_of_raised hr
  rw [h r.1] at hsome
  cases hsome

/-- No alarm task would raise an alarm. -/
theorem Unalarmed.raises?_eq_none (h : x.Unalarmed o) (i : Nat) : x.raises? i = none := by
  have hnone : x.subs[i]? = none → x.raises? i = none := fun hi => by
    unfold raises?
    rw [hi]
  cases h with
  | unopened seen l h =>
    refine hnone ?_
    rw [show x.subs = #[] from h.subs]
    exact Array.getElem?_empty
  | tended seen l s h =>
    cases i with
    | zero => exact h.alarmStep.1
    | succ i =>
      refine hnone ?_
      rw [show x.subs = #[s] from h.subs]
      rfl
  | shut h =>
    cases hr : x.raises? i with
    | none => rfl
    | some r =>
      obtain ⟨s, hs, _, _, hopen, _⟩ := raises?_eq_some hr
      rw [h.2 i s hs] at hopen
      cases hopen

theorem Unalarmed.next (hb : st.build = .ok o) (hfit : o.Fits) (h : x.Unalarmed o)
    (hm : x.InTime o m) : (x.next m).Unalarmed o := by
  cases h with
  | unopened seen l h => exact h.next hb hfit hm
  | tended seen l s h => exact h.next hb hfit hm
  | shut h =>
    refine .shut (h.next ?_)
    cases m with
    | consume p hd => exact absurd hm.2 h.1
    | manual | fetch _ => exact hm.elim
    | _ => rfl

end Exchange

/-! ## Rest that can be computed -/

namespace Exchange

variable {o : ConsumeOptions} {x : Exchange} {now : Nat}

/-- A broker that has nothing to do before an instant. -/
def BrokerIdle (x : Exchange) (now : Nat) : Transport → Prop
  | .loopback l =>
    (l.alive = true ∧ l.held = true ∧ l.broker.agenda.isEmpty = true ∧
      l.commands.pop?.isNone = true) ∧ ∀ due ∈ l.broker.deadline, x.now < due ∧ now ≤ due
  | .scripted _ => False

instance (x : Exchange) (now : Nat) : (t : Transport) → Decidable (x.BrokerIdle now t)
  | .loopback _ => inferInstanceAs (Decidable (_ ∧ _))
  | .scripted _ => inferInstanceAs (Decidable False)

/-- A subscription whose tasks have nothing to do before an instant. -/
structure SubIdle (x : Exchange) (now : Nat) (s : Subscription) : Prop where
  reads : s.closed = false ∧ s.worker = .reading ∧ s.alarms = []
  watched : s.tracker.monitor.closed = false ∧ s.tracker.monitor.stirred = false ∧
    ∀ due ∈ s.tracker.monitor.deadline, x.now < due ∧ now ≤ due ∧ due < clockEnd
  fed : ∀ f ∈ x.feeds[s.feed]?, f.frames.pop?.isNone = true ∧ f.writing = true

instance (x : Exchange) (now : Nat) (s : Subscription) : Decidable (x.SubIdle now s) :=
  decidable_of_iff (_ ∧ _ ∧ _) ⟨fun h => ⟨h.1, h.2.1, h.2.2⟩, fun h => ⟨h.reads, h.watched, h.fed⟩⟩

/-- Nobody calls, and no task has anything to do before an instant. -/
structure IdleUntil (x : Exchange) (now : Nat) : Prop where
  later : x.now ≤ now
  callers : x.callers.isEmpty = true
  broker : x.BrokerIdle now x.transport
  subs : ∀ s ∈ x.subs.toList, x.SubIdle now s

instance (x : Exchange) (now : Nat) : Decidable (x.IdleUntil now) :=
  decidable_of_iff (_ ∧ _ ∧ _ ∧ _)
    ⟨fun h => ⟨h.1, h.2.1, h.2.2.1, h.2.2.2⟩, fun h => ⟨h.later, h.callers, h.broker, h.subs⟩⟩

theorem IdleUntil.subAt (h : x.IdleUntil now) {i : Nat} {s : Subscription}
    (hs : x.subs[i]? = some s) : x.SubIdle now s :=
  h.subs s (Array.mem_toList_iff.2 (Array.mem_of_getElem? hs))

/-- Whoever looks at the monitor waits or sleeps. -/
theorem SubIdle.look {s : Subscription} (h : x.SubIdle now s) :
    s.tracker.monitor.look x.now = .wait ∨ ∃ due, s.tracker.monitor.look x.now = .sleep due := by
  obtain ⟨hopen, _, hdue⟩ := h.watched
  unfold Monitor.look
  rw [if_neg (ne_true_of_eq_false hopen)]
  cases hd : s.tracker.monitor.deadline with
  | none => exact Or.inl rfl
  | some due =>
    obtain ⟨hlater, _, hnamed⟩ := hdue due hd
    refine Or.inr ⟨due, ?_⟩
    dsimp only
    rw [if_neg (Nat.not_le_of_lt hnamed), if_pos hlater]

theorem SubIdle.seen {s : Subscription} (h : x.SubIdle now s) :
    s.tracker.monitor.seen x.now = s.tracker.monitor := by
  have hstirred := h.watched.2.1
  unfold Monitor.seen
  rcases h.look with hl | ⟨due, hl⟩ <;> rw [hl] <;> dsimp only <;> rw [← hstirred]

theorem IdleUntil.brokerStep (h : x.IdleUntil now) :
    x.brokerStep.1.content = x.content := by
  have hb := h.broker
  unfold BrokerIdle at hb
  unfold Exchange.brokerStep
  split at hb
  · rename_i l hl
    obtain ⟨⟨ha, hh, hag, hc⟩, hdue⟩ := hb
    rw [hl]
    dsimp only
    rw [if_pos ha, List.isEmpty_iff.1 hag, Option.isNone_iff_eq_none.1 hc]
    dsimp only
    unfold idle
    rw [hh]
    cases hd : l.broker.deadline with
    | none => rfl
    | some due =>
      dsimp only
      rw [if_neg (Nat.not_le_of_lt (hdue due hd).1)]
      rfl
  · exact hb.elim

/-- To look at the monitor once more changes nothing. -/
theorem IdleUntil.sawMonitor (h : x.IdleUntil now) (i : Nat) :
    (x.sawMonitor i).content = x.content := by
  have hsame : (x.sawMonitor i).subs = x.subs := by
    unfold Exchange.sawMonitor modifySub
    dsimp only
    refine (modify_congr (g := id) fun s hs => ?_).trans (modify_id x.subs i)
    rw [(h.subAt hs).seen]
    rfl
  exact congrArg (fun ss => ({ x with subs := ss } : Exchange).content) hsame

theorem IdleUntil.alarmStep (h : x.IdleUntil now) (i : Nat) :
    (x.alarmStep i).1.content = x.content := by
  have hsaw := h.sawMonitor i
  unfold Exchange.alarmStep
  cases hs : x.subs[i]? with
  | none => rfl
  | some s =>
    dsimp only
    split
    · rcases (h.subAt hs).look with hl | ⟨due, hl⟩ <;> rw [hl] <;> exact hsaw
    · rfl

theorem IdleUntil.workerStep (h : x.IdleUntil now) (i : Nat) :
    (x.workerStep i).1.content = x.content := by
  unfold Exchange.workerStep
  cases hs : x.subs[i]? with
  | none => rfl
  | some s =>
    have hidle := h.subAt hs
    obtain ⟨hopen, hreads, halarms⟩ := hidle.reads
    dsimp only
    rw [hreads]
    dsimp only
    rw [if_neg (ne_true_of_eq_false hopen)]
    unfold readStep
    cases hf : x.feeds[s.feed]? with
    | none => rfl
    | some f =>
      obtain ⟨hp, hw⟩ := hidle.fed f hf
      dsimp only
      rw [Option.isNone_iff_eq_none.1 hp]
      dsimp only
      rw [if_pos hw, halarms]

/-- An exchange that is idle until an instant awaits it. -/
theorem IdleUntil.awaits (h : x.IdleUntil now) : x.Awaits now := by
  have hcallers : x.callers = [] := List.isEmpty_iff.1 h.callers
  refine ⟨fun t ht => ?_, h.later, fun t ht => ?_⟩
  · cases t with
    | broker => exact h.brokerStep
    | alarm i => exact h.alarmStep i
    | worker i => exact h.workerStep i
    | caller id =>
      exact congrArg (fun p => p.1.content) (Exchange.callerStep_of_nobody hcallers)
    | farewell i => cases ht
  · cases ht with
    | broker l hl hdue =>
      have hb := h.broker
      rw [hl] at hb
      exact (hb.2 t hdue).2
    | alarm i s hs _ hdue => exact ((h.subAt hs).watched.2.2 t hdue).2.1
    | caller c hc =>
      rw [hcallers] at hc
      cases hc

/-! ## Runs in time -/

theorem runsInTime_append {ms ns : List Move} :
    x.RunsInTime o (ms ++ ns) ↔ x.RunsInTime o ms ∧ (x.after ms).RunsInTime o ns := by
  induction ms generalizing x with
  | nil => simp [RunsInTime, after]
  | cons m ms ih =>
    simp only [List.cons_append, RunsInTime, ih, and_assoc]
    rfl

/-- Turns are always made in time. -/
theorem runsInTime_turns {ts : List Task} (h : ∀ t ∈ ts, t.isLasting = true) :
    x.RunsInTime o (ts.map .turn) := by
  induction ts generalizing x with
  | nil => trivial
  | cons t ts ih =>
    exact ⟨h t List.mem_cons_self, ih fun u hu => h u (List.mem_cons_of_mem t hu)⟩

/-- Turns of all tasks of one consumer, so many that then they rest. -/
def everybody : List Task :=
  List.replicate 4 Task.broker ++ [Task.worker 0, .broker, .broker, .alarm 0, .caller 0]

theorem RunsInTime.round {m : Move} {ms : List Move} (hm : x.InTime o m)
    (hms : (x.after (m :: everybody.map .turn)).RunsInTime o (rounds .turn everybody ms)) :
    x.RunsInTime o (rounds .turn everybody (m :: ms)) := by
  have hcons : rounds .turn everybody (m :: ms) =
      (m :: everybody.map .turn) ++ rounds .turn everybody ms := List.flatMap_cons
  rw [hcons, runsInTime_append]
  exact ⟨⟨hm, runsInTime_turns (by decide)⟩, hms⟩

end Exchange

namespace Chronicle

variable {o : ConsumeOptions} {st : ConsumeOptions.Settings} {c : Chronicle} {ms : List Move}

theorem alerts_after (hb : st.build = .ok o) (hfit : o.Fits) (h : c.exchange.Unalarmed o)
    (hms : c.exchange.RunsInTime o ms) : (c.after ms).alerts = c.alerts := by
  induction ms generalizing c with
  | nil => rfl
  | cons m ms ih =>
    obtain ⟨hm, hms⟩ := hms
    have hquiet : (c.next m).alerts = c.alerts := by
      show c.alerts ++ (c.exchange.raised m).map c.alert = c.alerts
      rw [Exchange.raised_eq_nil h.raises?_eq_none m]
      exact List.append_nil _
    exact (ih (c := c.next m) (h.next hb hfit hm) hms).trans hquiet

/-- A live broker never triggers the alarm of a continuous consumer. Messages are published, the
consumer is opened with options that were accepted, it drains and stops, and tasks take their
turns in any order; the clock goes on as far as the next timer when all tasks rest. Then the
monitor of the consumer raises no alarm, whatever its handler does and whatever the limits of the
broker are, as long as it sends heartbeats. -/
theorem alerts_eq_nil (hb : st.build = .ok o) (hfit : o.Fits) {limits : Broker.Limits}
    (hl : limits.heartbeats = true) (keeps : Bool) (capacity : Nat)
    (hms : (Exchange.start (.loopback (.start limits true)) keeps capacity).RunsInTime o ms) :
    ((start (.start (.loopback (.start limits true)) keeps capacity)).after ms).alerts = [] :=
  alerts_after hb hfit (.unopened 0 _ ⟨Serving.start hl o.beat? keeps capacity, rfl, rfl⟩) hms

/-- For three heartbeats nothing is published. The broker beats, then the pull expires and
another one goes out, then the broker beats again, and no alarm is due though the alarm period is
over. Then a message is published, and the consumer drains and stops. -/
def quietPeriod : List Move :=
  Exchange.rounds .turn Exchange.everybody
    [.consume .default .plain, .clock (Span.ofSecs 15).nanos, .clock (Span.ofSecs 30).nanos,
      .clock (Span.ofSecs 45).nanos, .publish (.plain "a" ⟨#[1]⟩), .drain 0 .zero, .stop 0]

theorem quietPeriod_alerts :
    (Exchange.start (.loopback (.start .default true)) true 1).RunsInTime .default quietPeriod ∧
      ((start (.start (.loopback (.start .default true)) true 1)).after quietPeriod).alerts =
        [] := by
  have hms : (Exchange.start (.loopback (.start .default true)) true 1).RunsInTime .default
      quietPeriod := by
    refine .round ⟨rfl, rfl⟩ (.round ?_ (.round ?_ (.round ?_ (.round trivial
      (.round ?_ (.round ?_ trivial))))))
    · exact Exchange.IdleUntil.awaits (by decide +kernel)
    · exact Exchange.IdleUntil.awaits (by decide +kernel)
    · exact Exchange.IdleUntil.awaits (by decide +kernel)
    · show 0 < _
      decide +kernel
    · show 0 < _
      decide +kernel
  exact ⟨hms, alerts_eq_nil ConsumeOptions.build_none ⟨by decide, by decide⟩ rfl true 1 hms⟩

end Chronicle

end DemandFlow
