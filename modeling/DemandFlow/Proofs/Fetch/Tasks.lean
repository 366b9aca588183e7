import DemandFlow.Proofs.Fetch.Caller

/-
  All tasks of an exchange that hosts an errand. The tasks of other subscriptions and callers do
  nothing; and a task of the errand that leaves everything as it is has nothing to do, for every
  step of an errand changes its weight, and the weight can be read off the exchange. So an
  exchange at rest hosts an errand that waits for the clock.
-/

namespace DemandFlow

open Broker (Chore Command)

/-- Nothing is left to do for a subscription that is over. -/
theorem Exchange.step_of_isOver {x : Exchange} {i : Nat}
    (h : ∀ u, x.subs[i]? = some u → u.isOver = true) :
    (x.workerStep i).1 = x ∧ (x.alarmStep i).1 = x := by
  unfold Exchange.workerStep Exchange.alarmStep
  cases hs : x.subs[i]? with
  | none => exact ⟨rfl, rfl⟩
  | some u =>
    have hover := h u hs
    unfold Subscription.isOver at hover
    rw [Bool.and_eq_true, Bool.not_eq_true', decide_eq_true_eq] at hover
    dsimp only
    rw [hover.2, hover.1]
    exact ⟨rfl, rfl⟩

namespace Errand

variable {T : Terms} {P : Place} {n k : Nat} {a b : Errand} {c : Exchange.Core} {x y : Exchange}
  {l l' : Loopback} {feed feed' : Feed} {s s' : Subscription}

/-! ## Turns of all tasks -/

theorem Turned.imp {p q : Prop} (h : Turned T P n a p x y) (hpq : p → q) :
    Turned T P n a q x y := by
  cases h with
  | same content idle => exact .same content (hpq idle)
  | step b step hosted => exact .step b step hosted
  | saw hosted before after idle => exact .saw hosted before after (hpq idle)

/-- What is idle if this task does nothing. -/
def TaskIdle (T : Terms) (P : Place) (a : Errand) : Task → Prop
  | .broker => BrokerIdle a
  | .worker i => i = P.sub → WorkerIdle a
  | .alarm i => i = P.sub → AlarmIdle a
  | .caller id => id = P.caller → CallerIdle T a
  | .farewell _ => True

theorem Hosts.callerStep_of_ne (h : Hosts T P n a x.core l feed s) {id : Nat}
    (hid : id ≠ P.caller) : (x.callerStep id).1 = x := by
  have hnone : (x.callers.find? fun c => c.id = id) = none := by
    rw [List.find?_eq_none]
    intro c hc
    rw [show x.callers = P.callersAt a from h.callers] at hc
    have hcaller : c.id = P.caller := by
      unfold Place.callersAt at hc
      cases hst : a.stage with
      | reading | leaving =>
        rw [hst] at hc
        rw [List.mem_singleton.1 hc]
      | answered =>
        rw [hst] at hc
        cases hc
    rw [decide_eq_true_eq, hcaller]
    exact fun he => hid he.symm
  rw [Exchange.callerStep_of_none hnone]

/-- The turn of any task but a farewell. -/
theorem turned (ho : T.options.Timed) (h : Hosted T P n a x) (hs : Sound T a) {t : Task}
    (ht : t.isLasting = true) : Turned T P n a (TaskIdle T P a t) x (x.stepOf t).1 := by
  obtain ⟨⟨l, feed, s, h⟩, ha⟩ := h
  cases t with
  | broker => exact turned_broker h ha hs
  | worker i =>
    by_cases hi : i = P.sub
    · subst hi
      exact (turned_worker h ha).imp fun hidle _ => hidle
    · refine .same ?_ fun he => absurd he hi
      exact congrArg Exchange.content (Exchange.step_of_isOver fun u hu => h.others i u hi hu).1
  | alarm i =>
    by_cases hi : i = P.sub
    · subst hi
      exact (turned_alarm h ha hs).imp fun hidle _ => hidle
    · refine .same ?_ fun he => absurd he hi
      exact congrArg Exchange.content (Exchange.step_of_isOver fun u hu => h.others i u hi hu).2
  | caller id =>
    by_cases hid : id = P.caller
    · subst hid
      exact (turned_caller ho h ha hs).imp fun hidle _ => hidle
    · exact .same (congrArg Exchange.content (h.callerStep_of_ne hid)) fun he => absurd he hid
  | farewell i => cases ht

/-! ## Weights of hosts -/

theorem handing_iff (inbox : String) (a : Errand) : a.handing = true ↔
    Chore.handOut ∈ a.out.map (Chore.post inbox) ++ if a.handing then [Chore.handOut] else [] := by
  cases a.handing <;> simp

/-- How far a caller is shows in what it is at. -/
theorem burden_of_callers (h : P.callersAt a = P.callersAt b) :
    a.stage.burden = b.stage.burden := by
  unfold Place.callersAt at h
  cases ha : a.stage <;> cases hb : b.stage <;> rw [ha, hb] at h <;>
    first | rfl | simp at h

/-- The weight of an errand is that of its host. -/
theorem weight_eq (ha : Hosts T P n a c l feed s) (hb : Hosts T P k b c l' feed' s') :
    a.weight = b.weight := by
  obtain rfl : l = l' := Transport.loopback.inj (ha.transport.symm.trans hb.transport)
  obtain rfl : feed = feed' := Option.some.inj (ha.feedAt.symm.trans hb.feedAt)
  obtain rfl : s = s' := Option.some.inj (ha.subAt.symm.trans hb.subAt)
  have hnow : a.now = b.now := ha.now.symm.trans hb.now
  have hqueue : a.queue = b.queue := ha.served.commands.symm.trans hb.served.commands
  have hunread : a.unread.length = b.unread.length := by
    have hstream := congrArg List.length (ha.served.stream.symm.trans hb.served.stream)
    have hcursor := ha.served.cursor.symm.trans hb.served.cursor
    simp only [List.length_append] at hstream
    omega
  have hpull : a.pull = b.pull := by
    have hp := congrArg List.head? (ha.served.waiting.symm.trans hb.served.waiting)
    rwa [Option.head?_toList, Option.head?_toList] at hp
  have hagenda := ha.served.agenda.symm.trans hb.served.agenda
  have hhanding : a.handing = b.handing := by
    rw [Bool.eq_iff_iff, handing_iff T.inbox a, handing_iff T.inbox b, hagenda]
  have hout : a.out.length = b.out.length := by
    have hlen := congrArg List.length hagenda
    rw [hhanding] at hlen
    simpa using hlen
  have hframes : a.frames = b.frames := ha.fed.frames.symm.trans hb.fed.frames
  have hworker : a.worker = b.worker := ha.attended.worker.symm.trans hb.attended.worker
  have hdeliveries : a.deliveries = b.deliveries :=
    ha.attended.queue.symm.trans hb.attended.queue
  have hwatching : a.watching = b.watching :=
    ha.attended.watching.symm.trans hb.attended.watching
  have hburden := burden_of_callers (ha.callers.symm.trans hb.callers)
  unfold weight
  rw [hqueue, hunread, hpull, hnow, hout, hhanding, hframes, hworker, hdeliveries, hwatching,
    hburden]

/-- A step of an errand is seen. -/
theorem content_ne_of_step (ho : T.options.Timed) (h : Hosted T P n a x) (hs : Sound T a)
    (hstep : Step T a b) (hy : Hosted T P n b y) : y.content ≠ x.content := by
  intro he
  obtain ⟨⟨l, feed, s, h⟩, _⟩ := h
  obtain ⟨⟨l', feed', s', hy⟩, _⟩ := hy
  have hcore : y.core = x.core := congrArg Prod.fst he
  rw [hcore] at hy
  exact absurd (weight_eq hy h) (Nat.ne_of_lt (hstep.lighter ho hs))

/-- A task that leaves everything as it is has nothing to do. -/
theorem Turned.idle {p : Prop} (ht : Turned T P n a p x y) (ho : T.options.Timed)
    (h : Hosted T P n a x) (hs : Sound T a) (he : y.content = x.content) : p := by
  cases ht with
  | same _ idle => exact idle
  | step b step hosted => exact absurd he (content_ne_of_step ho h hs step hosted)
  | saw _ _ _ idle => exact idle

/-! ## Rest -/

/-- Where no task of an errand has anything to do, the errand waits for the clock. -/
theorem isQuiet_of_idle (hs : Sound T a) (hbroker : BrokerIdle a) (hworker : WorkerIdle a)
    (halarm : AlarmIdle a) (hcaller : CallerIdle T a) :
    IsQuiet T a ∧ (∀ p, a.pull = some p → (Broker.State.due a.now p).1 = none) ∧
      (a.stage = .reading → a.now < T.due) := by
  rcases hcaller with hst | ⟨hst, hdeliveries, hfull, hearly⟩ | ⟨hst, hleft⟩
  · have hended : a.worker = .ended := hworker.resolve_right fun hr => by
      rw [hst] at hr
      cases hr.1
    obtain ⟨hidle, hqueue, hdue⟩ := hbroker.resolve_left fun hb => hb.1 hended
    have hno : ∀ {Q : Prop}, a.stage = .reading → Q := fun hr => by
      rw [hst] at hr
      cases hr
    refine ⟨⟨hidle, hqueue, hno, ?_⟩, hdue, hno⟩
    rw [hst]
    exact fun he => by cases he
  · have hopen : a.worker ≠ .ended := by
      obtain ⟨stop, hr⟩ := hs.reads hst
      exact hr.worker
    obtain ⟨hreading, hframes⟩ :=
      ((hworker.resolve_left hopen).2).resolve_right fun hw => hw.2 hdeliveries
    obtain ⟨hidle, hqueue, hdue⟩ := hbroker.resolve_left fun hb => hb.2 hframes
    refine ⟨⟨hidle, hqueue, fun _ => ⟨hframes, hreading, hdeliveries, hfull⟩, ?_⟩, hdue,
      fun _ => hearly⟩
    rw [hst]
    exact fun he => by cases he
  · -- both tasks have ended, and so the caller would be answered
    have hnot : a.stage ≠ .reading := by
      rw [hst]
      exact fun he => by cases he
    have hended := hworker.resolve_right fun hr => hnot hr.1
    have hover := halarm.resolve_right hnot
    rcases hleft with hleft | hleft
    · exact absurd hended hleft
    · rw [hover] at hleft
      cases hleft

/-- An exchange at rest hosts an errand that waits for the clock. -/
theorem isQuiet_of_rests (ho : T.options.Timed) (h : Hosted T P n a x) (hs : Sound T a)
    (hr : x.Rests) :
    IsQuiet T a ∧ (∀ p, a.pull = some p → (Broker.State.due a.now p).1 = none) ∧
      (a.stage = .reading → a.now < T.due) := by
  have hidle : ∀ t : Task, t.isLasting = true → TaskIdle T P a t :=
    fun t ht => (turned ho h hs ht).idle ho h hs (hr t ht)
  exact isQuiet_of_idle hs (hidle .broker rfl) (hidle (.worker P.sub) rfl rfl)
    (hidle (.alarm P.sub) rfl rfl) (hidle (.caller P.caller) rfl rfl)

end Errand

end DemandFlow
