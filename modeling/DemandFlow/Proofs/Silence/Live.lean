import DemandFlow.Proofs.Fetch.Schedule
import DemandFlow.Proofs.Silence.Tended

/-
  The life of a continuous consumer that a live broker tends. It is opened where there is no
  subscription yet; calls drain it or stop it; and when all tasks rest the clock goes on to the
  next instant at which one of them looks again. Each step leaves the consumer tended, or its
  monitor shut.
-/

namespace DemandFlow

open Broker (Command inboxName)
open Exchange (Core Move)

namespace Tended

variable {o : ConsumeOptions} {seen : Nat} {c : Core} {l : Loopback} {s : Subscription}
  {x : Exchange}

/-! ## Calls -/

/-- Whoever stops the consumer shuts its monitor. -/
theorem allShut_left (h : Tended o seen x.core l s) :
    AllShut ((x.closeContinuous 0).unsubscribe 0).subs := by
  have hcore : ∃ u, (x.closeContinuous 0).core = { x.core with subs := #[u] } := by
    unfold Exchange.closeContinuous
    rw [Exchange.core_modifySub, h.subs]
    exact ⟨_, rfl⟩
  obtain ⟨u, hu⟩ := hcore
  refine allShut_unsubscribe (s := u) (l := l) ?_ ?_ h.serving.keeps.alive <;> rw [hu]
  exact h.serving.keeps.transport

theorem subs_stopWith (x : Exchange) (id i : Nat) (answer : Answer) :
    (x.stopWith id i answer).subs = ((x.closeContinuous i).unsubscribe i).subs := by
  unfold Exchange.stopWith Exchange.setActivity Exchange.clearTimer
  rfl

/-- The callers wait, or stop the consumer. -/
theorem callerStep (h : Tended o seen x.core l s) (id : Nat) :
    (∃ l' s', Tended o seen (x.callerStep id).1.core l' s') ∨
      AllShut (x.callerStep id).1.subs := by
  have hsub : x.subs[0]? = some s := h.subAt
  unfold Exchange.callerStep
  cases hc : x.callers.find? fun c => c.id = id with
  | none => exact Or.inl ⟨l, s, h⟩
  | some k =>
    have hends := h.callers k (List.mem_of_find?_eq_some hc)
    dsimp only
    cases ha : k.activity with
    | drain i due =>
      rw [ha] at hends
      obtain rfl : i = 0 := hends
      dsimp only
      unfold Exchange.drainStep
      rw [hsub]
      dsimp only
      split
      · refine Or.inr ?_
        rw [subs_stopWith]
        exact h.allShut_left
      · split
        · refine Or.inr ?_
          rw [subs_stopWith]
          exact allShut_left (x := x.note _) h
        · refine Or.inl ⟨l, s, ?_⟩
          rw [Exchange.core_keepTimer]
          exact h
    | leave i answer =>
      rw [ha] at hends
      obtain rfl : i = 0 := hends
      have hover : s.isOver = false := by
        unfold Subscription.isOver
        rw [h.sub.reads]
        exact Bool.and_false _
      refine Or.inl ⟨l, s, ?_⟩
      dsimp only
      unfold Exchange.leaveStep
      rw [hsub]
      dsimp only
      rw [hover]
      exact h
    | sleep _ | read _ _ | readAll _ _ _ _ | fetch _ _ | watch _ _ _ | ask =>
      rw [ha] at hends
      exact hends.elim

theorem core_callBehind_of_ends (x : Exchange) {a : Activity} (ha : a.Ends) :
    (x.callBehind a).1.core =
      { x.core with callers := x.core.callers ++ [⟨x.nextCaller, a⟩] } := by
  rw [Exchange.core_callBehind]
  cases a with
  | drain | leave => rfl
  | sleep _ | read _ _ | readAll _ _ _ _ | fetch _ _ | watch _ _ _ | ask => exact ha.elim

/-- A call that ends the consumer joins the callers. -/
theorem callBehind (h : Tended o seen x.core l s) {a : Activity} (ha : a.Ends) :
    Tended o seen (x.callBehind a).1.core l s := by
  rw [core_callBehind_of_ends x ha]
  refine ⟨h.serving.same rfl rfl rfl rfl, h.subs, h.sub, fun k hk => ?_⟩
  rcases List.mem_append.1 hk with hk | hk
  · exact h.callers k hk
  · rw [List.mem_singleton.1 hk]
    exact ha

/-- A call to stop shuts the monitor. -/
theorem allShut_stopBehind (h : Tended o seen x.core l s) :
    AllShut (((x.closeContinuous 0).unsubscribe 0).callBehind (.leave 0 .done)).1.subs := by
  have hc := congrArg Core.subs
    (core_callBehind_of_ends ((x.closeContinuous 0).unsubscribe 0) (a := .leave 0 .done) rfl)
  exact (congrArg AllShut hc).mpr h.allShut_left

/-- A drain begins, or the consumer is draining already. -/
theorem drainBehind (h : Tended o seen x.core l s) (grace : Span) :
    ∃ s', Tended o seen (x.drainBehind 0 grace).core l s' := by
  have hsub : x.subs[0]? = some s := h.subAt
  obtain ⟨k, hp, hplan, hm⟩ := h.sub.purpose
  unfold Exchange.drainBehind Exchange.beginDrain
  rw [hsub]
  dsimp only
  rw [hp]
  dsimp only
  cases hd : k.drain? with
  | none => exact ⟨s, h⟩
  | some d =>
    obtain ⟨_, rfl⟩ := Continuous.drain?_eq_some hd
    have hdrains := h.become
      (g := fun u => { u with purpose := .continuous { k with mode := .draining } })
      (fun _ => ⟨rfl, rfl, rfl⟩)
      ⟨h.sub.opened, h.sub.reads, h.sub.alarms, ⟨_, rfl, hplan, Mode.noConfusion⟩, h.sub.heeds⟩
    refine ⟨{ s with purpose := .continuous { k with mode := .draining } }, ?_⟩
    dsimp only
    refine callBehind ?_ rfl
    rw [Exchange.core_note, Exchange.core_modifySub]
    exact hdrains

/-! ## The clock -/

/-- The clock goes on from rest to an instant at which some task looks again. -/
theorem ring {st : ConsumeOptions.Settings} (hb : st.build = .ok o) (hfit : o.Fits)
    (h : Tended o seen x.core l s) (hr : x.Rests) {now : Nat} (hle : x.now ≤ now)
    (hrings : ∀ t, x.Rings t → now ≤ t) : Tended o seen (x.ring now).core l s := by
  have hc : (x.ring now).core = { x.core with now := now } := Exchange.core_wakeAll _ _
  have hstill : ∀ t : Task, t.isLasting = true → (x.stepOf t).1.core = x.core :=
    fun t ht => congrArg Prod.fst (hr t ht)
  have hfeeds := h.frames_of_rest hb hfit (hstill (.worker 0) rfl)
  obtain ⟨hag, hcmd⟩ := h.serving.idle_of_rest hfeeds (hstill .broker rfl)
  rw [hc]
  refine ⟨h.serving.later hcmd hle, h.subs,
    ⟨h.sub.opened, h.sub.reads, h.sub.alarms, h.sub.purpose, ?_⟩, h.callers⟩
  refine h.sub.heeds.later fun harm d hd => ?_
  obtain ⟨t, ht, hdue⟩ := h.serving.deadline_of_demand hag hcmd hfeeds h.subAt
    (h.sub.heeds.coherent.armed harm).1 hd
  exact Nat.le_trans (hrings t (.broker l h.serving.keeps.transport ht)) hdue

end Tended

/-! ## The consumer is opened -/

/-- There is no subscription yet, and nobody calls; the broker would serve the first one. -/
structure Unopened (o : ConsumeOptions) (seen : Nat) (c : Core) (l : Loopback) : Prop where
  serving : Serving o.beat? seen c l
  subs : c.subs = #[]
  callers : c.callers = []

namespace Unopened

variable {o : ConsumeOptions} {st : ConsumeOptions.Settings} {seen : Nat} {c c' : Core}
  {l l' : Loopback} {x : Exchange}

theorem feeds (h : Unopened o seen c l) (i : Nat) (f : Feed) : c.feeds[i]? ≠ some f := by
  intro hf
  have hlt := (Array.getElem?_eq_some_iff.1 hf).1
  have hsizes := h.serving.keeps.sizes
  rw [h.subs] at hsizes
  have hnone : c.feeds.size = 0 := hsizes
  omega

/-- The broker goes on. -/
theorem carry (h : Unopened o seen c l) (fs : Array Feed)
    (hc : c' = { c with transport := .loopback l', feeds := fs })
    (hs : Serving o.beat? seen c' l') : Unopened o seen c' l' := by
  subst hc
  exact ⟨hs, h.subs, h.callers⟩

/-- The clock goes on from rest. -/
theorem ring (h : Unopened o seen x.core l) (hr : x.Rests) {now : Nat} (hle : x.now ≤ now) :
    Unopened o seen (x.ring now).core l := by
  have hc : (x.ring now).core = { x.core with now := now } := Exchange.core_wakeAll _ _
  obtain ⟨_, hcmd⟩ := h.serving.idle_of_rest (fun i f hf => (h.feeds i f hf).elim)
    (congrArg Prod.fst (hr .broker rfl))
  rw [hc]
  exact ⟨h.serving.later hcmd hle, h.subs, h.callers⟩

/-- The consumer opens its subscription and sends its first request. -/
theorem openContinuous (hb : st.build = .ok o) (hfit : o.Fits) (h : Unopened o seen x.core l)
    (hd : Handler) : ∃ l' s, Tended o x.now (x.openContinuous o hd).1.core l' s := by
  let p : Purpose := .continuous (.start o hd)
  let u : Subscription :=
    .start (inboxName l.nextInbox) x.core.feeds.size x.core.now x.core.queueCapacity p
  have hgo : (RefillPlan.ofOptions o).next? .none = some o.initial := rfl
  have hasks : o.Asks o.initial := ConsumeOptions.asks_next hb hfit hgo
  obtain ⟨t, ht⟩ : ∃ t, u.tracker.issue x.core.now o.initial = some t :=
    Option.ne_none_iff_exists'.1 fun hn => Accounts.issue_eq_none_iff.1 hn hasks.goesOut
  obtain ⟨y, z, hy, hz, hc⟩ :=
    Exchange.core_openWith h.serving.keeps.transport h.serving.keeps.alive p ht
  have hcalled : (x.openContinuous o hd).1.core = z.core := by
    unfold Exchange.openContinuous
    rw [Exchange.openWith_eq hy hz]
    rfl
  have hsize : x.core.subs.size = 0 := by
    rw [h.subs]
    rfl
  have hopened := h.serving.opened hsize l.broker.limits.frameCapacity x.core.queueCapacity p
  have hsub : (Accounts.opened x.core l l.broker.limits.frameCapacity x.core.queueCapacity
      p).subs[x.core.subs.size]? = some u := Array.getElem?_push_size
  have hinbox : u.inbox = inboxName 1 := by
    have hname := (hopened.keeps.subs _ u hsub).2
    rwa [hsize] at hname
  have hissued := hopened.issued (r := o.initial) hinbox hsub hasks.fits rfl hasks.wire
    (Tracker.demand_issue ht)
  unfold Accounts.opened at hissued
  dsimp only at hissued
  rw [Exchange.modify_push_size] at hissued
  refine ⟨{ Accounts.registered l with
    commands := (Accounts.registered l).commands.push (.pull u.inbox o.initial.onWire) },
    { u with tracker := t }, ?_⟩
  rw [hcalled, hc]
  exact ⟨hissued, by rw [h.subs]; rfl,
    ⟨rfl, rfl, rfl, ⟨.start o hd, rfl, rfl, Mode.noConfusion⟩,
      (Tracker.heeds_start o.beat? x.core.now x.core.now).issue hasks.heartbeat ht⟩,
    fun k hk => absurd (h.callers ▸ hk) List.not_mem_nil⟩

end Unopened

end DemandFlow
