import DemandFlow.Proofs.Accounts.Steps
import DemandFlow.Proofs.Exchange.Works
import DemandFlow.Proofs.Lane.Calls

/-
  Every step of a task, and every move, is one of `Works`: an owner opens, drives and drops what
  it has, a worker takes in a frame and asks for more, a caller gets further, the broker works.
-/

namespace DemandFlow.Exchange

open Broker (Command)

variable {front : Option Task} {x₀ x y : Exchange} {ps : List (String × PullRequest)}

namespace Works

theorem farewell (h : Works front x₀ ps x) (i : Nat) : Works front x₀ ps (x.farewell i) := by
  unfold Exchange.farewell
  split
  · exact h
  · exact (h.released _).note _

/-- What the owner, the readers and the handler of a subscription do to it. -/
theorem tend (h : Works front x₀ ps x) (i : Nat) {g : Subscription → Subscription}
    (hg : ∀ s : Subscription, s.Eases (g s)) (hw : ∀ s, (g s).worker = s.worker) :
    Works front x₀ ps (x.modifySub i g) :=
  h.eased i g hg (Or.inl hw)

theorem sawMonitor (h : Works front x₀ ps x) (i : Nat) : Works front x₀ ps (x.sawMonitor i) := by
  refine h.tend i (fun s => ⟨rfl, rfl, ?_, rfl, rfl, rfl, id⟩) fun _ => rfl
  unfold Monitor.seen
  split <;> rfl

theorem alarmStep (h : Works front x₀ ps x) (i : Nat) : Works front x₀ ps (x.alarmStep i).1 := by
  unfold Exchange.alarmStep
  split
  · exact h
  · split
    · split
      · exact (h.note _).unwatched i
      · exact (h.sawMonitor i).roused _ fun _ => Task.noConfusion
      · exact (h.sawMonitor i).rested _ _ fun _ => Task.noConfusion
      · dsimp only
        refine .woken ?_ _
        exact ((h.sawMonitor i).note _).tend i (fun _ => ⟨rfl, rfl, rfl, rfl, rfl, rfl, id⟩)
          fun _ => rfl
      · exact h.unwatched i
    · exact h

/-! ## The worker -/

/-- The worker holds something, in a step of its own. -/
theorem hold (h : Works (some (.worker i)) x₀ ps x) (d : Delivery) :
    Works (some (.worker i)) x₀ ps (x.hold i d) :=
  h.eased i _ (fun _ => ⟨rfl, rfl, rfl, rfl, rfl, rfl, nofun⟩) (Or.inr rfl)

theorem account (h : Works front x₀ ps x) {i : Nat} {s : Subscription} (hs : x.subs[i]? = some s)
    (f : Frame) : Works front x₀ ps (x.account i s f) := by
  have ht := h.retracked hs (t := s.tracker.account x.now f)
    (Tracker.monitor_account x.now f s.tracker).1
  unfold Exchange.account
  exact (ht.aside (beside_noteAccount _ _ _)).aside (beside_countFrame _ _)

theorem refill (h : Works front x₀ ps x) (i : Nat) (c : Continuous) :
    ∃ qs, (qs = [] ∨ ∃ s r, x.subs[i]? = some s ∧ c.refill? s.demand = some r ∧
        qs = [(s.inbox, r)]) ∧
      Works front x₀ (ps ++ qs) (x.refill i c) := by
  rcases refill_cases x i c with ⟨he, _⟩ | ⟨s, r, hs, hr, hcase⟩
  · refine ⟨[], Or.inl rfl, ?_⟩
    rw [he, List.append_nil]
    exact h
  · obtain ⟨qs, hq, hp⟩ := (h.note (Journal.refilling s.inbox r)).pull i r
    refine ⟨qs, hq.imp_right ?_, ?_⟩
    · rintro ⟨u, hu, _, rfl⟩
      cases hs.symm.trans hu
      exact ⟨s, r, hs, hr, rfl⟩
    · rcases hcase with he | ⟨e, he⟩
      · exact he ▸ hp
      · exact he ▸ hp.note e

theorem handle (h : Works front x₀ ps x) (i : Nat) (inbox : String) (c : Continuous)
    (m : Message) : Works front x₀ ps (x.handle i inbox c m) := by
  have hkept : Works front x₀ ps (x.kept i c m) :=
    (h.tend i (g := fun s => { s with purpose := .continuous { c with handled := c.handled + 1 } })
      (fun _ => ⟨rfl, rfl, rfl, rfl, rfl, rfl, id⟩) fun _ => rfl).aside
        ⟨rfl, rfl, rfl, rfl, rfl, rfl, rfl, rfl, rfl⟩
  rcases handle_cases x i inbox c m with ⟨_, e, he⟩ | ⟨_, he | ⟨n, he⟩⟩
  · exact he ▸ h.note e
  · exact he ▸ hkept
  · exact he ▸ hkept.publish n

/-- What a worker hands to the transport with a frame is the request that follows on it. -/
def Answers (s : Subscription) (f : Frame) (qs : List (String × PullRequest)) : Prop :=
  qs = [] ∨ ∃ r, s.asks f = some r ∧ qs = [(s.inbox, r)]

theorem managed (h : Works front x₀ ps x) {i : Nat} {s : Subscription} {f : Frame}
    {rest : Fifo Frame} (ht : Takes x i s f rest) :
    Works front x₀ ps (x.managed i s f rest) := by
  have hsub : (x.popped s.feed rest).subs[i]? = some s :=
    (congrArg (fun c : Core => c.subs[i]?) (core_popped x s.feed rest)).trans ht.sub
  exact (h.popped s.feed rest).account hsub f

theorem handleMessage (h : Works front x₀ ps x) {i : Nat} {s : Subscription} {m : Message}
    {rest : Fifo Frame} (ht : Takes x i s (.message m) rest) {c : Continuous}
    (hp : s.purpose = .continuous c) :
    ∃ qs, Answers s (.message m) qs ∧ Works front x₀ (ps ++ qs)
      ((x.managed i s (.message m) rest).handleMessage i s.inbox c m).1 := by
  have hm := h.managed ht
  unfold Exchange.handleMessage
  split
  · exact ⟨[], Or.inl rfl, (List.append_nil ps).symm ▸ hm.ended i⟩
  all_goals
    obtain ⟨qs, hq, hw⟩ := (hm.handle i s.inbox c m).refill i c
    refine ⟨qs, hq.imp_right ?_, hw⟩
    rintro ⟨u, r, hu, hr, rfl⟩
    obtain ⟨v, d, hv, hinbox, _, _, hd, _⟩ := sub_handle ht hp
    cases hu.symm.trans hv
    refine ⟨r, ?_, by rw [hinbox]⟩
    unfold Subscription.asks
    rw [hp]
    rw [hd] at hr
    exact hr

theorem handleTerminus (h : Works front x₀ ps x) {i : Nat} {s : Subscription} {f : Frame}
    {rest : Fifo Frame} (ht : Takes x i s f rest) {st : Status}
    (hk : Intake.ofFrame f = .terminus st) {c : Continuous} (hp : s.purpose = .continuous c) :
    ∃ qs, Answers s f qs ∧ Works front x₀ (ps ++ qs)
      ((x.managed i s f rest).handleTerminus i s.inbox c st) := by
  have hm := h.managed ht
  unfold Exchange.handleTerminus
  split
  · exact ⟨[], Or.inl rfl, (List.append_nil ps).symm ▸ hm.notify _⟩
  · rename_i hl
    obtain ⟨qs, hq, hw⟩ := (hm.note (Journal.batchEnded s.inbox st)).refill i c
    refine ⟨qs, hq.imp_right ?_, hw⟩
    rintro ⟨u, r, hu, hr, rfl⟩
    have hafter : s.after f = .reading := by
      unfold Subscription.after
      rw [hp]
    have hsub : ((x.managed i s f rest).note (Journal.batchEnded s.inbox st)).subs[i]? =
        some (s.takes x.now f) := sub_managed_reading ht hafter
    cases hsub.symm.trans hu
    refine ⟨r, ?_, rfl⟩
    have hreacts : f.reacts = true := by
      unfold Frame.reacts
      rw [hk]
      dsimp only
      simp [hl]
    have hdemand : (s.takes x.now f).demand = s.demand.take f :=
      Demand.demand_account x.now f s.tracker
    unfold Subscription.asks
    rw [hp, ← hdemand]
    exact (if_pos hreacts).trans hr

theorem takeFrame {i : Nat} (h : Works (some (.worker i)) x₀ ps x) {s : Subscription} {f : Frame}
    {rest : Fifo Frame} (ht : Takes x i s f rest) :
    ∃ qs, Answers s f qs ∧ Works (some (.worker i)) x₀ (ps ++ qs)
      ((x.popped s.feed rest).takeFrame i s f).1 := by
  have hm := h.managed ht
  have hnone : ∀ {z : Exchange}, Works (some (.worker i)) x₀ ps z →
      ∃ qs, Answers s f qs ∧ Works (some (.worker i)) x₀ (ps ++ qs) z :=
    fun hz => ⟨[], Or.inl rfl, (List.append_nil ps).symm ▸ hz⟩
  unfold Exchange.takeFrame
  dsimp only
  rw [show (x.popped s.feed rest).account i s f = x.managed i s f rest from rfl]
  cases hk : Intake.ofFrame f with
  | heartbeat => exact hnone hm
  | warning st =>
    dsimp only
    exact hnone (hm.notify _)
  | message m =>
    obtain rfl := Intake.ofFrame_eq_message_iff.1 hk
    cases hp : s.purpose with
    | continuous c => exact h.handleMessage ht hp
    | manual | fetch g due => exact hnone (hm.hold _)
  | terminus st =>
    cases hp : s.purpose with
    | continuous c => exact h.handleTerminus ht hk hp
    | manual | fetch g due => exact hnone (hm.hold _)
  | error st =>
    have hn := (hm.note (Journal.fatalStatus s.inbox st)).notify (.error s.inbox st)
    cases hp : s.purpose with
    | continuous c =>
      dsimp only
      exact hnone hn
    | manual | fetch g due =>
      dsimp only
      exact hnone (hn.hold _)

theorem takeAlarm {i : Nat} (h : Works (some (.worker i)) x₀ ps x) (s : Subscription) (d : Span) :
    Works (some (.worker i)) x₀ ps (x.takeAlarm i s d) := by
  have hc : Works (some (.worker i)) x₀ ps (x.count Counters.addAlarm) :=
    h.aside ⟨rfl, rfl, rfl, rfl, rfl, rfl, rfl, rfl, rfl⟩
  have hn := hc.notify (.alarm s.inbox d)
  unfold Exchange.takeAlarm
  dsimp only
  split
  · exact hn
  · exact hn.hold _

theorem holdStep {i : Nat} (h : Works (some (.worker i)) x₀ ps x) (s : Subscription)
    (d : Delivery) : Works (some (.worker i)) x₀ ps (x.holdStep i s d).1 := by
  unfold Exchange.holdStep
  split
  · refine wakeAll ?_ _
    exact h.eased i _ (fun _ => ⟨rfl, rfl, rfl, rfl, rfl, rfl, nofun⟩) (Or.inr rfl)
  · exact h

/-- The worker reads. -/
theorem readStep {i : Nat} (h : Works (some (.worker i)) x₀ ps x) {s : Subscription}
    (hs : x.subs[i]? = some s) (ho : s.closed = false) (hw : s.worker = .reading) :
    ∃ qs, (qs = [] ∨ ∃ r, .pulled r ∈ x.readDeeds s ∧ qs = [(s.inbox, r)]) ∧
      Works (some (.worker i)) x₀ (ps ++ qs) (x.readStep i s).1 := by
  have hnone : ∀ {z : Exchange}, Works (some (.worker i)) x₀ ps z →
      ∃ qs, (qs = [] ∨ ∃ r, .pulled r ∈ x.readDeeds s ∧ qs = [(s.inbox, r)]) ∧
        Works (some (.worker i)) x₀ (ps ++ qs) z :=
    fun hz => ⟨[], Or.inl rfl, (List.append_nil ps).symm ▸ hz⟩
  unfold Exchange.readStep
  cases hf : x.feeds[s.feed]? with
  | none => exact hnone h
  | some feed =>
    dsimp only
    cases hp : feed.frames.pop? with
    | some q =>
      obtain ⟨qs, hq, hy⟩ := h.takeFrame (f := q.1) ⟨hs, ho, hw, feed, hf, hp⟩
      refine ⟨qs, hq.imp_right ?_, hy⟩
      rintro ⟨r, hr, rfl⟩
      refine ⟨r, ?_, rfl⟩
      unfold readDeeds
      rw [hf, Option.map_some, hp]
      dsimp only
      unfold Subscription.frameDeeds
      rw [hr]
      exact List.mem_append_right _ List.mem_cons_self
    | none =>
      dsimp only
      split
      · split
        · exact hnone h
        · rename_i d rest _
          refine hnone (takeAlarm ?_ s d)
          exact h.tend i (fun _ => ⟨rfl, rfl, rfl, rfl, rfl, rfl, id⟩) fun _ => rfl
      · exact hnone ((h.note _).ended i)

/-- What a worker hands to the transport in its turn is what becomes known of it. -/
theorem workerStep (x : Exchange) (i : Nat) :
    ∃ qs, (qs = [] ∨ ∃ s r, x.subs[i]? = some s ∧ .pulled r ∈ x.workerDeeds i ∧
        qs = [(s.inbox, r)]) ∧
      Works (some (.worker i)) x qs (x.workerStep i).1 := by
  have h : Works (some (.worker i)) x [] x := .refl
  unfold Exchange.workerStep workerDeeds
  cases hs : x.subs[i]? with
  | none => exact ⟨[], Or.inl rfl, h⟩
  | some s =>
    dsimp only
    cases hc : s.closed with
    | true =>
      rw [if_neg (by simp)]
      split
      · exact ⟨[], Or.inl rfl, h⟩
      · exact ⟨[], Or.inl rfl, h.ended i⟩
      · exact ⟨[], Or.inl rfl, h.ended i⟩
    | false =>
      cases hw : s.worker with
      | ended => exact ⟨[], Or.inl rfl, h⟩
      | holding d => exact ⟨[], Or.inl rfl, h.holdStep s d⟩
      | reading =>
        rw [if_pos ⟨rfl, rfl⟩]
        obtain ⟨qs, hq, hy⟩ := h.readStep hs hc hw
        refine ⟨qs, hq.imp_right ?_, hy⟩
        rintro ⟨r, hr, rfl⟩
        exact ⟨s, r, rfl, hr, rfl⟩

/-! ## Callers -/

theorem leaveLine (h : Works front x₀ ps x) (id i : Nat) :
    Works front x₀ ps (x.leaveLine id i) := by
  unfold Exchange.leaveLine
  split
  · exact h
  · refine wakeAll ?_ _
    exact h.tend i (fun _ => ⟨rfl, rfl, rfl, rfl, rfl, rfl, fun hw => hw⟩) fun _ => rfl

theorem joinLine (h : Works front x₀ ps x) (id i : Nat) : Works front x₀ ps (x.joinLine id i) :=
  h.tend i (fun _ => ⟨rfl, rfl, rfl, rfl, rfl, rfl, fun hw => hw⟩) fun _ => rfl

theorem look (h : Works front x₀ ps x) (id i : Nat) (s : Subscription) (due : Option Nat) :
    Works front x₀ ps (x.look id i s due).1 := by
  rcases look_cases x id i s due with ⟨d, rest, _, he⟩ | ⟨l, _, he⟩ | he
  · rw [he]
    refine leaveLine (.woken ?_ _) id i
    exact h.tend i (fun _ => ⟨rfl, rfl, rfl, rfl, rfl, rfl, fun hw => hw⟩) fun _ => rfl
  · rw [he]
    exact h.leaveLine id i
  · rw [he]
    exact h

/-- A caller that drains nothing waits. -/
theorem waitUntil (h : Works front x₀ ps x) {c : Caller} (hc : x.callerOf? c.id = some c)
    (hd : ∀ i d, c.activity ≠ .drain i d) (due : Option Nat) :
    Works front x₀ ps (x.waitUntil c.id due) := by
  cases due with
  | none => exact h
  | some due => exact h.waited due hc fun i d hi => absurd hi (hd i d)

end Works

theorem callerOf?_look {c : Caller} (hc : x.callerOf? c.id = some c) (id i : Nat)
    (s : Subscription) (due : Option Nat) :
    (x.look id i s due).1.callerOf? c.id = some c := by
  unfold callerOf? at hc ⊢
  rw [skips_callers.look]
  exact hc

namespace Works

section Step

variable {c : Caller}

theorem readStepOf (h : Works (some (.caller c.id)) x₀ ps x) (hc : x.callerOf? c.id = some c)
    (hd : ∀ i d, c.activity ≠ .drain i d) (i : Nat) (due : Option Nat) :
    Works (some (.caller c.id)) x₀ ps (x.readStepOf c.id i due).1 := by
  unfold Exchange.readStepOf
  split
  · exact h.finished c.id _ (Or.inl rfl)
  · rename_i s _
    have hl := h.look c.id i s due
    have hlook := callerOf?_look hc c.id i s due
    dsimp only
    split
    · exact hl.finished c.id _ (Or.inl rfl)
    · exact hl.waitUntil hlook hd due

theorem readAllStep (h : Works (some (.caller c.id)) x₀ ps x) (hc : x.callerOf? c.id = some c)
    (hd : ∀ i d, c.activity ≠ .drain i d) (i : Nat) (timeout : Span) (due : Option Nat)
    (got : List Message) :
    Works (some (.caller c.id)) x₀ ps (x.readAllStep c.id i timeout due got).1 := by
  unfold Exchange.readAllStep
  split
  · exact h.finished c.id _ (Or.inl rfl)
  · rename_i s _
    have hl := h.look c.id i s due
    have hlook := callerOf?_look hc c.id i s due
    dsimp only
    split
    · exact (hl.turned rfl _).joinLine c.id i
    · exact hl.finished c.id _ (Or.inl rfl)
    · exact hl.waitUntil hlook hd due

theorem endFetch (h : Works (some (.caller c.id)) x₀ ps x) (i : Nat) (f : Fetch) (due : Nat)
    (reason : String) (answer : Answer) :
    Works (some (.caller c.id)) x₀ ps (x.endFetch c.id i f due reason answer) := by
  unfold Exchange.endFetch
  refine turned (.left (.note ?_ _) i) rfl _
  exact h.tend i (fun _ => ⟨rfl, rfl, rfl, rfl, rfl, rfl, fun hw => hw⟩) fun _ => rfl

theorem gotMessage (h : Works (some (.caller c.id)) x₀ ps x) (i : Nat) (mode : FetchMode)
    (m : Message) : Works (some (.caller c.id)) x₀ ps (x.gotMessage c.id i mode m).1 := by
  cases mode with
  | one => exact h.finished c.id _ (Or.inl rfl)
  | batch got => exact (h.turned rfl _).joinLine c.id i
  | stream items => exact (h.turned rfl _).joinLine c.id i

theorem fetchStep (h : Works (some (.caller c.id)) x₀ ps x) (hc : x.callerOf? c.id = some c)
    (hd : ∀ i d, c.activity ≠ .drain i d) (i : Nat) (mode : FetchMode) :
    Works (some (.caller c.id)) x₀ ps (x.fetchStep c.id i mode).1 := by
  unfold Exchange.fetchStep
  split
  · exact h.finished c.id _ (Or.inl rfl)
  · rename_i s _
    split
    · rename_i f due _
      split
      · exact (h.leaveLine c.id i).finished c.id _ (Or.inl rfl)
      · split
        · exact (h.leaveLine c.id i).endFetch i f due _ _
        · have hl := h.look c.id i s (some due)
          have hlook := callerOf?_look hc c.id i s (some due)
          split
          · rename_i hy
            rw [hy] at hl hlook
            exact hl.waitUntil hlook hd (some due)
          · rename_i hy
            rw [hy] at hl
            exact hl.endFetch i f due _ _
          · rename_i hy
            rw [hy] at hl
            split
            · refine gotMessage ?_ i mode _
              exact hl.tend i (fun _ => ⟨rfl, rfl, rfl, rfl, rfl, rfl, fun hw => hw⟩)
                fun _ => rfl
            · exact hl.endFetch i f due _ _
            · exact hl
    · exact h.finished c.id _ (Or.inl rfl)

theorem closeContinuous (h : Works front x₀ ps x) (i : Nat) :
    Works front x₀ ps (x.closeContinuous i) := by
  refine h.tend i (fun s => ?_) fun s => ?_
  · split <;> exact ⟨rfl, rfl, rfl, rfl, rfl, rfl, id⟩
  · split <;> rfl

theorem stopWith (h : Works (some (.caller c.id)) x₀ ps x) (i : Nat) (answer : Answer) :
    Works (some (.caller c.id)) x₀ ps (x.stopWith c.id i answer) :=
  turned (.left (h.closeContinuous i) i) rfl _

theorem drainStep (h : Works (some (.caller c.id)) x₀ ps x) (hc : x.callerOf? c.id = some c)
    {i due : Nat} (ha : c.activity = .drain i due) :
    Works (some (.caller c.id)) x₀ ps (x.drainStep c.id i due).1 := by
  unfold Exchange.drainStep
  split
  · exact h.finished c.id _ (Or.inl rfl)
  · split
    · exact h.stopWith i _
    · split
      · exact (h.note _).stopWith i _
      · refine h.waited due hc fun j d hj => ?_
        cases ha.symm.trans hj
        rfl

theorem leaveStep {id : Nat} (h : Works (some (.caller id)) x₀ ps x) (i : Nat)
    (answer : Answer) : Works (some (.caller id)) x₀ ps (x.leaveStep id i answer).1 := by
  unfold Exchange.leaveStep
  split
  · exact h.finished id _ (Or.inl rfl)
  · split
    · exact h.finished id _ (Or.inl rfl)
    · exact h

end Step

theorem callerStep (x : Exchange) (id : Nat) :
    Works (some (.caller id)) x [] (x.callerStep id).1 := by
  have h : Works (some (.caller id)) x [] x := .refl
  unfold Exchange.callerStep
  cases hf : x.callers.find? fun c => c.id = id with
  | none => exact h
  | some c =>
    obtain rfl : c.id = id := by simpa using List.find?_some hf
    have hc : x.callerOf? c.id = some c := hf
    dsimp only
    cases ha : c.activity with
    | sleep due =>
      dsimp only
      split
      · exact h.finished c.id _ (Or.inl rfl)
      · exact h.waited due hc fun i d hi => by rw [ha] at hi; cases hi
    | read i due => exact h.readStepOf hc (fun j d hj => by rw [ha] at hj; cases hj) i due
    | readAll i timeout due got =>
      exact h.readAllStep hc (fun j d hj => by rw [ha] at hj; cases hj) i timeout due got
    | fetch i mode => exact h.fetchStep hc (fun j d hj => by rw [ha] at hj; cases hj) i mode
    | drain i due => exact h.drainStep hc ha
    | leave i answer => exact h.leaveStep i answer
    | watch i handled due =>
      dsimp only
      unfold Exchange.watchStep
      split
      · exact h.finished c.id _ (Or.inl rfl)
      · split
        · exact h.finished c.id _ (Or.inl rfl)
        · exact h.waited _ hc fun i d hi => by rw [ha] at hi; cases hi
    | ask => exact h

/-! ## The broker -/

theorem serves_broker {l : Loopback} {b : Broker.State} (hr : b.received = l.broker.received)
    (hk : ∀ inbox, b.knows inbox = true → l.broker.knows inbox = true) :
    l.Serves { l with broker := b } := ⟨rfl, hr, hk, id⟩

theorem post (h : Works (some .broker) x₀ ps x) {l : Loopback} (hl : x.transport = .loopback l)
    {b : Broker.State} {inbox : String} {f : Frame}
    (hw : l.broker.work x.now = (b, some (inbox, f))) :
    Works (some .broker) x₀ ps (x.post l b inbox f).1 := by
  have hr : b.received = l.broker.received :=
    congrArg (fun q : Broker.State × _ => q.1.received) hw ▸ l.broker.received_work x.now
  have hk : ∀ dest, b.knows dest = true → l.broker.knows dest = true := fun dest hd =>
    Accounts.knows_work x.now (by rw [hw]; exact hd)
  have hb : Works (some .broker) x₀ ps (x.setBroker l b) := h.served rfl hl (serves_broker hr hk)
  unfold Exchange.post
  split
  · split
    · exact hb
    · split
      · split
        · exact h.roused _ fun _ => Task.noConfusion
        · exact (hb.aside (beside_modifyFeed _ _ _)).wakeAll _
      · have hforgot : Works (some .broker) x₀ ps (x.setBroker l (b.forget inbox)) := by
          refine h.served rfl hl (serves_broker hr fun dest hd => ?_)
          exact hk dest (List.contains_iff_mem.2 (List.mem_filter.1 (List.contains_iff_mem.1 hd)).1)
        exact (hforgot.note _).closeFeed inbox
  · exact hb.note _

theorem takeCommand {l : Loopback} (hl : x.transport = .loopback l) {c : Command}
    {rest : Fifo Command} (hp : l.commands.pop? = some (c, rest)) :
    Works (some .broker) x [] (x.takeCommand c rest) := by
  have hasked : ∀ id, c.asker? = some id → x.IsAsked id := fun id hid => by
    refine ⟨l, hl, c, ?_, hid⟩
    rw [Fifo.toList_of_pop? hp]
    exact List.mem_cons_self
  have hn : Works (some .broker) x [] (x.noteCommand c) :=
    Works.refl.aside (beside_noteCommand x c)
  have htr : (x.noteCommand c).transport = .loopback l :=
    (beside_noteCommand x c).transport.trans hl
  have hy := hn.accepted rfl htr hp
  have he : { x.noteCommand c with transport := .loopback { l with
      commands := rest, broker := l.broker.accept (x.noteCommand c).now c } } =
        (x.noteCommand c).modifyLoopback fun l =>
          { l with commands := rest, broker := l.broker.accept (x.noteCommand c).now c } := by
    unfold modifyLoopback
    rw [htr]
  rw [he] at hy
  unfold Exchange.takeCommand commandEffect
  dsimp only
  split
  · exact hy.closeFeed _
  · exact (hy.finished _ _ (Or.inr (hasked _ rfl))).woken _
  · exact (hy.finished _ _ (Or.inr (hasked _ rfl))).woken _
  · exact hy

theorem endBroker (h : Works (some .broker) x₀ ps x) {l : Loopback}
    (hl : x.transport = .loopback l) : Works (some .broker) x₀ ps (x.endBroker l) := by
  unfold Exchange.endBroker
  dsimp only
  rw [← Array.foldl_toList]
  refine List.foldlRecOn _ _ (.note ?_ _) fun y hy f _ => hy.closeFeed f.inbox
  have hc : Works (some .broker) x₀ ps (x.clearTimer .broker) :=
    h.roused _ fun _ => Task.noConfusion
  exact hc.served rfl hl ⟨rfl, rfl, fun _ hk => hk, nofun⟩

theorem idle (h : Works (some .broker) x₀ ps x) {l : Loopback} (hl : x.transport = .loopback l) :
    Works (some .broker) x₀ ps (x.idle l).1 := by
  unfold Exchange.idle
  split
  · split
    · exact h.served rfl hl (serves_broker rfl fun _ hk => hk)
    · split
      · exact h.rested _ _ fun _ => Task.noConfusion
      · exact h.endBroker hl
  · split
    · exact h.roused _ fun _ => Task.noConfusion
    · exact h.endBroker hl

theorem brokerStep (x : Exchange) : Works (some .broker) x [] x.brokerStep.1 := by
  have h : Works (some .broker) x [] x := .refl
  unfold Exchange.brokerStep
  split
  · exact h
  · rename_i l hl
    split
    · split
      · split
        · rename_i hw
          exact h.post hl hw
        · rename_i b hw
          refine h.served rfl hl (serves_broker ?_ fun dest hd => ?_)
          · exact congrArg (fun q : Broker.State × _ => q.1.received) hw ▸
              l.broker.received_work x.now
          · exact Accounts.knows_work x.now (by rw [hw]; exact hd)
      · split
        · rename_i hp
          exact takeCommand hl hp
        · exact h.idle hl
    · exact h

end Works

end DemandFlow.Exchange
