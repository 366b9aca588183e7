import DemandFlow.Proofs.Drain.Life
import DemandFlow.Proofs.Wake.Callers

/-
  A consumer that is leaving. While a drain waits, its consumer asks for nothing more, and nobody
  takes its subscription from it without telling the transport (`Parting`). When the drain is over
  the consumer is closed, the subscription is shut down and the transport is told (`Parted`). What
  can happen in a run keeps the one as long as the drain waits, and the other for good.
-/

namespace DemandFlow.Exchange

open Broker (inboxName)

variable {front : Option Task} {x y : Exchange} {ps : List (String × PullRequest)} {i id : Nat}
  {inbox : String} {b : Bool}

/-! ## What a move does to one subscription -/

/-- A continuous consumer goes its way with a move: its mode does not go back, and what is settled
stays settled. -/
theorem sub_follow (h : Tame false x) (m : Move) {s : Subscription} {c : Continuous}
    (hs : x.subs[i]? = some s) (hp : s.purpose = .continuous c) :
    ∃ u d, (x.follow m).subs[i]? = some u ∧ u.purpose = .continuous d ∧ c.mode.Leads d.mode ∧
      u.inbox = s.inbox ∧ (s.IsSettled → u.IsSettled) := by
  have hsince := since_follow (Since.refl h) m fun hc => by cases hc
  obtain ⟨f, _, hL⟩ := h.lane_of_sub hs
  obtain ⟨L, hL', hrun⟩ := hsince.run_of_lane hL
  obtain ⟨d, hd, hleads⟩ := (Lane.respects_run hp hrun).leads
  refine ⟨L.sub, d, (lane_eq_some.1 hL').1, hd, hleads, hrun.sameNames.inbox, fun hsettled => ?_⟩
  exact hrun.keeps (P := fun L => L.sub.IsSettled) (fun _ _ _ step => step.settled) hsettled

/-- An inbox that is registered next is none of those that are there. -/
theorem nextInbox_ne (h : Tame false x) {s : Subscription} (hs : x.subs[i]? = some s)
    {l : Loopback} (hl : x.transport = .loopback l) (ha : l.alive = true) :
    inboxName l.nextInbox ≠ s.inbox := by
  obtain ⟨hlt, _⟩ := Array.getElem?_eq_some_iff.1 hs
  have ht := h.transport
  have hinbox := (h.subs i s hs).2
  rw [hl] at ht hinbox
  intro he
  have hn := Broker.inboxName_injective (he.trans hinbox)
  rw [ht.1 ha] at hn
  omega

/-! ## While a drain waits -/

/-- Its consumer is no longer active, and whoever has claimed its subscription has told the
transport. -/
def Parting (i : Nat) (inbox : String) (x : Exchange) : Prop :=
  ∃ s c, x.subs[i]? = some s ∧ s.purpose = .continuous c ∧ c.mode ≠ .active ∧ s.inbox = inbox ∧
    (s.claimed = true → x.transport.Released inbox)

/-- A caller that drains uses its subscription. -/
theorem isUsed_of_caller {a : Activity} (hc : x.callerOf? id = some ⟨id, a⟩)
    (ha : a.sub? = some i) : x.isUsed i = true :=
  List.any_eq_true.2 ⟨⟨id, a⟩, mem_of_callerOf? hc, decide_eq_true ha⟩

/-- Nobody else's move takes the subscription of a drain that waits. -/
theorem parting_follow (h : Steady x) {m : Move} (hown : m ≠ .turn (.caller id)) {due : Nat}
    (hc : x.callerOf? id = some ⟨id, .drain i due⟩) (hx : Parting i inbox x) :
    Parting i inbox (x.follow m) := by
  obtain ⟨s, c, hs, hp, hmode, rfl, hclaimed⟩ := hx
  obtain ⟨u, d, hu, hd, hleads, hinbox, _⟩ := sub_follow h.tame m hs hp
  refine ⟨u, d, hu, hd, hleads.not_active hmode, hinbox, fun hcl => ?_⟩
  by_cases hclock : ∃ now, m = .clock now
  · obtain ⟨now, rfl⟩ := hclock
    rw [follow_clock, subs_ring, hs] at hu
    cases hu
    rw [follow_clock, transport_ring]
    exact hclaimed hcl
  obtain ⟨front, ps, y, hw, hy, hcaller⟩ := works_follow x fun now he => hclock ⟨now, he⟩
  have hfront : front ≠ some (.caller id) := fun he => hown (hcaller id he).1
  rw [hy] at hu ⊢
  refine hw.claims hs (fun l hl ha => nextInbox_ne h.tame hs hl ha) (fun {z qs} hz => ?_) hclaimed
    hu hcl
  obtain ⟨_, hsits, _⟩ := h.works hz fun id hid => (hcaller id hid).2
  have hlt : id < x.nextCaller := h.seated.callers _ (mem_of_callerOf? hc)
  exact isUsed_of_caller ((hsits.caller id hlt hfront).trans hc) rfl

/-! ## When a drain is over -/

/-- Its consumer is closed, its subscription is shut down, the transport is told, and if nothing
was outstanding nothing is. -/
def Parted (i : Nat) (inbox : String) (b : Bool) (x : Exchange) : Prop :=
  ∃ s c, x.subs[i]? = some s ∧ s.purpose = .continuous c ∧ c.mode = .closed ∧ s.closed = true ∧
    s.inbox = inbox ∧ x.transport.Released inbox ∧ (b = true → s.tracker.isExhausted = true)

/-- What is over stays over. -/
theorem parted_follow (h : Steady x) {m : Move} (hx : Parted i inbox b x) :
    Parted i inbox b (x.follow m) := by
  obtain ⟨s, c, hs, hp, hmode, hclosed, rfl, hreleased, hb⟩ := hx
  obtain ⟨u, d, hu, hd, hleads, hinbox, hsettled⟩ := sub_follow h.tame m hs hp
  have hboth : u.closed = true ∧ (x.follow m).transport.Released s.inbox := by
    by_cases hclock : ∃ now, m = .clock now
    · obtain ⟨now, rfl⟩ := hclock
      rw [follow_clock, subs_ring, hs] at hu
      cases hu
      rw [follow_clock, transport_ring]
      exact ⟨hclosed, hreleased⟩
    · obtain ⟨front, ps, y, hw, hy, _⟩ := works_follow x fun now he => hclock ⟨now, he⟩
      rw [hy] at hu ⊢
      exact ⟨hw.stays_closed hs hclosed hu,
        hw.stays_released (fun l hl ha => nextInbox_ne h.tame hs hl ha) hreleased⟩
  exact ⟨u, d, hu, hd, hleads.closed hmode, hboth.1, hinbox, hboth.2,
    fun he => (hsettled ⟨hb he, Or.inl hclosed⟩).1⟩

/-! ## The turn of a drain -/

/-- A drain that goes on has found its demand exhausted or its time over, and closes. -/
theorem drainStep_of_true {due : Nat} (h : (x.drainStep id i due).2 = true) :
    ∃ (s : Subscription) (y : Exchange) (b : Bool), x.subs[i]? = some s ∧ Beside x y ∧
      (x.drainStep id i due).1 = y.stopWith id i (.flag b) ∧
      (b = true → s.tracker.isExhausted = true) ∧ (b = false → wholeMillis due ≤ x.now) := by
  unfold drainStep at h ⊢
  cases hs : x.subs[i]? with
  | none =>
    rw [hs] at h
    cases h
  | some s =>
    rw [hs] at h
    dsimp only at h ⊢
    by_cases he : s.tracker.isExhausted = true
    · exact ⟨s, x, true, rfl, beside_refl x, by rw [if_pos he], fun _ => he, nofun⟩
    · rw [if_neg he] at h ⊢
      by_cases hd : wholeMillis due ≤ x.now
      · exact ⟨s, _, false, rfl, beside_note x _, by rw [if_pos hd], nofun, fun _ => hd⟩
      · rw [if_neg hd] at h
        cases h

theorem stays_stop (x : Exchange) (i : Nat) : Stays x ((x.closeContinuous i).unsubscribe i) :=
  (stays_modifySub x i _).trans (stays_unsubscribe _ i)

/-- Who closes a consumer and leaves has parted from it. -/
theorem parted_stopWith (hx : Parting i inbox x)
    (hb : b = true → ∀ s : Subscription, x.subs[i]? = some s → s.tracker.isExhausted = true)
    (a : Answer) : Parted i inbox b (x.stopWith id i a) := by
  obtain ⟨s, c, hs, hp, _, rfl, hclaimed⟩ := hx
  have hclose : (x.closeContinuous i).subs[i]? =
      some { s with purpose := .continuous c.close } := by
    show (x.subs.modify i _)[i]? = _
    rw [Array.getElem?_modify, if_pos rfl, hs, Option.map_some, hp]
  have hleft : ((x.closeContinuous i).unsubscribe i).subs[i]? =
      some ({ s with purpose := .continuous c.close } : Subscription).left := by
    rw [subs_unsubscribe, Array.getElem?_modify, if_pos rfl, hclose]
    rfl
  have hstop : (x.stopWith id i a).subs[i]? =
      some ({ s with purpose := .continuous c.close } : Subscription).left := by
    unfold stopWith
    rw [subs_setActivity]
    exact hleft
  refine ⟨_, c.close, hstop, rfl, rfl, rfl, rfl, ?_, fun he => hb he s hs⟩
  unfold stopWith
  rw [transport_setActivity]
  rcases unsubscribe_of hclose with ⟨hcl, he⟩ | ⟨_, z, e, _, he⟩
  · rw [he, transport_close]
    exact hclaimed hcl
  · rw [he]
    exact released_release z s.inbox

end DemandFlow.Exchange
