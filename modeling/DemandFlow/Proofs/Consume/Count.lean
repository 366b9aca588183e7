import DemandFlow.Proofs.Consume.Order

/-
  How many messages are on their way in a flow. Nobody but the consumer changes the sum; a frame
  that it takes in goes off, and a request that it sends comes on. Hence the accounts of the
  consumer never say more than is on its way, and without a byte budget they say just that.
-/

namespace DemandFlow.Flow

open Broker (Command Chore WaitingPull asked held posted carried handedFrames goesOn)
open RefillPlan (Issues refillBytes)

variable {inbox : String} {o : ConsumeOptions} {a b : Flow}

theorem asked_publishes (ms : List Message) : asked inbox (ms.map Command.publish) = 0 := by
  induction ms with
  | nil => rfl
  | cons m ms ih =>
    rw [List.map_cons, Broker.asked_cons, ih]
    rfl

theorem asked_sent (r : Option PullRequest) :
    asked inbox (sent inbox r) = r.elim 0 PullRequest.batch := by
  cases r with
  | none => rfl
  | some r => exact (Nat.add_zero _).trans (if_pos rfl)

/-- What is handed out for a pull and what is left of it make up the pull. -/
theorem carried_handed {p : WaitingPull} (h : p.Fits) (hi : p.inbox = inbox) (m : Message)
    (now : Nat) :
    carried (handedFrames (p.charged m.size now) m) + held inbox (goesOn (p.charged m.size now)) =
      held inbox [p] := by
  have hin : (p.charged m.size now).inbox = inbox := hi
  rw [← Broker.posted_map inbox, ← hin, ← Broker.handed_eq_map, hin]
  exact Broker.State.posted_handed inbox h m now

theorem total_transit (h : Sane inbox o a) (hs : Transit inbox a b) :
    b.total inbox = a.total inbox := by
  unfold total flying
  cases hs with
  | publish m =>
    dsimp only
    rw [Broker.asked_append]
    rfl
  | store m rest idle next =>
    dsimp only
    rw [next, Broker.asked_cons]
    exact congrArg (· + _ + _) (Nat.zero_add _).symm
  | grant r rest now beats idle next =>
    have hr : (Command.pull inbox r).asks inbox = r.batch := if_pos rfl
    have hh : held inbox [WaitingPull.ofRequest inbox r now beats] = r.batch :=
      (Nat.add_zero _).trans (if_pos rfl)
    dsimp only
    rw [next, Broker.asked_cons, hr, Broker.held_append, hh]
    omega
  | post f rest next =>
    dsimp only
    rw [next, List.append_assoc]
    rfl
  | settle clear done => rfl
  | refuse m ms p ps clear handing message pull refuses =>
    obtain ⟨hi, hf, _⟩ := h.waiting p (by rw [pull]; exact List.mem_cons_self)
    have hw := Broker.weight_closing hf Code.conflict (Broker.State.stopText p)
    have hp : p.heldFor inbox = p.messages := if_pos hi
    dsimp only
    rw [clear, pull, Broker.held_cons, hp, Broker.carried_append, Broker.carried_append,
      Broker.carried_cons, hw]
    show _ + _ + (_ + (_ + 0)) = _ + _ + (_ + 0)
    omega
  | hand m ms p ps now clear handing message pull takes =>
    obtain ⟨hi, hf, _⟩ := h.waiting p (by rw [pull]; exact List.mem_cons_self)
    have hc := carried_handed hf hi m now
    have hp : held inbox (p :: ps) = held inbox [p] + held inbox ps :=
      Broker.held_append inbox [p] ps
    dsimp only
    rw [clear, pull, hp, Broker.held_append, Broker.carried_append, Broker.carried_append, ← hc]
    show _ + _ + (_ + _) = _ + _ + (_ + 0)
    omega
  | timers now idle =>
    have hi : ∀ p ∈ a.waiting, p.inbox = inbox := fun p hp => (h.waiting p hp).1
    have hd := Broker.State.held_due (fun p hp => (h.waiting p hp).2.1) now inbox
    rw [Broker.posts_due hi, Broker.posted_map] at hd
    dsimp only
    rw [idle.1, Broker.carried_append, Broker.carried_append, ← hd]
    show _ + _ + (_ + _) = _ + _ + (_ + 0)
    omega

theorem demand_transit (hs : Transit inbox a b) : b.demand = a.demand := by
  cases hs <;> rfl

theorem taken_transit (hs : Transit inbox a b) : b.taken = a.taken := by
  cases hs <;> rfl

/-- What the consumer takes in goes off, what it asks for comes on. -/
theorem total_manage (inbox : String) (plan : RefillPlan) {f : Frame} {rest : List Frame}
    (next : a.frames = f :: rest) (ms : List Message) :
    (a.manage inbox plan f rest ms).total inbox + f.weight =
      a.total inbox + (plan.after (a.demand.take f) f).elim 0 PullRequest.batch := by
  unfold total flying manage
  dsimp only
  rw [Broker.asked_append, Broker.asked_append, asked_publishes, asked_sent, next,
    List.cons_append, Broker.carried_cons]
  omega

theorem weight_le_total (inbox : String) {f : Frame} {rest : List Frame}
    (next : a.frames = f :: rest) : f.weight ≤ a.total inbox := by
  unfold total flying
  rw [next, List.cons_append, Broker.carried_cons]
  omega

theorem messages_plus_le (d : Demand) (r : Option PullRequest) :
    (plus d r).messages ≤ d.messages + r.elim 0 PullRequest.batch := by
  cases r with
  | none => exact Nat.le_refl _
  | some r => exact Demand.messages_add_le d r

theorem isWhole_plus {d : Demand} (h : d.IsWhole) (r : Option PullRequest) :
    (plus d r).IsWhole := by
  cases r with
  | none => exact h
  | some r => exact Demand.isWhole_add

section Start

variable (unread : List Message) (handing : Bool) (ms : List Message)

theorem messages_start (h : o.Fits) (inbox : String) :
    (start inbox (.ofOptions o) unread handing ms).demand.messages = o.batchSize := by
  have hb := h.batchSize
  show min (0 + o.batchSize) Count.top = o.batchSize
  omega

theorem total_start (inbox : String) (plan : RefillPlan) :
    (start inbox plan unread handing ms).total inbox = plan.initial.batch := by
  have h : asked inbox [Command.pull inbox plan.initial.onWire] = plan.initial.batch :=
    (Nat.add_zero _).trans (if_pos rfl)
  show asked inbox (ms.map Command.publish ++ [_]) + 0 + 0 = _
  rw [Broker.asked_append, asked_publishes, h]
  omega

end Start

/-! ## The accounts never say more than is on its way -/

structure Bounded (inbox : String) (a : Flow) : Prop where
  most : a.demand.messages ≤ a.total inbox
  whole : a.demand.IsWhole

theorem bounded_manage {plan : RefillPlan} (h : Bounded inbox a) {f : Frame} {rest : List Frame}
    (next : a.frames = f :: rest) (hf : f.Honest) (ms : List Message) :
    Bounded inbox (a.manage inbox plan f rest ms) := by
  have htot := total_manage inbox plan next ms
  have hle := messages_plus_le (a.demand.take f) (plan.after (a.demand.take f) f)
  have htake := Demand.messages_take_le (d := a.demand) hf
  have hmost := h.most
  have hw := weight_le_total inbox next
  refine ⟨?_, isWhole_plus (Demand.isWhole_take h.whole f) _⟩
  show (plus _ _).messages ≤ _
  omega

/-- The first frame of the feed is regular. -/
theorem regular_next (h : Sane inbox o a) {f : Frame} {rest : List Frame}
    (next : a.frames = f :: rest) :
    f.Regular ∧ (o.batchBytes = 0 → f.isTooLarge = false) :=
  h.flying f (mem_flying.2 (Or.inl (by rw [next]; exact List.mem_cons_self)))

theorem bounded_of_reached (ho : o.Fits) (h : Reached inbox (.ofOptions o) a) :
    Bounded inbox a := by
  induction h with
  | start unread handing ms =>
    refine ⟨?_, Demand.isWhole_add⟩
    rw [messages_start unread handing ms ho, total_start]
    exact Nat.le_refl _
  | next hr hs ih =>
    have hsane := sane_of_reached ho hr
    cases hs with
    | transit ht =>
      have hd := total_transit hsane ht
      have hm := demand_transit ht
      exact ⟨by rw [hd, hm]; exact ih.most, by rw [hm]; exact ih.whole⟩
    | manage f rest ms next quiet =>
      exact bounded_manage ih next (regular_next hsane next).1.honest ms

/-! ## Without a byte budget -/

/-- The accounts know nothing of bytes, say just what is on its way, and never run out. -/
structure Even (inbox : String) (o : ConsumeOptions) (a : Flow) : Prop where
  untracked : a.demand.IsUntracked
  exact : a.demand.messages = a.total inbox
  least : 1 ≤ a.demand.messages
  most : a.demand.messages ≤ o.batchSize

/-- Without a byte budget the plan asks for a full batch when nothing is left, and for a share
when that much is missing. -/
theorem plus_next (ho : o.Fits) (hz : o.batchBytes = 0) {d : Demand} (hd : d.IsUntracked)
    (hm : d.messages ≤ o.batchSize) :
    let d' := plus d ((RefillPlan.ofOptions o).next? d)
    d'.IsUntracked ∧
      d'.messages = d.messages + ((RefillPlan.ofOptions o).next? d).elim 0 PullRequest.batch ∧
      1 ≤ d'.messages ∧ d'.messages ≤ o.batchSize := by
  have hfit := ho.batchSize
  have hpos := o.batchSize_pos
  have hex : d.isExhausted = (d.messages == 0) := by
    unfold Demand.isExhausted
    rw [hd.2, Bool.not_false, Bool.and_true]
  have hlow : (RefillPlan.ofOptions o).isLowOnBytes d = false := by
    unfold RefillPlan.isLowOnBytes
    rw [hd.2, Bool.false_and]
  have hsum := RefillPlan.leastMessages_add_batch o
  dsimp only
  unfold RefillPlan.next?
  rw [hex, hlow, Bool.or_false]
  cases hzero : d.messages == 0 with
  | true =>
    have hd0 : d.messages = 0 := eq_of_beq hzero
    have hadd : (d.add (RefillPlan.ofOptions o).initial).messages =
        d.messages + (RefillPlan.ofOptions o).initial.batch := by
      refine Count.add_of_le ?_
      show d.messages + o.batchSize ≤ _
      omega
    have hb : (RefillPlan.ofOptions o).initial.batch = o.batchSize := rfl
    have hu := (RefillPlan.issues_initial ho).unbudgeted hz
    refine ⟨Demand.isUntracked_add hd hu, hadd, ?_, ?_⟩
    · show 1 ≤ (d.add _).messages
      omega
    · show (d.add _).messages ≤ _
      omega
  | false =>
    have hd0 : d.messages ≠ 0 := beq_eq_false_iff_ne.1 hzero
    rw [if_neg Bool.false_ne_true]
    split
    · rename_i hle
      have hle' : d.messages ≤ (RefillPlan.ofOptions o).leastMessages := of_decide_eq_true hle
      have hadd : (d.add (RefillPlan.ofOptions o).refill).messages =
          d.messages + (RefillPlan.ofOptions o).refill.batch := Count.add_of_le (by omega)
      have hu := (RefillPlan.issues_refill ho).unbudgeted hz
      refine ⟨Demand.isUntracked_add hd hu, hadd, ?_, ?_⟩
      · show 1 ≤ (d.add _).messages
        omega
      · show (d.add _).messages ≤ _
        omega
    · exact ⟨hd, rfl, Nat.pos_of_ne_zero hd0, hm⟩

theorem even_manage (ho : o.Fits) (hz : o.batchBytes = 0) (h : Even inbox o a) {f : Frame}
    {rest : List Frame} (next : a.frames = f :: rest) (hf : f.Regular)
    (hl : f.isTooLarge = false) (ms : List Message) :
    Even inbox o (a.manage inbox (.ofOptions o) f rest ms) := by
  have htot := total_manage inbox (.ofOptions o) next ms
  have htake := Demand.messages_take_untracked h.untracked hf.honest
  have hun := Demand.isUntracked_take h.untracked f
  have hw := weight_le_total inbox next
  have hexact := h.exact
  have hleast := h.least
  have hmost := h.most
  cases hr : f.reacts with
  | true =>
    have hafter : (RefillPlan.ofOptions o).after (a.demand.take f) f =
        (RefillPlan.ofOptions o).next? (a.demand.take f) := if_pos hr
    obtain ⟨hu, he, h1, h2⟩ := plus_next ho hz hun (by omega)
    rw [hafter] at htot
    refine ⟨?_, ?_, ?_, ?_⟩
    · show (plus _ _).IsUntracked
      rw [hafter]
      exact hu
    · show (plus _ _).messages = _
      rw [hafter, he]
      omega
    · show 1 ≤ (plus _ _).messages
      rw [hafter]
      exact h1
    · show (plus _ _).messages ≤ _
      rw [hafter]
      exact h2
  | false =>
    -- what the consumer does not react to here is a heartbeat, and that stands for nothing
    have hafter : (RefillPlan.ofOptions o).after (a.demand.take f) f = none :=
      if_neg (ne_true_of_eq_false hr)
    have hzero : f.weight = 0 := by
      rcases hf.kind with hk | hk | hk
      · rw [hr] at hk
        cases hk
      · exact Frame.weight_of_settles_none hf.honest hk
      · rw [hl] at hk
        cases hk
    have hsame : (a.manage inbox (.ofOptions o) f rest ms).demand = a.demand.take f := by
      show plus _ _ = _
      rw [hafter]
      rfl
    rw [hafter] at htot
    have h0 : (none : Option PullRequest).elim 0 PullRequest.batch = 0 := rfl
    rw [h0] at htot
    refine ⟨?_, ?_, ?_, ?_⟩
    · rw [hsame]
      exact hun
    · rw [hsame]
      omega
    · rw [hsame]
      omega
    · rw [hsame]
      omega

theorem even_of_reached (ho : o.Fits) (hz : o.batchBytes = 0)
    (h : Reached inbox (.ofOptions o) a) : Even inbox o a := by
  induction h with
  | start unread handing ms =>
    have hm := messages_start unread handing ms ho inbox
    have hpos := o.batchSize_pos
    refine ⟨Demand.isUntracked_add Demand.isUntracked_none hz, ?_, ?_, ?_⟩
    · rw [hm, total_start]
      rfl
    · omega
    · omega
  | next hr hs ih =>
    have hsane := sane_of_reached ho hr
    cases hs with
    | transit ht =>
      have hd := total_transit hsane ht
      have hm := demand_transit ht
      exact ⟨by rw [hm]; exact ih.untracked, by rw [hd, hm]; exact ih.exact,
        by rw [hm]; exact ih.least, by rw [hm]; exact ih.most⟩
    | manage f rest ms next quiet =>
      obtain ⟨hf, hl⟩ := regular_next hsane next
      exact even_manage ho hz ih next hf (hl hz) ms

end DemandFlow.Flow
