import DemandFlow.Proofs.Consume.Count

/-
  Flows with a byte budget. Delivery goes on as long as something is on its way, and if nothing
  is, then the next message is larger than a refill: the status that says so is the only one
  after which the consumer asks for nothing. And the accounts differ from what is on its way by
  what they dropped when the bytes ran out first, less what they settled beyond that.
-/

namespace DemandFlow

open Broker (Command WaitingPull asked held carried handedFrames)
open RefillPlan (refillBytes)

namespace Flow

variable {inbox : String} {o : ConsumeOptions} {a b : Flow}

/-! ## Supply -/

/-- The next unread message is larger than a refill. -/
def Blocked (o : ConsumeOptions) (a : Flow) : Prop :=
  ∃ m ms, a.unread = m :: ms ∧ refillBytes o < m.size

/-- A frame that says that a message is too large, with no message behind it, is right about the
next unread message. -/
def Warned (o : ConsumeOptions) (a : Flow) : Prop :=
  ∀ pre f post, a.flying = pre ++ f :: post → f.isTooLarge = true → messagesOf post = [] →
    Blocked o a

theorem split_append {fs gs pre post : List Frame} {f : Frame}
    (h : fs ++ gs = pre ++ f :: post) :
    f ∈ gs ∨ ∃ mid, fs = pre ++ f :: mid ∧ post = mid ++ gs := by
  rcases List.append_eq_append_iff.1 h with ⟨xs, _, hg⟩ | ⟨xs, hf, hp⟩
  · left
    rw [hg]
    exact List.mem_append_right _ List.mem_cons_self
  · cases xs with
    | nil =>
      left
      rw [List.nil_append] at hp
      rw [← hp]
      exact List.mem_cons_self
    | cons x mid =>
      obtain ⟨hx, htail⟩ := List.cons.inj hp
      rw [← hx] at hf
      exact Or.inr ⟨mid, hf, htail⟩

/-- The broker posts nothing that warns and nothing unread changes: warnings stay right. -/
theorem warned_post {fs : List Frame} (ha : a.flying = fs) (gs : List Frame)
    (hb : b.flying = fs ++ gs) (hg : ∀ f ∈ gs, f.isTooLarge = false)
    (hu : Blocked o a → Blocked o b) (h : Warned o a) :
    Warned o b := by
  intro pre f post hsplit hf hm
  rw [hb] at hsplit
  rcases split_append hsplit with hin | ⟨mid, hfs, rfl⟩
  · rw [hg f hin] at hf
    cases hf
  · rw [messagesOf_append, List.append_eq_nil_iff] at hm
    exact hu (h pre f mid (ha.trans hfs) hf hm.1)

theorem warned_transit (hsane : Sane inbox o a) (h : Warned o a) (hs : Transit inbox a b) :
    Warned o b := by
  have hsame : ∀ {c : Flow}, c.flying = a.flying → (Blocked o a → Blocked o c) → Warned o c := by
    intro c hc hu
    exact warned_post rfl [] (by rw [hc, List.append_nil])
      (fun f hf => by cases hf) hu h
  cases hs with
  | publish m => exact hsame rfl fun hb => hb
  | store m rest idle next =>
    refine hsame rfl ?_
    rintro ⟨m', ms, hu, hlt⟩
    refine ⟨m', ms ++ [m], ?_, hlt⟩
    dsimp only
    rw [hu]
    rfl
  | grant r rest now beats idle next => exact hsame rfl fun hb => hb
  | post f rest next =>
    refine hsame ?_ fun hb => hb
    unfold flying
    dsimp only
    rw [next, List.append_assoc]
    rfl
  | settle clear done => exact hsame rfl fun hb => hb
  | refuse m ms p ps clear handing message pull refuses =>
    have hp := (hsane.waiting p (by rw [pull]; exact List.mem_cons_self)).2.2
    intro pre f post hsplit hf hm
    have ha : a.flying = a.frames := by
      unfold flying
      rw [clear, List.append_nil]
    rcases split_append hsplit with hin | ⟨mid, hfs, rfl⟩
    · -- the warning itself: the pull was as large as a refill, and nothing was handed out for it
      rw [List.mem_singleton.1 hin] at hf
      exact ⟨m, ms, message, refillBytes_lt hp refuses (Broker.begun_of_isTooLarge hf)⟩
    · rw [messagesOf_append, List.append_eq_nil_iff] at hm
      exact h pre f mid (ha.trans hfs) hf hm.1
  | hand m ms p ps now clear handing message pull takes =>
    have hp := (hsane.waiting p (by rw [pull]; exact List.mem_cons_self)).2.1
    intro pre f post hsplit hf hm
    rcases split_append hsplit with hin | ⟨mid, _, rfl⟩
    · rw [(regular_handed hp hin).2] at hf
      cases hf
    · -- a message is behind whatever was posted before it
      rw [messagesOf_append, messagesOf_handed] at hm
      exact absurd hm (List.append_ne_nil_of_right_ne_nil _ (List.cons_ne_nil _ _))
  | timers now idle =>
    have ha : a.flying = a.frames := by
      unfold flying
      rw [idle.1, List.append_nil]
    refine warned_post ha _ rfl ?_ (fun hb => hb) h
    intro f hf
    obtain ⟨p, hp, hpf⟩ := List.mem_filterMap.1 hf
    exact (Broker.regular_due (hsane.waiting p hp).2.1 hpf).2.1

theorem warned_manage {plan : RefillPlan} (h : Warned o a) {f : Frame} {rest : List Frame}
    (next : a.frames = f :: rest) (ms : List Message) :
    Warned o (a.manage inbox plan f rest ms) := by
  intro pre g post hsplit hg hm
  refine h (f :: pre) g post ?_ hg hm
  unfold flying
  rw [next]
  exact congrArg (f :: ·) hsplit

theorem carried_pos {fs : List Frame} (h : messagesOf fs ≠ []) : 0 < carried fs := by
  induction fs with
  | nil => exact absurd rfl h
  | cons f fs ih =>
    rw [Broker.carried_cons]
    cases f with
    | message m =>
      have hw : (Frame.message m).weight = 1 := rfl
      omega
    | status s => exact Nat.lt_of_lt_of_le (ih h) (Nat.le_add_left _ _)

theorem held_pos {p : WaitingPull} (hi : p.inbox = inbox) (hf : p.Fits) (ps : List WaitingPull) :
    0 < held inbox (p :: ps) := by
  have hp : p.heldFor inbox = p.messages := if_pos hi
  have := hf.pos
  rw [Broker.held_cons]
  omega

/-- Something is on its way, or the next unread message is larger than a refill. -/
def Supplied (inbox : String) (o : ConsumeOptions) (a : Flow) : Prop :=
  0 < a.total inbox ∨ Blocked o a

theorem supplied_transit (hsane : Sane inbox o a) (h : Supplied inbox o a)
    (hs : Transit inbox a b) : Supplied inbox o b := by
  have htot := total_transit hsane hs
  rcases h with h | ⟨m', ms', hu, hlt⟩
  · exact Or.inl (by rw [htot]; exact h)
  · cases hs with
    | publish m => exact Or.inr ⟨m', ms', hu, hlt⟩
    | store m rest idle next =>
      refine Or.inr ⟨m', ms' ++ [m], ?_, hlt⟩
      dsimp only
      rw [hu]
      rfl
    | grant r rest now beats idle next => exact Or.inr ⟨m', ms', hu, hlt⟩
    | post f rest next => exact Or.inr ⟨m', ms', hu, hlt⟩
    | settle clear done => exact Or.inr ⟨m', ms', hu, hlt⟩
    | refuse m ms p ps clear handing message pull refuses => exact Or.inr ⟨m', ms', hu, hlt⟩
    | hand m ms p ps now clear handing message pull takes =>
      obtain ⟨hi, hf, _⟩ := hsane.waiting p (by rw [pull]; exact List.mem_cons_self)
      refine Or.inl ?_
      rw [htot]
      have := held_pos hi hf ps
      unfold total
      rw [pull]
      omega
    | timers now idle => exact Or.inr ⟨m', ms', hu, hlt⟩

theorem supplied_manage (hw : Warned o a) (hb : Bounded inbox a) (h : Supplied inbox o a)
    {f : Frame} {rest : List Frame} (next : a.frames = f :: rest) (hf : f.Regular)
    (ms : List Message) : Supplied inbox o (a.manage inbox (.ofOptions o) f rest ms) := by
  have htot := total_manage inbox (.ofOptions o) next ms
  have hle := weight_le_total inbox next
  have htake := Demand.messages_take_le (d := a.demand) hf.honest
  have hmost := hb.most
  have hpos := o.batchSize_pos
  cases hr : f.reacts with
  | true =>
    have hafter : (RefillPlan.ofOptions o).after (a.demand.take f) f =
        (RefillPlan.ofOptions o).next? (a.demand.take f) := if_pos hr
    rw [hafter] at htot
    refine Or.inl ?_
    by_cases hz : (a.demand.take f).messages = 0
    · -- nothing is left, so a full request follows
      have hnone := Demand.isWhole_take hb.whole f hz
      rw [hnone, RefillPlan.next?_none] at htot
      have hb : (some (RefillPlan.ofOptions o).initial).elim 0 PullRequest.batch =
        o.batchSize := rfl
      omega
    · omega
  | false =>
    have hafter : (RefillPlan.ofOptions o).after (a.demand.take f) f = none :=
      if_neg (ne_true_of_eq_false hr)
    have h0 : (none : Option PullRequest).elim 0 PullRequest.batch = 0 := rfl
    rw [hafter, h0] at htot
    rcases hf.kind with hk | hk | hk
    · rw [hr] at hk
      cases hk
    · have hzero := Frame.weight_of_settles_none hf.honest hk
      rcases h with h | h
      · exact Or.inl (by omega)
      · exact Or.inr h
    · by_cases hm : messagesOf (rest ++ a.out) = []
      · refine Or.inr (hw [] f (rest ++ a.out) ?_ hk hm)
        unfold flying
        rw [next]
        rfl
      · have hcar := carried_pos hm
        refine Or.inl ?_
        unfold total
        have hfl : (a.manage inbox (.ofOptions o) f rest ms).flying = rest ++ a.out := rfl
        rw [hfl]
        omega

theorem supplied_of_reached (ho : o.Fits) (h : Reached inbox (.ofOptions o) a) :
    Warned o a ∧ Supplied inbox o a := by
  induction h with
  | start unread handing ms =>
    refine ⟨?_, Or.inl ?_⟩
    · intro pre f post hsplit
      exact absurd hsplit (by simp [flying, start])
    · rw [total_start]
      exact o.batchSize_pos
  | next hr hs ih =>
    have hsane := sane_of_reached ho hr
    cases hs with
    | transit ht => exact ⟨warned_transit hsane ih.1 ht, supplied_transit hsane ih.2 ht⟩
    | manage f rest ms next quiet =>
      exact ⟨warned_manage ih.1 next ms,
        supplied_manage ih.1 (bounded_of_reached ho hr) ih.2 next (regular_next hsane next).1 ms⟩

/-- Nothing is outstanding, no pull waits, and the next message is larger than a refill. -/
structure Stalled (o : ConsumeOptions) (a : Flow) : Prop where
  demand : a.demand = .none
  waiting : a.waiting = []
  blocked : Blocked o a

theorem total_of_quiet (h : a.IsQuiet) : a.total inbox = held inbox a.waiting := by
  unfold total flying
  rw [h.queue, h.frames, h.idle.1]
  show 0 + _ + 0 = _
  omega

/-- Where nothing is under way, the consumer has taken in all that was stored unless delivery
has stalled. -/
theorem taken_iff_not_stalled (ho : o.Fits) (h : Reached inbox (.ofOptions o) a)
    (hq : a.IsQuiet) : messagesOf a.taken = a.stored ↔ ¬Stalled o a := by
  obtain ⟨_, hst, hdone⟩ := ordered_quiet (ordered_of_reached ho h) hq
  rw [hst]
  refine ⟨?_, ?_⟩
  · rintro he ⟨_, _, m, ms, hu, _⟩
    have hn : a.unread = [] := List.self_eq_append_right.1 he
    rw [hn] at hu
    cases hu
  · intro hn
    by_cases hu : a.unread = []
    · rw [hu, List.append_nil]
    · have hw : a.waiting = [] := hdone.resolve_left hu
      have htot : a.total inbox = 0 := by
        rw [total_of_quiet hq, hw]
        rfl
      have hb := bounded_of_reached ho h
      have hmost := hb.most
      refine absurd ⟨hb.whole (by omega), hw, ?_⟩ hn
      exact (supplied_of_reached ho h).2.resolve_left (by omega)

end Flow

/-! ## What the accounts drop -/

/-- The accounts of a consumer with what they dropped and what they settled in excess. -/
structure Tally where
  demand : Demand
  dropped : Nat
  excess : Nat
deriving DecidableEq

namespace Tally

/-- The accounts after the first request. -/
def start (plan : RefillPlan) : Tally := ⟨.add .none plan.initial, 0, 0⟩

/-- A frame is taken in and perhaps a request sent: messages are dropped when the bytes run out
before them, or when a request passes the largest word. -/
def enter (plan : RefillPlan) (t : Tally) (f : Frame) : Tally :=
  let d := t.demand.take f
  let r := plan.after d f
  { demand := Flow.plus d r
    dropped := t.dropped + t.demand.lapsedBy f + r.elim 0 d.capped
    excess := t.excess + t.demand.excessBy f }

/-- The accounts after some frames. -/
def ofFrames (plan : RefillPlan) (fs : List Frame) : Tally := fs.foldl (enter plan) (start plan)

theorem ofFrames_snoc (plan : RefillPlan) (fs : List Frame) (f : Frame) :
    ofFrames plan (fs ++ [f]) = (ofFrames plan fs).enter plan f := by
  unfold ofFrames
  rw [List.foldl_append]
  rfl

end Tally

namespace Flow

variable {inbox : String} {o : ConsumeOptions} {a b : Flow}

theorem messages_plus (d : Demand) (r : Option PullRequest) :
    (plus d r).messages + r.elim 0 d.capped = d.messages + r.elim 0 PullRequest.batch := by
  cases r with
  | none => rw [Option.elim_none, Option.elim_none, plus, Option.elim_none]
  | some r =>
    rw [Option.elim_some, Option.elim_some, plus, Option.elim_some]
    exact Demand.messages_add d r

/-- The accounts are those of the frames taken in, and with what they dropped they make up what
is on its way and what they settled in excess. -/
structure Tallied (inbox : String) (plan : RefillPlan) (a : Flow) : Prop where
  demand : a.demand = (Tally.ofFrames plan a.taken).demand
  sum : a.demand.messages + (Tally.ofFrames plan a.taken).dropped =
    a.total inbox + (Tally.ofFrames plan a.taken).excess

theorem tallied_manage {plan : RefillPlan} (h : Tallied inbox plan a) {f : Frame}
    {rest : List Frame} (next : a.frames = f :: rest) (hf : f.Honest) (ms : List Message) :
    Tallied inbox plan (a.manage inbox plan f rest ms) := by
  have htot := total_manage inbox plan next ms
  have htake := Demand.messages_take (d := a.demand) hf
  have hplus := messages_plus (a.demand.take f) (plan.after (a.demand.take f) f)
  have hsum := h.sum
  have hsnoc : Tally.ofFrames plan (a.manage inbox plan f rest ms).taken =
      (Tally.ofFrames plan a.taken).enter plan f := Tally.ofFrames_snoc plan a.taken f
  refine ⟨?_, ?_⟩
  · rw [hsnoc]
    unfold Tally.enter
    dsimp only
    rw [← h.demand]
    rfl
  · rw [hsnoc]
    unfold Tally.enter
    dsimp only
    rw [← h.demand]
    show (plus _ _).messages + _ = _
    omega

theorem tallied_of_reached (ho : o.Fits) (h : Reached inbox (.ofOptions o) a) :
    Tallied inbox (.ofOptions o) a := by
  induction h with
  | start unread handing ms =>
    refine ⟨rfl, ?_⟩
    rw [messages_start unread handing ms ho, total_start]
    rfl
  | next hr hs ih =>
    have hsane := sane_of_reached ho hr
    cases hs with
    | transit ht =>
      have htot := total_transit hsane ht
      have hd := demand_transit ht
      have htaken := taken_transit ht
      exact ⟨by rw [hd, htaken]; exact ih.demand, by rw [hd, htaken, htot]; exact ih.sum⟩
    | manage f rest ms next quiet =>
      exact tallied_manage ih next (regular_next hsane next).1.honest ms

/-- Where nothing is under way, the accounts say what the waiting pulls ask for just when they
have settled in excess what they dropped; and they never say more. -/
theorem messages_eq_held_iff (ho : o.Fits) (h : Reached inbox (.ofOptions o) a)
    (hq : a.IsQuiet) :
    a.demand.messages + (Tally.ofFrames (.ofOptions o) a.taken).dropped =
        held inbox a.waiting + (Tally.ofFrames (.ofOptions o) a.taken).excess ∧
      a.demand.messages ≤ held inbox a.waiting := by
  have hsum := (tallied_of_reached ho h).sum
  have hmost := (bounded_of_reached ho h).most
  rw [total_of_quiet hq] at hsum hmost
  exact ⟨hsum, hmost⟩

end Flow

end DemandFlow
