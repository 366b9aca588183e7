import DemandFlow.Proofs.Consume.Flow

/-
  What every flow keeps. It is sane: requests are those of the plan, pulls wait with what is left
  of one, frames are regular. It is in order: what was taken in, is carried and is to be posted
  are the messages handed out, and these with the unread and the published ones are all that were
  stored; and the broker does not rest while it has both a message and a pull.
-/

namespace DemandFlow

open Broker (Command WaitingPull asked held posted carried publishedBy handedFrames goesOn)

/-- The sizes of options fit a word. -/
structure ConsumeOptions.Fits (o : ConsumeOptions) : Prop where
  batchSize : o.batchSize ≤ Count.top
  batchBytes : o.batchBytes ≤ Count.top

/-! ## Requests of a plan -/

namespace RefillPlan

theorem refillBytes_le (o : ConsumeOptions) : refillBytes o ≤ o.batchBytes := by
  unfold refillBytes
  split
  · exact Nat.zero_le _
  · exact shareOf_le o.threshold_le (by omega)

theorem refillBytes_pos {o : ConsumeOptions} (h : 0 < o.batchBytes) : 0 < refillBytes o := by
  unfold refillBytes
  rw [if_neg (by omega)]
  exact shareOf_pos _ _

/-- Requests as the plan of a consumer sends them. -/
structure Issues (o : ConsumeOptions) (r : PullRequest) : Prop where
  fits : r.Fits
  waits : r.noWait = false
  batch : r.batch ≤ o.batchSize
  unbudgeted : o.batchBytes = 0 → r.maxBytes = 0
  budgeted : 0 < o.batchBytes → refillBytes o ≤ r.maxBytes

theorem issues_timed {o : ConsumeOptions} (h : o.Fits) {batch bytes : Nat} (hb : 0 < batch)
    (hle : batch ≤ o.batchSize) (hr : refillBytes o ≤ bytes) (hbytes : bytes ≤ o.batchBytes) :
    Issues o (.timed batch bytes o.expires o.heartbeat hb) :=
  ⟨⟨Nat.le_trans hle h.batchSize, Nat.le_trans hbytes h.batchBytes⟩, rfl, hle,
    fun hz => Nat.le_zero.1 (hz ▸ hbytes), fun _ => hr⟩

theorem issues_initial {o : ConsumeOptions} (h : o.Fits) : Issues o (ofOptions o).initial :=
  issues_timed h o.batchSize_pos (Nat.le_refl _) (refillBytes_le o) (Nat.le_refl _)

theorem issues_refill {o : ConsumeOptions} (h : o.Fits) : Issues o (ofOptions o).refill :=
  issues_timed h (shareOf_pos _ _) (shareOf_le o.threshold_le o.batchSize_pos) (Nat.le_refl _)
    (refillBytes_le o)

theorem issues_onWire {o : ConsumeOptions} {r : PullRequest} (h : Issues o r) :
    Issues o r.onWire :=
  ⟨⟨h.fits.batch, h.fits.maxBytes⟩, h.waits, h.batch, h.unbudgeted, h.budgeted⟩

theorem issues_next {o : ConsumeOptions} (h : o.Fits) {d : Demand} {r : PullRequest}
    (hr : (ofOptions o).next? d = some r) : Issues o r := by
  unfold next? at hr
  split at hr
  · cases hr
    exact issues_initial h
  · split at hr
    · cases hr
      exact issues_refill h
    · cases hr

theorem issues_after {o : ConsumeOptions} (h : o.Fits) {d : Demand} {f : Frame} {r : PullRequest}
    (hr : (ofOptions o).after d f = some r) : Issues o r := by
  unfold after at hr
  split at hr
  · exact issues_next h hr
  · cases hr

end RefillPlan

open RefillPlan (Issues refillBytes)

/-! ## Pulls of a plan -/

/-- What is left of a request of the plan: it has a byte budget just when the options have one,
and one that nothing was handed out for still has that of a refill at least. -/
structure Budgeted (o : ConsumeOptions) (p : WaitingPull) : Prop where
  unbudgeted : o.batchBytes = 0 → p.bytes = none
  budgeted : 0 < o.batchBytes → ∃ left, p.bytes = some left ∧
    (p.begun = false → refillBytes o ≤ left)

theorem budgeted_ofRequest {o : ConsumeOptions} {r : PullRequest} (h : Issues o r)
    (inbox : String) (now : Nat) (beats : Bool) :
    Budgeted o (.ofRequest inbox r now beats) := by
  refine ⟨fun hz => if_neg (by rw [h.unbudgeted hz]; exact Nat.lt_irrefl 0), fun hp => ?_⟩
  have hr := h.budgeted hp
  have hpos := RefillPlan.refillBytes_pos hp
  exact ⟨r.maxBytes, if_pos (by omega), fun _ => hr⟩

theorem budgeted_charged {o : ConsumeOptions} {p : WaitingPull} (h : Budgeted o p)
    (size now : Nat) : Budgeted o (p.charged size now) := by
  refine ⟨fun hz => ?_, fun hp => ?_⟩
  · rw [WaitingPull.bytes_charged, h.unbudgeted hz]
    rfl
  · obtain ⟨left, hl, _⟩ := h.budgeted hp
    refine ⟨left - size, ?_, fun hb => ?_⟩
    · rw [WaitingPull.bytes_charged, hl]
      rfl
    · cases hb

/-- A pull that is left alone or beats keeps its inbox, its messages, its bytes. -/
theorem due_keeps {now : Nat} {p q : WaitingPull} (h : (Broker.State.due now p).2 = some q) :
    q.inbox = p.inbox ∧ q.messages = p.messages ∧ q.bytes = p.bytes ∧ q.begun = p.begun := by
  rcases Broker.State.due_cases now p with ⟨he, _⟩ | ⟨t, he⟩ | he
  · rw [he] at h
    cases h
  · rw [he] at h
    cases h
    exact ⟨rfl, rfl, rfl, rfl⟩
  · rw [he] at h
    cases h
    exact ⟨rfl, rfl, rfl, rfl⟩

/-- A pull whose budget a message passes although nothing was handed out for it: the message
is larger than a refill. -/
theorem refillBytes_lt {o : ConsumeOptions} {p : WaitingPull} {size : Nat} (h : Budgeted o p)
    (hr : p.refuses size = true) (hb : p.begun = false) : refillBytes o < size := by
  unfold WaitingPull.refuses at hr
  cases hz : o.batchBytes with
  | zero =>
    rw [h.unbudgeted hz] at hr
    cases hr
  | succ n =>
    obtain ⟨left, hl, hle⟩ := h.budgeted (by omega)
    rw [hl] at hr
    have := hle hb
    have := of_decide_eq_true hr
    omega

/-! ## Sane flows -/

namespace Flow

variable {inbox : String} {o : ConsumeOptions} {a b : Flow}

structure Sane (inbox : String) (o : ConsumeOptions) (a : Flow) : Prop where
  queue : ∀ c ∈ a.queue, (∃ m, c = .publish m) ∨ ∃ r, Issues o r ∧ c = .pull inbox r
  waiting : ∀ p ∈ a.waiting, p.inbox = inbox ∧ p.Fits ∧ Budgeted o p
  flying : ∀ f ∈ a.flying, f.Regular ∧ (o.batchBytes = 0 → f.isTooLarge = false)

theorem sane_start (h : o.Fits) (unread : List Message) (handing : Bool) (ms : List Message) :
    Sane inbox o (start inbox (.ofOptions o) unread handing ms) := by
  refine ⟨?_, ?_, ?_⟩
  · intro c hc
    rcases List.mem_append.1 hc with hc | hc
    · obtain ⟨m, _, rfl⟩ := List.mem_map.1 hc
      exact Or.inl ⟨m, rfl⟩
    · rw [List.mem_singleton.1 hc]
      exact Or.inr ⟨_, RefillPlan.issues_onWire (RefillPlan.issues_initial h), rfl⟩
  · intro p hp
    cases hp
  · intro f hf
    cases hf

theorem mem_flying {a : Flow} {f : Frame} : f ∈ a.flying ↔ f ∈ a.frames ∨ f ∈ a.out :=
  List.mem_append

theorem fits_goesOn {p q : WaitingPull} {size now : Nat} (h : p.Fits)
    (hq : q ∈ goesOn (p.charged size now)) : q.Fits ∧ q = p.charged size now := by
  unfold goesOn at hq
  split at hq
  · cases hq
  · rename_i hn
    have hf : (p.charged size now).isFilled = false := by
      cases hf : (p.charged size now).isFilled with
      | false => rfl
      | true => exact absurd (by rw [hf]; rfl) hn
    obtain rfl := List.mem_singleton.1 hq
    exact ⟨Broker.fits_charged h hf, rfl⟩

theorem regular_handed {p : WaitingPull} {m : Message} {now : Nat} {f : Frame} (h : p.Fits)
    (hf : f ∈ handedFrames (p.charged m.size now) m) : f.Regular ∧ f.isTooLarge = false := by
  unfold handedFrames at hf
  rcases List.mem_cons.1 hf with rfl | hf
  · exact ⟨Frame.regular_message m, rfl⟩
  · split at hf
    · rename_i hs
      have hn : (p.charged m.size now).isFilled = false := by
        simp only [Bool.and_eq_true, Bool.not_eq_true'] at hs
        exact hs.2
      rw [List.mem_singleton.1 hf]
      exact ⟨Broker.regular_completed (Broker.fits_charged h hn),
        Broker.isTooLarge_closing_completed _⟩
    · cases hf

theorem sane_transit (h : Sane inbox o a) (hs : Transit inbox a b) : Sane inbox o b := by
  cases hs with
  | publish m =>
    refine ⟨?_, h.waiting, h.flying⟩
    intro c hc
    rcases List.mem_append.1 hc with hc | hc
    · exact h.queue c hc
    · exact Or.inl ⟨m, List.mem_singleton.1 hc⟩
  | store m rest idle next =>
    refine ⟨?_, h.waiting, h.flying⟩
    intro c hc
    exact h.queue c (by rw [next]; exact List.mem_cons_of_mem _ hc)
  | grant r rest now beats idle next =>
    have hr : Issues o r := by
      rcases h.queue (.pull inbox r) (by rw [next]; exact List.mem_cons_self) with
        ⟨m, hm⟩ | ⟨q, hq, he⟩
      · cases hm
      · cases he
        exact hq
    refine ⟨?_, ?_, h.flying⟩
    · intro c hc
      exact h.queue c (by rw [next]; exact List.mem_cons_of_mem _ hc)
    · intro p hp
      rcases List.mem_append.1 hp with hp | hp
      · exact h.waiting p hp
      · rw [List.mem_singleton.1 hp]
        exact ⟨rfl, Broker.fits_ofRequest hr.fits _ _ _, budgeted_ofRequest hr _ _ _⟩
  | post f rest next =>
    refine ⟨h.queue, h.waiting, ?_⟩
    intro g hg
    refine h.flying g ?_
    rw [mem_flying] at hg ⊢
    dsimp only at hg
    rw [next, List.mem_cons]
    rw [List.mem_append, List.mem_singleton] at hg
    exact or_assoc.1 hg
  | settle clear done => exact ⟨h.queue, h.waiting, h.flying⟩
  | refuse m ms p ps clear handing message pull refuses =>
    obtain ⟨hi, hf, hb⟩ := h.waiting p (by rw [pull]; exact List.mem_cons_self)
    refine ⟨h.queue, ?_, ?_⟩
    · intro q hq
      exact h.waiting q (by rw [pull]; exact List.mem_cons_of_mem _ hq)
    · intro g hg
      rcases mem_flying.1 hg with hg | hg
      · exact h.flying g (mem_flying.2 (Or.inl hg))
      · rw [List.mem_singleton.1 hg]
        refine ⟨Broker.regular_stop hf, fun hz => ?_⟩
        unfold WaitingPull.refuses at refuses
        rw [hb.unbudgeted hz] at refuses
        cases refuses
  | hand m ms p ps now clear handing message pull takes =>
    obtain ⟨hi, hf, hb⟩ := h.waiting p (by rw [pull]; exact List.mem_cons_self)
    refine ⟨h.queue, ?_, ?_⟩
    · intro q hq
      rcases List.mem_append.1 hq with hq | hq
      · obtain ⟨hfit, rfl⟩ := fits_goesOn hf hq
        exact ⟨hi, hfit, budgeted_charged hb _ _⟩
      · exact h.waiting q (by rw [pull]; exact List.mem_cons_of_mem _ hq)
    · intro g hg
      rcases mem_flying.1 hg with hg | hg
      · exact h.flying g (mem_flying.2 (Or.inl hg))
      · obtain ⟨hr, ht⟩ := regular_handed hf hg
        exact ⟨hr, fun _ => ht⟩
  | timers now idle =>
    refine ⟨h.queue, ?_, ?_⟩
    · intro q hq
      obtain ⟨p, hp, hpq⟩ := List.mem_filterMap.1 hq
      obtain ⟨hi, hf, hb⟩ := h.waiting p hp
      obtain ⟨ki, km, kb, kg⟩ := due_keeps hpq
      refine ⟨ki.trans hi, Broker.State.fits_due hf hpq, ?_, ?_⟩
      · rw [kb]
        exact hb.unbudgeted
      · rw [kb, kg]
        exact hb.budgeted
    · intro g hg
      rcases mem_flying.1 hg with hg | hg
      · exact h.flying g (mem_flying.2 (Or.inl hg))
      · obtain ⟨p, hp, hpg⟩ := List.mem_filterMap.1 hg
        obtain ⟨_, hf, _⟩ := h.waiting p hp
        obtain ⟨hr, ht, _⟩ := Broker.regular_due hf hpg
        exact ⟨hr, fun _ => ht⟩

theorem sane_step (ho : o.Fits) (h : Sane inbox o a) (hs : Step inbox (.ofOptions o) a b) :
    Sane inbox o b := by
  cases hs with
  | transit ht => exact sane_transit h ht
  | manage f rest ms next quiet =>
    refine ⟨?_, h.waiting, ?_⟩
    · intro c hc
      rcases List.mem_append.1 hc with hc | hc
      · exact h.queue c hc
      · rcases List.mem_append.1 hc with hc | hc
        · obtain ⟨m, _, rfl⟩ := List.mem_map.1 hc
          exact Or.inl ⟨m, rfl⟩
        · obtain ⟨r, hr, rfl⟩ := Option.map_eq_some_iff.1 (Option.mem_toList.1 hc)
          exact Or.inr ⟨_, RefillPlan.issues_onWire (RefillPlan.issues_after ho hr), rfl⟩
    · intro g hg
      refine h.flying g ?_
      rw [mem_flying] at hg ⊢
      rw [next, List.mem_cons]
      exact hg.imp_left Or.inr

theorem sane_of_reached (ho : o.Fits) (h : Reached inbox (.ofOptions o) a) : Sane inbox o a := by
  induction h with
  | start unread handing ms => exact sane_start ho unread handing ms
  | next _ hs ih => exact sane_step ho ih hs

/-! ## Flows in order -/

structure Ordered (a : Flow) : Prop where
  given : messagesOf a.taken ++ messagesOf a.frames ++ messagesOf a.out = a.given
  stored : a.given ++ a.unread ++ publishedBy a.queue = a.stored
  caught : a.handing = true ∨ a.unread = [] ∨ a.waiting = []

theorem ordered_start (plan : RefillPlan) (unread : List Message) (handing : Bool)
    (ms : List Message) : Ordered (start inbox plan unread handing ms) := by
  refine ⟨rfl, ?_, Or.inr (Or.inr rfl)⟩
  show [] ++ unread ++ publishedBy (ms.map Command.publish ++ [_]) = unread ++ ms
  rw [Broker.publishedBy_append, Broker.publishedBy_publish, List.nil_append]
  exact congrArg (unread ++ ·) (List.append_nil ms)

theorem messagesOf_handed (p : WaitingPull) (m : Message) :
    messagesOf (handedFrames p m) = [m] := by
  unfold handedFrames
  split
  · rfl
  · rfl

/-- Nothing of what is due is a message. -/
theorem messagesOf_due {ps : List WaitingPull} (h : ∀ p ∈ ps, p.Fits) (now : Nat) :
    messagesOf (ps.filterMap fun p => (Broker.State.due now p).1) = [] := by
  refine List.filterMap_eq_nil_iff.2 fun f hf => ?_
  obtain ⟨p, hp, hpf⟩ := List.mem_filterMap.1 hf
  exact (Broker.regular_due (h p hp) hpf).2.2

theorem publishedBy_sent (r : Option PullRequest) : publishedBy (sent inbox r) = [] := by
  cases r with
  | none => rfl
  | some r => rfl

theorem ordered_transit (hsane : Sane inbox o a) (h : Ordered a) (hs : Transit inbox a b) :
    Ordered b := by
  cases hs with
  | publish m =>
    refine ⟨h.given, ?_, h.caught⟩
    dsimp only
    rw [Broker.publishedBy_append, ← List.append_assoc, h.stored]
    rfl
  | store m rest idle next =>
    refine ⟨h.given, ?_, Or.inl rfl⟩
    have hst := h.stored
    rw [next] at hst
    rw [← hst]
    show a.given ++ (a.unread ++ [m]) ++ publishedBy rest = a.given ++ a.unread ++ (m :: _)
    simp only [List.append_assoc, List.singleton_append]
    rfl
  | grant r rest now beats idle next =>
    refine ⟨h.given, ?_, Or.inl rfl⟩
    have hst := h.stored
    rw [next] at hst
    exact hst
  | post f rest next =>
    refine ⟨?_, h.stored, h.caught⟩
    have hg := h.given
    rw [next] at hg
    rw [← hg]
    dsimp only
    rw [messagesOf_append]
    show _ ++ (_ ++ messagesOf [f]) ++ _ = _ ++ _ ++ messagesOf ([f] ++ rest)
    rw [messagesOf_append]
    simp only [List.append_assoc]
  | settle clear done => exact ⟨h.given, h.stored, Or.inr done⟩
  | refuse m ms p ps clear handing message pull refuses =>
    refine ⟨?_, h.stored, Or.inl handing⟩
    have hg := h.given
    rw [clear] at hg
    exact hg
  | hand m ms p ps now clear handing message pull takes =>
    refine ⟨?_, ?_, Or.inl handing⟩
    · have hg := h.given
      rw [clear] at hg
      dsimp only
      rw [messagesOf_handed, ← hg]
      show _ = _ ++ [] ++ _
      rw [List.append_nil]
    · rw [← h.stored, message]
      dsimp only
      simp only [List.append_assoc, List.cons_append, List.nil_append]
  | timers now idle =>
    refine ⟨?_, h.stored, Or.inr ?_⟩
    · have hg := h.given
      rw [idle.1] at hg
      dsimp only
      rw [messagesOf_due (fun p hp => (hsane.waiting p hp).2.1) now]
      exact hg
    · rcases h.caught with hh | hu | hw
      · rw [idle.2] at hh
        cases hh
      · exact Or.inl hu
      · dsimp only
        rw [hw]
        exact Or.inr rfl

theorem ordered_manage {plan : RefillPlan} (h : Ordered a) {f : Frame} {rest : List Frame}
    (next : a.frames = f :: rest) (ms : List Message) :
    Ordered (a.manage inbox plan f rest ms) := by
  refine ⟨?_, ?_, h.caught⟩
  · have hg := h.given
    rw [next] at hg
    show messagesOf (a.taken ++ [f]) ++ messagesOf rest ++ messagesOf a.out = a.given
    rw [← hg, messagesOf_append, List.append_assoc (messagesOf a.taken), ← messagesOf_append]
    rfl
  · show a.given ++ a.unread ++ publishedBy (a.queue ++ (ms.map Command.publish ++ sent inbox _)) =
      a.stored ++ ms
    rw [Broker.publishedBy_append, Broker.publishedBy_append, Broker.publishedBy_publish,
      publishedBy_sent, List.append_nil, ← h.stored, List.append_assoc (a.given ++ a.unread)]

theorem ordered_of_reached (ho : o.Fits) (h : Reached inbox (.ofOptions o) a) : Ordered a := by
  induction h with
  | start unread handing ms => exact ordered_start _ unread handing ms
  | next hr hs ih =>
    cases hs with
    | transit ht => exact ordered_transit (sane_of_reached ho hr) ih ht
    | manage f rest ms next quiet => exact ordered_manage ih next ms

/-- Nothing is under way: no command, no chore, no frame. -/
structure IsQuiet (a : Flow) : Prop where
  idle : a.IsIdle
  queue : a.queue = []
  frames : a.frames = []

/-- Where nothing is under way, the messages taken in are those handed out, the others are
unread, and there are unread ones only where no pull waits. -/
theorem ordered_quiet (h : Ordered a) (hq : a.IsQuiet) :
    messagesOf a.taken = a.given ∧ a.stored = messagesOf a.taken ++ a.unread ∧
      (a.unread = [] ∨ a.waiting = []) := by
  have hg := h.given
  rw [hq.frames, hq.idle.1] at hg
  have hg' : messagesOf a.taken = a.given := by
    rw [← hg]
    simp [messagesOf]
  refine ⟨hg', ?_, ?_⟩
  · have hs := h.stored
    rw [hq.queue] at hs
    rw [hg', ← hs]
    exact (List.append_nil _)
  · rcases h.caught with hh | hd
    · rw [hq.idle.2] at hh
      cases hh
    · exact hd

end Flow

end DemandFlow
