import DemandFlow.Proofs.Drain.Life
import DemandFlow.Proofs.Refill.Course
import DemandFlow.Proofs.Silence.Turns

/-
  The dealings of a consumer: the frames that it takes in and the requests that it makes. It has
  them only when it is opened and in the turns of its worker; whatever else goes on around it, in
  whatever order, leaves its demand as it is.
-/

namespace DemandFlow

/-- Active consumption with these options. -/
def Subscription.RunsWith (o : ConsumeOptions) (s : Subscription) : Prop :=
  ∃ c, s.purpose = .continuous c ∧ c.options = o ∧ c.plan = .ofOptions o ∧ c.mode = .active

/-- Nothing but messages was taken in. -/
def MessagesOnly (past : List Deed) : Prop := ∀ f ∈ framesTook past, ∃ m, f = .message m

theorem MessagesOnly.before {past new : List Deed} (h : MessagesOnly (past ++ new)) :
    MessagesOnly past := by
  intro f hf
  exact h f (framesTook_append past new ▸ List.mem_append_left _ hf)

theorem framesTook_dealings (past : List Deed) : framesTook (dealings past) = framesTook past := by
  induction past with
  | nil => rfl
  | cons d past ih =>
    cases d with
    | took f => exact congrArg (f :: ·) ih
    | pulled r => exact ih
    | _ => exact ih

theorem requestsMade_dealings (past : List Deed) :
    requestsMade (dealings past) = requestsMade past := by
  induction past with
  | nil => rfl
  | cons d past ih =>
    cases d with
    | took f => exact ih
    | pulled r => exact congrArg (r :: ·) ih
    | _ => exact ih

/-- What is taken in on the course are the messages. -/
theorem RefillPlan.framesTook_course (plan : RefillPlan) (ms : List Message) :
    framesTook (plan.course ms) = ms.map .message := by
  induction ms using List.reverseRecOn with
  | nil => rfl
  | append_singleton ms m ih =>
    have hmore : framesTook (.took (.message m) ::
        (plan.dueWith (ms.length + 1)).toList.map .pulled) = [.message m] := by
      cases plan.dueWith (ms.length + 1) <;> rfl
    rw [course_concat, framesTook_append, ih, hmore, List.map_append]
    rfl

namespace Lane

variable {o : ConsumeOptions} {calm : Bool} {L L' : Lane} {past new : List Deed}

/-- Who runs with options now has done so since the lane was opened. -/
theorem runsWith_of_run (run : Run calm L new L') (h : L'.sub.RunsWith o) : L.sub.RunsWith o := by
  obtain ⟨c', hp', ho, hplan, hmode⟩ := h
  have halike := run.alike
  rw [hp'] at halike
  cases hp : L.sub.purpose with
  | manual | fetch f due =>
    rw [hp] at halike
    exact halike.elim
  | continuous c =>
    rw [hp] at halike
    obtain ⟨hopts, hplans, _⟩ := halike
    obtain ⟨d, hd, hleads⟩ := (respects_run hp run).leads
    cases hp'.symm.trans hd
    refine ⟨c, hp, hopts.symm.trans ho, hplans.symm.trans hplan, ?_⟩
    by_contra hne
    exact hleads.not_active hne hmode

/-- Without dealings the demand stays. -/
theorem demand_step (step : Step calm L new L') (h : dealings new = []) :
    L'.sub.demand = L.sub.demand := by
  cases step with
  | take | pull => cases h
  | stop =>
    show L.sub.stopped.tracker.demand = _
    rw [Subscription.tracker_stopped]
    rfl
  | _ => rfl

theorem demand_run (run : Run calm L new L') (h : dealings new = []) :
    L'.sub.demand = L.sub.demand := by
  induction run with
  | nil => rfl
  | snoc _ step ih =>
    rw [dealings_append, List.append_eq_nil_iff] at h
    exact (demand_step step h.2).trans (ih h.1)

end Lane

namespace Exchange

variable {o : ConsumeOptions} {x₀ x y : Exchange} {past : List (Nat × Deed)} {i : Nat}

/-! ## Who has dealings -/

theorem dealings_eq_nil {i : Nat} {new : List (Nat × Deed)}
    (h : ∀ p ∈ new, p.1 = i → p.2.isDealing = false) : dealings (deedsOf i new) = [] := by
  refine List.filter_eq_nil_iff.2 fun d hd => ?_
  obtain ⟨p, hp, rfl⟩ := List.mem_map.1 hd
  obtain ⟨hp, hi⟩ := List.mem_filter.1 hp
  rw [h p hp (of_decide_eq_true hi)]
  exact Bool.false_ne_true

/-! ## What a frame leads to -/

/-- What is heard of a frame is no dealing. -/
theorem dealings_hears (s : Subscription) (f : Frame) : dealings (s.hears f) = [] := by
  refine List.filter_eq_nil_iff.2 fun d hd => ?_
  rcases Subscription.told_or_called_of_hears hd with ⟨st, rfl | rfl⟩ | ⟨m, kept, _, rfl, _⟩ <;>
    exact Bool.false_ne_true

/-- Of what a frame leads to, the frame itself and the request that follows are dealings. -/
theorem dealings_frameDeeds (s : Subscription) (f : Frame) :
    dealings (s.frameDeeds f) = .took f :: (s.asks f).toList.map .pulled := by
  have hasks : dealings ((s.asks f).toList.map .pulled) = (s.asks f).toList.map .pulled := by
    cases s.asks f <;> rfl
  unfold Subscription.frameDeeds
  rw [dealings_append, hasks]
  show .took f :: dealings (s.hears f) ++ _ = _
  rw [dealings_hears]
  rfl

theorem requestsMade_frameDeeds (s : Subscription) (f : Frame) :
    requestsMade (s.frameDeeds f) = (s.asks f).toList := by
  rw [← requestsMade_dealings, dealings_frameDeeds]
  exact requestsMade_map_pulled _

theorem framesTook_frameDeeds (s : Subscription) (f : Frame) :
    framesTook (s.frameDeeds f) = [f] := by
  rw [← framesTook_dealings, dealings_frameDeeds]
  cases s.asks f <;> rfl

/-- A subscription that nobody reads by hand has dealings only in the turns of its worker. -/
theorem dealings_deeds {s : Subscription} (hs : x.subs[i]? = some s) (hp : s.purpose ≠ .manual)
    {m : Move} (hm : m ≠ .turn (.worker i)) : dealings (deedsOf i (x.deeds m)) = [] := by
  obtain ⟨hlt, _⟩ := Array.getElem?_eq_some_iff.1 hs
  refine dealings_eq_nil fun q hq hi => ?_
  cases arises_of_mem hq with
  | opened r => exact absurd hi (Nat.ne_of_gt hlt)
  | @asked j w u hu hmanual r =>
    obtain rfl : j = i := hi
    cases hs.symm.trans hu
    exact absurd hmanual hp
  | @worked j d hd => exact absurd (congrArg (fun k => Move.turn (.worker k)) hi) hm
  | _ => rfl

/-- Who runs with options after a move did so before. -/
theorem runsWith_before (h : Tame false x) {m : Move}
    (hr : ∀ s, (x.next m).subs[i]? = some s → s.RunsWith o) {s : Subscription}
    (hs : x.subs[i]? = some s) : s.RunsWith o := by
  have hone := (Since.refl h).next m fun hc => by cases hc
  obtain ⟨f, _, hL⟩ := h.lane_of_sub hs
  obtain ⟨L', hL', hrun⟩ := hone.run_of_lane hL
  exact Lane.runsWith_of_run hrun (hr _ (lane_eq_some.1 hL').1)

/-- The worker takes in a frame, or has no dealings. -/
theorem workerDeeds_cases (x : Exchange) (i : Nat) :
    (∃ s f rest, Takes x i s f rest ∧ x.workerDeeds i = s.frameDeeds f ∧
      (x.workerStep i).1 = ((x.popped s.feed rest).takeFrame i s f).1) ∨
    dealings (x.workerDeeds i) = [] := by
  unfold workerDeeds workerStep
  cases hs : x.subs[i]? with
  | none => exact Or.inr rfl
  | some s =>
    dsimp only
    split
    · rename_i hc
      obtain ⟨hopen, hw⟩ := hc
      unfold readDeeds
      cases hf : x.feeds[s.feed]? with
      | none => exact Or.inr rfl
      | some feed =>
        rw [Option.map_some]
        cases hp : feed.frames.pop? with
        | some q =>
          refine Or.inl ⟨s, q.1, q.2, ⟨hs, hopen, hw, feed, hf, hp⟩, rfl, ?_⟩
          rw [hw]
          dsimp only
          rw [if_neg (ne_true_of_eq_false hopen), (readStep_of_frame hs hf hp).2]
        | none =>
          refine Or.inr ?_
          cases feed.writing with
          | false => rfl
          | true =>
            dsimp only
            cases s.alarms <;> rfl
    · exact Or.inr rfl

end Exchange

end DemandFlow
