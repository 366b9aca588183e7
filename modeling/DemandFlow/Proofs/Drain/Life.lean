import DemandFlow.Proofs.Drain.Complete

/-
  The life of a continuous consumer goes one way and is respected. Whatever frames, alarms, calls
  and clock steps come in whatever order, its mode never goes back; once it is not active it asks
  for nothing, and once it is closed its handler is not called. From the moment at which a drain
  begins, the handler of a consumer without a byte budget is called at most as often as messages
  were outstanding then.
-/

namespace DemandFlow

/-- The ways of a mode: it stays, begins to drain from active, or closes. -/
def Mode.Leads (m n : Mode) : Prop := n = m ∨ m = .active ∧ n = .draining ∨ n = .closed

theorem Mode.leads_trans {m n p : Mode} (h : m.Leads n) (h' : n.Leads p) : m.Leads p := by
  cases m <;> cases n <;> cases p <;> simp_all [Leads]

theorem Mode.Leads.not_active {m n : Mode} (h : m.Leads n) (hm : m ≠ .active) : n ≠ .active := by
  cases m <;> cases n <;> simp_all [Leads]

theorem Mode.Leads.closed {m n : Mode} (h : m.Leads n) (hm : m = .closed) : n = .closed := by
  cases m <;> cases n <;> simp_all [Leads]

theorem Demand.messages_take_le_self (d : Demand) (f : Frame) :
    (d.take f).messages ≤ d.messages := by
  unfold take
  cases f.settles with
  | none => exact Nat.le_refl _
  | some p => exact Nat.le_trans (messages_subtract_le d p.1 p.2) (Nat.sub_le _ _)

namespace Lane

variable {o : ConsumeOptions} {calm : Bool} {L L' : Lane} {past new : List Deed}

/-! ## One way -/

/-- Demand does not grow, and no request is added to those at the transport. -/
structure AsksNoMore (L : Lane) (new : List Deed) (L' : Lane) : Prop where
  pulled : ∀ r, .pulled r ∉ new
  demand : L'.sub.demand.messages ≤ L.sub.demand.messages
  requests : L'.due.requests <:+ L.due.requests

theorem asksNoMore_refl (L : Lane) : L.AsksNoMore [] L :=
  ⟨fun _ h => (by cases h), Nat.le_refl _, List.suffix_refl _⟩

theorem AsksNoMore.trans {M : Lane} (h : L.AsksNoMore past M) (h' : M.AsksNoMore new L') :
    L.AsksNoMore (past ++ new) L' := by
  refine ⟨fun r hr => ?_, Nat.le_trans h'.demand h.demand, h'.requests.trans h.requests⟩
  rcases List.mem_append.1 hr with hr | hr
  · exact h.pulled r hr
  · exact h'.pulled r hr

/-- What the mode of a consumer lets its lane do. -/
structure Respects (m : Mode) (L : Lane) (new : List Deed) (L' : Lane) : Prop where
  leads : ∃ d, L'.sub.purpose = .continuous d ∧ m.Leads d.mode
  asks : m ≠ .active → L.AsksNoMore new L'
  calls : m = .closed → messagesCalled new = []

theorem mode_step {c : Continuous} (hp : L.sub.purpose = .continuous c)
    (step : Step calm L new L') :
    ∃ d, L'.sub.purpose = .continuous d ∧ c.mode.Leads d.mode := by
  cases step with
  | count e n purpose =>
    cases hp.symm.trans purpose
    exact ⟨_, rfl, Or.inl rfl⟩
  | fetch f g due due' purpose => cases hp.symm.trans purpose
  | drain e d purpose drains =>
    cases hp.symm.trans purpose
    obtain ⟨hm, rfl⟩ := Continuous.drain?_eq_some drains
    exact ⟨_, rfl, Or.inr (Or.inl ⟨hm, rfl⟩)⟩
  | stop =>
    refine ⟨c.close, ?_, Or.inr (Or.inr rfl)⟩
    show L.sub.stopped.purpose = _
    unfold Subscription.stopped
    rw [hp]
  | _ => exact ⟨c, hp, Or.inl rfl⟩

/-- No request follows on a frame that is taken in. -/
theorem pulled_took (s : Subscription) (f : Frame) (r : PullRequest) :
    .pulled r ∉ Deed.took f :: s.hears f := by
  intro hr
  rcases List.mem_cons.1 hr with hr | hr
  · cases hr
  · rcases Subscription.told_or_called_of_hears hr with
      ⟨st, hn | hn⟩ | ⟨m, kept, _, hn, _⟩ <;> cases hn

theorem asksNoMore_step {c : Continuous} (hp : L.sub.purpose = .continuous c)
    (hm : c.mode ≠ .active) (step : Step calm L new L') : L.AsksNoMore new L' := by
  cases step with
  | take f rest now opened worker next =>
    refine ⟨pulled_took L.sub f, ?_, List.suffix_refl _⟩
    show (L.sub.tracker.account now f).demand.messages ≤ _
    rw [Demand.demand_account]
    exact Demand.messages_take_le_self _ f
  | pull r t due opened wants goes =>
    unfold Subscription.Wants at wants
    rw [hp] at wants
    dsimp only at wants
    rw [Continuous.refill?_of_not_active hm] at wants
    cases wants
  | send f due reading fair requests =>
    exact ⟨fun r hr => (by cases List.mem_singleton.1 hr), Nat.le_refl _, requests⟩
  | lose f due fair requests =>
    exact ⟨fun r hr => (by cases List.mem_singleton.1 hr), Nat.le_refl _, requests⟩
  | ease due eases => exact ⟨fun r hr => (by cases hr), Nat.le_refl _, eases.requests⟩
  | stop =>
    refine ⟨fun r hr => (by cases hr), ?_, List.suffix_refl _⟩
    exact Nat.le_of_eq (congrArg (·.demand.messages) (Subscription.tracker_stopped L.sub))
  | inject | alarm | read | miss | drained =>
    exact ⟨fun r hr => (by cases List.mem_singleton.1 hr), Nat.le_refl _, List.suffix_refl _⟩
  | _ => exact ⟨fun r hr => (by cases hr), Nat.le_refl _, List.suffix_refl _⟩

theorem calls_step {c : Continuous} (hp : L.sub.purpose = .continuous c) (hm : c.mode = .closed)
    (step : Step calm L new L') : messagesCalled new = [] := by
  cases step with
  | take f rest now opened worker next =>
    refine List.filterMap_eq_nil_iff.2 fun d hd => ?_
    rcases List.mem_cons.1 hd with rfl | hd
    · rfl
    · rcases Subscription.told_or_called_of_hears hd with
        ⟨st, rfl | rfl⟩ | ⟨m, kept, e, _, _, he, hopen⟩
      · rfl
      · rfl
      · cases hp.symm.trans he
        exact absurd hm hopen
  | _ => rfl

theorem respects_run {c : Continuous} (hp : L.sub.purpose = .continuous c)
    (run : Run calm L new L') : Respects c.mode L new L' := by
  induction run with
  | nil => exact ⟨⟨c, hp, Or.inl rfl⟩, fun _ => asksNoMore_refl L, fun _ => rfl⟩
  | snoc _ step ih =>
    obtain ⟨d, hd, hleads⟩ := ih.leads
    obtain ⟨e, he, hnext⟩ := mode_step hd step
    refine ⟨⟨e, he, Mode.leads_trans hleads hnext⟩, fun hm => ?_, fun hm => ?_⟩
    · exact (ih.asks hm).trans (asksNoMore_step hd (hleads.not_active hm) step)
    · rw [messagesCalled_append, ih.calls hm, calls_step hd (hleads.closed hm) step]
      rfl

/-! ## Calls after a drain began -/

theorem calls_bounded_step (hk : Kept o past L) {c : Continuous}
    (hp : L.sub.purpose = .continuous c) (hm : c.mode ≠ .active) (step : Step true L new L') :
    (messagesCalled new).length + L'.sub.demand.messages ≤ L.sub.demand.messages := by
  have hless := (asksNoMore_step hp hm step).demand
  cases step with
  | take f rest now opened worker next =>
    have hopen : c.mode ≠ .closed := by
      intro hclosed
      rw [hk.shut c hp hclosed] at opened
      cases opened
    have hl := Fifo.toList_of_pop? next
    have hf : f.Honest := hk.covered.honest f (by rw [hl]; exact List.mem_cons_self)
    have henough := hk.covered.enough
    rw [hl, Broker.carried_cons] at henough
    have hd : (L.sub.takes now f).demand.messages = L.sub.demand.messages - f.weight := by
      rw [← Demand.messages_take_untracked hk.covered.untracked hf]
      exact congrArg Demand.messages (Demand.demand_account now f L.sub.tracker)
    have hcalls : (messagesOf [f]).length ≤ f.weight := by
      cases f with
      | message m => exact Nat.le_refl _
      | status s => exact Nat.zero_le _
    rw [messagesCalled_took hp hopen]
    show _ + (L.sub.takes now f).demand.messages ≤ _
    rw [hd]
    omega
  | _ =>
    refine Nat.le_trans (Nat.le_of_eq (Nat.zero_add _)) hless

theorem calls_bounded_run (ho : o.Fits) (hz : o.batchBytes = 0) (hk : Kept o past L)
    {c : Continuous} (hp : L.sub.purpose = .continuous c) (hm : c.mode ≠ .active)
    (run : Run true L new L') :
    (messagesCalled new).length + L'.sub.demand.messages ≤ L.sub.demand.messages := by
  induction run with
  | nil => exact Nat.le_of_eq (Nat.zero_add _)
  | snoc run step ih =>
    obtain ⟨d, hd, hleads⟩ := (respects_run hp run).leads
    have hstep := calls_bounded_step (kept_run ho hz hk run) hd (hleads.not_active hm) step
    rw [messagesCalled_append, List.length_append]
    omega

end Lane

namespace Exchange

variable {x : Exchange} {i : Nat} {s : Subscription} {c : Continuous}

/-- What the handler of a subscription took in. -/
def handledBy (x : Exchange) (i : Nat) : List (Nat × Message) :=
  x.handled.toList.filter fun p => p.1 = i

/-- A handler that is not called takes nothing in. -/
theorem kept_of_uncalled {past : List (Nat × Deed)} (h : messagesCalled (deedsOf i past) = []) :
    (past.filterMap keptOf).filter (fun p => p.1 = i) = [] := by
  refine List.filter_eq_nil_iff.2 fun q hq hi => ?_
  obtain ⟨p, hp, hk⟩ := List.mem_filterMap.1 hq
  unfold keptOf at hk
  split at hk
  · rename_i j m
    cases hk
    have hcalled : m ∈ messagesCalled (deedsOf i past) :=
      List.mem_filterMap.2
        ⟨.called m true, List.mem_map.2 ⟨_, List.mem_filter.2 ⟨hp, hi⟩, rfl⟩, rfl⟩
    rw [h] at hcalled
    cases hcalled
  · cases hk

/-- Once a drain has begun, the consumer is no longer active, and its demand is what it was. -/
theorem sub_drainBehind (hs : x.subs[i]? = some s) (hp : s.purpose = .continuous c)
    (grace : Span) : ∃ d : Continuous, (x.drainBehind i grace).subs[i]? =
      some { s with purpose := .continuous d } ∧ d.mode ≠ .active ∧ d.options = c.options := by
  unfold drainBehind beginDrain
  rw [hs]
  dsimp only
  rw [hp]
  dsimp only
  cases hd : c.drain? with
  | none =>
    refine ⟨c, ?_, Continuous.drain?_eq_none_iff.1 hd, rfl⟩
    rw [← hp]
    exact hs
  | some d =>
    obtain ⟨_, rfl⟩ := Continuous.drain?_eq_some hd
    refine ⟨{ c with mode := .draining }, ?_, fun hm => (by cases hm), rfl⟩
    dsimp only
    rw [show Exchange.subs _ = _ from congrArg Core.subs (core_callBehind _ _)]
    show (x.subs.modify i _)[i]? = _
    rw [Array.getElem?_modify, if_pos rfl, hs]
    rfl

/-- From one moment to a later one the consumer goes its way: its mode does not go back; once it
is not active, no request is recorded or published; once it is closed, its handler is not called. -/
structure Ages (x₁ : Exchange) (i : Nat) (s₁ : Subscription) (c₁ : Continuous) (past : List Deed)
    (x₂ : Exchange) : Prop where
  mode : ∃ s₂ c₂, x₂.subs[i]? = some s₂ ∧ s₂.purpose = .continuous c₂ ∧
    c₁.mode.Leads c₂.mode ∧ (c₁.mode ≠ .active → s₂.demand.messages ≤ s₁.demand.messages)
  recorded : c₁.mode ≠ .active → ∀ r, .pulled r ∉ past
  published : c₁.mode ≠ .active →
    x₂.transport.requests s₁.inbox <:+ x₁.transport.requests s₁.inbox
  called : c₁.mode = .closed → messagesCalled past = []
  handled : c₁.mode = .closed → x₂.handledBy i = x₁.handledBy i

theorem ages_of_since {x₁ x₂ : Exchange} {calm : Bool} {past : List (Nat × Deed)}
    (h₁ : Tame calm x₁) (h : Since calm x₁ past x₂) (hs : x₁.subs[i]? = some s)
    (hp : s.purpose = .continuous c) : Ages x₁ i s c (deedsOf i past) x₂ := by
  obtain ⟨f, _, hL⟩ := h₁.lane_of_sub hs
  obtain ⟨L₂, hL₂, hrun⟩ := h.run_of_lane hL
  obtain ⟨hs₂, _, hdue⟩ := lane_eq_some.1 hL₂
  have hresp := Lane.respects_run hp hrun
  have hinbox : L₂.sub.inbox = s.inbox := hrun.sameNames.inbox
  obtain ⟨d, hd, hleads⟩ := hresp.leads
  refine ⟨⟨L₂.sub, d, hs₂, hd, hleads, fun hm => (hresp.asks hm).demand⟩,
    fun hm => (hresp.asks hm).pulled, fun hm => ?_, hresp.calls, fun hm => ?_⟩
  · have hreq := (hresp.asks hm).requests
    rw [hdue, hinbox] at hreq
    exact hreq
  · unfold handledBy
    rw [h.handled, List.filter_append, kept_of_uncalled (hresp.calls hm), List.append_nil]

/-- The life of a continuous consumer goes one way, and is respected; and where it has no byte
budget and frames come from the broker alone, its handler is called at most as often after a drain
began as messages were outstanding then. -/
theorem ages_and_drains {t : Transport} (ht : IsNew t) (keeps : Bool) (capacity : Nat)
    (ms₁ ms₂ : List Move) (i : Nat) (s : Subscription) (c : Continuous) :
    let x := (start t keeps capacity).after ms₁
    x.subs[i]? = some s → s.purpose = .continuous c →
      Ages x i s c (deedsOf i (x.record ms₂)) (x.after ms₂) ∧
      ∀ l alive grace, t = .loopback (.start l alive) → c.options.batchBytes = 0 →
        (∀ m ∈ ms₁ ++ ms₂, m.Calm) →
          (messagesCalled (deedsOf i ((x.next (.drain i grace)).record ms₂))).length ≤
            s.demand.messages := by
  intro x hs hp
  have hloose := since_start false ht keeps capacity ms₁ fun hc => by cases hc
  refine ⟨ages_of_since hloose.toTame ((Since.refl hloose.toTame).after ms₂ fun hc => by cases hc)
    hs hp, ?_⟩
  rintro l alive grace rfl hz hms
  have hsince := since_start true (.loopback l alive) keeps capacity ms₁
    fun _ m hm => hms m (List.mem_append_left ms₂ hm)
  have hnext := hsince.next (.drain i grace) fun _ => trivial
  have hmore := (Since.refl hnext.toTame).after ms₂
    fun _ m hm => hms m (List.mem_append_right ms₁ hm)
  obtain ⟨d, hsub, hmode, hopts⟩ := sub_drainBehind hs hp grace
  obtain ⟨f, _, hL⟩ := hnext.lane_of_sub hsub
  obtain ⟨L₀, hfresh, hrun⟩ := hnext.fresh_run hL
  obtain ⟨L₂, _, hrun₂⟩ := hmore.run_of_lane hL
  have halike : Lane.Alike L₀.sub.purpose (.continuous d) := hrun.alike
  obtain ⟨hplan, hkept⟩ := Lane.kept_fresh hfresh halike
  have hfits := Lane.fits_of_sized (hnext.sized rfl i _ hsub) rfl hplan
  have hbytes : d.options.batchBytes = 0 := by rw [hopts, hz]
  have hbound := Lane.calls_bounded_run hfits hbytes (Lane.kept_run hfits hbytes hkept hrun) rfl
    hmode hrun₂
  exact Nat.le_trans (Nat.le_add_right _ _) hbound

/-- A second message comes in while the drain is on, and stays with the broker. -/
def drainThenMore : List Move :=
  [Move.publish hello, .publish hello] ++ List.replicate 9 (Move.turn .broker) ++
    [Move.turn (.worker 0), .turn (.worker 0)]

theorem calls_drainThenMore :
    let x := (start (.loopback (.start .default true)) true 4).after [.consume single .plain]
    ∃ s c, x.subs[0]? = some s ∧ s.purpose = .continuous c ∧ s.demand.messages = 1 ∧
      (messagesCalled (deedsOf 0 ((x.next (.drain 0 .zero)).record drainThenMore))).length = 1 ∧
      Ages x 0 s c (deedsOf 0 (x.record drainThenMore)) (x.after drainThenMore) ∧
      (messagesCalled (deedsOf 0 ((x.next (.drain 0 .zero)).record drainThenMore))).length ≤
        s.demand.messages := by
  intro x
  have hterms : (x.subs[0]?).bind (fun s => s.purpose.continuous?.map
      fun c => (s.demand.messages, c.options.batchBytes)) = some (1, 0) := by decide +kernel
  have hcalled : (messagesCalled (deedsOf 0
      ((x.next (.drain 0 .zero)).record drainThenMore))).length = 1 := by decide +kernel
  have hcalm : ∀ m ∈ [.consume single .plain] ++ drainThenMore, m.Calm := by
    have hfits : single.Fits := ⟨by decide, by decide⟩
    simp [drainThenMore, Move.Calm, hfits]
  obtain ⟨s, hs, hc⟩ := Option.bind_eq_some_iff.1 hterms
  obtain ⟨c, hp, hc⟩ := Option.map_eq_some_iff.1 hc
  rw [Purpose.continuous?_eq_some] at hp
  obtain ⟨hm, hz⟩ := Prod.mk.inj hc
  obtain ⟨hages, hdrain⟩ := ages_and_drains (.loopback .default true) true 4
    [.consume single .plain] drainThenMore 0 s c hs hp
  exact ⟨s, c, hs, hp, hm, hcalled, hages, hdrain .default true .zero rfl hz hcalm⟩

end Exchange

end DemandFlow
