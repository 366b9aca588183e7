import DemandFlow.Proofs.Fetch.Course

/-
  The rest of an errand: the worker and the caller, publications, and the clock. So what holds
  throughout is kept by every step; and where nothing can happen any more the pull waits for the
  clock.
-/

namespace DemandFlow

open Broker (Command WaitingPull weigh publishedBy)

namespace Errand

variable {T : Terms} {a b : Errand}

/-! ## The worker and the alarm task -/

theorem Sound.take (h : Sound T a) {f : Frame} {rest : List Frame} (stage : a.stage = .reading)
    (worker : a.worker = .reading) (next : a.frames = f :: rest) :
    Sound T { a with frames := rest, worker := .of f.delivery?, seen := a.now } := by
  have harr : { a with frames := rest, worker := .of f.delivery?, seen := a.now }.arriving =
      a.arriving := by
    unfold arriving
    rw [next, worker, Worker.holds_of]
    cases hf : f.delivery? with
    | none => simp [hf, Worker.holds]
    | some d => simp [hf, Worker.holds]
  refine { h with
    pull := fun p hp => (h.pull p hp).of_same rfl rfl
    reads := fun hs => ?_
    leaves := fun hs => absurd stage hs }
  obtain ⟨stop, hr⟩ := h.reads hs
  refine ⟨stop, { hr with
    standing := hr.standing.of_same rfl rfl id rfl rfl rfl rfl fun _ => rfl
    arrives := by rw [harr]; exact hr.arrives
    fair := by rw [harr]; exact hr.fair
    worker := ?_
    alert := fun d _ => Nat.le_add_right _ _
    beats := fun p d t hp hd ht => Or.inl ?_ }⟩
  · cases f.delivery? <;> exact fun hw => by cases hw
  · obtain ⟨t', ht', hle⟩ := (h.pull p hp).beats d hd
    obtain rfl := Option.some.inj (ht.symm.trans ht')
    exact hle

theorem Sound.enqueue (h : Sound T a) {d : Delivery} (stage : a.stage = .reading)
    (worker : a.worker = .holding d) :
    Sound T { a with deliveries := a.deliveries ++ [d], worker := .reading } := by
  have harr : { a with deliveries := a.deliveries ++ [d], worker := .reading }.arriving =
      a.arriving := by
    unfold arriving
    rw [worker]
    simp [Worker.holds]
  refine { h with
    pull := fun p hp => (h.pull p hp).of_same rfl rfl
    reads := fun hs => ?_
    leaves := fun hs => absurd stage hs }
  obtain ⟨stop, hr⟩ := h.reads hs
  exact ⟨stop, { hr with
    standing := hr.standing.of_same rfl rfl id rfl rfl rfl rfl id
    arrives := by rw [harr]; exact hr.arrives
    fair := by rw [harr]; exact hr.fair
    worker := fun hw => by cases hw }⟩

theorem Sound.quit (h : Sound T a) (stage : a.stage ≠ .reading) :
    Sound T { a with worker := .ended, frames := [] } :=
  { h with
    pull := fun p hp => (h.pull p hp).of_same rfl rfl
    reads := fun hs => absurd hs stage
    leaves := fun hs => { h.leaves hs with } }

theorem Sound.rest (h : Sound T a) : Sound T { a with watching := false } :=
  { h with
    pull := fun p hp => (h.pull p hp).of_same rfl rfl
    reads := fun hs =>
      have ⟨stop, hr⟩ := h.reads hs
      ⟨stop, { hr with standing := hr.standing.of_same rfl rfl id rfl rfl rfl rfl id }⟩
    leaves := fun hs => { h.leaves hs with } }

/-! ## The caller -/

theorem Sound.read (h : Sound T a) {m : Message} {rest : List Delivery}
    (stage : a.stage = .reading) (next : a.deliveries = .message m :: rest) :
    Sound T { a with deliveries := rest, got := a.got ++ [m] } := by
  have harr : a.arriving =
      .message m :: { a with deliveries := rest, got := a.got ++ [m] }.arriving := by
    unfold arriving
    rw [next]
    rfl
  refine { h with
    pull := fun p hp => (h.pull p hp).of_same rfl rfl
    reads := fun hs => ?_
    leaves := fun hs => absurd stage hs }
  obtain ⟨stop, hr⟩ := h.reads hs
  have he := hr.arrives
  rw [harr] at he
  refine ⟨stop, { hr with
    standing := hr.standing.of_same rfl rfl id rfl rfl rfl rfl id
    arrives := ?_
    fair := fun d hd => hr.fair d (by rw [harr]; exact List.mem_cons_of_mem _ hd)
    ready := fun hd => ?_ }⟩
  · rw [← he, List.map_append, List.append_assoc]
    rfl
  · -- nothing would be left to read
    rw [(hr.ready hd).1] at he
    have hstop := List.append_cancel_left he
    cases hr.standing with
    | asked _ | waits _ _ _ | filled _ _ _ => cases hstop
    | stopped _ _ _ => cases (List.cons.inj hstop).1

/-- A caller that leaves once everything that was handed out has come to it, while nothing more
can be handed out. -/
theorem Sound.leave (h : Sound T a) (ds : List Delivery) (hg : Granted T a)
    (hgot : a.got = a.given) (hover : IsOver T a) (hearly : a.now ≤ T.due)
    (hcalm : a.pull = none ∨ a.now = T.due ∧ a.unread = [] ∧ publishedBy a.queue = []) :
    Sound T ({ a with deliveries := ds }.leave T) := by
  have hpub : publishedBy ({ a with deliveries := ds }.leave T).queue = publishedBy a.queue :=
    (Broker.publishedBy_append _ _).trans (List.append_nil _)
  have hcalls : ({ a with deliveries := ds }.leave T).calls = [.unsubscribe T.inbox] := by
    have hc : ({ a with deliveries := ds }.leave T).calls =
        a.calls ++ [.unsubscribe T.inbox] := List.filter_append _ _
    rw [hc, hg.calls]
    rfl
  refine { h with
    order := by rw [hpub]; exact h.order
    pull := fun p hp => (h.pull p hp).of_same rfl rfl
    reads := fun hs => by cases hs
    leaves := fun _ => ⟨hgot, hover, hg.received, fun c hc => ?_, fun _ => ?_,
      hcalm.imp_right fun hc => ⟨hc.1, hc.2.1, hpub.trans hc.2.2, hg.known⟩, fun _ => hearly⟩ }
  · rw [hcalls] at hc
    exact List.mem_singleton.1 hc
  · rw [hcalls]
    exact List.mem_cons_self

/-- What the caller has got leads what was handed out. -/
theorem Reads.messages {stop : List (Option Message)} (hr : Reads T a stop) :
    a.got ++ (a.arriving.map Delivery.brings).filterMap id = a.given := by
  have he := congrArg (List.filterMap id) hr.arrives
  cases hr.standing with
  | asked _ | waits _ _ _ | filled _ _ _ | stopped _ _ _ => simpa using he

theorem Asked.not_full (h : Asked T a) : ¬T.options.Full a.given := by
  have := T.options.maxMessages_pos
  rw [h.given]
  rintro (hf | ⟨hb, hf⟩)
  · exact Nat.not_lt_of_le hf this
  · exact Nat.not_lt_of_le hf hb

/-- A batch that has reached a limit is all that is handed out. -/
theorem Sound.got_of_full (h : Sound T a) {stop : List (Option Message)} (hr : Reads T a stop)
    (full : T.options.Full a.got) : a.got = a.given := by
  have hmsgs := hr.messages
  have hlen := congrArg List.length hmsgs
  have hweigh := congrArg weigh hmsgs
  rw [List.length_append] at hlen
  have hadm := h.admits
  cases hrest : (a.arriving.map Delivery.brings).filterMap id with
  | nil => rw [← hmsgs, hrest, List.append_nil]
  | cons m ms =>
    rw [hrest] at hmsgs hlen hweigh
    rw [List.length_cons] at hlen
    have hpos := h.sizes m (h.leads.subset (by rw [← hmsgs]; simp))
    have hsum : weigh (a.got ++ m :: ms) = weigh a.got + (m.size + weigh ms) := by simp [weigh]
    rcases full with hf | ⟨hb, hf⟩
    · have := hadm.1
      omega
    · have := hadm.2 hb
      omega

theorem Sound.full (h : Sound T a) (stage : a.stage = .reading) (full : T.options.Full a.got) :
    Sound T (a.leave T) := by
  obtain ⟨stop, hr⟩ := h.reads stage
  have hgot := h.got_of_full hr full
  rw [hgot] at full
  have hover : IsOver T a := Or.inl (Or.inl full)
  cases hr.standing with
  | asked asked => exact absurd full asked.not_full
  | waits p pull _ => exact absurd full (h.pull p pull).not_full
  | filled pull _ granted =>
    exact h.leave a.deliveries granted hgot hover hr.early (Or.inl pull)
  | stopped pull _ granted =>
    exact h.leave a.deliveries granted hgot hover hr.early (Or.inl pull)

/-- The end of the batch comes last. -/
theorem Sound.ended (h : Sound T a) {s : Status} {rest : List Delivery}
    (stage : a.stage = .reading) (next : a.deliveries = .terminus s :: rest) :
    Sound T ({ a with deliveries := rest }.leave T) := by
  obtain ⟨stop, hr⟩ := h.reads stage
  have harr : a.arriving = .terminus s :: { a with deliveries := rest }.arriving := by
    unfold arriving
    rw [next]
    rfl
  have he := hr.arrives
  rw [harr, List.map_cons] at he
  have hnone : (none : Option Message) ∈ a.given.map some ++ stop := by
    rw [← he]
    exact List.mem_append_right _ List.mem_cons_self
  have hne : ∀ {P : Prop}, stop = [] → P := fun hs => by
    rw [hs, List.append_nil] at hnone
    simp at hnone
  cases hr.standing with
  | asked _ => exact hne rfl
  | waits _ _ _ => exact hne rfl
  | filled _ _ _ => exact hne rfl
  | stopped pull hover granted =>
    have hgot : a.got = a.given := by
      refine List.map_injective_iff.2 (fun _ _ => Option.some.inj) ?_
      rcases List.append_eq_append_iff.1 he with ⟨as, hgiven, has⟩ | ⟨cs, hgot, hcs⟩
      · cases as with
        | nil => rw [hgiven, List.append_nil]
        | cons d as =>
          have hmem : d ∈ a.given.map some := by rw [hgiven]; simp
          rw [← (List.cons.inj has).1] at hmem
          simp [Delivery.brings] at hmem
      · cases cs with
        | nil => rw [hgot, List.append_nil]
        | cons c cs =>
          have hlen := congrArg List.length hcs
          simp at hlen
    exact h.leave rest granted hgot hover hr.early (Or.inl pull)

theorem Sound.expire (ho : T.options.Timed) (h : Sound T a) (stage : a.stage = .reading)
    (late : T.due ≤ a.now) : Sound T (a.leave T) := by
  obtain ⟨stop, hr⟩ := h.reads stage
  obtain ⟨hgot, hpub, hrest⟩ := hr.ready late
  have hearly := hr.early
  cases hr.standing with
  | asked asked =>
    have hpos := ho.expires_pos
    have hlate : T.start + T.options.expires.nanos ≤ a.now := late
    have := asked.now
    omega
  | waits p pull granted =>
    have hunread : a.unread = [] := hrest.resolve_right fun hn => by
      rw [pull] at hn
      cases hn
    have horder := h.order
    rw [hunread, hpub, h.timely.resolve_right (by omega), List.append_nil, List.append_nil,
      List.append_nil] at horder
    exact h.leave a.deliveries granted hgot (Or.inr ⟨late, horder⟩) hearly
      (Or.inr ⟨Nat.le_antisymm hearly late, hunread, hpub⟩)
  | filled pull full granted =>
    exact h.leave a.deliveries granted hgot (Or.inl (Or.inl (Or.inl (Nat.le_of_eq full.symm))))
      hearly (Or.inl pull)
  | stopped pull isOver granted =>
    exact h.leave a.deliveries granted hgot isOver hearly (Or.inl pull)

theorem Sound.answer (h : Sound T a) (stage : a.stage = .leaving) :
    Sound T { a with stage := .answered } :=
  { h with
    pull := fun p hp => (h.pull p hp).of_same rfl rfl
    reads := fun hs => by cases hs
    leaves := fun _ => { h.leaves (by rw [stage]; exact fun hs => by cases hs) with
      early := fun hs => by cases hs } }

/-- What holds throughout an errand is kept by every step. -/
theorem Sound.step (ho : T.options.Timed) (h : Sound T a) (hs : Step T a b) : Sound T b := by
  cases hs with
  | store m rest idle next => exact h.store next
  | register rest idle next => exact h.register next
  | grant rest idle next known => exact h.grant ho next
  | forget rest idle next => exact h.forget next
  | settle clear handing done => exact h.settle done
  | refuse m ms p clear handing message pull refuses => exact h.refuse clear message pull refuses
  | hand m ms p clear handing message pull takes =>
    exact h.hand clear handing message pull takes
  | due p f idle pull due => exact h.due idle pull due
  | post f rest next known worker => exact h.post next
  | drop f rest next known => exact h.drop next known
  | lose f rest next known worker => exact h.lose worker
  | take f rest stage worker next => exact h.take stage worker next
  | enqueue d stage worker => exact h.enqueue stage worker
  | quit stage worker => exact h.quit stage
  | rest watching => exact h.rest
  | read m rest stage goesOn next => exact h.read stage next
  | full stage full => exact h.full stage full
  | ended s rest stage goesOn next => exact h.ended stage next
  | expire stage none late => exact h.expire ho stage late
  | answer stage worker watching => exact h.answer stage

/-! ## Publications and the clock -/

/-- A message is published at any instant but that at which the fetch expires. -/
theorem Sound.publish (h : Sound T a) {m : Message} (hm : 0 < m.size) (hn : a.now ≠ T.due) :
    Sound T (a.publish T m) := by
  have hpub : publishedBy (a.queue ++ [Command.publish m]) = publishedBy a.queue ++ [m] :=
    Broker.publishedBy_append _ _
  have hcalls : { a with queue := a.queue ++ [Command.publish m] }.calls = a.calls :=
    (List.filter_append _ _).trans (List.append_nil _)
  unfold Errand.publish
  split
  · rename_i hlt
    have hnone := h.timely.resolve_right (by omega)
    have horder := h.order
    have hover : IsOver T a →
        IsOver T { a with queue := a.queue ++ [Command.publish m], offered := a.offered ++ [m] } :=
      fun ho => Or.inl ((ho.resolve_right fun hd => absurd hd.1 (by omega)).mono [m])
    refine { h with
      order := ?_
      leads := h.leads.trans (List.prefix_append _ _)
      sizes := ?_
      pull := fun p hp => (h.pull p hp).of_same rfl rfl
      reads := fun hs => ?_
      leaves := fun hs => ?_ }
    · rw [hnone, List.append_nil] at horder ⊢
      rw [hpub, ← horder, List.append_assoc _ _ [m]]
    · intro n hn
      rcases List.mem_append.1 hn with hn | hn
      · exact h.sizes n hn
      · rw [List.mem_singleton.1 hn]
        exact hm
    · obtain ⟨stop, hr⟩ := h.reads hs
      exact ⟨stop, { hr with
        standing := hr.standing.of_same rfl rfl hover rfl rfl hcalls rfl id
        ready := fun hd => absurd hd (Nat.not_le_of_lt hlt) }⟩
    · have hl := h.leaves hs
      exact { hl with
        isOver := hover hl.isOver
        calls := fun c hc => hl.calls c (by rw [← hcalls]; exact hc)
        known := fun hk => (congrArg (Command.unsubscribe T.inbox ∈ ·) hcalls).mpr (hl.known hk)
        calm := Or.inl (hl.calm.resolve_right fun hc => hn hc.1) }
  · rename_i hlt
    refine { h with
      order := ?_
      timely := Or.inr (show T.due < a.now by omega)
      pull := fun p hp => (h.pull p hp).of_same rfl rfl
      reads := fun hs => ?_
      leaves := fun hs => ?_ }
    · rw [hpub, ← List.append_assoc, ← List.append_assoc, h.order]
    · obtain ⟨stop, hr⟩ := h.reads hs
      have := hr.early
      omega
    · have hl := h.leaves hs
      exact { hl with
        calls := fun c hc => hl.calls c (by rw [← hcalls]; exact hc)
        known := fun hk => (congrArg (Command.unsubscribe T.inbox ∈ ·) hcalls).mpr (hl.known hk)
        calm := Or.inl (hl.calm.resolve_right fun hc => hn hc.1) }

/-- Nothing can happen before time goes on. -/
structure IsQuiet (T : Terms) (a : Errand) : Prop where
  idle : a.IsIdle
  queue : a.queue = []
  reading : a.stage = .reading → a.frames = [] ∧ a.worker = .reading ∧ a.deliveries = [] ∧
    ¬T.options.Full a.got
  stays : a.stage ≠ .leaving

/-- When a caller that reads has nothing to do, its pull waits, and everything that was on offer
has come to it. -/
theorem Sound.waits_of_quiet (h : Sound T a) (hq : IsQuiet T a) (stage : a.stage = .reading) :
    ∃ p, a.pull = some p ∧ a.got = a.given ∧ a.unread = [] := by
  obtain ⟨stop, hr⟩ := h.reads stage
  obtain ⟨hframes, hworker, hdeliveries, hfull⟩ := hq.reading stage
  have harr : a.arriving = [] := by
    unfold arriving
    rw [hdeliveries, hworker, hframes, hq.idle.1]
    rfl
  have he := hr.arrives
  have hgot := hr.messages
  rw [harr] at he hgot
  rw [List.map_nil, List.filterMap_nil, List.append_nil] at hgot
  cases hr.standing with
  | asked asked =>
    have hcalls : a.calls = [] := by
      unfold calls
      rw [hq.queue]
      rfl
    rcases asked.calls with ⟨_, hc⟩ | ⟨_, hc⟩
    · rw [hcalls] at hc
      cases hc
    · rw [hcalls] at hc
      cases hc
  | waits p pull _ =>
    refine ⟨p, pull, hgot, ?_⟩
    rcases h.caught with hc | hc | hc
    · rw [hq.idle.2] at hc
      cases hc
    · exact hc
    · rw [pull] at hc
      cases hc
  | filled pull full _ =>
    exact absurd (Or.inl (by rw [hgot]; exact Nat.le_of_eq full.symm)) hfull
  | stopped _ _ _ =>
    have hmem : (none : Option Message) ∈ a.got.map some := by
      rw [List.map_nil, List.append_nil] at he
      rw [he]
      exact List.mem_append_right _ List.mem_cons_self
    simp at hmem

/-- The clock stops no later than the pull is due. -/
theorem Waits.deadline {p : WaitingPull} (h : Waits T a p) : ∃ t, p.deadline = some t ∧
    t ≤ T.due ∧ ∀ b, p.beatsAt = some b → t ≤ b := by
  have hd : ∃ t, p.deadline = some t := by
    unfold WaitingPull.deadline
    rw [h.expires]
    cases p.beatsAt with
    | none => exact ⟨_, rfl⟩
    | some b => exact ⟨_, rfl⟩
  obtain ⟨t, ht⟩ := hd
  exact ⟨t, ht, WaitingPull.earlier_le_left h.expires ht,
    fun b hb => WaitingPull.earlier_le_right hb ht⟩

theorem Sound.tick (h : Sound T a) (hq : IsQuiet T a) {now : Nat} (hn : a.now < now)
    (hpull : ∀ p t, a.pull = some p → p.deadline = some t → now ≤ t) :
    Sound T (a.tick now) := by
  refine { h with
    timely := h.timely.imp_right fun hlt => Nat.lt_trans hlt hn
    pull := fun p hp => { h.pull p hp with
      beats := fun d hd => by
        obtain ⟨t, ht, hle⟩ := (h.pull p hp).beats d hd
        exact ⟨t, ht, Nat.le_trans hle (Nat.add_le_add_right (Nat.le_of_lt hn) _)⟩ }
    reads := fun hs => ?_
    leaves := fun hs => ?_ }
  · obtain ⟨stop, hr⟩ := h.reads hs
    obtain ⟨p, hp, hgot, hunread⟩ := h.waits_of_quiet hq hs
    obtain ⟨rfl, hg⟩ := hr.standing.of_pull hp
    obtain ⟨t, ht, hdue, hbeat⟩ := (h.pull p hp).deadline
    have hnow := hpull p t hp ht
    refine ⟨[], { hr with
      standing := .waits p hp (hg.of_same rfl rfl rfl)
      early := Nat.le_trans hnow hdue
      alert := fun d hd => ?_
      ready := fun _ => ⟨hgot, congrArg publishedBy hq.queue, Or.inl hunread⟩ }⟩
    obtain ⟨b, hb, _⟩ := (h.pull p hp).beats d hd
    have hin := (hr.beats p d b hp hd hb).resolve_right fun hne =>
      hne (by rw [(hq.reading hs).1, hq.idle.1]; rfl)
    exact Nat.le_trans hnow (Nat.le_trans (hbeat b hb) hin)
  · have hl := h.leaves hs
    refine { hl with
      isOver := hl.isOver.imp_right fun ho => ⟨Nat.le_trans ho.1 (Nat.le_of_lt hn), ho.2⟩
      calm := Or.inl (hl.calm.resolve_right fun hc => ?_)
      early := fun hs => absurd hs hq.stays }
    have hin := hl.known hc.2.2.2
    unfold calls at hin
    rw [hq.queue] at hin
    cases hin

/-- There is an answer by the time the fetch has expired. -/
theorem Sound.early (h : Sound T a) (hs : a.stage ≠ .answered) : a.now ≤ T.due := by
  cases hst : a.stage with
  | reading =>
    obtain ⟨stop, hr⟩ := h.reads hst
    exact hr.early
  | leaving => exact (h.leaves (by rw [hst]; exact fun e => by cases e)).early hst
  | answered => exact absurd hst hs

end Errand

end DemandFlow
