import DemandFlow.Proofs.Lane.Endings

/-
  The tasks of a subscription, as acts of its lane. When the worker takes in a frame, what the
  listener and the handler learn and the request that follows become known with it, in this order,
  as one step.
-/

namespace DemandFlow.Exchange

variable {calm : Bool} {x₀ x y z : Exchange} {past : List (Nat × Deed)}

/-! ## The alarm task -/

theorem Since.alarmStep (h : Since calm x₀ past x) (i : Nat) :
    Since calm x₀ past (x.alarmStep i).1 := by
  have hsaw : Since calm x₀ past (x.sawMonitor i) :=
    h.modifySub fun L _ => .watch L (L.sub.tracker.monitor.seen x.now) L.sub.alarms L.sub.watching
  have hend : ∀ {z : Exchange}, Since calm x₀ past z → Since calm x₀ past (z.endAlarm i) := by
    intro z hz
    unfold endAlarm
    refine Since.wakeAll (.clearTimer ?_ _) _
    exact hz.modifySub fun L _ => .watch L L.sub.tracker.monitor L.sub.alarms false
  unfold Exchange.alarmStep
  split
  · exact h
  · split
    · split
      · exact hend (h.note _)
      · exact hsaw.clearTimer _
      · exact hsaw.setTimer _ _
      · rename_i d _
        dsimp only
        refine Since.wake ?_ _
        exact (hsaw.note _).modifySub fun L _ =>
          .watch L L.sub.tracker.monitor (L.sub.alarms ++ [d]) L.sub.watching
      · exact hend h
    · exact h

/-! ## Frames -/

/-- The worker of a subscription is about to take in a frame. -/
structure Takes (x : Exchange) (i : Nat) (s : Subscription) (f : Frame) (rest : Fifo Frame) :
    Prop where
  sub : x.subs[i]? = some s
  opened : s.closed = false
  worker : s.worker = .reading
  frame : ∃ feed, x.feeds[s.feed]? = some feed ∧ feed.frames.pop? = some (f, rest)

/-- The frame is off the feed and in the accounts. -/
def managed (x : Exchange) (i : Nat) (s : Subscription) (f : Frame) (rest : Fifo Frame) :
    Exchange := (x.popped s.feed rest).account i s f

theorem core_managed (x : Exchange) (i : Nat) (s : Subscription) (f : Frame) (rest : Fifo Frame) :
    (x.managed i s f rest).core = { x.core with
      feeds := x.core.feeds.modify s.feed fun feed => { feed with frames := rest }
      subs := x.core.subs.modify i fun u => { u with tracker := s.tracker.account x.now f } } := by
  unfold managed
  rw [core_account, core_popped]
  rfl

theorem heard_managed (x : Exchange) (i : Nat) (s : Subscription) (f : Frame)
    (rest : Fifo Frame) : (x.managed i s f rest).heard = x.heard :=
  (skips_heard.account _ i s f).trans ((skips_heard.wakeIf _ _ _).trans (skips_heard.feeds x _))

/-- A frame is taken in, and others learn of it. -/
theorem Since.took (h : Since calm x₀ past x) {i : Nat} {s : Subscription} {f : Frame}
    {rest : Fifo Frame} (ht : Takes x i s f rest) {g : Subscription → Subscription}
    (hy : y.core = { x.core with
      feeds := x.core.feeds.modify s.feed fun feed => { feed with frames := rest }
      subs := x.core.subs.modify i g
      handled := y.handled })
    (hg : ∀ feed due, Lane.Run calm ⟨s.takes x.now f, feed, due⟩ [] ⟨g s, feed, due⟩)
    (hkeeps : y.keepsNotices = x.keepsNotices)
    (hnotices : y.notices = x.notices ++
      if x.keepsNotices then ((s.hears f).map (i, ·)).filterMap noticeOf else [])
    (hhandled : y.handled.toList =
      x.handled.toList ++ ((s.hears f).map (i, ·)).filterMap keptOf) :
    Since calm x₀ (past ++ (.took f :: s.hears f).map (i, ·)) y := by
  obtain ⟨hlt, _⟩ := Array.getElem?_eq_some_iff.1 ht.sub
  obtain ⟨feed, hfeed, hpop⟩ := ht.frame
  have hsf : s.feed = i := (h.subs i s ht.sub).1
  rw [hsf] at hy hfeed
  refine h.shift (g := g) (k := fun feed => { feed with frames := rest }) _ hy (fun L hL => ?_)
    (fun _ => hlt) hkeeps hnotices hhandled
  obtain ⟨hs, hf, _⟩ := lane_eq_some.1 hL
  cases ht.sub.symm.trans hs
  cases hfeed.symm.trans hf
  have hrun : Lane.Run calm L _ _ :=
    .single (.take L f rest x.now ht.opened ht.worker hpop)
  have h2 := hrun.trans (hg { L.feed with frames := rest } L.due)
  rwa [List.append_nil] at h2

theorem filterMap_told (i : Nat) (ns : List Notice) :
    ((ns.map Deed.told).map (i, ·)).filterMap noticeOf = ns ∧
      ((ns.map Deed.told).map (i, ·)).filterMap keptOf = [] := by
  induction ns with
  | nil => exact ⟨rfl, rfl⟩
  | cons n ns ih => exact ⟨congrArg (n :: ·) ih.1, ih.2⟩

/-- A frame of which only listeners learn. -/
theorem Since.took_told (h : Since calm x₀ past x) {i : Nat} {s : Subscription} {f : Frame}
    {rest : Fifo Frame} (ht : Takes x i s f rest) (ns : List Notice)
    (hc : y.core = { x.core with
      feeds := x.core.feeds.modify s.feed fun feed => { feed with frames := rest }
      subs := x.core.subs.modify i fun _ => s.takes x.now f })
    (hkeeps : y.keepsNotices = x.keepsNotices)
    (hnotices : y.notices = x.notices ++ if x.keepsNotices then ns else [])
    (hears : s.hears f = ns.map .told) :
    Since calm x₀ (past ++ (.took f :: s.hears f).map (i, ·)) y := by
  have hhand : y.handled = x.handled := congrArg Core.handled hc
  obtain ⟨htold, hkept⟩ := filterMap_told i ns
  refine h.took ht (by rw [hc, hhand]; rfl) (fun feed due => .nil _) hkeeps ?_ ?_
  · rw [hnotices, hears, htold]
  · rw [hhand, hears, hkept, List.append_nil]

/-- A worker that reads on after a frame. -/
theorem core_managed_reading {i : Nat} {s : Subscription} {f : Frame} {rest : Fifo Frame}
    (ht : Takes x i s f rest) (ha : s.after f = .reading) :
    (x.managed i s f rest).core = { x.core with
      feeds := x.core.feeds.modify s.feed fun feed => { feed with frames := rest }
      subs := x.core.subs.modify i fun _ => s.takes x.now f } := by
  rw [core_managed]
  refine congrArg (fun ss => { x.core with
    feeds := x.core.feeds.modify s.feed fun feed => { feed with frames := rest }, subs := ss }) ?_
  refine modify_congr fun u hu => ?_
  cases ht.sub.symm.trans hu
  unfold Subscription.takes
  rw [ha, ← ht.worker]

theorem sub_managed_reading {i : Nat} {s : Subscription} {f : Frame} {rest : Fifo Frame}
    (ht : Takes x i s f rest) (ha : s.after f = .reading) :
    (x.managed i s f rest).subs[i]? = some (s.takes x.now f) := by
  have hz := core_managed_reading ht ha
  rw [show Exchange.subs _ = _ from congrArg Core.subs hz, Array.getElem?_modify, if_pos rfl]
  show (x.subs[i]?).map _ = _
  rw [ht.sub]
  rfl

/-- A worker that holds what a frame leads to. -/
theorem core_managed_hold {i : Nat} {s : Subscription} {f : Frame} {rest : Fifo Frame}
    (ht : Takes x i s f rest) {d : Delivery} (ha : s.after f = .holding d)
    (hz : z.core = (x.managed i s f rest).core) :
    (z.hold i d).core = { x.core with
      feeds := x.core.feeds.modify s.feed fun feed => { feed with frames := rest }
      subs := x.core.subs.modify i fun _ => s.takes x.now f } := by
  unfold hold
  rw [core_modifySub, hz, core_managed]
  dsimp only
  rw [modify_modify]
  refine congrArg (fun ss => { x.core with
    feeds := x.core.feeds.modify s.feed fun feed => { feed with frames := rest }, subs := ss }) ?_
  refine modify_congr fun u hu => ?_
  cases ht.sub.symm.trans hu
  unfold Subscription.takes
  rw [ha]
  rfl

/-! ## Refills -/

/-- The requests that follow by themselves fit a word. -/
theorem fits_of_refill {s : Subscription} (hs : s.Sized) {c : Continuous}
    (hp : s.purpose = .continuous c) {d : Demand} {r : PullRequest} (hr : c.refill? d = some r) :
    r.Fits := by
  obtain ⟨hi, hrefill⟩ := hs c hp
  unfold Continuous.refill? at hr
  split at hr
  · unfold RefillPlan.next? at hr
    split at hr
    · rw [← Option.some.inj hr]
      exact hi
    · split at hr
      · rw [← Option.some.inj hr]
        exact hrefill
      · cases hr
  · cases hr
  · cases hr

/-- More is asked for if it is time to. -/
theorem Since.refill (h : Since calm x₀ past x) {i : Nat} {s : Subscription}
    (hs : x.subs[i]? = some s) (ho : s.closed = false) {c d : Continuous}
    (hp : s.purpose = .continuous d) (hd : d.refill? s.demand = c.refill? s.demand) :
    Since calm x₀ (past ++ ((c.refill? s.demand).toList.map Deed.pulled).map (i, ·))
      (x.refill i c) := by
  rcases refill_cases x i c with ⟨he, hr⟩ | ⟨u, r, hu, hr, hcase⟩
  · rw [he, hr s hs, Option.toList_none, List.map_nil, List.map_nil, List.append_nil]
    exact h
  · cases hs.symm.trans hu
    have hw : s.Wants r := by
      unfold Subscription.Wants
      rw [hp]
      exact hd.trans hr
    have hpull := (h.note (Journal.refilling s.inbox r)).pull hs ho hw fun hcalm =>
      fits_of_refill (h.sized hcalm i s hs) hp (hd.trans hr)
    rw [hr, Option.toList_some, List.map_cons, List.map_nil]
    rcases hcase with he | ⟨e, he⟩
    · exact he ▸ hpull
    · exact he ▸ hpull.note e

/-! ## Handlers -/

/-- The exchange once a handler has taken a message in. -/
def kept (x : Exchange) (i : Nat) (c : Continuous) (m : Message) : Exchange :=
  { x.modifySub i fun s => { s with purpose := .continuous { c with handled := c.handled + 1 } }
    with handled := x.handled.push (i, m) }

theorem core_kept (x : Exchange) (i : Nat) (c : Continuous) (m : Message) :
    (x.kept i c m).core = { x.core with
      subs := x.core.subs.modify i fun s =>
        { s with purpose := .continuous { c with handled := c.handled + 1 } }
      handled := x.core.handled.push (i, m) } := rfl

/-- A handler fails, or takes the message in and may publish another. -/
theorem handle_cases (x : Exchange) (i : Nat) (inbox : String) (c : Continuous) (m : Message) :
    (c.handler.fails m).isNone = false ∧ (∃ e, x.handle i inbox c m = x.note e) ∨
    (c.handler.fails m).isNone = true ∧ (x.handle i inbox c m = x.kept i c m ∨
      ∃ n, x.handle i inbox c m = ((x.kept i c m).publish n).1) := by
  unfold handle
  cases c.handler.fails m with
  | some cause => exact Or.inl ⟨rfl, _, rfl⟩
  | none =>
    refine Or.inr ⟨rfl, ?_⟩
    dsimp only
    split
    · exact Or.inl rfl
    · rename_i n _
      exact Or.inr ⟨n, rfl⟩

/-- A message is handed to the handler. -/
theorem Since.handle (h : Since calm x₀ past x) {i : Nat} {s : Subscription} {m : Message}
    {rest : Fifo Frame} (ht : Takes x i s (.message m) rest) {c : Continuous}
    (hp : s.purpose = .continuous c) (hm : c.mode ≠ .closed) :
    Since calm x₀ (past ++ (.took (.message m) :: s.hears (.message m)).map (i, ·))
      ((x.managed i s (.message m) rest).handle i s.inbox c m) := by
  have hafter : s.after (.message m) = .reading := by
    unfold Subscription.after
    rw [hp]
  have hears : s.hears (.message m) = [.called m (c.handler.fails m).isNone] := by
    unfold Subscription.hears
    rw [show Intake.ofFrame (.message m) = .message m from rfl, hp]
    exact if_neg hm
  have hz := core_managed_reading ht hafter
  have hh := heard_managed x i s (.message m) rest
  have hnotices : x.notices = x.notices ++
      if x.keepsNotices then ((s.hears (.message m)).map (i, ·)).filterMap noticeOf else [] := by
    have hnone : ((s.hears (.message m)).map (i, ·)).filterMap noticeOf = [] := by
      rw [hears]
      rfl
    rw [hnone, ite_self, List.append_nil]
  rcases handle_cases (x.managed i s (.message m) rest) i s.inbox c m with
    ⟨hf, e, he⟩ | ⟨hf, hcase⟩
  · rw [he]
    have hhand : (x.managed i s (.message m) rest).handled = x.handled := congrArg Core.handled hz
    refine note ?_ e
    refine h.took ht (g := fun _ => s.takes x.now (.message m)) (by rw [hz, hhand]; rfl)
      (fun _ _ => .nil _) (congrArg Prod.fst hh) ((congrArg Prod.snd hh).trans hnotices) ?_
    rw [hears, hf, hhand]
    exact (List.append_nil _).symm
  · have hkept : Since calm x₀
        (past ++ (.took (.message m) :: s.hears (.message m)).map (i, ·))
        ((x.managed i s (.message m) rest).kept i c m) := by
      refine h.took ht (g := fun _ => { s.takes x.now (.message m) with
        purpose := .continuous { c with handled := c.handled + 1 } }) ?_ (fun feed due => ?_)
        (congrArg Prod.fst hh) ((congrArg Prod.snd hh).trans hnotices) ?_
      · rw [core_kept, hz]
        dsimp only
        rw [modify_modify]
        unfold kept
        rw [show Exchange.handled _ = _ from congrArg Core.handled hz]
        rfl
      · exact .single (.count ⟨s.takes x.now (.message m), feed, due⟩ c (c.handled + 1) hp)
      · rw [hears, hf]
        have hhand : (x.managed i s (.message m) rest).handled = x.handled :=
          congrArg Core.handled hz
        unfold kept
        dsimp only
        rw [hhand, Array.toList_push]
        rfl
    rcases hcase with he | ⟨n, he⟩
    · rw [he]
      exact hkept
    · rw [he]
      exact hkept.publish n

/-! ## The worker -/

theorem map_frameDeeds (i : Nat) (s : Subscription) (f : Frame) (past : List (Nat × Deed)) :
    past ++ (s.frameDeeds f).map (i, ·) =
      past ++ (.took f :: s.hears f).map (i, ·) ++
        ((s.asks f).toList.map Deed.pulled).map (i, ·) := by
  unfold Subscription.frameDeeds
  rw [List.map_append, List.append_assoc]

/-- What the subscription is once its handler is done with a message. -/
theorem sub_handle {i : Nat} {s : Subscription} {m : Message} {rest : Fifo Frame}
    (ht : Takes x i s (.message m) rest) {c : Continuous} (hp : s.purpose = .continuous c) :
    ∃ u d, ((x.managed i s (.message m) rest).handle i s.inbox c m).subs[i]? = some u ∧
      u.inbox = s.inbox ∧ u.closed = false ∧ u.purpose = .continuous d ∧ u.demand = s.demand.take (.message m) ∧
        ∀ e, d.refill? e = c.refill? e := by
  have hafter : s.after (.message m) = .reading := by
    unfold Subscription.after
    rw [hp]
  have hsub := sub_managed_reading ht hafter
  have hkept : ((x.managed i s (.message m) rest).kept i c m).subs[i]? =
      some { s.takes x.now (.message m) with
        purpose := .continuous { c with handled := c.handled + 1 } } := by
    show ((x.managed i s (.message m) rest).subs.modify i _)[i]? = _
    rw [Array.getElem?_modify, if_pos rfl, hsub]
    rfl
  rcases handle_cases (x.managed i s (.message m) rest) i s.inbox c m with
    ⟨_, e, he⟩ | ⟨_, he | ⟨n, he⟩⟩
  · rw [he]
    exact ⟨_, c, hsub, rfl, ht.opened, hp, rfl, fun _ => rfl⟩
  · rw [he]
    exact ⟨_, _, hkept, rfl, ht.opened, rfl, rfl, fun _ => rfl⟩
  · rw [he, subs_publish]
    exact ⟨_, _, hkept, rfl, ht.opened, rfl, rfl, fun _ => rfl⟩

theorem asks_of_not_reacts {s : Subscription} {f : Frame} (h : f.reacts = false) :
    s.asks f = none := by
  unfold Subscription.asks
  rw [h]
  cases s.purpose <;> rfl

theorem after_of_none {s : Subscription} {f : Frame}
    (h : (Intake.ofFrame f).delivery? = none) : s.after f = .reading := by
  unfold Subscription.after
  rw [h]
  cases s.purpose <;> rfl

theorem notices_notify_of (h : z.heard = x.heard) (n : Notice) :
    (z.notify n).notices = x.notices ++ if x.keepsNotices then [n] else [] := by
  have hk : z.keepsNotices = x.keepsNotices := congrArg Prod.fst h
  have hn : z.notices = x.notices := congrArg Prod.snd h
  rw [notices_notify, hk, hn]

namespace Since

/-- A frame after which the worker reads on, and nothing is asked for. -/
theorem frame_reading (h : Since calm x₀ past x) {i : Nat} {s : Subscription} {f : Frame}
    {rest : Fifo Frame} (ht : Takes x i s f rest) (ns : List Notice)
    (hc : y.core = (x.managed i s f rest).core) (hkeeps : y.keepsNotices = x.keepsNotices)
    (hnotices : y.notices = x.notices ++ if x.keepsNotices then ns else [])
    (hears : s.hears f = ns.map .told) (ha : s.after f = .reading) (hn : s.asks f = none) :
    Since calm x₀ (past ++ (s.frameDeeds f).map (i, ·)) y := by
  rw [map_frameDeeds, hn]
  have hs := h.took_told ht ns (hc.trans (core_managed_reading ht ha)) hkeeps hnotices hears
  rwa [Option.toList_none, List.map_nil, List.map_nil, List.append_nil]

/-- A frame that leads to a delivery, for which nothing is asked. -/
theorem frame_held (h : Since calm x₀ past x) {i : Nat} {s : Subscription} {f : Frame}
    {rest : Fifo Frame} (ht : Takes x i s f rest) (ns : List Notice) {d : Delivery}
    (hc : z.core = (x.managed i s f rest).core) (hkeeps : z.keepsNotices = x.keepsNotices)
    (hnotices : z.notices = x.notices ++ if x.keepsNotices then ns else [])
    (hears : s.hears f = ns.map .told) (ha : s.after f = .holding d) (hn : s.asks f = none) :
    Since calm x₀ (past ++ (s.frameDeeds f).map (i, ·)) (z.hold i d) := by
  rw [map_frameDeeds, hn]
  have hs := h.took_told ht ns (core_managed_hold ht ha hc) hkeeps hnotices hears
  rwa [Option.toList_none, List.map_nil, List.map_nil, List.append_nil]

/-- A message for a continuous consumer. -/
theorem message (h : Since calm x₀ past x) {i : Nat} {s : Subscription} {m : Message}
    {rest : Fifo Frame} (ht : Takes x i s (.message m) rest) {c : Continuous}
    (hp : s.purpose = .continuous c) :
    Since calm x₀ (past ++ (s.frameDeeds (.message m)).map (i, ·))
      ((x.managed i s (.message m) rest).handleMessage i s.inbox c m).1 := by
  have hasks : s.asks (.message m) = c.refill? (s.demand.take (.message m)) := by
    unfold Subscription.asks
    rw [hp]
    rfl
  rw [map_frameDeeds, hasks]
  cases hm : c.mode with
  | closed =>
    have hears : s.hears (.message m) = [] := by
      unfold Subscription.hears
      rw [show Intake.ofFrame (.message m) = .message m from rfl, hp]
      exact if_pos hm
    have hafter : s.after (.message m) = .reading := by
      unfold Subscription.after
      rw [hp]
    have hz := core_managed_reading ht hafter
    have hh := heard_managed x i s (.message m) rest
    rw [Continuous.refill?_of_not_active (by rw [hm]; simp)]
    have hs := h.took_told ht [] hz (congrArg Prod.fst hh)
      ((congrArg Prod.snd hh).trans (by rw [ite_self]; exact (List.append_nil _).symm)) hears
    have hsub := sub_managed_reading ht hafter
    have hend := hs.endWorker hsub fun L hL => by
      have he := Option.some.inj (hsub.symm.trans (lane_eq_some.1 hL).1)
      exact Or.inr (Or.inr ⟨c, by rw [← he]; exact hp, hm⟩)
    rw [Option.toList_none, List.map_nil, List.map_nil, List.append_nil]
    unfold handleMessage
    rw [hm]
    exact hend
  | active | draining =>
    have hs := h.handle ht hp (by rw [hm]; simp)
    obtain ⟨u, d, hu, _, huc, hup, hud, hd⟩ := sub_handle ht hp
    have hr := hs.refill hu huc (c := c) hup (hd _)
    rw [hud] at hr
    unfold handleMessage
    rw [hm]
    exact hr

/-- The end of a batch for a continuous consumer. -/
theorem terminus (h : Since calm x₀ past x) {i : Nat} {s : Subscription} {f : Frame}
    {rest : Fifo Frame} (ht : Takes x i s f rest) {st : Status}
    (hk : Intake.ofFrame f = .terminus st) {c : Continuous} (hp : s.purpose = .continuous c) :
    Since calm x₀ (past ++ (s.frameDeeds f).map (i, ·))
      ((x.managed i s f rest).handleTerminus i s.inbox c st) := by
  have hh := heard_managed x i s f rest
  have hafter : s.after f = .reading := by
    unfold Subscription.after
    rw [hp]
  unfold Exchange.handleTerminus
  cases hl : st.isTooLarge with
  | true =>
    have hasks : s.asks f = none := asks_of_not_reacts (by
      unfold Frame.reacts
      rw [hk]
      dsimp only
      rw [hl]
      rfl)
    have hears : s.hears f = [.error s.inbox st].map .told := by
      unfold Subscription.hears
      rw [hk, hp]
      exact if_pos hl
    rw [if_pos rfl]
    exact h.frame_reading ht _ (core_notify _ _)
      ((keepsNotices_notify _ _).trans (congrArg Prod.fst hh))
      (notices_notify_of hh _) hears hafter hasks
  | false =>
    have hreacts : f.reacts = true := by
      unfold Frame.reacts
      rw [hk]
      dsimp only
      rw [hl]
      rfl
    have hasks : s.asks f = c.refill? (s.demand.take f) := by
      unfold Subscription.asks
      rw [hp]
      exact if_pos hreacts
    have hears : s.hears f = [] := by
      unfold Subscription.hears
      rw [hk, hp]
      exact if_neg (ne_true_of_eq_false hl)
    rw [if_neg Bool.false_ne_true, map_frameDeeds, hasks]
    have hs := (h.took_told ht [] (core_managed_reading ht hafter) (congrArg Prod.fst hh)
      ((congrArg Prod.snd hh).trans (by rw [ite_self]; exact (List.append_nil _).symm)) hears).note
        (Journal.batchEnded s.inbox st)
    have hdemand : (s.takes x.now f).demand = s.demand.take f :=
      Demand.demand_account x.now f s.tracker
    have hr := hs.refill (sub_managed_reading ht hafter) ht.opened (c := c) hp rfl
    rw [hdemand] at hr
    exact hr

/-- The worker takes in a frame. -/
theorem takeFrame (h : Since calm x₀ past x) {i : Nat} {s : Subscription} {f : Frame}
    {rest : Fifo Frame} (ht : Takes x i s f rest) :
    Since calm x₀ (past ++ (s.frameDeeds f).map (i, ·))
      ((x.popped s.feed rest).takeFrame i s f).1 := by
  have hh := heard_managed x i s f rest
  have hkeeps : (x.managed i s f rest).keepsNotices = x.keepsNotices := congrArg Prod.fst hh
  have hsame : (x.managed i s f rest).notices =
      x.notices ++ if x.keepsNotices then [] else [] := by
    rw [ite_self, List.append_nil]
    exact congrArg Prod.snd hh
  unfold Exchange.takeFrame
  dsimp only
  rw [show (x.popped s.feed rest).account i s f = x.managed i s f rest from rfl]
  cases hk : Intake.ofFrame f with
  | heartbeat =>
    refine h.frame_reading ht [] rfl hkeeps hsame ?_ ?_ ?_
    · unfold Subscription.hears
      rw [hk]
      rfl
    · exact after_of_none (by rw [hk]; rfl)
    · exact asks_of_not_reacts (by unfold Frame.reacts; rw [hk])
  | warning st =>
    refine h.frame_reading ht [.warning s.inbox st] (core_notify _ _)
      ((keepsNotices_notify _ _).trans hkeeps) (notices_notify_of hh _) ?_ ?_ ?_
    · unfold Subscription.hears
      rw [hk]
      rfl
    · exact after_of_none (by rw [hk]; rfl)
    · exact asks_of_not_reacts (by unfold Frame.reacts; rw [hk])
  | message m =>
    obtain rfl := Intake.ofFrame_eq_message_iff.1 hk
    cases hp : s.purpose with
    | continuous c => exact h.message ht hp
    | manual | fetch g due =>
      refine h.frame_held ht [] rfl hkeeps hsame ?_ ?_ ?_
      · unfold Subscription.hears
        rw [hk, hp]
        rfl
      · unfold Subscription.after
        rw [hk, hp]
        rfl
      · unfold Subscription.asks
        rw [hp]
  | terminus st =>
    cases hp : s.purpose with
    | continuous c => exact h.terminus ht hk hp
    | manual | fetch g due =>
      refine h.frame_held ht [] rfl hkeeps hsame ?_ ?_ ?_
      · unfold Subscription.hears
        rw [hk, hp]
        rfl
      · unfold Subscription.after
        rw [hk, hp]
        rfl
      · unfold Subscription.asks
        rw [hp]
  | error st =>
    have hears : s.hears f = [.error s.inbox st].map .told := by
      unfold Subscription.hears
      rw [hk]
      rfl
    have hasks : s.asks f = none := asks_of_not_reacts (by unfold Frame.reacts; rw [hk])
    have hnoted : ((x.managed i s f rest).note (Journal.fatalStatus s.inbox st)).heard =
        x.heard := hh
    cases hp : s.purpose with
    | continuous c =>
      refine h.frame_reading ht _ (core_notify _ _) ((keepsNotices_notify _ _).trans hkeeps)
        (notices_notify_of hnoted (.error s.inbox st)) hears ?_ hasks
      unfold Subscription.after
      rw [hp]
    | manual | fetch g due =>
      refine h.frame_held ht _ (core_notify _ _) ((keepsNotices_notify _ _).trans hkeeps)
        (notices_notify_of hnoted (.error s.inbox st)) hears ?_ hasks
      unfold Subscription.after
      rw [hk, hp]
      rfl

/-- A consumer goes on reading after an alarm, and others hold it. -/
theorem core_takeAlarm {i : Nat} {s : Subscription} (hs : x.subs[i]? = some s)
    (hw : s.worker = .reading) (d : Span) (alarms : List Span) :
    ((x.modifySub i fun s => { s with alarms := alarms }).takeAlarm i s d).core = { x.core with
      subs := x.core.subs.modify i fun _ =>
        { s with alarms := alarms, worker := s.alarmed d } } := by
  have hz : (((x.modifySub i fun s => { s with alarms := alarms }).count
      Counters.addAlarm).notify (.alarm s.inbox d)).core = { x.core with
        subs := x.core.subs.modify i fun s => { s with alarms := alarms } } := core_notify _ _
  unfold Exchange.takeAlarm
  dsimp only
  cases hp : s.purpose with
  | continuous c =>
    refine hz.trans (congrArg (fun ss => { x.core with subs := ss }) (modify_congr fun u hu => ?_))
    cases hs.symm.trans hu
    have hreads : s.alarmed d = s.worker := by
      unfold Subscription.alarmed
      rw [hp]
      exact hw.symm
    rw [hreads, ← hp]
  | manual | fetch g due =>
    unfold hold
    rw [core_modifySub, hz]
    dsimp only
    rw [modify_modify]
    refine congrArg (fun ss => { x.core with subs := ss }) (modify_congr fun u hu => ?_)
    cases hs.symm.trans hu
    unfold Subscription.alarmed
    rw [hp]
    dsimp only [Function.comp_apply, Subscription.hold]
    rw [hp]

/-- The worker takes in an alarm. -/
theorem takeAlarm (h : Since calm x₀ past x) {i : Nat} {s : Subscription}
    (hs : x.subs[i]? = some s) (ho : s.closed = false) (hw : s.worker = .reading) (d : Span)
    (alarms : List Span) :
    Since calm x₀ (past ++ [(i, .told (.alarm s.inbox d))])
      ((x.modifySub i fun s => { s with alarms := alarms }).takeAlarm i s d) := by
  obtain ⟨hlt, _⟩ := Array.getElem?_eq_some_iff.1 hs
  have hcore := core_takeAlarm hs hw d alarms
  have hhand := congrArg Core.handled hcore
  have hheard : ((x.modifySub i fun s => { s with alarms := alarms }).takeAlarm i s d).heard =
      (((x.modifySub i fun s => { s with alarms := alarms }).count
        Counters.addAlarm).notify (.alarm s.inbox d)).heard := by
    unfold Exchange.takeAlarm
    dsimp only
    cases s.purpose <;> rfl
  refine h.shift (k := id) (g := fun _ => { s with alarms := alarms, worker := s.alarmed d })
    [.told (.alarm s.inbox d)] ?_ (fun L hL => ?_) (fun _ => hlt)
    ((congrArg Prod.fst hheard).trans (keepsNotices_notify _ _))
    ((congrArg Prod.snd hheard).trans (notices_notify_of rfl _)) ?_
  · rw [hcore, modify_id, show (Exchange.takeAlarm _ i s d).handled = x.handled from hhand]
    rfl
  · obtain ⟨hsub, _, _⟩ := lane_eq_some.1 hL
    cases hs.symm.trans hsub
    exact .single (.alarm L d alarms ho hw)
  · exact (congrArg Array.toList hhand).trans (List.append_nil _).symm

/-! ## Turns of the worker -/

theorem readStep (h : Since calm x₀ past x) {i : Nat} {s : Subscription}
    (hs : x.subs[i]? = some s) (ho : s.closed = false) (hw : s.worker = .reading) :
    Since calm x₀ (past ++ (x.readDeeds s).map (i, ·)) (x.readStep i s).1 := by
  unfold Exchange.readStep readDeeds
  cases hf : x.feeds[s.feed]? with
  | none =>
    dsimp only [Option.map_none]
    rw [List.map_nil, List.append_nil]
    exact h
  | some feed =>
    dsimp only [Option.map_some]
    cases hp : feed.frames.pop? with
    | some q => exact h.takeFrame ⟨hs, ho, hw, feed, hf, hp⟩
    | none =>
      cases hwr : feed.writing with
      | true =>
        dsimp only
        rw [if_pos rfl]
        cases ha : s.alarms with
        | nil =>
          dsimp only
          rw [List.map_nil, List.append_nil]
          exact h
        | cons d rest => exact h.takeAlarm hs ho hw d rest
      | false =>
        dsimp only
        rw [if_neg Bool.false_ne_true, List.map_nil, List.append_nil]
        refine (h.note _).endWorker hs fun L hL => ?_
        obtain ⟨hsub, hfeed, _⟩ := lane_eq_some.1 hL
        cases hs.symm.trans hsub
        rw [(h.subs i L.sub hs).1] at hf
        cases hf.symm.trans hfeed
        exact Or.inr (Or.inl ⟨hw, Fifo.pop?_eq_none_iff.1 hp, hwr⟩)

theorem holdStep (h : Since calm x₀ past x) {i : Nat} {s : Subscription}
    (hs : x.subs[i]? = some s) (ho : s.closed = false) {d : Delivery} (hw : s.worker = .holding d) :
    Since calm x₀ past (x.holdStep i s d).1 := by
  unfold Exchange.holdStep
  split
  · refine wakeAll ?_ _
    refine h.modifySub fun L hL => ?_
    obtain ⟨hsub, _, _⟩ := lane_eq_some.1 hL
    cases hs.symm.trans hsub
    exact .enqueue L d ho hw
  · exact h

theorem workerStep (h : Since calm x₀ past x) (i : Nat) :
    Since calm x₀ (past ++ (x.workerDeeds i).map (i, ·)) (x.workerStep i).1 := by
  unfold Exchange.workerStep workerDeeds
  cases hs : x.subs[i]? with
  | none =>
    dsimp only
    rw [List.map_nil, List.append_nil]
    exact h
  | some s =>
    dsimp only
    cases ho : s.closed with
    | true =>
      rw [if_neg (by simp), List.map_nil, List.append_nil]
      have hend := h.endWorker hs fun L hL => by
        obtain ⟨hsub, _, _⟩ := lane_eq_some.1 hL
        cases hs.symm.trans hsub
        exact Or.inl ho
      split
      · exact h
      · exact hend
      · exact hend
    | false =>
      cases hw : s.worker with
      | ended =>
        rw [if_neg (by simp), List.map_nil, List.append_nil]
        exact h
      | holding d =>
        rw [if_neg (by simp), List.map_nil, List.append_nil]
        dsimp only
        rw [if_neg Bool.false_ne_true]
        exact h.holdStep hs ho hw
      | reading =>
        rw [if_pos ⟨rfl, rfl⟩]
        dsimp only
        rw [if_neg Bool.false_ne_true]
        exact h.readStep hs ho hw

end Since

end DemandFlow.Exchange
