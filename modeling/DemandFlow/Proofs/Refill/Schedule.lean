import DemandFlow.Proofs.Consume.Rest
import DemandFlow.Proofs.Exchange.Handed
import DemandFlow.Proofs.Refill.Dealings
import Mathlib.Data.List.Infix

/-
  The requests of an active consumer without a byte budget, on a transport that accepts requests,
  while it takes in messages and nothing else. `Scheduled` says at each moment that its dealings
  are the course of its plan, and that they are what the transport knows of it. One move either is
  no dealing of the consumer, or opens it, or is its worker's with one message.
-/

namespace DemandFlow.Exchange

open RefillPlan (leftAfter)

variable {o : ConsumeOptions} {x₀ x y : Exchange} {past new : List (Nat × Deed)} {i : Nat}

/-! ## The schedule -/

/-- The consumption of a subscription is on its course, and its requests were handed over: a
script keeps them by their inbox; a broker that nobody else asks has no others. -/
structure Scheduled (o : ConsumeOptions) (i : Nat) (past : List (Nat × Deed)) (x : Exchange) :
    Prop where
  course : ∀ s, x.subs[i]? = some s → ∃ ms, dealings (deedsOf i past) =
    (RefillPlan.ofOptions o).course ms ∧ s.demand = leftAfter o ms.length
  script : ∀ sc, x.transport = .scripted sc →
    (sc.pulls.filter fun p => p.1 = x.transport.inboxName (i + 1)).map Prod.snd =
      requestsMade (deedsOf i past)
  broker : ∀ l, x.transport = .loopback l → (∀ p ∈ past, ∀ r, p.2 = .pulled r → p.1 = i) →
    l.requested = (requestsMade (deedsOf i past)).map PullRequest.onWire

/-- What goes out in a step, for one inbox and in all, is what became known of a subscription. -/
structure Hands (i : Nat) (inbox : String) (new : List (Nat × Deed))
    (ps : List (String × PullRequest)) : Prop where
  own : (ps.filter fun p => p.1 = inbox).map Prod.snd = requestsMade (deedsOf i new)
  all : (∀ p ∈ new, ∀ r, p.2 = .pulled r → p.1 = i) →
    ps.map Prod.snd = requestsMade (deedsOf i new)

theorem hands_own (i : Nat) (inbox : String) {ds : List Deed} {rs : List PullRequest}
    (h : requestsMade ds = rs) : Hands i inbox (ds.map (i, ·)) (rs.map (inbox, ·)) := by
  rw [← h]
  refine ⟨?_, fun _ => ?_⟩
  · rw [deedsOf_self, List.filter_eq_self.2, List.map_map]
    · exact List.map_id _
    · intro p hp
      obtain ⟨r, _, rfl⟩ := List.mem_map.1 hp
      exact decide_eq_true rfl
  · rw [deedsOf_self, List.map_map]
    exact List.map_id _

/-- A step in which the subscription has no dealings hands over nothing for it. -/
theorem hands_of_carries (h : Tame false y) {ps : List (String × PullRequest)}
    (hc : Carries y new ps) (hd : dealings (deedsOf i new) = []) :
    Hands i (y.transport.inboxName (i + 1)) new ps := by
  have hnone : requestsMade (deedsOf i new) = [] := by
    rw [← requestsMade_dealings, hd]
    rfl
  rcases hc with rfl | ⟨j, s, r, hs, hp, rfl⟩
  · exact ⟨hnone.symm, fun _ => hnone.symm⟩
  · have hne : j ≠ i := by
      intro he
      subst he
      have hmem : Deed.pulled r ∈ dealings (deedsOf j new) :=
        List.mem_filter.2 ⟨List.mem_map.2 ⟨_, List.mem_filter.2 ⟨hp, decide_eq_true rfl⟩, rfl⟩, rfl⟩
      rw [hd] at hmem
      cases hmem
    refine ⟨?_, fun hall => absurd (hall _ hp r rfl) hne⟩
    rw [hnone, List.filter_cons_of_neg, List.filter_nil, List.map_nil]
    rw [decide_eq_true_eq, (h.subs j s hs).2]
    exact fun he => hne (Nat.succ.inj (y.transport.inboxName_injective he))

theorem pulled_before (h : ∀ p ∈ past ++ new, ∀ r, p.2 = .pulled r → p.1 = i) :
    (∀ p ∈ past, ∀ r, p.2 = .pulled r → p.1 = i) ∧ ∀ p ∈ new, ∀ r, p.2 = .pulled r → p.1 = i :=
  ⟨fun p hp => h p (List.mem_append_left _ hp), fun p hp => h p (List.mem_append_right _ hp)⟩

/-- The transport goes on by what was handed over. -/
theorem Scheduled.hand (h : Scheduled o i past x) {ps : List (String × PullRequest)}
    (hx : x.transport.Extends ps y.transport)
    (hh : Hands i (y.transport.inboxName (i + 1)) new ps)
    (hcourse : ∀ s, y.subs[i]? = some s → ∃ ms, dealings (deedsOf i (past ++ new)) =
      (RefillPlan.ofOptions o).course ms ∧ s.demand = leftAfter o ms.length) :
    Scheduled o i (past ++ new) y := by
  have hn := hx.names
  refine ⟨hcourse, fun sc hsc => ?_, fun l hl hall => ?_⟩
  · rw [hsc] at hx
    cases ht : x.transport with
    | loopback l =>
      rw [ht] at hx
      exact hx.elim
    | scripted sc₀ =>
      rw [ht] at hx
      have hpulls : sc.pulls = sc₀.pulls ++ ps := hx
      rw [hpulls, List.filter_append, List.map_append, hh.own, hn, h.script sc₀ ht, deedsOf_append,
        requestsMade_append]
  · rw [hl] at hx
    obtain ⟨hpast, hnew⟩ := pulled_before hall
    cases ht : x.transport with
    | scripted sc =>
      rw [ht] at hx
      exact hx.elim
    | loopback l₀ =>
      rw [ht] at hx
      have hreq : l.requested = l₀.requested ++ ps.map fun p => p.2.onWire := hx
      have hmap : ps.map (fun p => p.2.onWire) =
          (requestsMade (deedsOf i new)).map PullRequest.onWire := by
        rw [← hh.all hnew, List.map_map]
        rfl
      rw [hreq, h.broker l₀ ht hpast, hmap, deedsOf_append, requestsMade_append, List.map_append]

/-- A move without dealings, or of the clock. -/
theorem Scheduled.quiet (h : Scheduled o i past x) (hs : Since false x₀ past x) {m : Move}
    (hd : dealings (deedsOf i (x.deeds m)) = [])
    (hsub : ∀ s, (x.next m).subs[i]? = some s → ∃ u, x.subs[i]? = some u) :
    Scheduled o i (past ++ x.deeds m) (x.next m) := by
  have hnext := hs.next m fun hc => by cases hc
  have hone := (Since.refl hs.toTame).next m fun hc => by cases hc
  rw [List.nil_append] at hone
  have hcourse : ∀ s, (x.next m).subs[i]? = some s → ∃ ms,
      dealings (deedsOf i (past ++ x.deeds m)) = (RefillPlan.ofOptions o).course ms ∧
        s.demand = leftAfter o ms.length := by
    intro s' hs'
    obtain ⟨s, hsx⟩ := hsub s' hs'
    obtain ⟨ms, hcourse, hdem⟩ := h.course s hsx
    obtain ⟨f, _, hL⟩ := hs.lane_of_sub hsx
    obtain ⟨L', hL', hrun⟩ := hone.run_of_lane hL
    cases hs'.symm.trans (lane_eq_some.1 hL').1
    refine ⟨ms, ?_, (Lane.demand_run hrun hd).trans hdem⟩
    rw [deedsOf_append, dealings_append, hd, List.append_nil]
    exact hcourse
  by_cases hm : ∃ now, m = .clock now
  · obtain ⟨now, rfl⟩ := hm
    refine h.hand ?_ (hands_own i _ (requestsMade_append [] [])) hcourse
    rw [show (x.next (.clock now)).transport = x.transport from transport_ring x now]
    exact Transport.extends_refl _
  · obtain ⟨ps, hc, hw⟩ := Works.next x m fun now he => hm ⟨now, he⟩
    exact h.hand hw.extends (hands_of_carries hnext.toTame hc hd) hcourse

/-! ## The first request -/

/-- A subscription that is opened with a request is the next one, and for what it was opened
for. -/
theorem alike_openWith (h : Tame false x) {p : Purpose} (hp : Purpose.MayStart false p)
    {r : PullRequest} {s : Subscription}
    (hw : ∀ inbox feed now capacity, (Subscription.start inbox feed now capacity p).Wants r)
    (hi : x.subs.size ≤ i) (hs : (x.openWith p r).1.subs[i]? = some s) :
    i = x.subs.size ∧ Lane.Alike p s.purpose := by
  have hy := ((Since.refl h).openSub hp).toTame
  unfold openWith at hs
  rcases openSub_cases h p with ⟨hok, ho⟩ | ⟨⟨e, he⟩, _, hcore, _⟩
  · obtain ⟨now, capacity, room, hsubs, _⟩ := ho.added
    have hsize : (x.openSub p).1.subs.size = x.subs.size + 1 := by
      rw [hsubs, Array.size_push]
    have hsub : (x.openSub p).1.subs[x.subs.size]? = some (.start
        (x.transport.inboxName (x.subs.size + 1)) x.subs.size now capacity p) := by
      rw [hsubs, Array.getElem?_push, if_pos rfl]
    generalize x.openSub p = opened at hy hok hsub hsize hs
    obtain ⟨y, res⟩ := opened
    dsimp only at hok hy hsub hsize
    subst hok
    have hpull := (Since.refl hy).pull hsub rfl (hw _ _ _ _) (fun hc => by cases hc)
    have hkept : ∀ {z : Exchange}, Since false y [(x.subs.size, .pulled r)] z →
        z.subs.size = y.subs.size → z.subs[i]? = some s →
          i = x.subs.size ∧ Lane.Alike p s.purpose := by
      intro z hz hsz hzs
      obtain ⟨hlt, _⟩ := Array.getElem?_eq_some_iff.1 hzs
      obtain rfl : i = x.subs.size := by omega
      obtain ⟨f, _, hL⟩ := hy.lane_of_sub hsub
      obtain ⟨L, hL', hrun⟩ := hz.run_of_lane hL
      cases hzs.symm.trans (lane_eq_some.1 hL').1
      exact ⟨rfl, hrun.alike⟩
    have hsz : (y.pull x.subs.size r).1.subs.size = y.subs.size :=
      (Ensues.refl.pulled x.subs.size r).size
    dsimp only at hs
    split at hs
    · rename_i hy'
      rw [hy'] at hpull hsz
      refine hkept (hpull.dropSub _ true) ?_ hs
      rw [show Exchange.subs _ = _ from congrArg Core.subs (dropSub_cases _ _ true).1]
      exact Array.size_modify.trans hsz
    · rename_i hy'
      rw [hy'] at hpull hsz
      exact hkept hpull hsz hs
  · have hsubs : (x.openSub p).1.subs = x.subs := congrArg Core.subs hcore
    generalize x.openSub p = opened at he hsubs hs
    obtain ⟨y, res⟩ := opened
    dsimp only at he hsubs hs
    subst he
    dsimp only at hs
    obtain ⟨hlt, _⟩ := Array.getElem?_eq_some_iff.1 hs
    rw [hsubs] at hlt
    omega

/-- A new consumer asks for a full batch. -/
theorem Scheduled.consume (h : Scheduled o x.subs.size past x) (hs : Since false x₀ past x)
    (ha : x.transport.Accepts) (hb : o.Beats) (hf : o.Fits) (hz : o.batchBytes = 0)
    (hd : Handler) {s : Subscription}
    (hsub : (x.next (.consume o hd)).subs[x.subs.size]? = some s) :
    Scheduled o x.subs.size (past ++ x.deeds (.consume o hd)) (x.next (.consume o hd)) := by
  have hbefore : deedsOf x.subs.size past = [] := deedsOf_eq_nil hs.born (Nat.le_refl _)
  have hwork : Works none x [] (x.openSub (.continuous (.start o hd))).1 :=
    .opened (.continuous (.start o hd))
  have hsent := hwork.extends
  have hacc := accepts_openSub x (.continuous (.start o hd)) ha
  have hgo : o.initial.GoesOut := goesOut_next hb (d := .none) rfl
  change (x.openContinuous o hd).1.subs[x.subs.size]? = some s at hsub
  show Scheduled o x.subs.size (past ++ x.opening (.continuous (.start o hd)) o.initial)
    (x.openContinuous o hd).1
  unfold openContinuous openWith at hsub ⊢
  unfold opening
  rcases openSub_cases hs.toTame (.continuous (.start o hd)) with
    ⟨hok, ho⟩ | ⟨⟨e, he⟩, _, hcore, _⟩
  · obtain ⟨now, capacity, room, hsubs, _⟩ := ho.added
    have hnew : (x.openSub (.continuous (.start o hd))).1.subs[x.subs.size]? = some (.start
        (x.transport.inboxName (x.subs.size + 1)) x.subs.size now capacity
          (.continuous (.start o hd))) := by
      rw [hsubs, Array.getElem?_push, if_pos rfl]
    have hnames := hsent.names
    generalize x.openSub (.continuous (.start o hd)) = opened at hsent hacc hok hnew hnames hsub ⊢
    obtain ⟨y, res⟩ := opened
    dsimp only at hsent hacc hok hnew hnames
    subst hok
    obtain ⟨hpok, hpsent, u, hu, hdem⟩ := pull_of_accepts hacc hnew rfl hgo
    dsimp only at hsub ⊢
    generalize y.pull x.subs.size o.initial = pulled at hpok hpsent hu hsub ⊢
    obtain ⟨z, res⟩ := pulled
    dsimp only at hpok hpsent hu
    subst hpok
    dsimp only at hsub ⊢
    have hext : x.transport.Extends
        [(x.transport.inboxName (x.subs.size + 1), o.initial)] z.transport := hsent.trans hpsent
    refine h.hand hext ?_ fun v hv => ⟨[], ?_, ?_⟩
    · show Hands _ (z.transport.inboxName (x.subs.size + 1)) _ _
      rw [hext.names]
      exact hands_own x.subs.size _ (show requestsMade [.pulled o.initial] = [o.initial] from rfl)
    · rw [deedsOf_append, hbefore, List.nil_append]
      exact congrArg dealings (deedsOf_self _ [.pulled o.initial])
    · cases hv.symm.trans hu
      exact hdem.trans (RefillPlan.add_initial hf hz)
  · have hsubs : (x.openSub (.continuous (.start o hd))).1.subs = x.subs :=
      congrArg Core.subs hcore
    generalize x.openSub (.continuous (.start o hd)) = opened at he hsubs hsub
    obtain ⟨y, res⟩ := opened
    dsimp only at he hsubs
    subst he
    dsimp only at hsub
    obtain ⟨hlt, _⟩ := Array.getElem?_eq_some_iff.1 hsub
    rw [hsubs] at hlt
    omega

/-- What a move adds is on its course if it runs with the options. -/
theorem Scheduled.opening (h : Scheduled o i past x) (hs : Since false x₀ past x)
    (ha : x.transport.Accepts) (hb : o.Beats) (hf : o.Fits) (hz : o.batchBytes = 0)
    (hx : x.subs[i]? = none) {m : Move}
    (hr : ∀ s, (x.next m).subs[i]? = some s → s.RunsWith o) :
    Scheduled o i (past ++ x.deeds m) (x.next m) := by
  have hi : x.subs.size ≤ i := Array.getElem?_eq_none_iff.1 hx
  have hnext := hs.next m fun hc => by cases hc
  cases hy : (x.next m).subs[i]? with
  | none =>
    have hle : (x.next m).subs.size ≤ i := Array.getElem?_eq_none_iff.1 hy
    refine h.quiet hs (dealings_eq_nil fun p hp he => ?_) fun s hs' => ?_
    · have := hnext.born p (List.mem_append_right _ hp)
      omega
    · cases hy.symm.trans hs'
  | some s =>
    obtain ⟨c, hp, ho, _, _⟩ := hr s hy
    cases hm : m.mayOpen with
    | false =>
      obtain ⟨hlt, _⟩ := Array.getElem?_eq_some_iff.1 hy
      rw [size_next x hm] at hlt
      omega
    | true =>
      cases m with
      | manual =>
        have hy' : (x.openSub .manual).1.subs[i]? = some s := hy
        rcases openSub_cases hs.toTame .manual with ⟨_, hopens⟩ | ⟨_, _, hcore, _⟩
        · obtain ⟨now, capacity, room, hsubs, _⟩ := hopens.added
          rw [hsubs, Array.getElem?_push] at hy'
          split at hy'
          · cases hy'
            cases hp
          · cases hx.symm.trans hy'
        · rw [show (x.openSub .manual).1.subs = x.subs from congrArg Core.subs hcore] at hy'
          cases hx.symm.trans hy'
      | fetch st =>
        have hy' : (x.openFetch st).1.subs[i]? = some s := hy
        unfold openFetch at hy'
        split at hy'
        · cases hx.symm.trans hy'
        · rename_i f _
          obtain ⟨_, halike⟩ := alike_openWith (p := .fetch (.start f) (x.now + f.expires.nanos))
            hs.toTame (fun c hc => by cases hc) (fun _ _ _ _ => trivial) hi hy'
          rw [hp] at halike
          exact halike.elim
      | consume o' hd =>
        have hy' : (x.openWith (.continuous (.start o' hd)) o'.initial).1.subs[i]? = some s := by
          change (x.openContinuous o' hd).1.subs[i]? = some s at hy
          unfold openContinuous at hy
          split at hy
          · rename_i hw
            rw [hw]
            exact hy
          · rename_i hw
            rw [hw]
            exact hy
        obtain ⟨rfl, halike⟩ := alike_openWith hs.toTame
          (fun c hc => ⟨o', hd, (Purpose.continuous.inj hc).symm, fun hcalm => by cases hcalm⟩)
          (fun _ _ _ _ => rfl) hi hy'
        rw [hp] at halike
        obtain rfl : o = o' := ho.symm.trans halike.1
        exact h.consume hs ha hb hf hz hd hy
      | _ => cases hm

/-! ## A message -/

/-- A consumer asks for what is due. -/
theorem refill_of_accepts (h : x.transport.Accepts) {s : Subscription}
    (hs : x.subs[i]? = some s) (hc : s.closed = false) {c : Continuous}
    (hr : ∀ r, c.refill? s.demand = some r → r.GoesOut) :
    x.transport.Extends ((c.refill? s.demand).toList.map (s.inbox, ·)) (x.refill i c).transport ∧
      ∃ u, (x.refill i c).subs[i]? = some u ∧
        u.demand = Flow.plus s.demand (c.refill? s.demand) := by
  rcases refill_cases x i c with ⟨he, hn⟩ | ⟨u, r, hu, hd, hcase⟩
  · rw [he, hn s hs]
    exact ⟨Transport.extends_refl _, s, hs, rfl⟩
  · cases hs.symm.trans hu
    obtain ⟨_, hsent, hsub⟩ :=
      pull_of_accepts (x := x.note (Journal.refilling s.inbox r)) h hs hc (hr r hd)
    rw [hd]
    rcases hcase with he | ⟨e, he⟩
    · exact he ▸ ⟨hsent, hsub⟩
    · exact he ▸ ⟨hsent, hsub⟩

/-- A handler leaves the transport willing. -/
theorem accepts_handle (h : x.transport.Accepts) (i : Nat) (s : Subscription) (m : Message)
    (rest : Fifo Frame) (c : Continuous) :
    ((x.managed i s (.message m) rest).handle i s.inbox c m).transport.Accepts := by
  have hm : (x.managed i s (.message m) rest).transport.Accepts := by
    rw [show Exchange.transport _ = _ from congrArg Core.transport (core_managed x i s _ rest)]
    exact h
  have hk : ((x.managed i s (.message m) rest).kept i c m).transport.Accepts := by
    rw [show Exchange.transport _ = _ from congrArg Core.transport (core_kept _ i c m)]
    exact hm
  rcases handle_cases (x.managed i s (.message m) rest) i s.inbox c m with
    ⟨_, e, he⟩ | ⟨_, he | ⟨n, he⟩⟩
  · rw [he]
    exact hm
  · rw [he]
    exact hk
  · rw [he]
    exact accepts_publish _ n hk

/-- The worker takes in a message. -/
theorem Scheduled.message (h : Scheduled o i past x) (hs : Since false x₀ past x)
    (ha : x.transport.Accepts) (hb : o.Beats) (hf : o.Fits) (hz : o.batchBytes = 0)
    {s : Subscription} {m : Message} {rest : Fifo Frame} (ht : Takes x i s (.message m) rest)
    (hr : s.RunsWith o) (hd : x.workerDeeds i = s.frameDeeds (.message m))
    (hstep : (x.workerStep i).1 = ((x.popped s.feed rest).takeFrame i s (.message m)).1) :
    Scheduled o i (past ++ x.deeds (.turn (.worker i))) (x.next (.turn (.worker i))) := by
  obtain ⟨c, hp, rfl, hplan, hmode⟩ := hr
  obtain ⟨ms, hcourse, hdem⟩ := h.course s ht.sub
  have hasks : s.asks (.message m) = (RefillPlan.ofOptions c.options).dueWith (ms.length + 1) := by
    unfold Subscription.asks Continuous.refill?
    rw [hp]
    dsimp only
    rw [hmode, hplan, hdem, RefillPlan.next?_leftAfter hz]
    rfl
  have hafter : s.after (.message m) = .reading := by
    unfold Subscription.after
    rw [hp]
  obtain ⟨u, d, hu, hinbox, hopen, _, hleft, _⟩ := sub_handle ht hp
  have hwork : Works none x [] ((x.managed i s (.message m) rest).handle i s.inbox c m) :=
    (Works.refl.managed ht).handle i s.inbox c m
  have hsent := hwork.extends
  have hacc := accepts_handle ha i s m rest c
  have hrefill : c.refill? u.demand = s.asks (.message m) := by
    unfold Subscription.asks
    rw [hp, hleft]
    rfl
  have hgo : ∀ r, c.refill? u.demand = some r → r.GoesOut := by
    intro r hr
    unfold Continuous.refill? at hr
    rw [hmode, hplan] at hr
    exact goesOut_next hb hr
  obtain ⟨hout, v, hv, hvd⟩ := refill_of_accepts hacc hu hopen hgo
  rw [hinbox, hrefill] at hout
  have hnext : x.next (.turn (.worker i)) =
      ((x.managed i s (.message m) rest).handle i s.inbox c m).refill i c := by
    show (x.workerStep i).1 = _
    rw [hstep]
    unfold takeFrame
    rw [hp]
    show (handleMessage (x.managed i s (.message m) rest) i s.inbox c m).1 = _
    unfold handleMessage
    rw [hmode]
  rw [hnext]
  refine h.hand (hsent.trans hout) ?_ fun w hw => ⟨ms ++ [m], ?_, ?_⟩
  · rw [(hsent.trans hout).names, ← (hs.subs i s ht.sub).2]
    show Hands i s.inbox ((x.workerDeeds i).map (i, ·)) _
    refine hands_own i s.inbox ?_
    exact hd ▸ requestsMade_frameDeeds s (.message m)
  · show dealings (deedsOf i (past ++ (x.workerDeeds i).map (i, ·))) = _
    rw [hd, deedsOf_append, deedsOf_self, dealings_append, hcourse, dealings_frameDeeds, hasks,
      RefillPlan.course_concat]
  · cases hw.symm.trans hv
    rw [hvd, hrefill, hleft, hdem, hasks, RefillPlan.plus_leftAfter hf hz, List.length_append,
      List.length_singleton]

/-! ## Runs -/

theorem scheduled_start {t : Transport} (ht : IsNew t) (keeps : Bool) (capacity : Nat) :
    Scheduled o i [] (.start t keeps capacity) where
  course := fun s hs => by cases hs
  script := by
    cases ht with
    | loopback => exact fun _ h => by cases h
    | scripted =>
      intro sc h
      cases h
      rfl
  broker := by
    cases ht with
    | loopback =>
      intro l h _
      cases h
      rfl
    | scripted => exact fun _ h => by cases h

/-- One move. -/
theorem Scheduled.next (h : Scheduled o i past x) (hs : Since false x₀ past x)
    (ha : x.transport.Accepts) (hb : o.Beats) (hf : o.Fits) (hz : o.batchBytes = 0) {m : Move}
    (hr : ∀ s, (x.next m).subs[i]? = some s → s.RunsWith o)
    (hm : MessagesOnly (deedsOf i (x.deeds m))) :
    Scheduled o i (past ++ x.deeds m) (x.next m) := by
  cases hx : x.subs[i]? with
  | none => exact h.opening hs ha hb hf hz hx hr
  | some s =>
    have hruns := runsWith_before hs.toTame hr hx
    by_cases hw : m = .turn (.worker i)
    · subst hw
      rcases workerDeeds_cases x i with ⟨u, f, rest, ht, hd, hstep⟩ | hd
      · cases hx.symm.trans ht.sub
        obtain ⟨k, rfl⟩ : ∃ k, f = .message k := by
          refine hm f ?_
          show f ∈ framesTook (deedsOf i ((x.workerDeeds i).map (i, ·)))
          rw [deedsOf_self, hd]
          exact List.mem_cons_self
        exact h.message hs ha hb hf hz ht hruns hd hstep
      · refine h.quiet hs ?_ fun _ _ => ⟨s, hx⟩
        exact (congrArg dealings (deedsOf_self i _)).trans hd
    · obtain ⟨c, hp, _⟩ := hruns
      exact h.quiet hs (dealings_deeds hx (by rw [hp]; nofun) hw) fun _ _ => ⟨s, hx⟩

theorem scheduled_after {t : Transport} (ht : IsNew t) (keeps : Bool) (capacity : Nat)
    (hb : o.Beats) (hf : o.Fits) (hz : o.batchBytes = 0) (ms : List Move)
    (ha : ∀ ns, ns <+: ms → ((start t keeps capacity).after ns).transport.Accepts)
    (hr : ∀ s, ((start t keeps capacity).after ms).subs[i]? = some s → s.RunsWith o)
    (hm : MessagesOnly (deedsOf i ((start t keeps capacity).record ms))) :
    Scheduled o i ((start t keeps capacity).record ms) ((start t keeps capacity).after ms) := by
  induction ms using List.reverseRecOn with
  | nil => exact scheduled_start ht keeps capacity
  | append_singleton ms m ih =>
    have hsince := since_start false ht keeps capacity ms fun hc => by cases hc
    rw [after_append] at hr ⊢
    rw [record_concat, deedsOf_append] at hm
    rw [record_concat]
    have hnow := ih (fun ns hn => ha ns (hn.trans (List.prefix_append _ _)))
      (fun s hs => runsWith_before hsince.toTame hr hs) hm.before
    refine hnow.next hsince (ha ms (List.prefix_append _ _)) hb hf hz hr fun f hf => hm f ?_
    rw [framesTook_append]
    exact List.mem_append_right _ hf

/-- What is known of the requests of a subscription at a transport: a script keeps those for its
inbox in their order; a broker knows no others, as long as nobody else makes any. -/
def Publishes (x : Exchange) (i : Nat) (inbox : String) (past : List (Nat × Deed))
    (rs : List PullRequest) : Prop :=
  match x.transport with
  | .scripted sc => (sc.pulls.filter fun p => p.1 = inbox).map Prod.snd = rs
  | .loopback l => (∀ p ∈ past, ∀ r, p.2 = .pulled r → p.1 = i) →
      l.requested = rs.map PullRequest.onWire

/-- An active consumer without a byte budget, on a transport that accepts every request, asks for
a full batch at first and for a refill with each message whose number is a multiple of that
refill; after so many messages what is outstanding lacks their number modulo the refill of being
full. -/
theorem refills_on_schedule {t : Transport} (ht : IsNew t) (keeps : Bool) (capacity : Nat)
    (ms : List Move) (i : Nat) {st : ConsumeOptions.Settings} (hb : st.build = .ok o) (hf : o.Fits)
    (hz : o.batchBytes = 0) {s : Subscription} {c : Continuous} {ks : List Message} :
    let x₀ := start t keeps capacity
    let past := deedsOf i (x₀.record ms)
    let plan := RefillPlan.ofOptions o
    (∀ ns, ns <+: ms → (x₀.after ns).transport.Accepts) → (x₀.after ms).subs[i]? = some s →
      s.purpose = .continuous c → c.options = o → c.mode = .active →
      framesTook past = ks.map .message →
        dealings past = plan.course ks ∧
        requestsMade past =
          plan.initial :: List.replicate (ks.length / plan.refill.batch) plan.refill ∧
        plan.initial.batch = o.batchSize ∧
        (x₀.after ms).Publishes i s.inbox (x₀.record ms) (requestsMade past) ∧
        s.demand.messages = o.batchSize - ks.length % plan.refill.batch := by
  intro x₀ past plan ha hs hp ho hmode hks
  have hsince := since_start false ht keeps capacity ms fun hc => by cases hc
  obtain ⟨f, _, hL⟩ := hsince.lane_of_sub hs
  obtain ⟨L₀, hfresh, hrun⟩ := hsince.fresh_run hL
  have halike : Lane.Alike L₀.sub.purpose s.purpose := hrun.alike
  rw [hp] at halike
  have hplan := (Lane.start_of_fresh hfresh halike).1
  have hruns : s.RunsWith o := ⟨c, hp, ho, ho ▸ hplan, hmode⟩
  have honly : MessagesOnly past := by
    intro g hg
    rw [hks] at hg
    obtain ⟨k, _, rfl⟩ := List.mem_map.1 hg
    exact ⟨k, rfl⟩
  have h : Scheduled o i (x₀.record ms) (x₀.after ms) := by
    refine scheduled_after ht keeps capacity (ConsumeOptions.beats_of_build hb) hf hz ms ha ?_ honly
    intro u hu
    cases hs.symm.trans hu
    exact hruns
  obtain ⟨ns, hcourse, hdem⟩ := h.course s hs
  obtain rfl : ns = ks := by
    have htook := framesTook_dealings past
    rw [hcourse, RefillPlan.framesTook_course, hks] at htook
    exact (List.map_inj_right fun _ _ h => Frame.message.inj h).1 htook
  have hmade : requestsMade past =
      plan.initial :: List.replicate (ns.length / plan.refill.batch) plan.refill := by
    rw [← requestsMade_dealings, hcourse, RefillPlan.requestsMade_course]
  refine ⟨hcourse, hmade, rfl, ?_, by rw [hdem]; rfl⟩
  unfold Publishes
  split
  · rename_i sc hsc
    rw [(hsince.subs i s hs).2]
    exact h.script sc hsc
  · rename_i l hl
    exact h.broker l hl

attribute [ext] ConsumeOptions

instance : DecidableEq ConsumeOptions := fun _ _ => decidable_of_iff _ ConsumeOptions.ext_iff.symm

/-- Batches of four, refilled by halves. -/
def fours : ConsumeOptions :=
  { ConsumeOptions.default with batchSize := 4, batchSize_pos := Nat.succ_pos 3 }

theorem build_fours :
    { ConsumeOptions.Settings.none with batchSize := some 4 }.build = .ok fours := rfl

/-- Three messages from a script, each taken in before the next one comes. -/
def threeByScript : List Move :=
  .consume fours .plain ::
    (List.replicate 3 [.feed 0 (.message hello), .turn (.worker 0)]).flatten

/-- The second message brings the refill, and the third one is missing from it. -/
theorem threeByScript_on_schedule :
    let x₀ := start (.scripted .start) true 4
    let past := deedsOf 0 (x₀.record threeByScript)
    ∃ s, (x₀.after threeByScript).subs[0]? = some s ∧
      framesTook past = [.message hello, .message hello, .message hello] ∧
      requestsMade past =
        [(RefillPlan.ofOptions fours).initial, (RefillPlan.ofOptions fours).refill] ∧
      s.demand.messages = 3 := by
  intro x₀ past
  have hbytes : ((x₀.after threeByScript).subs[0]?).bind
      (fun s => s.purpose.continuous?.map fun c => (c.options, c.mode)) =
        some (fours, .active) := by decide +kernel
  obtain ⟨s, hs, hc⟩ := Option.bind_eq_some_iff.1 hbytes
  obtain ⟨c, hp, hz⟩ := Option.map_eq_some_iff.1 hc
  rw [Purpose.continuous?_eq_some] at hp
  have hfits : fours.Fits := ⟨by decide, by decide⟩
  have haccepts : ∀ ns ∈ threeByScript.inits, (x₀.after ns).transport.Accepts := by decide +kernel
  have htook : framesTook past = [hello, hello, hello].map .message := by decide +kernel
  obtain ⟨_, hmade, _, _, hleft⟩ := refills_on_schedule .scripted true 4 threeByScript 0 build_fours
    hfits rfl (fun ns hn => haccepts ns ((List.mem_inits ns threeByScript).2 hn)) hs hp
    (congrArg Prod.fst hz) (congrArg Prod.snd hz) htook
  exact ⟨s, hs, htook, hmade, hleft⟩

end DemandFlow.Exchange
