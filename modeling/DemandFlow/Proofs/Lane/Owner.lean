import DemandFlow.Proofs.Exchange.Withdrawal
import DemandFlow.Proofs.Lane.Transport

/-
  What the owner of a subscription does with it, as acts of its lane: it is opened, asked to
  pull, left and dropped; and the end of its worker. Whether a pull goes out, overflows or fails
  on the way, one request becomes known.
-/

namespace DemandFlow

open Broker (Command asked)

namespace Exchange

variable {calm : Bool} {x₀ x y : Exchange} {past : List (Nat × Deed)}

/-! ## Opening -/

/-- A lane is added behind the others, and there is no more to do for them than before. -/
structure Opens (calm : Bool) (x : Exchange) (p : Purpose) (y : Exchange) : Prop where
  added : ∃ now capacity room,
    y.subs = x.subs.push
      (.start (x.transport.inboxName (x.subs.size + 1)) x.subs.size now capacity p) ∧
    y.feeds = x.feeds.push
      (.start (x.transport.inboxName (x.subs.size + 1)) room (some x.subs.size))
  names : y.transport.inboxName = x.transport.inboxName
  tame : y.transport.Tame calm (x.subs.size + 1)
  eases : ∀ inbox, (x.transport.due inbox).Eases calm (y.transport.due inbox)
  callers : y.callers = x.callers
  heard : y.heard = x.heard
  handled : y.handled = x.handled

/-- Nothing is owed to the inbox that comes next. -/
theorem owing_fresh (h : Tame calm x) (hc : calm = true) :
    x.transport.owing (x.transport.inboxName (x.subs.size + 1)) = 0 := by
  have ht := h.transport
  cases hx : x.transport with
  | loopback l =>
    rw [hx] at ht
    exact (ht.2 hc).fresh _ (Nat.lt_succ_self _)
  | scripted s => rfl

/-- What a subscription may be opened for: continuous consumption starts with its options. -/
def Purpose.MayStart (calm : Bool) (p : Purpose) : Prop :=
  ∀ c, p = .continuous c → ∃ o hd, c = Continuous.start o hd ∧ (calm = true → o.Fits)

namespace Opens

variable {p : Purpose} {i : Nat}

theorem size (a : Opens calm x p y) : y.subs.size = x.subs.size + 1 := by
  obtain ⟨_, _, _, hsubs, _⟩ := a.added
  rw [hsubs, Array.size_push]

theorem sub_cases (a : Opens calm x p y) {s : Subscription} (hs : y.subs[i]? = some s) :
    (i = x.subs.size ∧ ∃ now capacity,
      s = .start (x.transport.inboxName (x.subs.size + 1)) x.subs.size now capacity p) ∨
    x.subs[i]? = some s := by
  obtain ⟨now, capacity, _, hsubs, _⟩ := a.added
  rw [hsubs, Array.getElem?_push] at hs
  split at hs
  · rename_i hi
    exact Or.inl ⟨hi, now, capacity, (Option.some.inj hs).symm⟩
  · exact Or.inr hs

theorem feed_cases (a : Opens calm x p y) (h : Tame calm x) {f : Feed}
    (hf : y.feeds[i]? = some f) :
    (i = x.subs.size ∧ ∃ room,
      f = .start (x.transport.inboxName (x.subs.size + 1)) room (some x.subs.size)) ∨
    x.feeds[i]? = some f := by
  obtain ⟨_, _, room, _, hfeeds⟩ := a.added
  rw [hfeeds, Array.getElem?_push, h.sizes] at hf
  split at hf
  · rename_i hi
    exact Or.inl ⟨hi, room, (Option.some.inj hf).symm⟩
  · exact Or.inr hf

theorem sub_of_old (a : Opens calm x p y) {s : Subscription} (hs : x.subs[i]? = some s) :
    y.subs[i]? = some s := by
  obtain ⟨hlt, _⟩ := Array.getElem?_eq_some_iff.1 hs
  obtain ⟨_, _, _, hsubs, _⟩ := a.added
  rw [hsubs, Array.getElem?_push, if_neg (Nat.ne_of_lt hlt), hs]

/-- A lane of the exchange is the one that was added, and fresh, or was there before. -/
theorem lane_cases (a : Opens calm x p y) (h : Tame calm x) (hp : Purpose.MayStart calm p)
    {L' : Lane} (hL' : y.lane i = some L') : (i = x.subs.size ∧ L'.IsFresh calm) ∨
      ∃ L, x.lane i = some L ∧ Lane.Step calm L [] L' := by
  obtain ⟨hs, hf, ho⟩ := lane_eq_some.1 hL'
  rcases a.sub_cases hs, a.feed_cases h hf with
    ⟨⟨rfl, now, capacity, hstart⟩ | hs, ⟨hi, hroom⟩ | hf⟩
  · refine Or.inl ⟨rfl, ⟨_, _, _, _, _, hstart, fun c hc => ?_⟩, ?_, fun hc => ?_⟩
    · obtain ⟨o, hd, he, _⟩ := hp c hc
      exact ⟨o, hd, he⟩
    · obtain ⟨room, hroom⟩ := hroom
      exact ⟨_, room, _, hroom⟩
    · have hle := (a.eases L'.sub.inbox).owed hc
      have hin : L'.sub.inbox = x.transport.inboxName (x.subs.size + 1) := by rw [hstart]; rfl
      rw [← ho, hin] at hle
      exact Nat.le_zero.1 (Nat.le_trans hle (Nat.le_of_eq (owing_fresh h hc)))
  · obtain ⟨hlt, _⟩ := Array.getElem?_eq_some_iff.1 hf
    exact absurd (h.sizes ▸ hlt) (Nat.lt_irrefl _)
  · obtain ⟨hlt, _⟩ := Array.getElem?_eq_some_iff.1 hs
    exact absurd hi (Nat.ne_of_lt hlt)
  · refine Or.inr ⟨⟨L'.sub, L'.feed, x.transport.due L'.sub.inbox⟩,
      lane_eq_some.2 ⟨hs, hf, rfl⟩, ?_⟩
    exact Lane.Step.ease ⟨L'.sub, L'.feed, x.transport.due L'.sub.inbox⟩ L'.due
      (ho ▸ a.eases _)

theorem tame_after (a : Opens calm x p y) (h : Tame calm x) (hp : Purpose.MayStart calm p) :
    Tame calm y where
  sizes := by
    obtain ⟨_, _, _, hsubs, hfeeds⟩ := a.added
    rw [hfeeds, hsubs, Array.size_push, Array.size_push, h.sizes]
  subs := fun i s hs => by
    rw [a.names]
    rcases a.sub_cases hs with ⟨rfl, _, _, rfl⟩ | hs
    · exact ⟨rfl, rfl⟩
    · exact h.subs i s hs
  feeds := fun i f hf => by
    rw [a.names]
    rcases a.feed_cases h hf with ⟨rfl, _, rfl⟩ | hf
    · rfl
    · exact h.feeds i f hf
  transport := by
    rw [a.size]
    exact a.tame
  sized := fun hc i s hs => by
    rcases a.sub_cases hs with ⟨_, _, _, rfl⟩ | hs
    · intro c hcont
      obtain ⟨o, hd, rfl, hfit⟩ := hp c hcont
      exact ⟨(RefillPlan.issues_initial (hfit hc)).fits, (RefillPlan.issues_refill (hfit hc)).fits⟩
    · exact h.sized hc i s hs
  leaving := fun c hcy k hk => by
    rw [a.callers] at hcy
    obtain ⟨s, hs, hsettled⟩ := h.leaving c hcy k hk
    exact ⟨s, a.sub_of_old hs, hsettled⟩

end Opens

theorem Since.opens (h : Since calm x₀ past x) {p : Purpose} (a : Opens calm x p y)
    (hp : Purpose.MayStart calm p) : Since calm x₀ past y where
  toTame := a.tame_after h.toTame hp
  grown := by
    rw [a.size]
    exact Nat.le_succ_of_le h.grown
  lanes := fun i L' hL' => by
    rcases a.lane_cases h.toTame hp hL' with ⟨rfl, hfresh⟩ | ⟨L, hL, hstep⟩
    · refine ⟨L', Or.inr ⟨h.grown, hfresh⟩, ?_⟩
      rw [deedsOf_eq_nil h.born (Nat.le_refl _)]
      exact .nil L'
    · obtain ⟨L₀, hL₀, hrun⟩ := h.lanes i L hL
      exact ⟨L₀, hL₀, hrun.quiet hstep⟩
  born := fun q hq => by
    rw [a.size]
    exact Nat.lt_succ_of_lt (h.born q hq)
  keeps := (congrArg Prod.fst a.heard).trans h.keeps
  notices := (congrArg Prod.snd a.heard).trans h.notices
  handled := by
    rw [a.handled]
    exact h.handled

theorem send_dead {l : Loopback} (h : x.transport = .loopback l) (ha : l.alive = false)
    (c : Command) : x.send c = (x.note Journal.commandDropped, false) := by
  unfold send
  rw [h]
  dsimp only
  rw [if_neg (ne_true_of_eq_false ha)]

/-- A feed is opened for the inbox that comes next, or the transport goes on without it. -/
theorem subscribe_cases {n : Nat} (h : x.transport.Tame calm n) (reader : Option Nat) :
    (∃ room t', (x.subscribe reader).2 = .ok (x.feeds.size, x.transport.inboxName (n + 1)) ∧
      (x.subscribe reader).1.core = { x.core with
        transport := t'
        feeds := x.core.feeds.push (.start (x.transport.inboxName (n + 1)) room reader) } ∧
      t'.inboxName = x.transport.inboxName ∧ t'.Tame calm (n + 1) ∧
      ∀ inbox, (x.transport.due inbox).Eases calm (t'.due inbox)) ∨
    ∃ e t', (x.subscribe reader).2 = .error e ∧
      (x.subscribe reader).1.core = { x.core with transport := t' } ∧
      x.transport.Eases calm n t' := by
  cases hx : x.transport with
  | loopback l =>
    rw [hx] at h
    cases ha : l.alive with
    | true =>
      obtain ⟨hok, hc⟩ := core_subscribe (x := x) hx ha reader
      have hnext : l.nextInbox = n + 1 := h.1 ha
      rw [hnext] at hok hc
      refine Or.inl ⟨_, _, hok, hc, rfl, ⟨fun _ => rfl, fun hcalm => ?_⟩,
        fun inbox => ⟨fun _ => ?_, ?_⟩⟩
      · have hl := h.2 hcalm
        refine ⟨hl.sound, Transport.plain_push hl.plain trivial, fun k hk => ?_⟩
        refine (Transport.owing_push l (n + 2) l.nextSequence (.register _) _).trans ?_
        rw [hl.fresh k (by omega)]
        rfl
      · exact Nat.le_of_eq (Transport.owing_push l (n + 2) l.nextSequence (.register _) inbox)
      · have hreq := Transport.requests_push l (n + 2) l.nextSequence
          (.register (Broker.inboxName (n + 1))) inbox
        rw [show (Transport.requestOf? inbox (.register (Broker.inboxName (n + 1)))).toList = []
          from rfl, List.append_nil] at hreq
        exact ⟨[], hreq⟩
    | false =>
      refine Or.inr ⟨.closed, .loopback { l with nextInbox := l.nextInbox + 1 }, ?_, ?_, ?_⟩
      · unfold subscribe
        rw [hx]
        dsimp only
        rw [send_dead (l := { l with nextInbox := l.nextInbox + 1 }) rfl ha,
          if_neg Bool.false_ne_true]
      · unfold subscribe
        rw [hx]
        dsimp only
        rw [send_dead (l := { l with nextInbox := l.nextInbox + 1 }) rfl ha,
          if_neg Bool.false_ne_true]
        rfl
      · exact Transport.eases_loopback h (fun hl => by rw [ha] at hl; cases hl)
          (fun _ => List.suffix_refl _)
          fun _ hcalm => ⟨hcalm.sound, hcalm.plain, fun _ => Nat.le_refl _⟩
  | scripted s =>
    rw [hx] at h
    have hnext : s.nextInbox = n + 1 := h
    cases hf : s.subscribeFault with
    | some e =>
      refine Or.inr ⟨e, .scripted s, ?_, ?_, Transport.eases_refl h⟩
      · unfold subscribe
        rw [hx]
        dsimp only
        rw [hf]
      · unfold subscribe
        rw [hx]
        dsimp only
        rw [hf, ← hx]
        rfl
    | none =>
      refine Or.inl ⟨Defaults.frameCapacity, .scripted { s with nextInbox := s.nextInbox + 1 },
        ?_, ?_, rfl, ?_, fun _ => Due.eases_refl _ _⟩
      · unfold subscribe
        rw [hx]
        dsimp only
        rw [hf, hnext]
        rfl
      · unfold subscribe
        rw [hx]
        dsimp only
        rw [hf, hnext]
        rfl
      · exact congrArg (· + 1) hnext

/-- A subscription is opened, or the transport goes on without it. -/
theorem openSub_cases (h : Tame calm x) (p : Purpose) :
    ((x.openSub p).2 = .ok x.subs.size ∧ Opens calm x p (x.openSub p).1) ∨
    ((∃ e, (x.openSub p).2 = .error e) ∧
      x.transport.Eases calm x.subs.size (x.openSub p).1.transport ∧
      (x.openSub p).1.core = { x.core with transport := (x.openSub p).1.transport } ∧
      (x.openSub p).1.heard = x.heard) := by
  have hheard := skips_heard.openSub x p
  unfold openSub at hheard ⊢
  dsimp only at hheard ⊢
  rcases subscribe_cases h.transport (some x.subs.size) with
    ⟨room, t', hok, hc, hnames, htame, heases⟩ | ⟨e, t', herr, hc, heases⟩
  · cases hy : x.subscribe (some x.subs.size) with
    | mk y res =>
      rw [hy] at hok hc hheard
      dsimp only at hok hc hheard
      subst hok
      dsimp only
      have hcore : ((({ y with subs := y.subs.push (.start (x.transport.inboxName
          (x.subs.size + 1)) x.feeds.size y.now y.queueCapacity p) }.wake
            (.alarm x.subs.size)).wake (.worker x.subs.size)).note
              (Journal.subscriptionOpened (x.transport.inboxName (x.subs.size + 1)))).core =
          { y.core with subs := y.subs.push (.start (x.transport.inboxName
            (x.subs.size + 1)) x.feeds.size y.now y.queueCapacity p) } := by
        rw [core_note, core_wake, core_wake]
        rfl
      have ht : y.core.transport = t' := congrArg Core.transport hc
      have htr := (congrArg Core.transport hcore).trans (show y.core.transport = t' from ht)
      refine Or.inl ⟨rfl, ⟨y.now, y.queueCapacity, room, ?_, ?_⟩, ?_, ?_, ?_, ?_, ?_, ?_⟩
      · refine (congrArg Core.subs hcore).trans ?_
        have hs : y.subs = x.subs := congrArg Core.subs hc
        dsimp only
        rw [hs, h.sizes]
      · refine (congrArg Core.feeds hcore).trans ?_
        exact congrArg Core.feeds hc
      · exact (congrArg Transport.inboxName htr).trans hnames
      · exact (congrArg (Transport.Tame calm (x.subs.size + 1)) htr).mpr htame
      · intro inbox
        rw [show Exchange.transport _ = t' from htr]
        exact heases inbox
      · refine (congrArg Core.callers hcore).trans ?_
        exact congrArg Core.callers hc
      · exact hheard
      · refine (congrArg Core.handled hcore).trans ?_
        exact congrArg Core.handled hc
  · cases hy : x.subscribe (some x.subs.size) with
    | mk y res =>
      rw [hy] at herr hc hheard
      dsimp only at herr hc hheard
      subst herr
      have ht : y.transport = t' := congrArg Core.transport hc
      refine Or.inr ⟨⟨_, rfl⟩, ?_, ?_, hheard⟩
      · rw [← ht] at heases
        exact heases
      · rw [← ht] at hc
        exact hc

theorem Since.openSub (h : Since calm x₀ past x) {p : Purpose} (hp : Purpose.MayStart calm p) :
    Since calm x₀ past (x.openSub p).1 := by
  rcases openSub_cases h.toTame p with ⟨_, ho⟩ | ⟨_, he, hc, hh⟩
  · exact h.opens ho hp
  · exact h.carry he hc hh

end Exchange

/-! ## Pulls -/

/-- The transport once a request was handed to it. -/
def Transport.withPull (inbox : String) (r : PullRequest) : Transport → Transport
  | .loopback l => .loopback { l with commands := l.commands.push (.pull inbox r.onWire) }
  | .scripted s => .scripted { s with pulls := s.pulls ++ [(inbox, r)] }

namespace Exchange

variable {calm : Bool} {x₀ x y : Exchange} {past : List (Nat × Deed)}

theorem carry_cases (x : Exchange) (inbox : String) (r : PullRequest) :
    ((x.carry inbox r).2 = .ok () ∧
      (x.carry inbox r).1.core = { x.core with transport := x.transport.withPull inbox r }) ∨
    ∃ e, (x.carry inbox r).2 = .error e ∧ (x.carry inbox r).1.core = x.core := by
  cases hx : x.transport with
  | loopback l =>
    cases ha : l.alive with
    | true =>
      obtain ⟨hok, hc⟩ := core_carry (x := x) hx ha inbox r
      exact Or.inl ⟨hok, hc⟩
    | false =>
      refine Or.inr ⟨.closed, ?_, ?_⟩
      · unfold carry
        rw [hx]
        dsimp only
        rw [send_dead (l := l) (x := x.note _) hx ha]
        rfl
      · unfold carry
        rw [hx]
        dsimp only
        rw [send_dead (l := l) (x := x.note _) hx ha]
        rfl
  | scripted s =>
    unfold carry
    rw [hx]
    dsimp only
    cases hf : s.publishFault with
    | some e => exact Or.inr ⟨e, rfl, rfl⟩
    | none => exact Or.inl ⟨rfl, by rw [Transport.withPull, hf]; rfl⟩

/-- A request is recorded, and it goes out or is withdrawn again; or it overflows. -/
theorem core_pull_cases {i : Nat} {s : Subscription} (hs : x.subs[i]? = some s)
    (hc : s.closed = false) (r : PullRequest) :
    ∃ t : Tracker,
      (t.demand = s.demand.add r ∧ (x.pull i r).1.core = { x.core with
        transport := x.transport.withPull s.inbox r
        subs := x.core.subs.modify i fun s => { s with tracker := t } }) ∨
      ((t.demand = s.demand.add r ∨ t.demand = (s.demand.add r).withdraw r) ∧
        (x.pull i r).1.core = { x.core with
          subs := x.core.subs.modify i fun s => { s with tracker := t } }) := by
  unfold pull
  rw [hs]
  dsimp only
  rw [if_neg (ne_true_of_eq_false hc)]
  cases ht : s.tracker.issue x.now r with
  | none => exact ⟨s.tracker.added r, Or.inr ⟨Or.inl rfl, core_setTracker x i _⟩⟩
  | some t =>
    have hd : t.demand = s.demand.add r := Tracker.demand_issue ht
    dsimp only
    have hz : ((((x.setTracker i t).wakeDrainers i).note (Journal.pullStarted r t.demand)).note
        (Journal.publishingPull s.inbox r)).core =
          { x.core with subs := x.core.subs.modify i fun s => { s with tracker := t } } := by
      rw [core_note, core_note, core_wakeDrainers, core_setTracker]
    have hzt := congrArg Core.transport hz
    rcases carry_cases ((((x.setTracker i t).wakeDrainers i).note
      (Journal.pullStarted r t.demand)).note (Journal.publishingPull s.inbox r)) s.inbox r with
      ⟨hok, hcore⟩ | ⟨e, herr, hcore⟩
    · refine ⟨t, Or.inl ⟨hd, ?_⟩⟩
      split
      · rename_i hy
        rw [hy] at hcore
        rw [core_count]
        refine hcore.trans ?_
        rw [hz, show Exchange.transport _ = x.transport from hzt]
      · rename_i hy
        rw [hy] at hok
        cases hok
    · refine ⟨t.cancel r, Or.inr ⟨Or.inr ?_, ?_⟩⟩
      · show t.demand.withdraw r = _
        rw [hd]
      · split
        · rename_i hy
          rw [hy] at herr
          cases herr
        · rename_i hy
          rw [hy] at hcore
          rw [core_note, core_note, core_wakeDrainers, core_setTracker]
          rw [show Exchange.core _ = _ from hcore, hz]
          dsimp only
          rw [modify_modify]
          rfl

theorem owing_withPull (t : Transport) (inbox dest : String) (r : PullRequest) :
    (t.withPull inbox r).owing dest ≤ t.owing dest + if inbox = dest then r.batch else 0 := by
  cases t with
  | loopback l =>
    exact Nat.le_of_eq
      (Transport.owing_push l l.nextInbox l.nextSequence (.pull inbox r.onWire) dest)
  | scripted s => exact Nat.zero_le _

/-- A request for one inbox is none for another. -/
theorem requests_withPull (t : Transport) {inbox dest : String} (h : inbox ≠ dest)
    (r : PullRequest) : (t.withPull inbox r).requests dest = t.requests dest := by
  cases t with
  | loopback l =>
    have hreq := Transport.requests_push l l.nextInbox l.nextSequence (.pull inbox r.onWire) dest
    have hnone : Transport.requestOf? dest (.pull inbox r.onWire) = none := if_neg h
    rw [hnone, Option.toList_none, List.append_nil] at hreq
    exact hreq
  | scripted s =>
    show ((s.pulls ++ [(inbox, r)]).filter _).map _ = _
    rw [List.filter_append]
    simp [h, Transport.requests]

/-- A request for one inbox leaves as much to do for another as there was. -/
theorem eases_withPull (t : Transport) {inbox dest : String} (h : inbox ≠ dest)
    (r : PullRequest) : (t.due dest).Eases calm ((t.withPull inbox r).due dest) := by
  refine ⟨fun _ => ?_, [], requests_withPull t h r⟩
  have hle := owing_withPull t inbox dest r
  rwa [if_neg h] at hle

/-- A request that fits, for an inbox that was given out, leaves a transport tame. -/
theorem tame_withPull {t : Transport} {i n : Nat} {inbox : String} {r : PullRequest}
    (h : t.Tame calm n) (hi : i < n) (hinbox : inbox = t.inboxName (i + 1))
    (hr : calm = true → r.Fits) : (t.withPull inbox r).Tame calm n := by
  cases t with
  | loopback l =>
    refine ⟨h.1, fun hcalm => ?_⟩
    have hl := h.2 hcalm
    refine ⟨hl.sound, Transport.plain_push hl.plain ⟨(hr hcalm).batch, (hr hcalm).maxBytes⟩,
      fun k hk => ?_⟩
    have hne : inbox ≠ Broker.inboxName k := fun he => by
      have := Broker.inboxName_injective (hinbox.symm.trans he)
      omega
    have hle := owing_withPull (.loopback l) inbox (Broker.inboxName k) r
    rw [if_neg hne, hl.fresh k hk] at hle
    exact Nat.le_zero.1 hle
  | scripted s => exact h

/-- A request is recorded by one subscription, and nothing else is done for the others. -/
theorem Since.pulled (h : Since calm x₀ past x) {i : Nat} {s : Subscription}
    (hs : x.subs[i]? = some s) (hc : s.closed = false) {r : PullRequest} (hw : s.Wants r)
    {t' : Transport} {t : Tracker} (hheard : y.heard = x.heard)
    (hcore : y.core = { x.core with
      transport := t', subs := x.core.subs.modify i fun s => { s with tracker := t } })
    (hnames : t'.inboxName = x.transport.inboxName) (htame : t'.Tame calm x.subs.size)
    (heases : ∀ dest, s.inbox ≠ dest → (x.transport.due dest).Eases calm (t'.due dest))
    (hgoes : t.demand = s.demand.add r ∧
        (calm = true → t'.owing s.inbox ≤ x.transport.owing s.inbox + r.batch) ∨
      t.demand = (s.demand.add r).withdraw r ∧
        (calm = true → t'.owing s.inbox ≤ x.transport.owing s.inbox)) :
    Since calm x₀ (past ++ [(i, .pulled r)]) y := by
  obtain ⟨hlt, _⟩ := Array.getElem?_eq_some_iff.1 hs
  obtain ⟨htold, hkept⟩ := filterMap_of_silent i [.pulled r] (by simpa using isSilent_pulled r)
  have htr : y.transport = t' := congrArg Core.transport hcore
  have hcall : y.callers = x.callers := congrArg Core.callers hcore
  refine h.act (Shifts.acts (g := fun s => { s with tracker := t }) (k := id)
    [.pulled r]
    { subs := congrArg Core.subs hcore
      feeds := (congrArg Core.feeds hcore).trans (modify_id _ _).symm
      names := by rw [htr]; exact hnames
      tame := by rw [htr]; exact htame
      run := ?_
      eases := ?_
      born := fun _ => hlt
      callers := fun c hcy => ⟨c, hcall ▸ hcy, rfl⟩
      keeps := congrArg Prod.fst hheard
      notices := ?_
      handled := ?_ })
  · intro L hL
    obtain ⟨hsub, _, ho⟩ := lane_eq_some.1 hL
    cases hs.symm.trans hsub
    rw [htr]
    refine .single (.pull L r t _ hc hw ?_)
    rw [ho]
    exact hgoes
  · intro j u hj hu
    rw [htr]
    refine heases _ fun he => hj ?_
    rw [(h.subs i s hs).2, (h.subs j u hu).2] at he
    exact (Nat.succ.inj (x.transport.inboxName_injective he)).symm
  · rw [htold, ite_self, List.append_nil]
    exact congrArg Prod.snd hheard
  · rw [hkept, List.append_nil]
    exact congrArg (fun c => c.handled.toList) hcore

/-- A request of the owner, or of the subscription itself, is recorded. -/
theorem Since.pull (h : Since calm x₀ past x) {i : Nat} {s : Subscription}
    (hs : x.subs[i]? = some s) (hc : s.closed = false) {r : PullRequest} (hw : s.Wants r)
    (hr : calm = true → r.Fits) : Since calm x₀ (past ++ [(i, .pulled r)]) (x.pull i r).1 := by
  obtain ⟨hlt, _⟩ := Array.getElem?_eq_some_iff.1 hs
  have hheard := skips_heard.pull x i r
  obtain ⟨t, ⟨hd, hcore⟩ | ⟨hd, hcore⟩⟩ := core_pull_cases hs hc r
  · refine h.pulled hs hc hw hheard hcore (by cases x.transport <;> rfl)
      (tame_withPull h.transport hlt (h.subs i s hs).2 hr)
      (fun _ hne => eases_withPull x.transport hne r) (Or.inl ⟨hd, fun _ => ?_⟩)
    have hle := owing_withPull x.transport s.inbox s.inbox r
    rwa [if_pos rfl] at hle
  · refine h.pulled hs hc hw hheard hcore rfl h.transport (fun _ _ => Due.eases_refl _ _) ?_
    rcases hd with hd | hd
    · exact Or.inl ⟨hd, fun _ => Nat.le_add_right _ _⟩
    · exact Or.inr ⟨hd, fun _ => Nat.le_refl _⟩

end Exchange

end DemandFlow
