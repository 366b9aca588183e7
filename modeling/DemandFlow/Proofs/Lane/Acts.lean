import DemandFlow.Proofs.Lane.Since

/-
  Small steps on an exchange as acts of lanes. Bookkeeping moves no lane and tells nobody
  anything; a change of one subscription or of one feed moves its lane; a transport that owes less
  eases all lanes. Larger steps are put together from these.
-/

namespace DemandFlow.Exchange

variable {calm : Bool} {x₀ x y : Exchange} {past : List (Nat × Deed)}

/-! ## What nobody hears -/

section Heard

theorem skips_heard : SkipsSubs heard where
  note := fun _ _ => rfl
  count := fun _ _ => rfl
  line := fun _ _ _ => rfl
  timers := fun _ _ => rfl
  transport := fun _ _ => rfl
  feeds := fun _ _ => rfl
  subs := fun _ _ => rfl

variable (x : Exchange)

theorem keepsNotices_notify (n : Notice) : (x.notify n).keepsNotices = x.keepsNotices := by
  unfold notify
  split
  · rfl
  · split <;> rfl

theorem notices_notify (n : Notice) :
    (x.notify n).notices = x.notices ++ if x.keepsNotices then [n] else [] := by
  unfold notify
  split
  · rfl
  · split <;> exact (List.append_nil _).symm

end Heard

theorem notices_of_heard (h : y.heard = x.heard) : y.notices =
    x.notices ++ if x.keepsNotices then ([] : List (Nat × Deed)).filterMap noticeOf else [] := by
  have hn : y.notices = x.notices := congrArg Prod.snd h
  rw [hn, List.filterMap_nil, ite_self, List.append_nil]

/-! ## Acts -/

/-- Only the subscription and the feed of one lane change, and the transport may owe it more. -/
structure Shifts (calm : Bool) (x : Exchange) (i : Nat) (g : Subscription → Subscription)
    (k : Feed → Feed) (new : List Deed) (y : Exchange) : Prop where
  subs : y.subs = x.subs.modify i g
  feeds : y.feeds = x.feeds.modify i k
  names : y.transport.inboxName = x.transport.inboxName
  tame : y.transport.Tame calm x.subs.size
  run : ∀ L, x.lane i = some L →
    Lane.Run calm L new ⟨g L.sub, k L.feed, y.transport.due L.sub.inbox⟩
  eases : ∀ (j : Nat) (s : Subscription), j ≠ i → x.subs[j]? = some s →
    (x.transport.due s.inbox).Eases calm (y.transport.due s.inbox)
  born : new ≠ [] → i < x.subs.size
  callers : ∀ c ∈ y.callers, ∃ d ∈ x.callers, d.activity = c.activity
  keeps : y.keepsNotices = x.keepsNotices
  notices : y.notices =
    x.notices ++ if x.keepsNotices then (new.map (i, ·)).filterMap noticeOf else []
  handled : y.handled.toList = x.handled.toList ++ (new.map (i, ·)).filterMap keptOf

theorem Shifts.acts {i : Nat} {g : Subscription → Subscription} {k : Feed → Feed}
    (new : List Deed) (a : Shifts calm x i g k new y) :
    Acts calm x (new.map (i, ·)) y where
  subsSize := by rw [a.subs, Array.size_modify]
  feedsSize := by rw [a.feeds, Array.size_modify]
  names := a.names
  tame := a.tame
  run := by
    intro j L' hL'
    obtain ⟨hs, hf, ho⟩ := lane_eq_some.1 hL'
    rw [a.subs, Array.getElem?_modify] at hs
    rw [a.feeds, Array.getElem?_modify] at hf
    split at hs
    · rename_i hij
      subst hij
      rw [if_pos rfl] at hf
      obtain ⟨s, hs, hgs⟩ := Option.map_eq_some_iff.1 hs
      obtain ⟨f, hf, hkf⟩ := Option.map_eq_some_iff.1 hf
      have hL : x.lane i = some ⟨s, f, x.transport.due s.inbox⟩ := lane_eq_some.2 ⟨hs, hf, rfl⟩
      have hrun := a.run _ hL
      refine ⟨_, hL, ?_⟩
      rw [deedsOf_self]
      have hn : L'.sub.inbox = s.inbox := hgs ▸ hrun.sameNames.inbox
      have hL'eq : L' = ⟨g s, k f, y.transport.due s.inbox⟩ := by
        cases L'
        simp only at hgs hkf ho hn
        rw [hgs, hkf, ho, hn]
      rw [hL'eq]
      exact hrun
    · rename_i hij
      rw [if_neg hij] at hf
      refine ⟨⟨L'.sub, L'.feed, x.transport.due L'.sub.inbox⟩, lane_eq_some.2 ⟨hs, hf, rfl⟩, ?_⟩
      rw [deedsOf_other (fun e => hij e.symm)]
      refine .single ?_
      exact Lane.Step.ease ⟨L'.sub, L'.feed, x.transport.due L'.sub.inbox⟩ L'.due
        (ho ▸ a.eases j L'.sub (fun e => hij e.symm) hs)
  born := by
    intro p hp
    obtain ⟨d, hd, rfl⟩ := List.mem_map.1 hp
    exact a.born (List.ne_nil_of_mem hd)
  callers := fun c hc _ _ => Or.inr (a.callers c hc)
  keeps := a.keeps
  notices := a.notices
  handled := a.handled

/-- A deed of which neither listeners nor handlers know. -/
def IsSilent (d : Deed) : Prop := ∀ i, noticeOf (i, d) = none ∧ keptOf (i, d) = none

theorem isSilent_sent (f : Frame) : IsSilent (.sent f) := fun _ => ⟨rfl, rfl⟩

theorem isSilent_lost (f : Frame) : IsSilent (.lost f) := fun _ => ⟨rfl, rfl⟩

theorem isSilent_injected (f : Frame) : IsSilent (.injected f) := fun _ => ⟨rfl, rfl⟩

theorem isSilent_pulled (r : PullRequest) : IsSilent (.pulled r) := fun _ => ⟨rfl, rfl⟩

theorem isSilent_read (d : Option Delivery) : IsSilent (.read d) := fun _ => ⟨rfl, rfl⟩

theorem isSilent_drained (b : Bool) : IsSilent (.drained b) := fun _ => ⟨rfl, rfl⟩

theorem filterMap_of_silent (i : Nat) (ds : List Deed) (h : ∀ d ∈ ds, IsSilent d) :
    (ds.map (i, ·)).filterMap noticeOf = [] ∧ (ds.map (i, ·)).filterMap keptOf = [] := by
  refine ⟨List.filterMap_eq_nil_iff.2 ?_, List.filterMap_eq_nil_iff.2 ?_⟩
  · intro p hp
    obtain ⟨d, hd, rfl⟩ := List.mem_map.1 hp
    exact (h d hd i).1
  · intro p hp
    obtain ⟨d, hd, rfl⟩ := List.mem_map.1 hp
    exact (h d hd i).2

namespace Since

/-- One lane moves, and the transport goes on as it was. -/
theorem shift (h : Since calm x₀ past x) {i : Nat} {g : Subscription → Subscription}
    {k : Feed → Feed} (new : List Deed)
    (hc : y.core = { x.core with
      subs := x.core.subs.modify i g, feeds := x.core.feeds.modify i k, handled := y.handled })
    (hrun : ∀ L, x.lane i = some L → Lane.Run calm L new ⟨g L.sub, k L.feed, L.due⟩)
    (hborn : new ≠ [] → i < x.subs.size) (hkeeps : y.keepsNotices = x.keepsNotices)
    (hnotices : y.notices =
      x.notices ++ if x.keepsNotices then (new.map (i, ·)).filterMap noticeOf else [])
    (hhandled : y.handled.toList = x.handled.toList ++ (new.map (i, ·)).filterMap keptOf) :
    Since calm x₀ (past ++ new.map (i, ·)) y := by
  have ht : y.transport = x.transport := congrArg Core.transport hc
  have hcall : y.callers = x.callers := congrArg Core.callers hc
  refine h.act (Shifts.acts new
    { subs := congrArg Core.subs hc
      feeds := congrArg Core.feeds hc
      names := by rw [ht]
      tame := by rw [ht]; exact h.transport
      run := ?_
      eases := fun _ _ _ _ => by rw [ht]; exact Due.eases_refl _ _
      born := hborn
      callers := fun c hc => ⟨c, hcall ▸ hc, rfl⟩
      keeps := hkeeps
      notices := hnotices
      handled := hhandled })
  intro L hL
  rw [ht, ← (lane_eq_some.1 hL).2.2]
  exact hrun L hL

/-- One lane moves, and nobody else is told. -/
theorem alter (h : Since calm x₀ past x) {i : Nat} {g : Subscription → Subscription}
    {k : Feed → Feed} (new : List Deed)
    (hc : y.core = { x.core with
      subs := x.core.subs.modify i g, feeds := x.core.feeds.modify i k })
    (hh : y.heard = x.heard)
    (hrun : ∀ L, x.lane i = some L → Lane.Run calm L new ⟨g L.sub, k L.feed, L.due⟩)
    (hsilent : ∀ d ∈ new, IsSilent d) (hborn : new ≠ [] → i < x.subs.size) :
    Since calm x₀ (past ++ new.map (i, ·)) y := by
  have hhand : y.handled = x.handled := congrArg Core.handled hc
  have hnotices : y.notices = x.notices := congrArg Prod.snd hh
  obtain ⟨hn, hk⟩ := filterMap_of_silent i new hsilent
  refine h.shift new (by rw [hc, hhand]; rfl) hrun hborn (congrArg Prod.fst hh) ?_ ?_
  · rw [hnotices, hn, ite_self, List.append_nil]
  · rw [hhand, hk, List.append_nil]

theorem modifySub_of (h : Since calm x₀ past x) {i : Nat} {g : Subscription → Subscription}
    (new : List Deed) (hc : y.core = { x.core with subs := x.core.subs.modify i g })
    (hh : y.heard = x.heard)
    (hrun : ∀ L, x.lane i = some L → Lane.Run calm L new { L with sub := g L.sub })
    (hsilent : ∀ d ∈ new, IsSilent d) (hborn : new ≠ [] → i < x.subs.size) :
    Since calm x₀ (past ++ new.map (i, ·)) y := by
  refine h.alter (k := id) new ?_ hh hrun hsilent hborn
  rw [hc, modify_id]

/-- One subscription changes quietly. -/
theorem modifySub (h : Since calm x₀ past x) {i : Nat} {g : Subscription → Subscription}
    (hstep : ∀ L, x.lane i = some L → Lane.Step calm L [] { L with sub := g L.sub }) :
    Since calm x₀ past (x.modifySub i g) := by
  have hs := h.modifySub_of (i := i) (g := g) (y := x.modifySub i g) [] rfl rfl
    (fun L hL => .single (hstep L hL)) (fun _ hd => by cases hd) (fun hn => absurd rfl hn)
  rwa [List.map_nil, List.append_nil] at hs

/-- One feed changes. -/
theorem modifyFeed (h : Since calm x₀ past x) {i : Nat} {k : Feed → Feed} (new : List Deed)
    (hstep : ∀ L, x.lane i = some L → Lane.Step calm L new { L with feed := k L.feed })
    (hsilent : ∀ d ∈ new, IsSilent d) (hborn : new ≠ [] → i < x.subs.size) :
    Since calm x₀ (past ++ new.map (i, ·)) (x.modifyFeed i k) := by
  refine h.alter (g := id) new ?_ rfl (fun L hL => .single (hstep L hL)) hsilent hborn
  rw [modify_id]
  rfl

/-- A deed that changes nothing. -/
theorem mark (h : Since calm x₀ past x) {i : Nat} {d : Deed} (hsilent : IsSilent d)
    (hi : i < x.subs.size) (hstep : ∀ L, x.lane i = some L → Lane.Step calm L [d] L) :
    Since calm x₀ (past ++ [(i, d)]) x := by
  refine h.modifySub_of (g := id) [d] ?_ rfl (fun L hL => .single (hstep L hL)) ?_
    (fun _ => hi)
  · rw [modify_id]
  · intro e he
    rw [List.mem_singleton.1 he]
    exact hsilent

/-- The transport goes on by itself. -/
theorem carry (h : Since calm x₀ past x)
    (he : x.transport.Eases calm x.subs.size y.transport)
    (hc : y.core = { x.core with transport := y.transport }) (hh : y.heard = x.heard) :
    Since calm x₀ past y := by
  have hs : y.subs = x.subs := congrArg Core.subs hc
  have hf : y.feeds = x.feeds := congrArg Core.feeds hc
  have hcall : y.callers = x.callers := congrArg Core.callers hc
  have hhand : y.handled = x.handled := congrArg Core.handled hc
  refine h.act_quiet
    { subsSize := by rw [hs]
      feedsSize := by rw [hf]
      names := he.names
      tame := he.tame
      run := ?_
      born := fun p hp => by cases hp
      callers := fun c hc _ _ => Or.inr ⟨c, hcall ▸ hc, rfl⟩
      keeps := congrArg Prod.fst hh
      notices := notices_of_heard hh
      handled := by rw [hhand]; simp }
  intro i L' hL'
  obtain ⟨hsub, hfeed, ho⟩ := lane_eq_some.1 hL'
  refine ⟨⟨L'.sub, L'.feed, x.transport.due L'.sub.inbox⟩,
    lane_eq_some.2 ⟨hs ▸ hsub, hf ▸ hfeed, rfl⟩, .single ?_⟩
  exact Lane.Step.ease ⟨L'.sub, L'.feed, x.transport.due L'.sub.inbox⟩ L'.due
    (ho ▸ he.due _)

/-- Callers come, go on and go; a new one that is to say that a drain is over does so for a
subscription that is settled. -/
theorem callers (h : Since calm x₀ past x)
    (hc : y.core = { x.core with callers := y.callers }) (hh : y.heard = x.heard)
    (hcallers : ∀ c ∈ y.callers, ∀ k, c.activity = .leave k (.flag true) →
      (∃ s : Subscription, x.subs[k]? = some s ∧ s.IsSettled) ∨
        ∃ d ∈ x.callers, d.activity = c.activity) : Since calm x₀ past y := by
  have hs : y.subs = x.subs := congrArg Core.subs hc
  have hf : y.feeds = x.feeds := congrArg Core.feeds hc
  have ht : y.transport = x.transport := congrArg Core.transport hc
  have hhand : y.handled = x.handled := congrArg Core.handled hc
  have hlane : ∀ i, y.lane i = x.lane i := by
    intro i
    unfold lane
    rw [hs, hf, ht]
  exact h.act_quiet
    { subsSize := by rw [hs]
      feedsSize := by rw [hf]
      names := by rw [ht]
      tame := by rw [ht]; exact h.transport
      run := fun i L hL => ⟨L, hlane i ▸ hL, .nil L⟩
      born := fun p hp => by cases hp
      callers := hcallers
      keeps := congrArg Prod.fst hh
      notices := notices_of_heard hh
      handled := by rw [hhand]; simp }

/-- Bookkeeping moves no lane. -/
theorem same (h : Since calm x₀ past x) (hc : y.core = x.core) (hh : y.heard = x.heard) :
    Since calm x₀ past y := by
  have hcall : y.callers = x.callers := congrArg Core.callers hc
  refine h.callers ?_ hh fun c hcy _ _ => Or.inr ⟨c, hcall ▸ hcy, rfl⟩
  rw [hcall]
  exact hc

end Since

end DemandFlow.Exchange
