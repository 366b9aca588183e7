import DemandFlow.Proofs.Accounts.Run

/-
  What every move keeps. Commands, chores and timers only move counts along the way: what is
  asked for becomes owed, what is owed becomes carried. Only three moves touch a demand: a
  request adds to it, a frame that is managed settles it, and a new subscription starts at none.
  So a law `P` about demand beside what is on its way has to be looked at in these three only.
-/

namespace DemandFlow.Accounts

open Broker (Command Live Lined Untouched inboxName asked carried)
open Exchange (Core shutAt shutDown shutBy)

variable {P P' : Nat → Demand → Nat → Prop} {c : Core} {l : Loopback}

/-! ## Names -/

theorem inbox_lt {i : Nat} {s : Subscription} (h : Wired c l) (hs : c.subs[i]? = some s) :
    ∀ k, c.subs.size + 1 ≤ k → s.inbox ≠ inboxName k := by
  intro k hk he
  obtain ⟨hlt, _⟩ := Array.getElem?_eq_some_iff.1 hs
  rw [(h.subs i s hs).2] at he
  have := Broker.inboxName_injective he
  omega

/-- The feed of an inbox is the feed of its subscription. -/
theorem findIdx?_inbox {i : Nat} {s : Subscription} (h : Wired c l) (hs : c.subs[i]? = some s) :
    (c.feeds.findIdx? fun f => f.inbox == s.inbox) = some i := by
  obtain ⟨hlt, _⟩ := Array.getElem?_eq_some_iff.1 hs
  have hfl : i < c.feeds.size := by rw [h.sizes]; exact hlt
  have hin : ∀ (j : Nat) (hj : j < c.feeds.size), c.feeds[j].inbox = inboxName (j + 1) :=
    fun j hj => (h.feeds j _ (Array.getElem?_eq_getElem hj)).1
  refine Array.findIdx?_eq_some_iff_getElem.2 ⟨hfl, ?_, ?_⟩
  · rw [hin i hfl, (h.subs i s hs).2]
    exact beq_self_eq_true _
  · intro j hj he
    rw [hin j (Nat.lt_trans hj hfl), (h.subs i s hs).2] at he
    have := Broker.inboxName_injective (eq_of_beq he)
    omega

/-! ## Moves along the way -/

theorem keeps_alike {ss : Array Subscription} (h : Keeps P c l) (hs : Alike c.subs ss) :
    Keeps P { c with subs := ss } l := by
  have hw : Wired { c with subs := ss } l :=
    wired_mono h.toWired h.transport rfl rfl rfl (placed_of_alike hs) (continued_refl _) h.lined
      h.sound
  refine keeps_carry h hw hs ?_
  intro i s f _ hf hl hr
  exact ⟨f, hf, hl, hr, rfl⟩

/-- A command that asks for nothing joins the line. -/
theorem keeps_send (h : Keeps P c l) {d : Command} (hp : d.Plain)
    (hr : ∀ inbox, d ≠ .register inbox)
    (hd : ∀ k, c.subs.size + 1 ≤ k → d.dest? ≠ some (inboxName k))
    (ha : ∀ inbox, d.asks inbox = 0) (sequence : Nat) :
    Keeps P { c with transport := .loopback { l with
        nextSequence := sequence
        commands := l.commands.push d } }
      { l with nextSequence := sequence, commands := l.commands.push d } := by
  have hl : Lined (c.subs.size + 1) l.broker (l.commands.push d).toList := by
    rw [Fifo.toList_push]
    exact Broker.lined_push h.lined hp hr hd
  refine keeps_carry h (wired_mono h.toWired rfl rfl rfl rfl (placed_refl _) (continued_refl _)
    hl h.sound) (alike_refl _) ?_
  intro i s f _ hf hlive hread
  dsimp only at hlive
  rw [Fifo.toList_push] at hlive
  refine ⟨f, hf, Broker.live_of_push hlive (hr s.inbox), hread, ?_⟩
  rw [onWay_send, ha, Nat.add_zero]

theorem keeps_abandon (h : Keeps P c l) (j : Nat) :
    Keeps P { c with feeds := c.feeds.modify j Feed.abandon } l := by
  have hf : Continued c.feeds (c.feeds.modify j Feed.abandon) :=
    continued_modify _ _ fun f _ => ⟨rfl, fun a ha => by cases ha⟩
  refine keeps_carry h (wired_mono h.toWired h.transport rfl rfl rfl (placed_refl _) hf h.lined
    h.sound) (alike_refl _) ?_
  intro i s f' _ hf' hlive hread
  rcases Exchange.getElem?_modify_eq_some hf' with ⟨f, _, _, rfl⟩ | ⟨_, hf⟩
  · cases hread
  · exact ⟨f', hf, hlive, hread, rfl⟩

/-- The broker changes, learns of no inbox and owes each subscription what it owed before. -/
theorem keeps_broker (h : Keeps P c l) {b : Broker.State} (now : Nat)
    (hk : ∀ inbox, b.knows inbox = true → l.broker.knows inbox = true)
    (ho : ∀ inbox, b.owed inbox ≤ l.broker.owed inbox)
    (he : ∀ (i : Nat) (s : Subscription), c.subs[i]? = some s →
      Live s.inbox l.broker l.commands.toList → b.owed s.inbox = l.broker.owed s.inbox)
    (hsd : b.Sound) :
    Keeps P { c with now := now, transport := .loopback { l with broker := b } }
      { l with broker := b } := by
  have hl : Lined (c.subs.size + 1) b l.commands.toList := Broker.lined_mono h.lined hk ho
  refine keeps_carry h (wired_mono h.toWired rfl rfl rfl rfl (placed_refl _) (continued_refl _)
    hl hsd) (alike_refl _) ?_
  intro i s f hs hf hlive hread
  have hlive' : Live s.inbox l.broker l.commands.toList := by
    rcases hlive with hl | hl
    · exact Or.inl (hk _ hl)
    · exact Or.inr hl
  refine ⟨f, hf, hlive', hread, ?_⟩
  unfold onWay
  dsimp only
  rw [he i s hs hlive']

theorem keeps_fireTimers (h : Keeps P c l) (now : Nat) :
    Keeps P { c with
        now := now
        transport := .loopback { l with broker := l.broker.fireTimers now } }
      { l with broker := l.broker.fireTimers now } := by
  have ho := Broker.State.owed_fireTimers h.sound now
  exact keeps_broker h now (fun _ hk => hk) (fun inbox => Nat.le_of_eq (ho inbox))
    (fun _ s _ _ => ho s.inbox) (Broker.State.sound_fireTimers h.sound now)

theorem keeps_now (h : Keeps P c l) (now : Nat) : Keeps P { c with now := now } l := by
  refine keeps_carry h (wired_mono h.toWired h.transport rfl rfl rfl (placed_refl _)
    (continued_refl _) h.lined h.sound) (alike_refl _) ?_
  intro i s f _ hf hl hr
  exact ⟨f, hf, hl, hr, rfl⟩

/-! ## The broker's turn -/

theorem knows_work {b : Broker.State} (now : Nat) {inbox : String}
    (h : (b.work now).1.knows inbox = true) : b.knows inbox = true := by
  unfold Broker.State.knows at h ⊢
  rw [← Broker.State.inboxes_work now b]
  exact h

/-- A chore that posts nothing. -/
theorem keeps_chore (h : Keeps P c l) {b : Broker.State}
    (hw : l.broker.work c.now = (b, none)) :
    Keeps P { c with transport := .loopback { l with broker := b } }
      { l with broker := b } := by
  have hb : (l.broker.work c.now).1 = b := congrArg Prod.fst hw
  have ho : ∀ inbox, b.owed inbox = l.broker.owed inbox := by
    intro inbox
    rw [Broker.State.owed_work h.sound c.now inbox, hw]
    rfl
  refine keeps_broker h c.now (fun inbox hk => knows_work c.now (by rw [hb]; exact hk))
    (fun inbox => Nat.le_of_eq (ho inbox)) (fun _ s _ _ => ho s.inbox) ?_
  rw [← hb]
  exact Broker.State.sound_work h.sound c.now

section Post

variable {b : Broker.State} {inbox : String} {a : Frame}

/-- What is posted to one inbox leaves what is owed to the others. -/
theorem owed_of_post (h : Keeps P c l)
    (hw : l.broker.work c.now = (b, some (inbox, a))) (dest : String) :
    l.broker.owed dest = b.owed dest + if inbox = dest then a.weight else 0 := by
  rw [Broker.State.owed_work h.sound c.now dest, hw]
  rfl

theorem sound_of_post (h : Keeps P c l)
    (hw : l.broker.work c.now = (b, some (inbox, a))) : b.Sound := by
  have hb : (l.broker.work c.now).1 = b := congrArg Prod.fst hw
  rw [← hb]
  exact Broker.State.sound_work h.sound c.now

theorem knows_of_post (hw : l.broker.work c.now = (b, some (inbox, a))) {dest : String}
    (hk : b.knows dest = true) : l.broker.knows dest = true := by
  have hb : (l.broker.work c.now).1 = b := congrArg Prod.fst hw
  exact knows_work c.now (by rw [hb]; exact hk)

/-- A frame for an inbox that is unknown or has no feed is dropped. -/
theorem keeps_dropped (h : Keeps P c l)
    (hw : l.broker.work c.now = (b, some (inbox, a)))
    (hn : b.knows inbox = false ∨ (c.feeds.findIdx? fun f => f.inbox == inbox) = none) :
    Keeps P { c with transport := .loopback { l with broker := b } }
      { l with broker := b } := by
  have ho := owed_of_post h hw
  refine keeps_broker h c.now (fun dest hk => knows_of_post hw hk)
    (fun dest => by rw [ho dest]; exact Nat.le_add_right _ _) ?_ (sound_of_post h hw)
  intro i s hs hlive
  by_cases hd : inbox = s.inbox
  · subst hd
    rcases hn with hk | hk
    · -- an inbox that is still to be registered is owed nothing
      rcases hlive with hl | hl
      · have hsame : b.inboxes = l.broker.inboxes := by
          rw [← Broker.State.inboxes_work c.now l.broker, hw]
        unfold Broker.State.knows at hk hl
        rw [hsame, hl] at hk
        cases hk
      · obtain ⟨pre, post, he⟩ := List.append_of_mem hl
        have hz := (h.lined.once _ pre post he).owed
        have := ho s.inbox
        omega
    · rw [findIdx?_inbox h.toWired hs] at hk
      cases hk
  · have := ho s.inbox
    rw [if_neg hd] at this
    exact this.symm

/-- A frame that goes into the feed of its inbox is carried instead of owed. -/
theorem keeps_posted (h : Keeps P c l)
    (hw : l.broker.work c.now = (b, some (inbox, a))) {j : Nat}
    (hj : (c.feeds.findIdx? fun f => f.inbox == inbox) = some j) :
    Keeps P { c with
        transport := .loopback { l with broker := b }
        feeds := c.feeds.modify j (·.push a) } { l with broker := b } := by
  have ho := owed_of_post h hw
  have ha : a.Honest := Broker.State.honest_of_work h.sound c.now (by rw [hw])
  have hl : Lined (c.subs.size + 1) b l.commands.toList :=
    Broker.lined_mono h.lined (fun dest hk => knows_of_post hw hk)
      fun dest => by rw [ho dest]; exact Nat.le_add_right _ _
  have hf : Continued c.feeds (c.feeds.modify j (·.push a)) := by
    refine continued_modify _ _ fun f _ => ⟨rfl, fun q hq => ?_⟩
    rcases Fifo.mem_push.1 hq with hq | rfl
    · exact Or.inl hq
    · exact Or.inr ha
  refine keeps_carry h (wired_mono h.toWired rfl rfl rfl rfl (placed_refl _) hf hl
    (sound_of_post h hw)) (alike_refl _) ?_
  intro i s f' hs hf' hlive hread
  have hlive' : Live s.inbox l.broker l.commands.toList := by
    rcases hlive with hl | hl
    · exact Or.inl (knows_of_post hw hl)
    · exact Or.inr hl
  rcases Exchange.getElem?_modify_eq_some hf' with ⟨f, rfl, hfi, rfl⟩ | ⟨hij, hf'⟩
  · refine ⟨f, hfi, hlive', hread, ?_⟩
    have hd : inbox = s.inbox := by
      obtain ⟨hlt, he, _⟩ := Array.findIdx?_eq_some_iff_getElem.1 hj
      have hfj := (h.feeds j _ (Array.getElem?_eq_getElem hlt)).1
      rw [(h.subs j s hs).2, ← hfj]
      exact (eq_of_beq he).symm
    have := ho s.inbox
    rw [if_pos hd] at this
    rw [onWay_push]
    unfold onWay
    dsimp only
    omega
  · rename_i hij
    refine ⟨f', hf', hlive', hread, ?_⟩
    have hd : inbox ≠ s.inbox := by
      intro he
      rw [he, findIdx?_inbox h.toWired hs] at hj
      exact hij (Option.some.inj hj).symm
    have := ho s.inbox
    rw [if_neg hd] at this
    unfold onWay
    dsimp only
    omega

/-- A frame for a feed that nobody reads ends its inbox. -/
theorem keeps_refused (h : Keeps P c l)
    (hw : l.broker.work c.now = (b, some (inbox, a))) (hk : b.knows inbox = true) :
    Keeps P { c with
        transport := .loopback { l with broker := b.forget inbox }
        feeds := shutAt inbox c.feeds } { l with broker := b.forget inbox } := by
  have ho := owed_of_post h hw
  have hkf : ∀ dest, (b.forget inbox).knows dest = true → b.knows dest = true := fun dest hd =>
    List.contains_iff_mem.2 (List.mem_filter.1 (List.contains_iff_mem.1 hd)).1
  have hl : Lined (c.subs.size + 1) (b.forget inbox) l.commands.toList := by
    refine Broker.lined_mono h.lined (fun dest hd => knows_of_post hw (hkf dest hd)) fun dest => ?_
    have hle := Broker.State.owed_forget_le inbox dest b
    have := ho dest
    omega
  refine keeps_carry h (wired_mono h.toWired rfl rfl rfl rfl (placed_refl _)
    (continued_shutAt inbox c.feeds) hl (Broker.State.sound_forget (sound_of_post h hw) inbox))
    (alike_refl _) ?_
  intro i s f' hs hf' hlive hread
  have hne : inbox ≠ s.inbox := by
    -- the inbox is forgotten, and it was known, so nothing is to register it again
    intro he
    subst he
    rcases hlive with hk' | hm
    · rw [Broker.State.knows_forget] at hk'
      cases hk'
    · obtain ⟨pre, post, hc⟩ := List.append_of_mem hm
      have hu := (h.lined.once _ pre post hc).unknown
      rw [knows_of_post hw hk] at hu
      cases hu
  have hlive' : Live s.inbox l.broker l.commands.toList := by
    rcases hlive with hd | hd
    · exact Or.inl (knows_of_post hw (hkf _ hd))
    · exact Or.inr hd
  obtain ⟨f, hf, he⟩ := getElem?_shutAt hf'
  have hsame : f'.reading = f.reading ∧ f'.frames = f.frames := by
    rcases he with rfl | rfl
    · exact ⟨rfl, rfl⟩
    · exact ⟨rfl, rfl⟩
  refine ⟨f, hf, hlive', hsame.1 ▸ hread, ?_⟩
  have := ho s.inbox
  rw [if_neg hne] at this
  unfold onWay
  dsimp only
  rw [Broker.State.owed_forget hne, hsame.2]
  omega

end Post

/-- A command is taken in. -/
theorem keeps_take (h : Keeps P c l) {d : Command} {rest : Fifo Command}
    (hd : l.commands.toList = d :: rest.toList) :
    Keeps P { c with
        transport := .loopback { l with commands := rest, broker := l.broker.accept c.now d }
        feeds := shutBy c.feeds d }
      { l with commands := rest, broker := l.broker.accept c.now d } := by
  have hl : Lined (c.subs.size + 1) l.broker (d :: rest.toList) := hd ▸ h.lined
  have hp : d.Plain := hl.plain d List.mem_cons_self
  have hf : Continued c.feeds (shutBy c.feeds d) := by
    cases d with
    | unsubscribe inbox => exact continued_shutAt inbox c.feeds
    | publish m => exact continued_refl _
    | register inbox => exact continued_refl _
    | pull inbox r => exact continued_refl _
    | inject inbox f => exact continued_refl _
    | stats asker => exact continued_refl _
    | pullLog asker => exact continued_refl _
  have hnew : d.dest? ≠ some (inboxName (c.subs.size + 1)) :=
    (hl.fresh _ (Nat.le_refl _)).silent d List.mem_cons_self
  have hsd : (l.broker.accept c.now d).Sound :=
    Broker.State.sound_accept h.sound hp c.now
  refine keeps_carry h (wired_mono h.toWired rfl rfl rfl rfl (placed_refl _) hf
    (Broker.lined_accept hl c.now) hsd) (alike_refl _) ?_
  intro i s f' hs hf' hlive hread
  have hsuits := Broker.suits_of_live hl hlive
  have hlive' : Live s.inbox l.broker l.commands.toList := by
    rw [hd]
    exact Broker.live_of_accept hlive
  have hsame : ∃ f : Feed, c.feeds[i]? = some f ∧ f'.reading = f.reading ∧
      f'.frames = f.frames := by
    cases d with
    | unsubscribe inbox =>
      obtain ⟨f, hfi, he⟩ := getElem?_shutAt hf'
      rcases he with rfl | rfl
      · exact ⟨f', hfi, rfl, rfl⟩
      · exact ⟨f, hfi, rfl, rfl⟩
    | publish m => exact ⟨f', hf', rfl, rfl⟩
    | register inbox => exact ⟨f', hf', rfl, rfl⟩
    | pull inbox r => exact ⟨f', hf', rfl, rfl⟩
    | inject inbox f => exact ⟨f', hf', rfl, rfl⟩
    | stats asker => exact ⟨f', hf', rfl, rfl⟩
    | pullLog asker => exact ⟨f', hf', rfl, rfl⟩
  obtain ⟨f, hfi, hrd, hfr⟩ := hsame
  refine ⟨f, hfi, hlive', hrd ▸ hread, ?_⟩
  unfold onWay
  dsimp only
  rw [hd, Broker.asked_cons, Broker.State.owed_accept hsuits, hfr]
  omega

/-! ## Moves that touch a demand -/

/-- A frame is managed: what it carries is settled. -/
theorem keeps_manage (h : Keeps P c l) {i : Nat} {s : Subscription} {f : Feed} {a : Frame}
    {rest : Fifo Frame} (hs : c.subs[i]? = some s) (hf : c.feeds[s.feed]? = some f)
    (ha : f.frames.toList = a :: rest.toList)
    (hP : ∀ d n, a.Honest → P i d (a.weight + n) → P' i (d.take a) n)
    (hstill : ∀ j d n, j ≠ i → P j d n → P' j d n) :
    Keeps P' { c with
        feeds := c.feeds.modify s.feed fun feed => { feed with frames := rest }
        subs := c.subs.modify i fun u => { u with tracker := s.tracker.account c.now a } } l := by
  obtain ⟨hlt, _⟩ := Array.getElem?_eq_some_iff.1 hs
  have hsf : s.feed = i := (h.subs i s hs).1
  rw [hsf] at hf ⊢
  have hfs : Continued c.feeds (c.feeds.modify i fun feed => { feed with frames := rest }) := by
    refine continued_modify _ _ fun g hg => ⟨rfl, fun q hq => Or.inl ?_⟩
    rw [hf] at hg
    cases hg
    rw [ha]
    exact List.mem_cons_of_mem _ hq
  have hss : Placed c.subs (c.subs.modify i fun u =>
      { u with tracker := s.tracker.account c.now a }) :=
    placed_modify _ _ fun _ => ⟨rfl, rfl⟩
  refine ⟨wired_mono h.toWired h.transport rfl rfl rfl hss hfs h.lined h.sound, ?_, ?_⟩
  · intro j hj
    dsimp only at hj
    rw [hss.1] at hj
    exact hstill j _ _ (by omega) (h.fresh j hj)
  · intro j s' f' hs' hf' hlive hread
    dsimp only at hs' hf'
    rw [Array.getElem?_modify] at hs' hf'
    split at hs'
    · rename_i hij
      subst hij
      rw [if_pos rfl, hf] at hf'
      rw [hs] at hs'
      cases hf'
      cases hs'
      have hk := h.kept i s f hs hf hlive hread
      rw [onWay_pop ha] at hk
      have hd : (s.tracker.account c.now a).demand = s.demand.take a :=
        Demand.demand_account c.now a s.tracker
      show P' i (s.tracker.account c.now a).demand _
      rw [hd]
      refine hP _ _ ((h.feeds i f hf).2 a ?_) hk
      rw [ha]
      exact List.mem_cons_self
    · rename_i hij
      rw [if_neg hij] at hf'
      exact hstill j _ _ (Ne.symm hij) (h.kept j s' f' hs' hf' hlive hread)

/-- A request goes out: it is added to the demand and asked for. -/
theorem keeps_issue (h : Keeps P c l) {i : Nat} {s : Subscription} {r q : PullRequest}
    {t : Tracker} (hs : c.subs[i]? = some s) (hq : q.Fits) (hb : q.batch = r.batch)
    (ht : t.demand = s.demand.add r) (hP : ∀ d n, P i d n → P' i (d.add r) (n + r.batch))
    (hstill : ∀ j d n, j ≠ i → P j d n → P' j d n) :
    Keeps P' { c with
        transport := .loopback { l with commands := l.commands.push (.pull s.inbox q) }
        subs := c.subs.modify i fun u => { u with tracker := t } }
      { l with commands := l.commands.push (.pull s.inbox q) } := by
  obtain ⟨hlt, _⟩ := Array.getElem?_eq_some_iff.1 hs
  have hl : Lined (c.subs.size + 1) l.broker (l.commands.push (.pull s.inbox q)).toList := by
    rw [Fifo.toList_push]
    refine Broker.lined_push h.lined hq (fun _ => by simp) fun k hk he => ?_
    exact inbox_lt h.toWired hs k hk (Option.some.inj he)
  have hss : Placed c.subs (c.subs.modify i fun u => { u with tracker := t }) :=
    placed_modify _ _ fun _ => ⟨rfl, rfl⟩
  refine ⟨wired_mono h.toWired rfl rfl rfl rfl hss (continued_refl _) hl h.sound, ?_, ?_⟩
  · intro j hj
    dsimp only at hj
    rw [hss.1] at hj
    exact hstill j _ _ (by omega) (h.fresh j hj)
  · intro j s' f' hs' hf' hlive hread
    dsimp only at hs' hlive
    rw [Fifo.toList_push] at hlive
    have hlive' : Live s'.inbox l.broker l.commands.toList := Broker.live_of_push hlive (by simp)
    rcases Exchange.getElem?_modify_eq_some hs' with ⟨u, rfl, hu, rfl⟩ | ⟨hij, hs'⟩
    · cases hs.symm.trans hu
      have hk := h.kept i s f' hs hf' hlive' hread
      have ha : (Command.pull s.inbox q).asks s.inbox = r.batch := (if_pos rfl).trans hb
      show P' i t.demand (onWay s.inbox _ f')
      rw [ht, onWay_send, ha]
      exact hP _ _ hk
    · have hne : s.inbox ≠ s'.inbox := by
        intro he
        rw [(h.subs i s hs).2, (h.subs j s' hs').2] at he
        have := Broker.inboxName_injective he
        omega
      have ha : (Command.pull s.inbox q).asks s'.inbox = 0 := if_neg hne
      rw [onWay_send, ha, Nat.add_zero]
      exact hstill j _ _ (Ne.symm hij) (h.kept j s' f' hs' hf' hlive' hread)

/-- A request that cannot go out is added to the demand all the same. -/
theorem keeps_strand (h : Keeps P c l) {i : Nat} {s : Subscription} {r : PullRequest}
    {t : Tracker} (hs : c.subs[i]? = some s) (ht : t.demand = s.demand.add r)
    (hP : ∀ d n, P i d n → P' i (d.add r) n) (hstill : ∀ j d n, j ≠ i → P j d n → P' j d n) :
    Keeps P' { c with subs := c.subs.modify i fun u => { u with tracker := t } } l := by
  obtain ⟨hlt, _⟩ := Array.getElem?_eq_some_iff.1 hs
  have hss : Placed c.subs (c.subs.modify i fun u => { u with tracker := t }) :=
    placed_modify _ _ fun _ => ⟨rfl, rfl⟩
  refine ⟨wired_mono h.toWired h.transport rfl rfl rfl hss (continued_refl _) h.lined h.sound,
    ?_, ?_⟩
  · intro j hj
    dsimp only at hj
    rw [hss.1] at hj
    exact hstill j _ _ (by omega) (h.fresh j hj)
  · intro j s' f' hs' hf' hlive hread
    dsimp only at hs'
    rcases Exchange.getElem?_modify_eq_some hs' with ⟨u, rfl, hu, rfl⟩ | ⟨hij, hs'⟩
    · cases hs.symm.trans hu
      have hk := h.kept i s f' hs hf' hlive hread
      show P' i t.demand (onWay s.inbox l f')
      rw [ht]
      exact hP _ _ hk
    · exact hstill j _ _ (Ne.symm hij) (h.kept j s' f' hs' hf' hlive hread)

section Opened

variable (c l) (capacity queue : Nat) (p : Purpose)

/-- The loopback once the registration of the next inbox has joined the line. -/
def registered : Loopback :=
  { l with
    nextInbox := l.nextInbox + 1
    commands := l.commands.push (.register (inboxName l.nextInbox)) }

/-- The core once the next subscription is opened. -/
def opened : Core :=
  { c with
    transport := .loopback (registered l)
    feeds := c.feeds.push (.start (inboxName l.nextInbox) capacity (some c.subs.size))
    subs := c.subs.push (.start (inboxName l.nextInbox) c.feeds.size c.now queue p) }

variable {c l}

theorem toList_registered (h : Wired c l) : (registered l).commands.toList =
    l.commands.toList ++ [.register (inboxName (c.subs.size + 1))] := by
  unfold registered
  rw [Fifo.toList_push, h.next]

theorem onWay_registered (inbox : String) (f : Feed) :
    onWay inbox (registered l) f = onWay inbox l f := by
  unfold registered
  rw [onWay_send]
  rfl

theorem wired_opened (h : Wired c l) :
    Wired (opened c l capacity queue p) (registered l) := by
  refine ⟨rfl, h.alive, h.held, ?_, ?_, ?_, ?_, ?_, h.sound⟩
  · unfold registered opened
    rw [h.next, Array.size_push]
  · unfold opened
    rw [Array.size_push, Array.size_push, h.sizes]
  · intro i f hf
    unfold opened at hf
    rw [Array.getElem?_push] at hf
    split at hf
    · rename_i hi
      cases hf
      rw [hi, h.sizes, h.next]
      refine ⟨rfl, fun a ha => ?_⟩
      cases ha
    · exact h.feeds i f hf
  · intro i s hs
    unfold opened at hs
    rw [Array.getElem?_push] at hs
    split at hs
    · rename_i hi
      cases hs
      rw [hi, h.next]
      exact ⟨h.sizes, rfl⟩
    · exact h.subs i s hs
  · rw [toList_registered h]
    unfold opened
    rw [Array.size_push]
    exact Broker.lined_register h.lined

/-- Nothing is on its way to an inbox that no subscription has yet. -/
theorem onWay_fresh (h : Wired c l) :
    onWay (inboxName l.nextInbox) l
      (.start (inboxName l.nextInbox) capacity (some c.subs.size)) = 0 := by
  have hfresh := h.lined.fresh (c.subs.size + 1) (Nat.le_refl _)
  unfold onWay
  rw [h.next, Broker.asked_eq_zero hfresh.silent, hfresh.owed]
  rfl

/-- A subscription is opened: nothing is outstanding and nothing is on its way. -/
theorem keeps_opened (h : Keeps P c l) : Keeps P (opened c l capacity queue p) (registered l) := by
  refine ⟨wired_opened capacity queue p h.toWired, ?_, ?_⟩
  · intro i hi
    unfold opened at hi
    rw [Array.size_push] at hi
    exact h.fresh i (by omega)
  · intro i s f hs hf hlive hread
    rw [toList_registered h.toWired] at hlive
    unfold opened at hs hf
    rw [Array.getElem?_push] at hs hf
    rw [h.sizes] at hf
    rw [onWay_registered]
    split at hs
    · rename_i hi
      subst hi
      rw [if_pos rfl] at hf
      cases hs
      cases hf
      show P c.subs.size .none (onWay (inboxName l.nextInbox) _ _)
      rw [onWay_fresh capacity h.toWired]
      exact h.fresh _ (Nat.le_refl _)
    · rename_i hi
      rw [if_neg hi] at hf
      have hne : inboxName (c.subs.size + 1) ≠ s.inbox :=
        (inbox_lt h.toWired hs _ (Nat.le_refl _)).symm
      have hlive' : Live s.inbox l.broker l.commands.toList :=
        Broker.live_of_push hlive fun he => hne (Command.register.inj he)
      exact h.kept i s f hs hf hlive' hread

end Opened

end DemandFlow.Accounts
