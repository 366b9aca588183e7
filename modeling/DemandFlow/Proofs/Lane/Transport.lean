import DemandFlow.Proofs.Lane.Acts

/-
  What the transport does, as acts of lanes: commands that ask for nothing, the turns of the
  broker, feeds that lose their writer, and subscriptions that are opened. In a calm run each of
  these leaves every inbox owed no more than before, but for a frame that is sent, which takes what
  it stands for off what is owed to its inbox.
-/

namespace DemandFlow

open Broker (Command asked)

/-! ## Brokers that owe no more -/

namespace Broker.State

/-- A plain command that is taken in leaves an inbox owed at most what it asks for besides. -/
theorem owed_accept_le {b : State} {c : Command} (hc : c.Plain) (now : Nat) (inbox : String) :
    (b.accept now c).owed inbox ≤ b.owed inbox + c.asks inbox := by
  cases c with
  | publish m => exact Nat.le_of_eq ((owed_first inbox _ _).trans (by
      rw [posted_cons]
      exact Nat.zero_add _))
  | register dest => exact Nat.le_refl _
  | pull dest r =>
    by_cases hk : dest = inbox → b.knows dest = true
    · exact Nat.le_of_eq (owed_request hc now dest inbox hk)
    · -- a request for an inbox that nobody registered is only remembered
      have hkn : b.knows dest ≠ true := fun h => hk fun _ => h
      refine Nat.le_trans (Nat.le_of_eq ?_) (Nat.le_add_right _ _)
      show (b.request now dest r).owed inbox = b.owed inbox
      unfold request
      dsimp only
      rw [if_neg (by simpa [knows] using hkn)]
      rfl
  | unsubscribe dest => exact owed_forget_le dest inbox b
  | inject dest f => exact hc.elim
  | stats asker => exact hc.elim
  | pullLog asker => exact hc.elim

/-- What a chore hands over comes off what is owed. -/
theorem owed_of_work {b b' : State} {now : Nat} (h : b.Sound) {inbox : String} {f : Frame}
    (hw : b.work now = (b', some (inbox, f))) (dest : String) :
    b.owed dest = b'.owed dest + if inbox = dest then f.weight else 0 := by
  rw [owed_work h now dest, hw]
  rfl

theorem sound_of_work {b b' : State} {now : Nat} (h : b.Sound) {o : Option (String × Frame)}
    (hw : b.work now = (b', o)) : b'.Sound := by
  have hs := sound_work h now
  rwa [hw] at hs

end Broker.State

/-! ## Transports that have no more to do -/

namespace Transport

variable {calm : Bool} {n : Nat}

/-- A broker goes on, and owes no more. -/
theorem eases_loopback {l l' : Loopback} (h : (Transport.loopback l).Tame calm n)
    (ha : l'.alive = true → l.alive = true ∧ l'.nextInbox = l.nextInbox)
    (hr : ∀ inbox, (loopback l').requests inbox <:+ (loopback l).requests inbox)
    (hcalm : calm = true → l.Calm n → l'.broker.Sound ∧ (∀ c ∈ l'.commands.toList, c.Plain) ∧
      ∀ inbox, (loopback l').owing inbox ≤ (loopback l).owing inbox) :
    (Transport.loopback l).Eases calm n (.loopback l') := by
  refine ⟨rfl, ⟨fun hl => ?_, fun hc => ?_⟩, fun inbox => ⟨fun hc => ?_, hr inbox⟩⟩
  · obtain ⟨hl, hn⟩ := ha hl
    exact hn.trans (h.1 hl)
  · obtain ⟨hs, hp, ho⟩ := hcalm hc (h.2 hc)
    exact ⟨hs, hp, fun k hk => Nat.le_zero.1 ((h.2 hc).fresh k hk ▸ ho _)⟩
  · exact (hcalm hc (h.2 hc)).2.2 inbox

theorem eases_refl {t : Transport} (h : t.Tame calm n) : t.Eases calm n t :=
  ⟨rfl, h, fun _ => Due.eases_refl _ _⟩

/-- A script goes on. -/
theorem eases_scripted {s s' : Script} (h : (Transport.scripted s).Tame calm n)
    (hn : s'.nextInbox = s.nextInbox) (hp : s'.pulls = s.pulls) :
    (Transport.scripted s).Eases calm n (.scripted s') := by
  refine ⟨rfl, hn.trans h, fun inbox => ⟨fun _ => Nat.le_refl _, ?_⟩⟩
  simp only [due, requests, hp, List.suffix_refl]

/-- What a command asks for is the batch of its request. -/
theorem asks_of_requestOf? {inbox : String} {c : Command} (h : requestOf? inbox c = none) :
    c.asks inbox = 0 := by
  cases c with
  | pull dest r =>
    have hne : dest ≠ inbox := by simpa [requestOf?] using h
    exact if_neg hne
  | _ => rfl

theorem requests_push (l : Loopback) (k m : Nat) (c : Command) (inbox : String) :
    (Transport.loopback { l with
      nextInbox := k, nextSequence := m, commands := l.commands.push c }).requests inbox =
        (Transport.loopback l).requests inbox ++ (requestOf? inbox c).toList := by
  unfold requests
  dsimp only
  rw [Fifo.toList_push, List.filterMap_append]
  rfl

theorem owing_push (l : Loopback) (k m : Nat) (c : Command) (inbox : String) :
    (Transport.loopback { l with
      nextInbox := k, nextSequence := m, commands := l.commands.push c }).owing inbox =
        (Transport.loopback l).owing inbox + c.asks inbox := by
  unfold owing
  dsimp only
  rw [Fifo.toList_push, Broker.asked_append, Broker.asked_cons]
  show _ + (_ + 0) + _ = _
  omega

theorem plain_push {l : Loopback} {c : Command} (h : ∀ d ∈ l.commands.toList, d.Plain)
    (hc : c.Plain) : ∀ d ∈ (l.commands.push c).toList, d.Plain := by
  intro d hd
  rcases Fifo.mem_push.1 hd with hd | rfl
  · exact h d hd
  · exact hc

/-- A command that asks for nothing stands behind the others. -/
theorem eases_push {l : Loopback} (h : (Transport.loopback l).Tame calm n) {c : Command}
    (hc : calm = true → c.Plain) (ha : ∀ inbox, requestOf? inbox c = none) (m : Nat) :
    (Transport.loopback l).Eases calm n
      (.loopback { l with nextSequence := m, commands := l.commands.push c }) := by
  refine eases_loopback h (fun hl => ⟨hl, rfl⟩) (fun inbox => ?_)
    fun hcalm hl => ⟨hl.sound, ?_, fun inbox => ?_⟩
  · simp only [requests_push l l.nextInbox m c inbox, ha, Option.toList_none, List.append_nil,
      List.suffix_refl]
  · exact plain_push hl.plain (hc hcalm)
  · refine Nat.le_of_eq ((owing_push l l.nextInbox m c inbox).trans ?_)
    rw [asks_of_requestOf? (ha inbox), Nat.add_zero]

/-- The broker changes and owes no more. -/
theorem eases_broker {l : Loopback} (h : (Transport.loopback l).Tame calm n) {b : Broker.State}
    (hb : calm = true → l.Calm n → b.Sound ∧ ∀ inbox, b.owed inbox ≤ l.broker.owed inbox) :
    (Transport.loopback l).Eases calm n (.loopback { l with broker := b }) :=
  eases_loopback h (fun hl => ⟨hl, rfl⟩) (fun _ => List.suffix_refl _) fun hcalm hl =>
    ⟨(hb hcalm hl).1, hl.plain, fun inbox => Nat.add_le_add_left ((hb hcalm hl).2 inbox) _⟩

/-- The broker takes in a command. -/
theorem eases_accept {l : Loopback} (h : (Transport.loopback l).Tame calm n) {c : Command}
    {rest : Fifo Command} (hp : l.commands.pop? = some (c, rest)) (now : Nat) :
    (Transport.loopback l).Eases calm n
      (.loopback { l with commands := rest, broker := l.broker.accept now c }) := by
  have hl := Fifo.toList_of_pop? hp
  refine eases_loopback h (fun hl => ⟨hl, rfl⟩) (fun inbox => ?_) fun _ hcalm => ?_
  · unfold requests
    dsimp only
    rw [hl, List.filterMap_cons]
    split
    · exact List.suffix_refl _
    · exact List.suffix_cons _ _
  have hc : c.Plain := hcalm.plain c (by rw [hl]; exact List.mem_cons_self)
  refine ⟨Broker.State.sound_accept hcalm.sound hc now,
    fun d hd => hcalm.plain d (by rw [hl]; exact List.mem_cons_of_mem _ hd), fun inbox => ?_⟩
  have ho := Broker.State.owed_accept_le (b := l.broker) hc now inbox
  unfold owing
  dsimp only
  rw [hl, Broker.asked_cons]
  omega

end Transport

namespace Exchange

variable {calm : Bool} {x₀ x y : Exchange} {past : List (Nat × Deed)}

namespace Since

/-! ## Bookkeeping -/

theorem note (h : Since calm x₀ past x) (e : Log.Entry) : Since calm x₀ past (x.note e) :=
  h.same rfl rfl

theorem wake (h : Since calm x₀ past x) (t : Task) : Since calm x₀ past (x.wake t) :=
  h.same (core_wake x t) (skips_heard.wake x t)

theorem wakeAll (h : Since calm x₀ past x) (ts : List Task) :
    Since calm x₀ past (x.wakeAll ts) := h.same (core_wakeAll x ts) (skips_heard.wakeAll x ts)

theorem clearTimer (h : Since calm x₀ past x) (t : Task) :
    Since calm x₀ past (x.clearTimer t) := h.same rfl rfl

theorem setTimer (h : Since calm x₀ past x) (t : Task) (due : Nat) :
    Since calm x₀ past (x.setTimer t due) := h.same rfl rfl

theorem keepTimer (h : Since calm x₀ past x) (t : Task) (due : Nat) :
    Since calm x₀ past (x.keepTimer t due) := by
  unfold Exchange.keepTimer
  split
  · exact h
  · exact h.setTimer t due

/-! ## Feeds that lose a side -/

theorem closeFeed (h : Since calm x₀ past x) (inbox : String) :
    Since calm x₀ past (x.closeFeed inbox) := by
  unfold Exchange.closeFeed
  split
  · exact h
  · rename_i i _
    split
    · exact h
    · have hs := h.modifyFeed (i := i) (k := Feed.shut) [] (fun L _ => .shut L)
        (fun _ hd => by cases hd) (fun hn => absurd rfl hn)
      rw [List.map_nil, List.append_nil] at hs
      exact hs.wakeAll _

theorem closeFeeds (h : Since calm x₀ past x) (fs : List Feed) :
    Since calm x₀ past (fs.foldl (fun x f => x.closeFeed f.inbox) x) := by
  induction fs generalizing x with
  | nil => exact h
  | cons f fs ih => exact ih (h.closeFeed f.inbox)

/-! ## Commands -/

/-- A command that asks for nothing. -/
theorem send (h : Since calm x₀ past x) {c : Command} (hc : calm = true → c.Plain)
    (ha : ∀ inbox, Transport.requestOf? inbox c = none) : Since calm x₀ past (x.send c).1 := by
  have ht := h.transport
  unfold Exchange.send
  split
  · rename_i l hl
    rw [hl] at ht
    split
    · refine wake ?_ .broker
      refine h.carry ?_ rfl rfl
      rw [hl]
      exact Transport.eases_push ht hc ha l.nextSequence
    · exact h.note _
  · exact h

theorem publish (h : Since calm x₀ past x) (m : Message) : Since calm x₀ past (x.publish m).1 := by
  have ht := h.transport
  unfold Exchange.publish
  split
  · rename_i l hl
    rw [hl] at ht
    refine send ?_ (fun _ => trivial) (fun _ => rfl)
    refine h.carry ?_ rfl rfl
    rw [hl]
    exact Transport.eases_loopback ht (fun hl => ⟨hl, rfl⟩) (fun _ => List.suffix_refl _)
      fun _ hcalm => ⟨hcalm.sound, hcalm.plain, fun _ => Nat.le_refl _⟩
  · exact h

theorem release (h : Since calm x₀ past x) (inbox : String) :
    Since calm x₀ past (x.release inbox) := by
  have ht := h.transport
  unfold Exchange.release
  split
  · exact h.send (fun _ => trivial) (fun _ => rfl)
  · rename_i s hs
    rw [hs] at ht
    refine closeFeed ?_ inbox
    refine h.carry ?_ rfl rfl
    rw [hs]
    exact Transport.eases_scripted ht rfl rfl

theorem letGo (h : Since calm x₀ past x) : Since calm x₀ past x.letGo := by
  have ht := h.transport
  unfold Exchange.letGo modifyLoopback
  refine wake ?_ .broker
  split
  · rename_i l hl
    rw [hl] at ht
    refine h.carry ?_ rfl rfl
    rw [hl]
    exact Transport.eases_loopback ht (fun hl => ⟨hl, rfl⟩) (fun _ => List.suffix_refl _)
      fun _ hcalm => ⟨hcalm.sound, hcalm.plain, fun _ => Nat.le_refl _⟩
  · exact h

theorem fail (h : Since calm x₀ past x) (subscribe publish : Option TransportError) :
    Since calm x₀ past (x.fail subscribe publish) := by
  have ht := h.transport
  unfold Exchange.fail
  split
  · exact h
  · rename_i s hs
    rw [hs] at ht
    refine h.carry ?_ rfl rfl
    rw [hs]
    exact Transport.eases_scripted ht rfl rfl

/-! ## Callers -/

/-- A caller that does not say that a drain is over, or does so for a subscription that is
settled. -/
def MayWait (x : Exchange) (a : Activity) : Prop :=
  ∀ k, a = .leave k (.flag true) → ∃ s : Subscription, x.subs[k]? = some s ∧ s.IsSettled

theorem finish (h : Since calm x₀ past x) (id : Nat) (a : Answer) :
    Since calm x₀ past (x.finish id a) :=
  h.callers rfl rfl fun c hc _ _ => Or.inr ⟨c, (List.mem_filter.1 hc).1, rfl⟩

theorem setActivity (h : Since calm x₀ past x) (id : Nat) {a : Activity} (ha : MayWait x a) :
    Since calm x₀ past (x.setActivity id a) := by
  refine h.callers rfl rfl fun c hc k hk => ?_
  obtain ⟨d, hd, rfl⟩ := List.mem_map.1 hc
  split at hk
  · exact Or.inl (ha k hk)
  · rename_i hne
    refine Or.inr ⟨d, hd, ?_⟩
    rw [if_neg hne]

/-! ## The turns of the broker -/

theorem setBroker (h : Since calm x₀ past x) {l : Loopback} (hl : x.transport = .loopback l)
    {b : Broker.State}
    (hb : calm = true → l.Calm x.subs.size →
      b.Sound ∧ ∀ inbox, b.owed inbox ≤ l.broker.owed inbox) :
    Since calm x₀ past (x.setBroker l b) := by
  have ht := h.transport
  rw [hl] at ht
  refine h.carry ?_ rfl rfl
  rw [hl]
  exact Transport.eases_broker ht hb

theorem fireTimers (h : Since calm x₀ past x) {l : Loopback} (hl : x.transport = .loopback l)
    (now : Nat) : Since calm x₀ past (x.setBroker l (l.broker.fireTimers now)) :=
  h.setBroker hl fun _ hcalm => ⟨Broker.State.sound_fireTimers hcalm.sound now,
    fun inbox => Nat.le_of_eq (Broker.State.owed_fireTimers hcalm.sound now inbox)⟩

theorem takeCommand (h : Since calm x₀ past x) {l : Loopback} (hl : x.transport = .loopback l)
    {c : Command} {rest : Fifo Command} (hp : l.commands.pop? = some (c, rest)) :
    Since calm x₀ past (x.takeCommand c rest) := by
  have ht := h.transport
  rw [hl] at ht
  have hcore := core_accepted (x := x) hl c rest
  have hy : Since calm x₀ past ((x.noteCommand c).modifyLoopback fun l =>
      { l with commands := rest, broker := l.broker.accept (x.noteCommand c).now c }) := by
    have htr : ((x.noteCommand c).modifyLoopback fun l => { l with
        commands := rest, broker := l.broker.accept (x.noteCommand c).now c }).transport =
          .loopback { l with commands := rest, broker := l.broker.accept x.now c } :=
      congrArg Core.transport hcore
    refine h.carry ?_ (by rw [htr]; exact hcore) ?_
    · rw [hl, htr]
      exact Transport.eases_accept ht hp x.now
    · refine Eq.trans ?_ (skips_heard.noteCommand x c)
      unfold modifyLoopback
      split <;> rfl
  unfold Exchange.takeCommand commandEffect
  dsimp only
  split
  · exact hy.closeFeed _
  · exact (hy.finish _ _).wake _
  · exact (hy.finish _ _).wake _
  · exact hy

theorem endBroker (h : Since calm x₀ past x) {l : Loopback} (hl : x.transport = .loopback l) :
    Since calm x₀ past (x.endBroker l) := by
  have ht := h.transport
  rw [hl] at ht
  have hdead : Since calm x₀ past
      (({ x.clearTimer .broker with transport := .loopback { l with alive := false } }).note
        (Journal.brokerStopped l.broker.stats.text)) := by
    refine note ?_ _
    refine h.carry ?_ rfl rfl
    rw [hl]
    exact Transport.eases_loopback ht (fun hl => by cases hl) (fun _ => List.suffix_refl _)
      fun _ hcalm => ⟨hcalm.sound, hcalm.plain, fun _ => Nat.le_refl _⟩
  unfold Exchange.endBroker
  dsimp only
  rw [← Array.foldl_toList]
  exact hdead.closeFeeds _

theorem idle (h : Since calm x₀ past x) {l : Loopback} (hl : x.transport = .loopback l) :
    Since calm x₀ past (x.idle l).1 := by
  unfold Exchange.idle
  split
  · split
    · exact h.fireTimers hl x.now
    · split
      · exact h.setTimer _ _
      · exact h.endBroker hl
  · split
    · exact h.clearTimer _
    · exact h.endBroker hl

end Since

/-! ## Frames that are sent -/

theorem feedAt?_eq_some {inbox : String} {i : Nat} {feed : Feed}
    (h : x.feedAt? inbox = some (i, feed)) : x.feeds[i]? = some feed ∧ feed.inbox = inbox := by
  unfold feedAt? at h
  obtain ⟨j, hj, hm⟩ := Option.bind_eq_some_iff.1 h
  obtain ⟨g, hg, he⟩ := Option.map_eq_some_iff.1 hm
  cases he
  refine ⟨hg, ?_⟩
  obtain ⟨hlt, hb, _⟩ := Array.findIdx?_eq_some_iff_getElem.1 hj
  obtain ⟨_, rfl⟩ := Array.getElem?_eq_some_iff.1 hg
  exact eq_of_beq hb

theorem sends_of_idle {l : Loopback} (hl : x.transport = .loopback l)
    (hw : (l.broker.work x.now).2 = none) : x.sends = [] := by
  unfold sends
  rw [hl]
  dsimp only
  split
  · rename_i he
    rw [he] at hw
    cases hw
  · rfl

theorem sends_of_dead {l : Loopback} (hl : x.transport = .loopback l) (ha : l.alive = false) :
    x.sends = [] := by
  unfold sends
  rw [hl]
  dsimp only
  rw [ha]

theorem sends_of_post {l : Loopback} (hl : x.transport = .loopback l) (ha : l.alive = true)
    {b : Broker.State} {inbox : String} {f : Frame}
    (hw : l.broker.work x.now = (b, some (inbox, f))) :
    x.sends = match x.feedAt? inbox with
      | some (i, feed) =>
        if b.knows inbox && feed.reading then if feed.isFull then [] else [(i, .sent f)]
        else [(i, .lost f)]
      | none => [] := by
  cases hf : x.feedAt? inbox <;> simp only [sends, hl, ha, hw, hf]

namespace Since

/-- A frame leaves the broker for a feed, and goes into it or is dropped. -/
theorem posted (h : Since calm x₀ past x) {l : Loopback} (hl : x.transport = .loopback l)
    {b c : Broker.State} {inbox : String} {f : Frame}
    (hw : l.broker.work x.now = (c, some (inbox, f)))
    (hb : calm = true → c.Sound → b.Sound ∧ ∀ dest, b.owed dest ≤ c.owed dest)
    {i : Nat} {feed : Feed} (hfeed : x.feeds[i]? = some feed) (hinbox : feed.inbox = inbox)
    {k : Feed → Feed} {d : Deed} (hd : IsSilent d)
    (hstep : ∀ (L : Lane) (due : Due), L.feed = feed →
      (calm = true → f.Honest ∧ f.weight + due.owed ≤ L.due.owed) →
      due.requests <:+ L.due.requests →
      Lane.Step calm L [d] { L with feed := k L.feed, due := due })
    (hy : y.core = { x.core with
      transport := .loopback { l with broker := b }, feeds := x.core.feeds.modify i k })
    (hh : y.heard = x.heard) : Since calm x₀ (past ++ [(i, d)]) y := by
  have ht := h.transport
  rw [hl] at ht
  have hafter : calm = true → b.Sound ∧ ∀ dest,
      (if inbox = dest then f.weight else 0) + b.owed dest ≤ l.broker.owed dest := by
    intro hc
    have hsound := (ht.2 hc).sound
    obtain ⟨hs, ho⟩ := hb hc (Broker.State.sound_of_work hsound hw)
    refine ⟨hs, fun dest => ?_⟩
    have hwork := Broker.State.owed_of_work hsound hw dest
    have hle := ho dest
    omega
  have hmono : (Transport.loopback l).Eases calm x.subs.size (.loopback { l with broker := b }) :=
    Transport.eases_broker ht fun hc _ => ⟨(hafter hc).1, fun dest =>
      Nat.le_trans (Nat.le_add_left _ _) ((hafter hc).2 dest)⟩
  have htr : y.transport = .loopback { l with broker := b } := congrArg Core.transport hy
  have hcall : y.callers = x.callers := congrArg Core.callers hy
  have hhand : y.handled = x.handled := congrArg Core.handled hy
  have hsilent := filterMap_of_silent i [d] (by simpa using hd)
  refine h.act (Shifts.acts (g := id) (k := k) [d]
    { subs := (congrArg Core.subs hy).trans (modify_id _ _).symm
      feeds := congrArg Core.feeds hy
      names := by rw [htr, hl]; rfl
      tame := by rw [htr]; exact hmono.tame
      run := ?_
      eases := fun j s _ _ => by rw [htr, hl]; exact hmono.due s.inbox
      born := fun _ => by rw [← h.sizes]; exact (Array.getElem?_eq_some_iff.1 hfeed).1
      callers := fun c hc => ⟨c, hcall ▸ hc, rfl⟩
      keeps := congrArg Prod.fst hh
      notices := by
        rw [hsilent.1, ite_self, List.append_nil]
        exact congrArg Prod.snd hh
      handled := by rw [hsilent.2, List.append_nil, hhand] })
  intro L hL
  obtain ⟨hs, hf, ho⟩ := lane_eq_some.1 hL
  have hfL : L.feed = feed := Option.some.inj (hf.symm.trans hfeed)
  have hdest : inbox = L.sub.inbox := by
    rw [(h.subs i L.sub hs).2, ← h.feeds i feed hfeed, hinbox]
  rw [htr]
  refine .single (hstep L _ hfL (fun hc => ⟨?_, ?_⟩) ?_)
  · exact Broker.State.honest_of_work (ht.2 hc).sound x.now (by rw [hw])
  · have hle := (hafter hc).2 L.sub.inbox
    rw [if_pos hdest] at hle
    rw [ho, hl]
    unfold Transport.due Transport.owing
    dsimp only
    omega
  · rw [ho, hl]
    exact (hmono.due L.sub.inbox).requests

/-- A frame that nobody can read is dropped. -/
theorem lost (h : Since calm x₀ past x) {l : Loopback} (hl : x.transport = .loopback l)
    {b c : Broker.State} {inbox : String} {f : Frame}
    (hw : l.broker.work x.now = (c, some (inbox, f)))
    (hb : calm = true → c.Sound → b.Sound ∧ ∀ dest, b.owed dest ≤ c.owed dest)
    {i : Nat} {feed : Feed} (hfeed : x.feeds[i]? = some feed) (hinbox : feed.inbox = inbox) :
    Since calm x₀ (past ++ [(i, .lost f)]) (x.setBroker l b) := by
  refine h.posted hl hw hb hfeed hinbox (k := id) (isSilent_lost f)
    (fun L due _ hfair hreq => .lose L f due hfair hreq) ?_ rfl
  rw [modify_id]
  rfl

/-- A frame is posted, dropped, or held up. -/
theorem post (h : Since calm x₀ past x) {l : Loopback} (hl : x.transport = .loopback l)
    (ha : l.alive = true) {b : Broker.State} {inbox : String} {f : Frame}
    (hw : l.broker.work x.now = (b, some (inbox, f))) :
    Since calm x₀ (past ++ x.sends) (x.post l b inbox f).1 := by
  have hplain : calm = true → b.Sound → b.Sound ∧ ∀ dest, b.owed dest ≤ b.owed dest :=
    fun _ hs => ⟨hs, fun _ => Nat.le_refl _⟩
  have hb : Since calm x₀ past (x.setBroker l b) := h.setBroker hl fun _ hcalm =>
    ⟨Broker.State.sound_of_work hcalm.sound hw, fun dest => by
      rw [Broker.State.owed_of_work hcalm.sound hw dest]; exact Nat.le_add_right _ _⟩
  rw [sends_of_post hl ha hw]
  unfold Exchange.post
  cases hfa : x.feedAt? inbox with
  | none =>
    dsimp only
    rw [List.append_nil]
    split
    · exact hb
    · exact hb.note _
  | some q =>
    obtain ⟨i, feed⟩ := q
    obtain ⟨hfeed, hinbox⟩ := feedAt?_eq_some hfa
    dsimp only
    cases hk : b.knows inbox with
    | false =>
      rw [if_neg Bool.false_ne_true, Bool.false_and, if_neg Bool.false_ne_true]
      exact (h.lost hl hw hplain hfeed hinbox).note _
    | true =>
      rw [if_pos rfl, Bool.true_and]
      cases hr : feed.reading with
      | false =>
        rw [if_neg Bool.false_ne_true, if_neg Bool.false_ne_true]
        refine closeFeed (note ?_ _) _
        exact h.lost hl hw (fun _ hs => ⟨Broker.State.sound_forget hs inbox,
          fun dest => Broker.State.owed_forget_le inbox dest b⟩) hfeed hinbox
      | true =>
        rw [if_pos rfl, if_pos rfl]
        cases hfull : feed.isFull with
        | true =>
          rw [if_pos rfl, if_pos rfl, List.append_nil]
          exact h.clearTimer _
        | false =>
          rw [if_neg Bool.false_ne_true, if_neg Bool.false_ne_true]
          refine Since.wakeAll ?_ _
          exact h.posted hl hw hplain hfeed hinbox (k := (·.push f)) (isSilent_sent f)
            (fun L due he hfair hreq => .send L f due (he ▸ hr) hfair hreq) rfl rfl

theorem brokerStep (h : Since calm x₀ past x) :
    Since calm x₀ (past ++ x.sends) x.brokerStep.1 := by
  unfold Exchange.brokerStep
  split
  · rename_i hs
    have hnil : x.sends = [] := by
      unfold sends
      rw [hs]
    rw [hnil, List.append_nil]
    exact h
  · rename_i l hl
    split
    · rename_i ha
      split
      · split
        · rename_i hw
          exact h.post hl ha hw
        · rename_i b hw
          rw [sends_of_idle hl (by rw [hw]), List.append_nil]
          refine h.setBroker hl fun _ hcalm =>
            ⟨Broker.State.sound_of_work hcalm.sound hw, fun inbox => ?_⟩
          rw [Broker.State.owed_work hcalm.sound x.now inbox, hw]
          exact Nat.le_add_right _ _
      · rename_i hag
        have hidle : x.sends = [] := sends_of_idle hl (by unfold Broker.State.work; rw [hag])
        rw [hidle, List.append_nil]
        split
        · rename_i hp
          exact h.takeCommand hl hp
        · exact h.idle hl
    · rename_i ha
      rw [sends_of_dead hl (Bool.eq_false_iff.2 ha), List.append_nil]
      exact h

end Since

end Exchange

end DemandFlow
