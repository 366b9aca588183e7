import DemandFlow.Proofs.Accounts.Entries
import DemandFlow.Proofs.Broker.Shape
import DemandFlow.Proofs.Silence.Beats

/-
  A broker that serves the first subscription of an exchange, before it is opened and as long as
  it is open. The demand is covered by what is on its way, pulls beat in time, and whoever saw the
  inbox last hears of the broker within one heartbeat, or a frame is under way. `Serving` says so
  of a core, and each part of a step keeps it: commands that join the line, the broker's turn, its
  timers, a frame that is taken in, a request that goes out.
-/

namespace DemandFlow

open Broker (Command Live inboxName)
open Exchange (Core shutAt)
open Accounts (Alike Keeps Wired)

/-- The demand of a subscription is never more than what is on its way. -/
def Covered (_ : Nat) (d : Demand) (onWay : Nat) : Prop := d.messages ≤ onWay

/-- A core keeps what it keeps of its clock, its transport, its feeds and its subscriptions. -/
theorem Accounts.keeps_same {P : Nat → Demand → Nat → Prop} {c c' : Core} {l : Loopback}
    (h : Keeps P c l) (ht : c'.transport = c.transport) (hf : c'.feeds = c.feeds)
    (hs : c'.subs = c.subs) : Keeps P c' l := by
  obtain ⟨now, transport, capacity, feeds, subs, callers, handled⟩ := c'
  dsimp only at ht hf hs
  subst ht hf hs
  exact ⟨⟨h.transport, h.alive, h.held, h.next, h.sizes, h.feeds, h.subs, h.lined, h.sound⟩,
    h.fresh, h.kept⟩

/-- A broker serves the first subscription, whose feed was seen at an instant. -/
structure Serving (beat : Option Span) (seen : Nat) (c : Core) (l : Loopback) : Prop where
  keeps : Keeps Covered c l
  beats : l.broker.Beats (inboxName 1) beat c.now
  /-- A frame lies in a feed, or the broker tells of itself in time. -/
  tells : (∃ (i : Nat) (f : Feed), c.feeds[i]? = some f ∧ f.frames.toList ≠ []) ∨
    l.broker.Tells (inboxName 1) seen
  commands : ∀ d ∈ l.commands.toList, d.Serves (inboxName 1) beat
  /-- A request in line was sent just now. -/
  asked : ∀ dest r, .pull dest r ∈ l.commands.toList → seen = c.now
  live : c.subs.size ≠ 0 → Live (inboxName 1) l.broker l.commands.toList
  feeds : ∀ (i : Nat) (f : Feed), c.feeds[i]? = some f → f.reading = true ∧ 0 < f.capacity

namespace Serving

variable {beat : Option Span} {seen : Nat} {c c' : Core} {l l' : Loopback} {x : Exchange}

theorem start {limits : Broker.Limits} (hl : limits.heartbeats = true) (beat : Option Span)
    (keepsNotices : Bool) (queueCapacity : Nat) :
    Serving beat 0 (Exchange.start (.loopback (.start limits true)) keepsNotices
      queueCapacity).core (.start limits true) where
  keeps := Accounts.keeps_start (fun _ => Nat.le_refl 0) limits keepsNotices queueCapacity
  beats := Broker.State.beats_start hl _ _ _
  tells := Or.inr (Broker.State.tells_start limits _ _)
  commands := fun d hd => by cases hd
  asked := fun dest r hr => by cases hr
  live := fun hn => absurd rfl hn
  feeds := fun i f hf => by cases hf

theorem same (h : Serving beat seen c l) (hn : c'.now = c.now)
    (ht : c'.transport = c.transport) (hf : c'.feeds = c.feeds) (hs : c'.subs = c.subs) :
    Serving beat seen c' l where
  keeps := Accounts.keeps_same h.keeps ht hf hs
  beats := hn ▸ h.beats
  tells := hf ▸ h.tells
  commands := h.commands
  asked := fun dest r hr => (h.asked dest r hr).trans hn.symm
  live := hs ▸ h.live
  feeds := hf ▸ h.feeds

/-- Subscriptions change in nothing that the accounts look at. -/
theorem alike (h : Serving beat seen c l) {ss : Array Subscription} (hs : Alike c.subs ss) :
    Serving beat seen { c with subs := ss } l :=
  { h with
    keeps := Accounts.keeps_alike h.keeps hs
    live := fun hn => h.live (hs.1 ▸ hn) }

/-- Time goes on where no request is in line. -/
theorem later (h : Serving beat seen c l) (hc : l.commands.toList = []) {now : Nat}
    (hle : c.now ≤ now) : Serving beat seen { c with now := now } l :=
  { h with
    keeps := Accounts.keeps_now h.keeps now
    beats := h.beats.later hle
    asked := fun dest r hr => by
      rw [hc] at hr
      cases hr }

/-! ## The line of commands -/

theorem live_push {inbox : String} {b : Broker.State} {cs : List Command} (d : Command)
    (h : Live inbox b cs) : Live inbox b (cs ++ [d]) := h.imp_right (List.mem_append_left _)

/-- A message is published. -/
theorem publish (h : Serving beat seen c l) (m : Message) (k : Nat) : Serving beat seen
    { c with transport := .loopback { l with
        nextSequence := k
        commands := l.commands.push (.publish m) } }
    { l with nextSequence := k, commands := l.commands.push (.publish m) } :=
  { h with
    keeps := Accounts.keeps_send h.keeps (d := .publish m) trivial (fun _ => by simp)
      (fun _ _ => by simp [Command.dest?]) (fun _ => rfl) k
    commands := fun d hd => by
      rcases Fifo.mem_push.1 hd with hd | rfl
      · exact h.commands d hd
      · exact trivial
    asked := fun dest r hr => (Fifo.mem_push.1 hr).elim (h.asked dest r) fun he => by cases he
    live := fun hn => by
      rw [Fifo.toList_push]
      exact live_push _ (h.live hn) }

/-! ## The broker's turn -/

/-- Where a frame for the first inbox would be dropped nobody waits. -/
theorem waiting_eq_nil (h : Serving beat seen c l)
    (hn : l.broker.knows (inboxName 1) = false ∨
      (c.feeds.findIdx? fun f => f.inbox == inboxName 1) = none) : l.broker.waiting = [] := by
  refine Classical.byContradiction fun hne => ?_
  have hk := h.beats.known hne
  have hz : c.subs.size ≠ 0 := fun hz => by
    rw [(h.keeps.lined.fresh 1 (by omega)).unknown] at hk
    cases hk
  have hs : c.subs[0]? = some c.subs[0] := Array.getElem?_eq_getElem (by omega)
  have hidx := Accounts.findIdx?_inbox h.keeps.toWired hs
  rw [(h.keeps.subs 0 _ hs).2] at hidx
  rcases hn with hn | hn
  · rw [hn] at hk
    cases hk
  · rw [hn] at hidx
    cases hidx

/-- The broker goes on and knows the inboxes that it knew. -/
theorem onward (h : Serving beat seen c l) {b : Broker.State} {fs : Array Feed}
    (hk : Keeps Covered { c with transport := .loopback { l with broker := b }, feeds := fs }
      { l with broker := b })
    (hb : b.Beats (inboxName 1) beat c.now) (hi : b.inboxes = l.broker.inboxes)
    (ht : (∃ (i : Nat) (f : Feed), fs[i]? = some f ∧ f.frames.toList ≠ []) ∨
      b.Tells (inboxName 1) seen)
    (hf : ∀ (i : Nat) (f : Feed), fs[i]? = some f → f.reading = true ∧ 0 < f.capacity) :
    Serving beat seen
      { c with transport := .loopback { l with broker := b }, feeds := fs }
      { l with broker := b } where
  keeps := hk
  beats := hb
  tells := ht
  commands := h.commands
  asked := h.asked
  live := fun hn => (h.live hn).imp_left fun hl => by
    unfold Broker.State.knows at hl ⊢
    dsimp only
    rw [hi]
    exact hl
  feeds := hf

/-- Only the broker goes on. -/
theorem inward (h : Serving beat seen c l) {b : Broker.State} {now : Nat}
    (hk : Keeps Covered { c with now := now, transport := .loopback { l with broker := b } }
      { l with broker := b })
    (hn : now = c.now) (hb : b.Beats (inboxName 1) beat c.now)
    (hi : b.inboxes = l.broker.inboxes)
    (ht : l.broker.Tells (inboxName 1) seen → b.Tells (inboxName 1) seen) :
    Serving beat seen { c with now := now, transport := .loopback { l with broker := b } }
      { l with broker := b } := by
  subst hn
  exact h.onward hk hb hi (h.tells.imp_right ht) h.feeds

/-- The broker settles what is due. -/
theorem fired (h : Serving beat seen c l) {now : Nat} (hn : now = c.now) : Serving beat seen
    { c with now := now, transport := .loopback { l with broker := l.broker.fireTimers now } }
    { l with broker := l.broker.fireTimers now } := by
  subst hn
  obtain ⟨hb, ht⟩ := h.beats.fireTimers seen
  exact h.inward (Accounts.keeps_fireTimers h.keeps c.now) rfl hb rfl ht

/-- A frame is posted: it goes into its feed, or is dropped, or stands. -/
theorem post (h : Serving beat seen x.core l) {b : Broker.State} {inbox : String} {f : Frame}
    (hw : l.broker.work x.core.now = (b, some (inbox, f))) :
    ∃ l' fs, (x.post l b inbox f).1.core =
        { x.core with transport := .loopback l', feeds := fs } ∧
      Serving beat seen (x.post l b inbox f).1.core l' := by
  obtain ⟨rest, _, hb⟩ := Broker.State.agenda_of_work hw
  have hi : b.inboxes = l.broker.inboxes := by rw [hb]
  obtain ⟨hserves, htold⟩ : b.Beats (inboxName 1) beat x.core.now ∧
      (l.broker.Tells (inboxName 1) seen → b.Tells (inboxName 1) seen ∨ inbox = inboxName 1) := by
    refine ⟨?_, fun ht => ?_⟩
    · exact h.beats.fewer (by rw [hb]) hi fun p hp => by rwa [hb] at hp
    · have hworked := (h.beats.work seen).2 ht
      rw [hw] at hworked
      exact hworked.imp_right fun ⟨g, hg⟩ => (Prod.mk.inj (Option.some.inj hg)).1
  rcases Exchange.core_post x l b inbox f with ⟨hc, hn⟩ | ⟨hc, _⟩ |
    ⟨j, feed, _, hj, hfeed, _, _, hc⟩ | ⟨j, feed, _, _, hfeed, hr, _⟩
  · refine ⟨_, x.core.feeds, hc, ?_⟩
    rw [hc]
    refine h.inward (Accounts.keeps_dropped h.keeps hw hn) rfl hserves hi fun ht => ?_
    rcases htold ht with ht | rfl
    · exact ht
    · have hnone : b.waiting = [] := by
        rw [hb]
        refine h.waiting_eq_nil (hn.imp_left fun hk => ?_)
        rw [hb] at hk
        exact hk
      refine Or.inr fun p hp => ?_
      rw [hnone] at hp
      cases hp
  · refine ⟨l, x.core.feeds, ?_, ?_⟩
    · rw [hc, ← h.keeps.transport]
    · rw [hc]
      exact h
  · refine ⟨_, _, hc, ?_⟩
    rw [hc]
    refine h.onward (Accounts.keeps_posted h.keeps hw hj) hserves hi
      (Or.inl ⟨j, feed.push f, ?_, ?_⟩) fun k g hg => ?_
    · rw [Array.getElem?_modify, if_pos rfl, hfeed]
      rfl
    · rw [Feed.toList_push]
      exact List.append_ne_nil_of_right_ne_nil _ (List.cons_ne_nil _ _)
    · rcases Exchange.getElem?_modify_eq_some hg with ⟨g, _, hk, rfl⟩ | ⟨_, hk⟩
      · exact h.feeds k g hk
      · exact h.feeds k g hk
  · -- feeds are read as long as a broker serves them
    rw [(h.feeds j feed hfeed).1] at hr
    cases hr

/-- A command is taken in, which ends no subscription. -/
theorem take (h : Serving beat seen x.core l) {d : Command} {rest : Fifo Command}
    (hd : l.commands.toList = d :: rest.toList) :
    ∃ l' fs, (x.takeCommand d rest).core =
        { x.core with transport := .loopback l', feeds := fs } ∧
      Serving beat seen (x.takeCommand d rest).core l' := by
  have hmem : d ∈ l.commands.toList := by
    rw [hd]
    exact List.mem_cons_self
  have hserves := h.commands d hmem
  have hshut : Exchange.shutBy x.core.feeds d = x.core.feeds := by
    cases d with
    | unsubscribe inbox => exact hserves.elim
    | publish _ | register _ | pull _ _ | inject _ _ | stats _ | pullLog _ => rfl
  have hc := Exchange.core_takeCommand (c := d) h.keeps.transport
    (fun asker e => by rw [e] at hserves; exact hserves)
    (fun asker e => by rw [e] at hserves; exact hserves) rest
  have hk := Accounts.keeps_take h.keeps hd
  refine ⟨_, _, hc, ?_⟩
  rw [hc]
  have hrest : ∀ e ∈ rest.toList, e ∈ l.commands.toList := fun e he => by
    rw [hd]
    exact List.mem_cons_of_mem _ he
  rw [hshut] at hk ⊢
  refine ⟨hk, h.beats.accept hserves, h.tells.imp_right fun ht => ?_,
    fun e he => h.commands e (hrest e he), fun dest r hr => h.asked dest r (hrest _ hr),
    fun hn => ?_, h.feeds⟩
  · refine ht.accept h.beats hserves fun dest r he => ?_
    subst he
    exact h.asked dest r hmem
  · have hlive := h.live hn
    rw [hd] at hlive
    exact Broker.State.live_accept hserves hlive

/-- The broker's turn. -/
theorem brokerStep (h : Serving beat seen x.core l) :
    ∃ l' fs, x.brokerStep.1.core = { x.core with transport := .loopback l', feeds := fs } ∧
      Serving beat seen x.brokerStep.1.core l' := by
  rcases Exchange.brokerStep_cases h.keeps.transport h.keeps.alive with ⟨b, _, hw, he⟩ |
    ⟨b, inbox, f, hw, he⟩ | ⟨d, rest, _, hp, he⟩ | ⟨_, _, he⟩ <;> rw [he]
  · have hb : (l.broker.work x.core.now).1 = b := congrArg Prod.fst hw
    refine ⟨{ l with broker := b }, x.core.feeds, rfl, h.inward (Accounts.keeps_chore h.keeps hw)
      rfl ?_ ?_ fun ht => ?_⟩
    · rw [← hb]
      exact (h.beats.work seen).1
    · rw [← hb]
      exact Broker.State.inboxes_work _ _
    · have hworked := (h.beats.work seen).2 ht
      rw [hw] at hworked
      exact hworked.resolve_right fun ⟨g, hg⟩ => by cases hg
  · exact h.post hw
  · exact h.take (Fifo.toList_of_pop? hp)
  · rcases Exchange.idle_cases x h.keeps.held with hi | ⟨due, hi⟩ | hi <;> rw [hi]
    · exact ⟨_, x.core.feeds, rfl, h.fired rfl⟩
    · exact ⟨l, x.core.feeds, by rw [← h.keeps.transport]; rfl, h⟩
    · exact ⟨l, x.core.feeds, by rw [← h.keeps.transport]; rfl, h⟩

/-- The broker looks at its timers between two commands. -/
theorem fire (h : Serving beat seen x.core l) : ∃ l', (x.fire 0).core =
    { x.core with transport := .loopback l' } ∧ Serving beat seen (x.fire 0).core l' := by
  rcases Exchange.core_fire h.keeps.transport 0 with hc | ⟨_, hc⟩
  · refine ⟨l, hc.trans (by rw [← h.keeps.transport]; rfl), ?_⟩
    rw [hc]
    exact h.same rfl rfl rfl rfl
  · refine ⟨_, hc, ?_⟩
    rw [hc]
    exact h.fired rfl

/-! ## The subscription -/

/-- A subscription is opened where there is none. -/
theorem opened (h : Serving beat seen c l) (hs : c.subs.size = 0) (capacity queue : Nat)
    (p : Purpose) : Serving beat c.now
      (Accounts.opened c l capacity queue p) (Accounts.registered l) := by
  have hnext : l.nextInbox = 1 := by
    rw [h.keeps.next, hs]
  have hcmd := Accounts.toList_registered h.keeps.toWired
  rw [hs] at hcmd
  refine ⟨Accounts.keeps_opened capacity queue p h.keeps, h.beats,
    Or.inr h.beats.tells, fun d hd => ?_, fun _ _ _ => rfl, fun _ => Or.inr ?_, fun i f hf => ?_⟩
  · rw [hcmd] at hd
    rcases List.mem_append.1 hd with hd | hd
    · exact h.commands d hd
    · rw [List.mem_singleton.1 hd]
      exact rfl
  · rw [hcmd]
    exact List.mem_append_right _ List.mem_cons_self
  · unfold Accounts.opened at hf
    dsimp only at hf
    rw [Array.getElem?_push] at hf
    split at hf
    · cases hf
      exact ⟨rfl, Nat.lt_of_lt_of_le Nat.zero_lt_one (Nat.le_max_left _ _)⟩
    · exact h.feeds i f hf

variable {i : Nat} {s : Subscription}

/-- A frame is taken in. -/
theorem managed (h : Serving beat seen c l) {f : Feed} {a : Frame} {rest : Fifo Frame}
    (hs : c.subs[i]? = some s) (hf : c.feeds[s.feed]? = some f)
    (ha : f.frames.toList = a :: rest.toList) : Serving beat c.now
      { c with
        feeds := c.feeds.modify s.feed fun feed => { feed with frames := rest }
        subs := c.subs.modify i fun u => { u with tracker := s.tracker.account c.now a } } l where
  keeps := Accounts.keeps_manage h.keeps hs hf ha (fun d n hhon hcov => by
    have hle := Demand.messages_take_le (d := d) hhon
    unfold Covered at hcov ⊢
    omega) fun _ _ _ _ hcov => hcov
  beats := h.beats
  tells := Or.inr h.beats.tells
  commands := h.commands
  asked := fun _ _ _ => rfl
  live := fun hn => h.live (by simpa using hn)
  feeds := fun j g hg => by
    rcases Exchange.getElem?_modify_eq_some hg with ⟨g, _, hj, rfl⟩ | ⟨_, hj⟩
    · exact h.feeds j g hj
    · exact h.feeds j g hj

/-- A request goes out. -/
theorem issued (h : Serving beat seen c l) (hi : s.inbox = inboxName 1)
    (hs : c.subs[i]? = some s) {r q : PullRequest} {t : Tracker} (hq : q.Fits)
    (hb : q.batch = r.batch) (hbeat : q.heartbeat = beat) (ht : t.demand = s.demand.add r) :
    Serving beat c.now
      { c with
        transport := .loopback { l with commands := l.commands.push (.pull s.inbox q) }
        subs := c.subs.modify i fun u => { u with tracker := t } }
      { l with commands := l.commands.push (.pull s.inbox q) } where
  keeps := Accounts.keeps_issue h.keeps hs hq hb ht (fun d n hcov => by
    have hle := Demand.messages_add_le d r
    unfold Covered at hcov ⊢
    omega) fun _ _ _ _ hcov => hcov
  beats := h.beats
  tells := Or.inr h.beats.tells
  commands := fun d hd => by
    rcases Fifo.mem_push.1 hd with hd | rfl
    · exact h.commands d hd
    · exact ⟨hi, hbeat⟩
  asked := fun _ _ _ => rfl
  live := fun hn => by
    dsimp only
    rw [Fifo.toList_push]
    exact live_push _ (h.live (by simpa using hn))
  feeds := h.feeds

/-! ## Rest -/

theorem burden_work {b : Broker.State} (ha : b.agenda ≠ []) (now : Nat) :
    (b.work now).1.burden < b.burden := by
  have h := Broker.State.burden_chore ha now false
  unfold Broker.State.react at h
  dsimp only at h
  cases hw : b.work now with
  | mk b' o =>
    rw [hw] at h
    cases o <;> exact h

/-- A broker that can do nothing, though no frame lies in a feed, has nothing to do. -/
theorem idle_of_rest (h : Serving beat seen x.core l)
    (hf : ∀ (i : Nat) (f : Feed), x.core.feeds[i]? = some f → f.frames.toList = [])
    (hr : x.brokerStep.1.core = x.core) :
    l.broker.agenda = [] ∧ l.commands.toList = [] := by
  have hsame : ∀ {l' : Loopback}, x.brokerStep.1.core.transport = .loopback l' → l' = l := by
    intro l' hl'
    rw [hr, h.keeps.transport] at hl'
    exact (Transport.loopback.inj hl').symm
  -- whatever is done of the agenda leaves less to be done
  have hstands : ∀ {b : Broker.State}, l.broker.agenda ≠ [] → (l.broker.work x.core.now).1 = b →
      x.brokerStep.1.core.transport = .loopback { l with broker := b } → False := by
    intro b hag hw ht
    have hlt := burden_work hag x.core.now
    rw [hw, show b = l.broker from congrArg Loopback.broker (hsame ht)] at hlt
    exact Nat.lt_irrefl _ hlt
  rcases Exchange.brokerStep_cases h.keeps.transport h.keeps.alive with ⟨b, hag, hw, he⟩ |
    ⟨b, inbox, f, hw, he⟩ | ⟨d, rest, _, hp, he⟩ | ⟨hag, hc, _⟩
  · exact (hstands hag (congrArg Prod.fst hw) (by rw [he]; rfl)).elim
  · have hag : l.broker.agenda ≠ [] := by
      obtain ⟨rest, ha, _⟩ := Broker.State.agenda_of_work hw
      exact ha ▸ List.cons_ne_nil _ _
    refine (hstands hag (congrArg Prod.fst hw) ?_).elim
    rw [he]
    rcases Exchange.core_post x l b inbox f with ⟨hc, _⟩ | ⟨_, j, feed, _, hfeed, hfull⟩ |
      ⟨j, feed, _, _, _, _, _, hc⟩ | ⟨j, feed, _, _, hfeed, hread, _⟩
    · rw [hc]
    · have hsize : feed.frames.size = 0 := by
        rw [← Fifo.length_toList, hf j feed hfeed]
        rfl
      have hcap := (h.feeds j feed hfeed).2
      have hle := of_decide_eq_true hfull
      omega
    · rw [hc]
    · rw [(h.feeds j feed hfeed).1] at hread
      cases hread
  · rw [he] at hsame
    have hrest := hsame (congrArg Core.transport (Exchange.core_takeCommand (c := d)
      h.keeps.transport (fun asker e => ?_) (fun asker e => ?_) rest))
    · have hd := Fifo.toList_of_pop? hp
      have hcommands : rest = l.commands := congrArg Loopback.commands hrest
      rw [hcommands] at hd
      exact absurd hd (List.cons_ne_self d _).symm
    all_goals
      have hserves := h.commands d (by
        rw [Fifo.toList_of_pop? hp]
        exact List.mem_cons_self)
      rw [e] at hserves
      exact hserves
  · exact ⟨hag, hc⟩

/-- Where nothing is under way, demand means that a pull waits, and the broker looks at its
timers no later than that beats. -/
theorem deadline_of_demand (h : Serving beat seen c l) (hag : l.broker.agenda = [])
    (hc : l.commands.toList = [])
    (hf : ∀ (i : Nat) (f : Feed), c.feeds[i]? = some f → f.frames.toList = [])
    (hs : c.subs[0]? = some s) (hd : 0 < s.demand.messages) {d : Span} (hb : beat = some d) :
    ∃ t, l.broker.deadline = some t ∧ t ≤ seen + d.nanos := by
  obtain ⟨hlt, _⟩ := Array.getElem?_eq_some_iff.1 hs
  obtain ⟨feed, hfeed⟩ : ∃ feed, c.feeds[0]? = some feed :=
    ⟨_, Array.getElem?_eq_getElem (h.keeps.sizes ▸ hlt)⟩
  have hi : s.inbox = inboxName 1 := (h.keeps.subs 0 s hs).2
  have hcov := h.keeps.kept 0 s feed hs hfeed (hi ▸ h.live (by omega)) (h.feeds 0 feed hfeed).1
  have hway : Accounts.onWay s.inbox l feed = Broker.held s.inbox l.broker.waiting := by
    unfold Accounts.onWay Broker.State.owed
    rw [hc, hag, hf 0 feed hfeed]
    show 0 + (_ + 0) + 0 = _
    omega
  unfold Covered at hcov
  rw [hway] at hcov
  have hne : l.broker.waiting ≠ [] := fun hn => by
    rw [hn] at hcov
    exact Nat.lt_irrefl 0 (Nat.lt_of_lt_of_le hd hcov)
  obtain ⟨p, hp⟩ := List.exists_mem_of_ne_nil _ hne
  have htells := (h.tells.resolve_left fun ⟨i, f, hi, hn⟩ => hn (hf i f hi)).resolve_left
    fun ⟨f, hm⟩ => by
      rw [hag] at hm
      cases hm
  obtain ⟨t, ht, hle⟩ := htells p hp d ((h.beats.pulls p hp).heartbeat.trans hb)
  obtain ⟨u, hu, hle'⟩ := Broker.State.deadline_le hp ht
  exact ⟨u, hu, Nat.le_trans hle' hle⟩

end Serving

end DemandFlow
