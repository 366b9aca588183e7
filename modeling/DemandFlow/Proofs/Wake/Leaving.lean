import DemandFlow.Proofs.Wake.Owes

/-
  What a subscription that is left leaves behind. The transport is told of it once, by whoever
  claims that (`Released`): a script notes the inbox, a broker does not know it any more when it
  has taken in its commands. A subscription that is shut down has shut its monitor. Laws of one
  subscription and its transport come from `Works.keeps`, with one case for each kind of change.
-/

namespace DemandFlow

open Broker (Command inboxName)

/-! ## Inboxes that were given up -/

/-- Whether an inbox is known after a command. -/
def Broker.Command.leavesKnown (inbox : String) (known : Bool) : Command → Bool
  | .register dest => known || dest == inbox
  | .unsubscribe dest => known && dest != inbox
  | .publish _ | .pull _ _ | .inject _ _ | .stats _ | .pullLog _ => known

/-- Whether an inbox is known after some commands. -/
def knownAfter (inbox : String) (known : Bool) (cs : List Command) : Bool :=
  cs.foldl (fun known c => c.leavesKnown inbox known) known

/-- A script has noted that an inbox is given up; a broker is gone, or will not know it once it has
taken in its commands. -/
def Transport.Released (inbox : String) : Transport → Prop
  | .loopback l =>
    l.alive = false ∨ knownAfter inbox (l.broker.knows inbox) l.commands.toList = false
  | .scripted s => inbox ∈ s.released

section Known

variable {inbox : String} {known known' : Bool}

/-- What is known after a command was known before, or is registered by it. -/
theorem leavesKnown_mono (h : known' = true → known = true) (c : Command)
    (hc : c.leavesKnown inbox known' = true) : c.leavesKnown inbox known = true := by
  cases known with
  | true =>
    cases known' with
    | true => exact hc
    | false => cases c <;> simp_all [Command.leavesKnown]
  | false =>
    cases known' with
    | true => exact absurd (h rfl) Bool.false_ne_true
    | false => exact hc

theorem knownAfter_mono (h : known' = true → known = true) (cs : List Command)
    (hc : knownAfter inbox known' cs = true) : knownAfter inbox known cs = true := by
  induction cs generalizing known known' with
  | nil => exact h hc
  | cons c cs ih => exact ih (leavesKnown_mono h c) hc

theorem knownAfter_append (cs ds : List Command) :
    knownAfter inbox known (cs ++ ds) = knownAfter inbox (knownAfter inbox known cs) ds :=
  List.foldl_append

/-- Where nobody registers an inbox, it stays unknown. -/
theorem knownAfter_of_unregistered {cs : List Command} (h : ∀ c ∈ cs, c ≠ .register inbox) :
    knownAfter inbox false cs = false := by
  induction cs with
  | nil => rfl
  | cons c cs ih =>
    have hc : c.leavesKnown inbox false = false := by
      cases c with
      | register dest =>
        have hne : dest ≠ inbox := fun e => h _ List.mem_cons_self (by rw [e])
        simpa [Command.leavesKnown] using hne
      | unsubscribe _ | publish _ | pull _ _ | inject _ _ | stats _ | pullLog _ => rfl
    show knownAfter inbox (c.leavesKnown inbox false) cs = false
    rw [hc]
    exact ih fun d hd => h d (List.mem_cons_of_mem c hd)

theorem knows_of_accept {b : Broker.State} {c : Command} {now : Nat}
    (h : (b.accept now c).knows inbox = true) : c.leavesKnown inbox (b.knows inbox) = true := by
  by_cases hr : c = .register inbox
  · subst hr
    simp [Command.leavesKnown]
  · have hk := Broker.knows_accept hr h
    cases c with
    | unsubscribe dest =>
      have hne : dest ≠ inbox := by
        rintro rfl
        have hforgot : (b.accept now (.unsubscribe dest)).knows dest = false := b.knows_forget dest
        rw [hforgot] at h
        cases h
      simp [Command.leavesKnown, hk, hne]
    | register _ | publish _ | pull _ _ | inject _ _ | stats _ | pullLog _ =>
      simp [Command.leavesKnown, hk]

end Known

namespace Transport

variable {inbox : String} {t t' : Transport}

theorem Released.queues (h : t.Released inbox) (hq : t.Queues (· ≠ inbox) t') :
    t'.Released inbox := by
  cases t <;> cases t' <;> simp only [Queues, Released] at h hq ⊢
  · obtain ⟨hb, ha, cs, hcs, hnew⟩ := hq
    refine h.imp ha.trans fun hk => ?_
    rw [hcs, knownAfter_append, hb, hk]
    refine knownAfter_of_unregistered ?_
    rintro c hc rfl
    exact (hnew _ hc).2 inbox rfl rfl
  · exact hq.subset h

theorem Released.serves {l l' : Loopback} (h : (Transport.loopback l).Released inbox)
    (hs : l.Serves l') : (Transport.loopback l').Released inbox := by
  rcases h with ha | hk
  · refine Or.inl ?_
    cases ha' : l'.alive with
    | false => rfl
    | true => rw [hs.alive ha'] at ha; cases ha
  · refine Or.inr ?_
    rw [hs.commands, ← Bool.not_eq_true]
    intro hk'
    rw [knownAfter_mono (hs.knows inbox) _ hk'] at hk
    cases hk

theorem Released.accept {l : Loopback} {c : Command} {rest : Fifo Command} (now : Nat)
    (h : (Transport.loopback l).Released inbox) (hp : l.commands.pop? = some (c, rest)) :
    (Transport.loopback { l with
      commands := rest, broker := l.broker.accept now c }).Released inbox := by
  refine h.imp_right fun hk => ?_
  rw [Fifo.toList_of_pop? hp] at hk
  show knownAfter inbox _ rest.toList = false
  rw [← Bool.not_eq_true]
  intro hk'
  rw [show knownAfter inbox (l.broker.knows inbox) (c :: rest.toList) = true from
    knownAfter_mono knows_of_accept _ hk'] at hk
  cases hk

end Transport

namespace Exchange

variable {front : Option Task} {x₀ x y z : Exchange} {ps : List (String × PullRequest)} {i : Nat}

/-- Who releases an inbox has told the transport. -/
theorem released_release (x : Exchange) (inbox : String) :
    (x.release inbox).transport.Released inbox := by
  unfold release
  split
  · rename_i l hl
    unfold send
    rw [hl]
    dsimp only
    split
    · rw [transport_wake]
      refine Or.inr ?_
      show knownAfter inbox _ (l.commands.push _).toList = false
      rw [Fifo.toList_push, knownAfter_append]
      simp [knownAfter, Command.leavesKnown]
    · rename_i ha
      refine (congrArg (Transport.Released inbox) hl).mpr (Or.inl ?_)
      simpa using ha
  · rename_i s hs
    rw [transport_closeFeed]
    exact List.mem_append_right _ List.mem_cons_self

/-- Who unsubscribes releases the inbox, unless that was claimed before. -/
theorem unsubscribe_of {s : Subscription} (hs : x.subs[i]? = some s) :
    s.claimed = true ∧ x.unsubscribe i = x.close i ∨
      s.claimed = false ∧ ∃ (y : Exchange) (e : Log.Entry), y.transport = x.transport ∧
        x.unsubscribe i = (y.release s.inbox).note e := by
  have hx : (x.close i).subs[i]? = some s.shut := by
    rw [subs_close, Array.getElem?_modify, if_pos rfl, hs]
    rfl
  unfold unsubscribe
  dsimp only
  rw [hx]
  dsimp only
  split
  · rename_i hc
    exact Or.inl ⟨hc, rfl⟩
  · rename_i hc
    refine Or.inr ⟨by simpa [Subscription.shut] using hc, _, _, ?_, rfl⟩
    exact transport_close x i

theorem left_of_claimed {s : Subscription} (h : s.claimed = true) : s.left = s.shut := by
  unfold Subscription.left Subscription.shut
  rw [← h]

/-! ## What all changes of a subscription keep -/

/-- What is kept as the transport and one subscription change in each of their ways is kept by all
that works. -/
theorem Works.keeps {P : Transport → Subscription → Prop} {N : String → Prop}
    (h : Works front x₀ ps x) (hn : ∀ l, x₀.transport = .loopback l → N (inboxName l.nextInbox))
    (hqueue : ∀ {t t' s}, t.Queues N t' → P t s → P t' s)
    (hserve : front = some .broker → ∀ {l l' : Loopback} {s}, l.Serves l' → P (.loopback l) s →
      P (.loopback l') s)
    (haccept : front = some .broker → ∀ {l : Loopback} {c : Command} {rest : Fifo Command} {s}
      (now : Nat), l.commands.pop? = some (c, rest) → P (.loopback l) s →
        P (.loopback { l with commands := rest, broker := l.broker.accept now c }) s)
    (hopen : x₀.subs.size ≤ i → ∀ (t : Transport) inbox feed now capacity p,
      P t (.start inbox feed now capacity p))
    (heases : ∀ {t} {s s' : Subscription}, s.Eases s' → P t s → P t s')
    (htrack : ∀ {t s} {u : Tracker}, u.monitor.closed = s.tracker.monitor.closed → P t s →
      P t { s with tracker := u })
    (hwatch : ∀ {t s}, P t s → P t { s with watching := false })
    (hshut : ∀ {t s}, P t s → P t s.shut) (hended : ∀ {t s}, P t s → P t s.ended)
    (hleft : ∀ {z : Exchange} {s}, P z.transport s → P (z.release s.inbox).transport s.left)
    (hdropped : ∀ {z : Exchange} {qs s}, Works front x₀ qs z →
      z.isUsed i = false ∨ x₀.subs.size ≤ i → P z.transport s → P z.transport s.left)
    (hx : ∀ s, x₀.subs[i]? = some s → P x₀.transport s) :
    ∀ s, x.subs[i]? = some s → P x.transport s := by
  have hsame : ∀ {y z : Exchange}, y.transport.Queues N z.transport → z.subs = y.subs →
      (∀ s, y.subs[i]? = some s → P y.transport s) →
        ∀ s, z.subs[i]? = some s → P z.transport s :=
    fun hq hz hy s hs => hqueue hq (hy s (hz ▸ hs))
  have hmodify : ∀ {y z : Exchange} {j : Nat} {g : Subscription → Subscription},
      y.transport.Queues N z.transport → z.subs = y.subs.modify j g →
        (∀ s, y.subs[i]? = some s → P y.transport s) →
          (∀ s, j = i → y.subs[i]? = some s → P y.transport s → P z.transport (g s)) →
            ∀ s, z.subs[i]? = some s → P z.transport s := by
    intro y z j g hq hz hy hg s hs
    rw [hz] at hs
    rcases getElem?_modify_eq_some hs with ⟨u, rfl, hu, rfl⟩ | ⟨_, hs⟩
    · exact hg u rfl hu (hy u hu)
    · exact hqueue hq (hy s hs)
  have hstill : ∀ {y z : Exchange}, z.transport = y.transport →
      y.transport.Queues N z.transport := fun he => he ▸ Transport.queues_refl _
  induction h with
  | refl => exact hx
  | opened p =>
    intro s hs
    rcases subs_openSub x₀ p with hp | ⟨inbox, feed, now, capacity, hp⟩
    · exact hsame (queues_openSub x₀ p hn) hp hx s hs
    · rw [hp, Array.getElem?_push] at hs
      split at hs
      · rename_i hi
        cases hs
        exact hopen (Nat.le_of_eq hi.symm) _ _ _ _ _ _
      · exact hqueue (queues_openSub x₀ p hn) (hx s hs)
  | aside _ hy ih => exact hsame (hstill hy.transport) hy.subs ih
  | woken _ t ih => exact hsame (hstill (transport_wake _ t)) (subs_wake _ t) ih
  | roused _ t _ ih => exact ih
  | rested _ t due _ ih => exact ih
  | waited _ due _ _ ih =>
    exact hsame (hstill (transport_keepTimer _ _ due))
      (congrArg Core.subs (core_keepTimer _ _ due)) ih
  | @eased _ y _ j g hg _ ih =>
    have htr : (y.modifySub j g).transport = y.transport := rfl
    exact hmodify (y := y) (hstill htr) rfl ih fun s _ _ hs => heases (hg s) hs
  | @retracked _ y _ j s t hs ht ih =>
    have htr := transport_retracked y j t
    refine hmodify (hstill htr) (subs_retracked y j t) ih ?_
    rintro u rfl hu hp
    cases hs.symm.trans hu
    exact htr.symm ▸ htrack ht hp
  | @added _ y _ j s hs r ih =>
    have htr := transport_setTracker y j (s.tracker.added r)
    refine hmodify (hstill htr) (subs_setTracker y j _) ih ?_
    rintro u rfl hu hp
    cases hs.symm.trans hu
    exact htr.symm ▸ htrack rfl hp
  | @closed _ y _ j ih =>
    have htr := transport_close y j
    exact hmodify (hstill htr) (subs_close y j) ih fun s _ _ hp => htr.symm ▸ hshut hp
  | @unwatched _ y _ j ih =>
    have htr := transport_endAlarm y j
    exact hmodify (hstill htr) (subs_endAlarm y j) ih fun s _ _ hp => htr.symm ▸ hwatch hp
  | @ended _ y _ j ih =>
    have htr := transport_endWorker y j
    exact hmodify (hstill htr) (subs_endWorker y j) ih fun s _ _ hp => htr.symm ▸ hended hp
  | @left _ y _ j ih =>
    refine hmodify (queues_unsubscribe y j) (subs_unsubscribe y j) ih ?_
    rintro s rfl hs hp
    rcases unsubscribe_of hs with ⟨hc, he⟩ | ⟨_, z, e, hz, he⟩
    · rw [he, left_of_claimed hc]
      exact (transport_close y j).symm ▸ hshut hp
    · rw [he]
      exact hleft (hz.symm ▸ hp)
  | @dropped _ y hw j inside hu ih =>
    have htr := transport_dropSub y j inside
    refine hmodify (hstill htr) (subs_dropSub y j inside) ih ?_
    rintro s rfl _ hp
    exact htr.symm ▸ hdropped hw hu hp
  | finished _ id a _ ih => exact ih
  | turned _ _ a ih => exact ih
  | @called _ y _ a ih =>
    have htr := transport_callBehind y a
    rcases subs_callBehind y a with hs | ⟨j, hs⟩
    · exact hsame (hstill htr) hs ih
    · refine hmodify (hstill htr) hs ih fun s _ _ hp => htr.symm ▸ heases ?_ hp
      exact ⟨rfl, rfl, rfl, rfl, rfl, rfl, id⟩
  | adjusted _ ht ih => exact hsame ht.queues rfl ih
  | sent _ _ hr ha ih =>
    refine hsame (queues_send _ ha fun dest hd => ?_) (subs_of_affairs (skips_affairs.send _ _)) ih
    subst hd
    cases hr
  | carried _ _ r ih => exact hsame (queues_carry _ _ r) (subs_carry _ _ r) ih
  | released _ inbox ih => exact hsame (queues_release _ inbox) (subs_release _ inbox) ih
  | served _ hf hl hs ih => exact fun s hx => hserve hf hs (hl ▸ ih s hx)
  | accepted _ hf hl hp ih => exact fun s hx => haccept hf _ hp (hl ▸ ih s hx)

/-! ## Shut monitors, and claims -/

end Exchange

/-- A subscription that is shut down has shut its monitor. -/
def Subscription.IsTight (s : Subscription) : Prop :=
  s.closed = true → s.tracker.monitor.closed = true

/-- No question waits for the broker. -/
def Transport.Unasked : Transport → Prop
  | .loopback l => ∀ c ∈ l.commands.toList, c.asker? = none
  | .scripted _ => True

namespace Exchange

variable {front : Option Task} {x₀ x : Exchange} {ps : List (String × PullRequest)} {i : Nat}

theorem not_isAsked (h : x.transport.Unasked) (id : Nat) : ¬x.IsAsked id := by
  rintro ⟨l, hl, c, hc, hid⟩
  rw [hl] at h
  rw [h c hc] at hid
  cases hid

namespace Works

theorem unasked (h : Works front x₀ ps x) (hx : x₀.transport.Unasked) : x.transport.Unasked := by
  refine h.transport_keeps (P := Transport.Unasked) (N := fun _ => True) (fun _ _ => trivial)
    (fun {t t'} hq ht => ?_) (fun _ {l l'} hs ht => ?_) (fun _ {l c rest} _ hp ht => ?_) hx
  · cases t <;> cases t' <;> simp only [Transport.Queues, Transport.Unasked] at hq ht ⊢
    obtain ⟨_, _, cs, hcs, hnew⟩ := hq
    rw [hcs]
    exact fun c hc => (List.mem_append.1 hc).elim (ht c) fun hc => (hnew c hc).1
  · exact fun c hc => ht c (hs.commands ▸ hc)
  · refine fun d hd => ht d ?_
    rw [Fifo.toList_of_pop? hp]
    exact List.mem_cons_of_mem c hd

/-- Whoever works keeps monitors shut. -/
theorem tight (h : Works front x₀ ps x)
    (hx : ∀ (i : Nat) (s : Subscription), x₀.subs[i]? = some s → s.IsTight) (i : Nat)
    (s : Subscription) : x.subs[i]? = some s → s.IsTight := by
  refine h.keeps (P := fun _ s => s.IsTight) (N := fun _ => True) (fun _ _ => trivial)
    (fun _ hs => hs) (fun _ {_ _ _} _ hs => hs) (fun _ {_ _ _ _} _ _ hs => hs)
    ?_ ?_ ?_ ?_ ?_ ?_ ?_ ?_ (hx i) s
  · exact fun _ _ _ _ _ _ _ hc => by cases hc
  · exact fun hs ht hc => hs.shut.trans (ht (hs.closed.symm.trans hc))
  · exact fun hu ht hc => hu.trans (ht hc)
  · exact fun ht hc => ht hc
  · exact fun _ _ => rfl
  · exact fun _ _ => rfl
  · exact fun _ _ => rfl
  · exact fun _ _ _ _ => rfl

/-- Nobody opens a subscription again that is shut down. -/
theorem stays_closed (h : Works front x₀ ps x) {s₀ s : Subscription} (hs₀ : x₀.subs[i]? = some s₀)
    (hc : s₀.closed = true) (hs : x.subs[i]? = some s) : s.closed = true := by
  have hi : ¬x₀.subs.size ≤ i := Nat.not_le.2 (Array.getElem?_eq_some_iff.1 hs₀).1
  refine h.keeps (P := fun _ s => s.closed = true) (N := fun _ => True) (fun _ _ => trivial)
    (fun _ hs => hs) (fun _ {_ _ _} _ hs => hs) (fun _ {_ _ _ _} _ _ hs => hs)
    ?_ ?_ ?_ ?_ ?_ ?_ ?_ ?_ ?_ s hs
  · exact fun hle => absurd hle hi
  · exact fun hs hc => hs.closed.trans hc
  · exact fun _ hc => hc
  · exact fun hc => hc
  · exact fun _ => rfl
  · exact fun _ => rfl
  · exact fun _ => rfl
  · exact fun _ _ _ => rfl
  · exact fun s hs => Option.some.inj (hs₀.symm.trans hs) ▸ hc

/-- A broker that is gone stays away. -/
theorem gone (h : Works front x₀ ps x) {l : Loopback} (hl : x₀.transport = .loopback l)
    (ha : l.alive = false) : ∃ l', x.transport = .loopback l' ∧ l'.alive = false := by
  refine h.transport_keeps (P := fun t => ∃ l', t = .loopback l' ∧ l'.alive = false)
    (N := fun _ => True) (fun _ _ => trivial) (fun {t t'} hq ht => ?_)
    (fun _ {l l'} hs ht => ?_) (fun _ {l c rest} _ hp ht => ?_) ⟨l, hl, ha⟩
  · obtain ⟨l, he, ha⟩ := ht
    subst he
    cases t' <;> simp only [Transport.Queues] at hq
    exact ⟨_, rfl, hq.2.1.trans ha⟩
  · obtain ⟨_, he, ha⟩ := ht
    cases he
    refine ⟨l', rfl, ?_⟩
    cases ha' : l'.alive with
    | false => rfl
    | true => rw [hs.alive ha'] at ha; cases ha
  · obtain ⟨_, he, ha⟩ := ht
    cases he
    exact ⟨_, rfl, ha⟩

/-- What was released stays so, as long as the inbox that comes next is another one. -/
theorem stays_released (h : Works front x₀ ps x) {inbox : String}
    (hn : ∀ l, x₀.transport = .loopback l → l.alive = true → inboxName l.nextInbox ≠ inbox)
    (hx : x₀.transport.Released inbox) : x.transport.Released inbox := by
  by_cases hgone : ∃ l, x₀.transport = .loopback l ∧ l.alive = false
  · obtain ⟨l, hl, ha⟩ := hgone
    obtain ⟨l', hl', ha'⟩ := h.gone hl ha
    rw [hl']
    exact Or.inl ha'
  · refine h.transport_keeps (P := Transport.Released inbox) (N := (· ≠ inbox)) ?_
      (fun hq ht => ht.queues hq) (fun _ {l l'} hs ht => ht.serves hs)
      (fun _ {l c rest} now hp ht => ht.accept now hp) hx
    exact fun l hl => hn l hl (by simpa using fun ha => hgone ⟨l, hl, ha⟩)

/-- As long as a subscription is in use, nobody claims it without telling the transport. -/
theorem claims (h : Works front x₀ ps x) {s₀ s : Subscription} (hs₀ : x₀.subs[i]? = some s₀)
    (hn : ∀ l, x₀.transport = .loopback l → l.alive = true → inboxName l.nextInbox ≠ s₀.inbox)
    (hu : ∀ {z qs}, Works front x₀ qs z → z.isUsed i = true)
    (hx : s₀.claimed = true → x₀.transport.Released s₀.inbox) (hs : x.subs[i]? = some s)
    (hc : s.claimed = true) : x.transport.Released s₀.inbox := by
  by_cases hgone : ∃ l, x₀.transport = .loopback l ∧ l.alive = false
  · obtain ⟨l, hl, ha⟩ := hgone
    obtain ⟨l', hl', ha'⟩ := h.gone hl ha
    rw [hl']
    exact Or.inl ha'
  have hi : ¬x₀.subs.size ≤ i := Nat.not_le.2 (Array.getElem?_eq_some_iff.1 hs₀).1
  refine (h.keeps (N := (· ≠ s₀.inbox))
    (P := fun t s => s.inbox = s₀.inbox ∧ (s.claimed = true → t.Released s₀.inbox))
    ?_ ?_ ?_ ?_ ?_ ?_ ?_ ?_ ?_ ?_ ?_ ?_ ?_ s hs).2 hc
  · exact fun l hl => hn l hl (by simpa using fun ha => hgone ⟨l, hl, ha⟩)
  · exact fun hq hp => ⟨hp.1, fun hc => (hp.2 hc).queues hq⟩
  · exact fun _ {l l' s} hserve hp => ⟨hp.1, fun hc => (hp.2 hc).serves hserve⟩
  · exact fun _ {l c rest s} now hpop hp => ⟨hp.1, fun hc => (hp.2 hc).accept now hpop⟩
  · exact fun hle => absurd hle hi
  · exact fun he hp => ⟨he.inbox.trans hp.1, fun hc => hp.2 (he.claimed.symm.trans hc)⟩
  · exact fun _ hp => hp
  · exact fun hp => hp
  · exact fun hp => hp
  · exact fun hp => hp
  · exact fun {z s} hp => ⟨hp.1, fun _ => hp.1 ▸ released_release z s.inbox⟩
  · exact fun hw hno _ => absurd (hu hw) (by simpa using hno.resolve_right hi)
  · exact fun s hs => Option.some.inj (hs₀.symm.trans hs) ▸ ⟨rfl, hx⟩

end Works

end Exchange

end DemandFlow
