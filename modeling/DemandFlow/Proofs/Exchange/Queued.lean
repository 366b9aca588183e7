import DemandFlow.Proofs.Exchange.Handed

/-
  Only the broker's own steps change a broker. Whatever else is done leaves it as it is, and puts
  commands behind those that wait for it: no questions, and a registration only for an inbox that
  is new. What all this keeps of a transport is kept by every step.
-/

namespace DemandFlow

open Broker (Command inboxName)

namespace Transport

/-- The broker is the same, with more commands perhaps, and more is released by a script. -/
def Queues (new : String → Prop) : Transport → Transport → Prop
  | .loopback l, .loopback l' =>
    l'.broker = l.broker ∧ l'.alive = l.alive ∧
      ∃ cs, l'.commands.toList = l.commands.toList ++ cs ∧
        ∀ c ∈ cs, c.asker? = none ∧ ∀ dest, c = .register dest → new dest
  | .scripted s, .scripted s' => s.released <+: s'.released
  | _, _ => False

variable {new : String → Prop} {t t' t'' : Transport}

theorem queues_refl (t : Transport) : t.Queues new t := by
  cases t with
  | loopback l => exact ⟨rfl, rfl, [], (List.append_nil _).symm, fun _ h => by cases h⟩
  | scripted s => exact List.prefix_refl _

theorem Queues.trans (h : t.Queues new t') (h' : t'.Queues new t'') : t.Queues new t'' := by
  cases t <;> cases t' <;> cases t'' <;> simp only [Queues] at h h' ⊢
  · obtain ⟨hb, ha, cs, hcs, hnew⟩ := h
    obtain ⟨hb', ha', ds, hds, hnew'⟩ := h'
    refine ⟨hb'.trans hb, ha'.trans ha, cs ++ ds, by rw [hds, hcs, List.append_assoc], ?_⟩
    exact fun c hc => (List.mem_append.1 hc).elim (hnew c) (hnew' c)
  · exact h.trans h'

/-- One command more. -/
theorem queues_push (l : Loopback) (k : Nat) {c : Command} (ha : c.asker? = none)
    (hr : ∀ dest, c = .register dest → new dest) :
    (Transport.loopback l).Queues new
      (.loopback { l with commands := l.commands.push c, nextInbox := k }) := by
  refine ⟨rfl, rfl, [c], Fifo.toList_push _ _, fun d hd => ?_⟩
  obtain rfl := List.mem_singleton.1 hd
  exact ⟨ha, hr⟩

theorem queues_withPull (t : Transport) (inbox : String) (r : PullRequest) :
    t.Queues new (t.withPull inbox r) := by
  cases t with
  | loopback l => exact queues_push l l.nextInbox rfl nofun
  | scripted s => exact List.prefix_refl _

theorem Adjusts.queues (h : t.Adjusts t') : t.Queues new t' := by
  cases t <;> cases t' <;> simp only [Adjusts] at h
  · obtain ⟨hb, hc, ha⟩ := h
    exact ⟨hb, ha, [], by rw [hc, List.append_nil], fun _ hm => by cases hm⟩
  · exact ⟨[], (List.append_nil _).trans h.2.symm⟩

end Transport

namespace Exchange

variable {front : Option Task} {x₀ x : Exchange} {ps : List (String × PullRequest)}
  {new : String → Prop}

theorem queues_send (x : Exchange) {c : Command} (ha : c.asker? = none)
    (hr : ∀ dest, c = .register dest → new dest) :
    x.transport.Queues new (x.send c).1.transport := by
  unfold send
  split
  · rename_i l hl
    split
    · rw [transport_wake, hl]
      exact Transport.queues_push l l.nextInbox ha hr
    · exact Transport.queues_refl _
  · exact Transport.queues_refl _

theorem queues_release (x : Exchange) (inbox : String) :
    x.transport.Queues new (x.release inbox).transport := by
  unfold release
  split
  · exact queues_send x rfl nofun
  · rename_i s hs
    rw [transport_closeFeed, hs]
    exact List.prefix_append _ _

theorem queues_unsubscribe (x : Exchange) (i : Nat) :
    x.transport.Queues new (x.unsubscribe i).transport := by
  obtain ⟨y, hy, _, hcase⟩ := unsubscribe_cases x i
  have ht : y.transport = x.transport := congrArg Core.transport hy
  rcases hcase with he | ⟨inbox, e, he⟩
  · rw [he, ht]
    exact Transport.queues_refl _
  · rw [he, ← ht]
    exact queues_release y inbox

/-- A broker is told of the inbox that comes next. -/
theorem queues_subscribe (x : Exchange) (reader : Option Nat)
    (hn : ∀ l, x.transport = .loopback l → new (inboxName l.nextInbox)) :
    x.transport.Queues new (x.subscribe reader).1.transport := by
  unfold subscribe
  dsimp only
  split
  · rename_i l hl
    have hnext : x.transport.Queues new (.loopback { l with nextInbox := l.nextInbox + 1 }) := by
      rw [hl]
      exact ⟨rfl, rfl, [], (List.append_nil _).symm, fun _ h => by cases h⟩
    have hsent := hnext.trans (queues_send
      { x with transport := .loopback { l with nextInbox := l.nextInbox + 1 } }
      (c := .register s!"_INBOX.loopback.{l.nextInbox}") rfl
      fun dest hd => by cases hd; exact hn l hl)
    split <;> exact hsent
  · rename_i s hs
    split
    · exact Transport.queues_refl _
    · rw [hs]
      exact List.prefix_refl _

theorem queues_carry (x : Exchange) (inbox : String) (r : PullRequest) :
    x.transport.Queues new (x.carry inbox r).1.transport := by
  rcases carry_cases x inbox r with ⟨_, hc⟩ | ⟨e, _, hc⟩
  · rw [show Exchange.transport _ = _ from congrArg Core.transport hc]
    exact Transport.queues_withPull _ _ _
  · rw [show Exchange.transport _ = _ from congrArg Core.transport hc]
    exact Transport.queues_refl _

theorem queues_openSub (x : Exchange) (p : Purpose)
    (hn : ∀ l, x.transport = .loopback l → new (inboxName l.nextInbox)) :
    x.transport.Queues new (x.openSub p).1.transport :=
  (transport_openSub x p).symm ▸ queues_subscribe x _ hn

/-- What is kept as commands are put behind the others, and as the broker works and takes them in,
is kept by all that works. -/
theorem Works.transport_keeps {P : Transport → Prop} {N : String → Prop}
    (h : Works front x₀ ps x) (hn : ∀ l, x₀.transport = .loopback l → N (inboxName l.nextInbox))
    (hq : ∀ {t t' : Transport}, t.Queues N t' → P t → P t')
    (hs : front = some .broker → ∀ {l l' : Loopback}, l.Serves l' →
      P (.loopback l) → P (.loopback l'))
    (ha : front = some .broker → ∀ {l : Loopback} {c : Command} {rest : Fifo Command} (now : Nat),
      l.commands.pop? = some (c, rest) → P (.loopback l) →
        P (.loopback { l with commands := rest, broker := l.broker.accept now c }))
    (hx : P x₀.transport) : P x.transport := by
  refine h.transport_induction (Q := fun _ t => P t) hx (hq (queues_subscribe x₀ _ hn) hx)
    (fun ht ih => hq ht.queues ih) ?_ (fun inbox r ih => hq (queues_carry _ inbox r) ih)
    (fun inbox ih => hq (queues_release _ inbox) ih) (fun hf _ _ _ hserve ih => hs hf hserve ih)
    (fun hf _ _ _ _ now hp ih => ha hf now hp ih)
  intro _ y c _ hr hasker ih
  exact hq (queues_send y hasker fun dest hd => by subst hd; cases hr) ih

/-- The inbox that is registered next, if there is a broker. -/
def IsNext (x : Exchange) (inbox : String) : Prop :=
  ∃ l, x.transport = .loopback l ∧ inbox = inboxName l.nextInbox

/-- Whoever is at work besides the broker leaves it as it is. -/
theorem Works.queues (h : Works front x₀ ps x) (hf : front ≠ some .broker) :
    x₀.transport.Queues x₀.IsNext x.transport :=
  h.transport_keeps (fun l hl => ⟨l, hl, rfl⟩) (fun hq ht => ht.trans hq)
    (fun hb => absurd hb hf) (fun hb => absurd hb hf) (Transport.queues_refl _)

theorem queues_next (x : Exchange) {m : Move} (hm : m.front ≠ some .broker) :
    x.transport.Queues x.IsNext (x.next m).transport := by
  by_cases hc : ∃ now, m = .clock now
  · obtain ⟨now, rfl⟩ := hc
    exact (transport_ring x now).symm ▸ Transport.queues_refl _
  · obtain ⟨ps, _, hw⟩ := Works.next x m fun now he => hc ⟨now, he⟩
    exact hw.queues hm

/-! ## The clock -/

/-- Nobody who is at work moves the clock. -/
theorem Works.now (h : Works front x₀ ps x) : x.now = x₀.now := by
  induction h with
  | refl => rfl
  | opened p => exact skips_now.openSub x₀ p
  | aside _ hy ih => exact hy.now.trans ih
  | woken _ t ih => exact (skips_now.wake _ t).trans ih
  | roused _ t _ ih => exact ih
  | rested _ t due _ ih => exact ih
  | waited _ due _ _ ih => exact (skips_now.keepTimer _ _ due).trans ih
  | eased _ i g _ _ ih => exact ih
  | retracked _ _ _ ih => exact (skips_now.retracked _ _ _).trans ih
  | added _ _ r ih => exact (skips_now.setTracker _ _ _).trans ih
  | closed _ i ih => exact (skips_now.close _ i).trans ih
  | unwatched _ i ih => exact (skips_now.endAlarm _ i).trans ih
  | ended _ i ih => exact (skips_now.endWorker _ i).trans ih
  | left _ i ih => exact (skips_now.unsubscribe _ i).trans ih
  | dropped _ i inside _ ih => exact (skips_now.dropSub _ i inside).trans ih
  | finished _ id a _ ih => exact ih
  | turned _ _ a ih => exact ih
  | called _ a ih => exact (congrArg Core.now (core_callBehind _ a)).trans ih
  | adjusted _ ht ih => exact ih
  | sent _ _ _ _ ih => exact (skips_now.send _ _).trans ih
  | carried _ _ r ih => exact (skips_now.carry _ _ r).trans ih
  | released _ inbox ih => exact (skips_now.release _ inbox).trans ih
  | served _ _ _ _ ih => exact ih
  | accepted _ _ _ _ ih => exact ih

theorem now_next (x : Exchange) {m : Move} (hm : ∀ now, m ≠ .clock now) :
    (x.next m).now = x.now := by
  obtain ⟨_, _, hw⟩ := Works.next x m hm
  exact hw.now

end Exchange

end DemandFlow
