import DemandFlow.Proofs.Exchange.Motion

/-
  The requests that were handed to a transport. A script keeps all of them; a broker keeps those
  that it has taken in, and the others wait among its commands. Whatever happens, the requests
  that go out are added to them and none is lost. While a transport accepts requests, a pull on
  an open subscription goes out.
-/

namespace DemandFlow

open Broker (Command)

/-- The request that a command makes. -/
def Broker.Command.request? : Command → Option PullRequest
  | .pull _ r => some r
  | .publish _ | .register _ | .unsubscribe _ | .inject _ _ | .stats _ | .pullLog _ => none

/-- The requests that a broker has taken in, and those that wait for it. -/
def Loopback.requested (l : Loopback) : List PullRequest :=
  l.broker.received.reverse ++ l.commands.toList.filterMap Command.request?

namespace Transport

/-- The transport goes on with these requests added, and no others. -/
def Extends : Transport → List (String × PullRequest) → Transport → Prop
  | .loopback l, ps, .loopback l' => l'.requested = l.requested ++ ps.map fun p => p.2.onWire
  | .scripted s, ps, .scripted s' => s'.pulls = s.pulls ++ ps
  | _, _, _ => False

/-- Requests are accepted: the broker is there, or the script was not told to fail. -/
def Accepts : Transport → Prop
  | .loopback l => l.alive = true
  | .scripted s => s.publishFault = none

instance (t : Transport) : Decidable t.Accepts :=
  match t with
  | .loopback l => inferInstanceAs (Decidable (l.alive = true))
  | .scripted s => decidable_of_iff _ (Option.isNone_iff_eq_none (o := s.publishFault))

theorem extends_refl (t : Transport) : t.Extends [] t := by
  cases t with
  | loopback l => exact (List.append_nil _).symm
  | scripted s => exact (List.append_nil _).symm

theorem Extends.trans {t t' t'' : Transport} {ps qs : List (String × PullRequest)}
    (h : t.Extends ps t') (h' : t'.Extends qs t'') : t.Extends (ps ++ qs) t'' := by
  cases t <;> cases t' <;> cases t'' <;> simp only [Extends] at h h' ⊢
  · rw [h', h, List.map_append, List.append_assoc]
  · rw [h', h, List.append_assoc]

theorem Extends.quiet {t t' t'' : Transport} {ps : List (String × PullRequest)}
    (h : t.Extends ps t') (h' : t'.Extends [] t'') : t.Extends ps t'' := by
  have := h.trans h'
  rwa [List.append_nil] at this

/-- A transport that goes on names its inboxes as before. -/
theorem Extends.names {t t' : Transport} {ps : List (String × PullRequest)}
    (h : t.Extends ps t') : t'.inboxName = t.inboxName := by
  cases t <;> cases t' <;> first | rfl | exact h.elim

theorem extends_withPull (t : Transport) (inbox : String) (r : PullRequest) :
    t.Extends [(inbox, r)] (t.withPull inbox r) := by
  cases t with
  | loopback l =>
    show Loopback.requested { l with commands := _ } = _
    unfold Loopback.requested
    rw [Fifo.toList_push, List.filterMap_append, ← List.append_assoc]
    rfl
  | scripted s => rfl

theorem Adjusts.extends {t t' : Transport} (h : t.Adjusts t') : t.Extends [] t' := by
  cases t <;> cases t' <;> simp only [Adjusts] at h
  · obtain ⟨hb, hc, _⟩ := h
    show Loopback.requested _ = Loopback.requested _ ++ []
    unfold Loopback.requested
    rw [hb, hc, List.append_nil]
  · show _ = _ ++ []
    rw [h.1, List.append_nil]

end Transport

/-- A command that asks for nothing leaves the requests. -/
theorem Loopback.requested_push (l : Loopback) {c : Command} (hc : c.isPull = false) :
    ({ l with commands := l.commands.push c } : Loopback).requested = l.requested := by
  have hnone : [c].filterMap Command.request? = [] := by
    cases c with
    | pull inbox r => cases hc
    | _ => rfl
  unfold requested
  rw [Fifo.toList_push, List.filterMap_append, hnone, List.append_nil]

/-- A command that is taken in takes its request along. -/
theorem Loopback.requested_accept {l : Loopback} {c : Command} {rest : Fifo Command}
    (hp : l.commands.pop? = some (c, rest)) (now : Nat) :
    ({ l with commands := rest, broker := l.broker.accept now c } : Loopback).requested =
      l.requested := by
  unfold requested
  dsimp only
  rw [Fifo.toList_of_pop? hp]
  cases c with
  | pull inbox r =>
    have hr : (l.broker.request now inbox r).received = r :: l.broker.received := by
      unfold Broker.State.request
      dsimp only
      split
      · split <;> rfl
      · rfl
    show (l.broker.request now inbox r).received.reverse ++ _ = _
    rw [hr, List.reverse_cons, List.append_assoc]
    rfl
  | _ => rfl

namespace Exchange

variable {front : Option Task} {x₀ x y : Exchange} {ps : List (String × PullRequest)}

theorem extends_send (x : Exchange) {c : Command} (hc : c.isPull = false) :
    x.transport.Extends [] (x.send c).1.transport := by
  unfold send
  split
  · rename_i l hl
    split
    · rw [transport_wake, hl]
      exact (Loopback.requested_push l hc).trans (List.append_nil _).symm
    · exact Transport.extends_refl _
  · exact Transport.extends_refl _

theorem transport_closeFeed (x : Exchange) (inbox : String) :
    (x.closeFeed inbox).transport = x.transport :=
  congrArg Core.transport (core_closeFeed x inbox)

theorem extends_release (x : Exchange) (inbox : String) :
    x.transport.Extends [] (x.release inbox).transport := by
  unfold release
  split
  · exact extends_send x rfl
  · rename_i s hs
    rw [transport_closeFeed, hs]
    exact (List.append_nil _).symm

theorem extends_subscribe (x : Exchange) (reader : Option Nat) :
    x.transport.Extends [] (x.subscribe reader).1.transport := by
  unfold subscribe
  dsimp only
  split
  · rename_i l hl
    have hnext : x.transport.Extends [] (.loopback { l with nextInbox := l.nextInbox + 1 }) := by
      rw [hl]
      exact (List.append_nil _).symm
    have hsent := hnext.trans (extends_send
      { x with transport := .loopback { l with nextInbox := l.nextInbox + 1 } }
      (c := .register s!"_INBOX.loopback.{l.nextInbox}") rfl)
    split <;> exact hsent
  · rename_i s hs
    split
    · exact Transport.extends_refl _
    · rw [hs]
      exact (List.append_nil _).symm

/-- A pull hands its request to the transport or changes nothing there. -/
theorem extends_carry (x : Exchange) (inbox : String) (r : PullRequest) :
    x.transport.Extends (if (x.carry inbox r).2 matches .ok () then [(inbox, r)] else [])
      (x.carry inbox r).1.transport := by
  rcases carry_cases x inbox r with ⟨hok, hc⟩ | ⟨e, he, hc⟩
  · rw [hok, show Exchange.transport _ = _ from congrArg Core.transport hc]
    exact Transport.extends_withPull _ _ _
  · rw [he, show Exchange.transport _ = _ from congrArg Core.transport hc]
    exact Transport.extends_refl _

/-! ## What touches the transport -/

theorem transport_keepTimer (x : Exchange) (t : Task) (due : Nat) :
    (x.keepTimer t due).transport = x.transport := congrArg Core.transport (core_keepTimer x t due)

theorem transport_setTracker (x : Exchange) (i : Nat) (t : Tracker) :
    (x.setTracker i t).transport = x.transport := congrArg Core.transport (core_setTracker x i t)

theorem transport_retracked (x : Exchange) (i : Nat) (t : Tracker) :
    ((x.setTracker i t).wakeDrainers i).transport = x.transport :=
  (transport_wakeAll _ _).trans (transport_setTracker x i t)

theorem transport_close (x : Exchange) (i : Nat) : (x.close i).transport = x.transport :=
  congrArg Core.transport (core_close x i)

theorem transport_dropSub (x : Exchange) (i : Nat) (inside : Bool) :
    (x.dropSub i inside).transport = x.transport :=
  congrArg Core.transport (dropSub_cases x i inside).1

theorem transport_endAlarm (x : Exchange) (i : Nat) : (x.endAlarm i).transport = x.transport :=
  transport_wakeAll _ _

theorem transport_endWorker (x : Exchange) (i : Nat) :
    (x.endWorker i).transport = x.transport := by
  rcases core_endWorker x i with hc | ⟨s, _, hc⟩
  · exact congrArg Core.transport hc
  · exact congrArg Core.transport hc

theorem transport_callBehind (x : Exchange) (a : Activity) :
    (x.callBehind a).1.transport = x.transport := congrArg Core.transport (core_callBehind x a)

theorem transport_openSub (x : Exchange) (p : Purpose) :
    (x.openSub p).1.transport = (x.subscribe (some x.subs.size)).1.transport :=
  openSub_keeps (P := fun y => y.transport = (x.subscribe (some x.subs.size)).1.transport) rfl
    fun _ _ _ hy => (transport_wake _ _).trans ((transport_wake _ _).trans hy)

/-- A transport is subscribed to, sent to, made to carry or released, it is told to work
otherwise, or the broker itself is at work; nothing else touches it. -/
theorem Works.transport_induction {Q : List (String × PullRequest) → Transport → Prop}
    (h : Works front x₀ ps x) (start : Q [] x₀.transport)
    (subscribed : Q [] (x₀.subscribe (some x₀.subs.size)).1.transport)
    (adjusted : ∀ {qs} {t t' : Transport}, t.Adjusts t' → Q qs t → Q qs t')
    (sent : ∀ {qs} {y : Exchange} {c : Command}, c.isPull = false → c.isRegister = false →
      c.asker? = none → Q qs y.transport → Q qs (y.send c).1.transport)
    (carried : ∀ {qs} {y : Exchange} (inbox : String) (r : PullRequest), Q qs y.transport →
      Q (qs ++ if (y.carry inbox r).2 matches .ok () then [(inbox, r)] else [])
        (y.carry inbox r).1.transport)
    (released : ∀ {qs} {y : Exchange} (inbox : String), Q qs y.transport →
      Q qs (y.release inbox).transport)
    (served : front = some .broker → ∀ {qs} {l l' : Loopback}, l.Serves l' →
      Q qs (.loopback l) → Q qs (.loopback l'))
    (accepted : front = some .broker → ∀ {qs} {l : Loopback} {c : Command} {rest : Fifo Command}
      (now : Nat), l.commands.pop? = some (c, rest) → Q qs (.loopback l) →
        Q qs (.loopback { l with commands := rest, broker := l.broker.accept now c })) :
    Q ps x.transport := by
  induction h with
  | refl => exact start
  | opened p => exact (transport_openSub x₀ p).symm ▸ subscribed
  | aside _ hy ih => exact hy.transport.symm ▸ ih
  | woken _ t ih => exact (transport_wake _ t).symm ▸ ih
  | roused _ t _ ih => exact ih
  | rested _ t due _ ih => exact ih
  | waited _ due _ _ ih => exact (transport_keepTimer _ _ due).symm ▸ ih
  | eased _ i g _ _ ih => exact ih
  | retracked _ _ _ ih => exact (transport_retracked _ _ _).symm ▸ ih
  | added _ _ r ih => exact (transport_setTracker _ _ _).symm ▸ ih
  | closed _ i ih => exact (transport_close _ i).symm ▸ ih
  | unwatched _ i ih => exact (transport_endAlarm _ i).symm ▸ ih
  | ended _ i ih => exact (transport_endWorker _ i).symm ▸ ih
  | @left _ y _ i ih =>
    obtain ⟨z, hz, _, hcase⟩ := unsubscribe_cases y i
    have ht : z.transport = y.transport := congrArg Core.transport hz
    rcases hcase with he | ⟨inbox, e, he⟩
    · rw [he, ht]
      exact ih
    · rw [he]
      exact released inbox (ht.symm ▸ ih)
  | dropped _ i inside _ ih => exact (transport_dropSub _ i inside).symm ▸ ih
  | finished _ id a _ ih => exact ih
  | turned _ _ a ih => exact ih
  | called _ a ih => exact (transport_callBehind _ a).symm ▸ ih
  | adjusted _ ht ih => exact adjusted ht ih
  | sent _ hp hr ha ih => exact sent hp hr ha ih
  | carried _ _ r ih => exact carried _ r ih
  | released _ inbox ih => exact released inbox ih
  | served _ hf hl hs ih => exact served hf hs (hl ▸ ih)
  | accepted _ hf hl hp ih => exact accepted hf _ hp (hl ▸ ih)

/-- The requests that go out are added to those that were handed to the transport. -/
theorem Works.extends (h : Works front x₀ ps x) : x₀.transport.Extends ps x.transport := by
  refine h.transport_induction (Q := x₀.transport.Extends) (Transport.extends_refl _)
    (extends_subscribe x₀ _) (fun ht ih => ih.quiet ht.extends)
    (fun hp _ _ ih => ih.quiet (extends_send _ hp)) (fun inbox r ih => ih.trans (extends_carry _ _ _))
    (fun inbox ih => ih.quiet (extends_release _ inbox)) ?_ ?_
  · intro _ _ l l' hs ih
    refine ih.quiet ?_
    show Loopback.requested _ = Loopback.requested _ ++ []
    unfold Loopback.requested
    rw [hs.commands, hs.received, List.append_nil]
  · intro _ _ l c rest now hp ih
    exact ih.quiet ((Loopback.requested_accept hp now).trans (List.append_nil _).symm)

/-- The clock hands nothing over. -/
theorem transport_ring (x : Exchange) (now : Nat) : (x.ring now).transport = x.transport :=
  transport_wakeAll _ _

/-! ## Pulls that go out -/

theorem accepts_send (x : Exchange) (c : Command) (h : x.transport.Accepts) :
    (x.send c).1.transport.Accepts := by
  unfold send
  split
  · rename_i l hl
    rw [hl] at h
    split
    · rw [transport_wake]
      exact h
    · exact hl ▸ h
  · exact h

theorem accepts_publish (x : Exchange) (m : Message) (h : x.transport.Accepts) :
    (x.publish m).1.transport.Accepts := by
  unfold publish
  split
  · rename_i l hl
    refine accepts_send _ _ ?_
    rw [hl] at h
    exact h
  · exact h

theorem accepts_openSub (x : Exchange) (p : Purpose) (h : x.transport.Accepts) :
    (x.openSub p).1.transport.Accepts := by
  rw [transport_openSub]
  unfold subscribe
  dsimp only
  split
  · rename_i l hl
    rw [hl] at h
    have hsent := accepts_send
      { x with transport := .loopback { l with nextInbox := l.nextInbox + 1 } }
      (.register s!"_INBOX.loopback.{l.nextInbox}") h
    split <;> exact hsent
  · rename_i s hs
    split
    · exact h
    · rw [hs] at h
      exact h

theorem carry_of_accepts (h : x.transport.Accepts) (inbox : String) (r : PullRequest) :
    (x.carry inbox r).2 = .ok () ∧
      (x.carry inbox r).1.core = { x.core with transport := x.transport.withPull inbox r } := by
  cases ht : x.transport with
  | loopback l =>
    rw [ht] at h
    exact core_carry (x := x) ht h inbox r
  | scripted s =>
    rw [ht] at h
    have hf : s.publishFault = none := h
    unfold carry
    rw [ht]
    dsimp only
    rw [hf]
    exact ⟨rfl, by rw [Transport.withPull, hf]; rfl⟩

/-- While requests are accepted, a pull on an open subscription is recorded and goes out. -/
theorem core_pull_of_accepts (h : x.transport.Accepts) {i : Nat} {s : Subscription}
    (hs : x.subs[i]? = some s) (hc : s.closed = false) {r : PullRequest} {t : Tracker}
    (ht : s.tracker.issue x.now r = some t) :
    (x.pull i r).2 = .ok () ∧ (x.pull i r).1.core = { x.core with
      transport := x.transport.withPull s.inbox r
      subs := x.core.subs.modify i fun s => { s with tracker := t } } := by
  have hz : ((((x.setTracker i t).wakeDrainers i).note (Journal.pullStarted r t.demand)).note
      (Journal.publishingPull s.inbox r)).core =
        { x.core with subs := x.core.subs.modify i fun s => { s with tracker := t } } := by
    rw [core_note, core_note, core_wakeDrainers, core_setTracker]
  have htr := congrArg Core.transport hz
  have hcarry := carry_of_accepts (x := ((((x.setTracker i t).wakeDrainers i).note
    (Journal.pullStarted r t.demand)).note (Journal.publishingPull s.inbox r)))
    (show Exchange.transport _ |>.Accepts from
      (show Exchange.transport _ = x.transport from htr).symm ▸ h) s.inbox r
  unfold pull
  rw [hs]
  dsimp only
  rw [if_neg (ne_true_of_eq_false hc), ht]
  dsimp only
  obtain ⟨hok, hcore⟩ := hcarry
  split
  · rename_i hy
    rw [hy] at hcore
    refine ⟨rfl, ?_⟩
    rw [core_count]
    refine hcore.trans ?_
    rw [hz, show Exchange.transport _ = x.transport from htr]
  · rename_i hy
    rw [hy] at hok
    cases hok

/-- Such a pull adds its request to the demand. -/
theorem pull_of_accepts (h : x.transport.Accepts) {i : Nat} {s : Subscription}
    (hs : x.subs[i]? = some s) (hc : s.closed = false) {r : PullRequest} (hr : r.GoesOut) :
    (x.pull i r).2 = .ok () ∧ x.transport.Extends [(s.inbox, r)] (x.pull i r).1.transport ∧
      ∃ u, (x.pull i r).1.subs[i]? = some u ∧ u.demand = s.demand.add r := by
  obtain ⟨t, ht⟩ := Option.isSome_iff_exists.1 <| Option.isSome_iff_ne_none.2 fun hn =>
    Tracker.issue_eq_none_iff.1 (hn : s.tracker.issue x.now r = none) |> hr
  obtain ⟨hok, hcore⟩ := core_pull_of_accepts h hs hc ht
  refine ⟨hok, ?_, { s with tracker := t }, ?_, (Tracker.issue_eq_some ht).2.1⟩
  · rw [show (x.pull i r).1.transport = _ from congrArg Core.transport hcore]
    exact Transport.extends_withPull _ _ _
  · rw [show (x.pull i r).1.subs = _ from congrArg Core.subs hcore]
    show (x.subs.modify i _)[i]? = _
    rw [Array.getElem?_modify, if_pos rfl, hs]
    rfl

end Exchange

end DemandFlow
