import DemandFlow.Proofs.Pace.Alone

/-
  A broker with one consumer hears of no more than one request at first, two for each message that
  it sent, and one for each timeout. The frames that it sent stay solvent together with those that
  are still to be posted; that is carried through every move, and nothing but the turns of the
  broker matters for it.
-/

namespace DemandFlow

open Broker (Paced inboxName)

/-! ## Frames -/

def credits (fs : List Frame) : Nat := (fs.map Frame.credit).sum

def debits (fs : List Frame) : Nat := (fs.map Frame.debit).sum

/-- How many of these frames end a pull because its time is over. -/
def timeouts (fs : List Frame) : Nat := fs.countP Frame.isTimeout

theorem credits_append (fs gs : List Frame) : credits (fs ++ gs) = credits fs + credits gs := by
  unfold credits
  rw [List.map_append, List.sum_append]

theorem debits_append (fs gs : List Frame) : debits (fs ++ gs) = debits fs + debits gs := by
  unfold debits
  rw [List.map_append, List.sum_append]

/-- The credits are the messages. -/
theorem credits_eq (fs : List Frame) : credits fs = (messagesOf fs).length := by
  induction fs with
  | nil => rfl
  | cons f fs ih =>
    have hcons : credits (f :: fs) = f.credit + credits fs := List.sum_cons
    rw [hcons, ih]
    cases f with
    | message m => exact Nat.add_comm 1 _
    | status s => exact Nat.zero_add _

theorem reactions_le (fs : List Frame) :
    reactions fs ≤ credits fs + debits fs + timeouts fs := by
  induction fs with
  | nil => exact Nat.le_refl 0
  | cons f fs ih =>
    have hc : credits (f :: fs) = f.credit + credits fs := List.sum_cons
    have hd : debits (f :: fs) = f.debit + debits fs := List.sum_cons
    have ht : timeouts (f :: fs) = timeouts fs + if f.isTimeout then 1 else 0 :=
      List.countP_cons
    have hr : reactions (f :: fs) = reactions fs + if f.reacts then 1 else 0 := List.countP_cons
    rw [hc, hd, ht, hr]
    cases hf : f.reacts with
    | false =>
      rw [if_neg Bool.false_ne_true]
      omega
    | true =>
      have hone := Frame.one_le_of_reacts hf
      rw [if_pos rfl]
      omega

namespace Exchange

variable {x y : Exchange} {l l' : Loopback} {past : List (Nat × Deed)}

/-! ## The pace -/

/-- The frames that went to the first subscription, and what a broker has still to do for it, are
solvent. -/
structure InPace (past : List (Nat × Deed)) (l : Loopback) : Prop where
  balance : debits (framesSent (deedsOf 0 past)) ≤ credits (framesSent (deedsOf 0 past))
  paced : Paced (inboxName 1)
    (credits (framesSent (deedsOf 0 past)) - debits (framesSent (deedsOf 0 past))) l.broker

/-- Nothing was sent to the subscription. -/
theorem InPace.unsent (h : InPace past l) {new : List (Nat × Deed)}
    (hn : ∀ q ∈ new, q.2.sent? = none)
    (hk : ∀ k, Paced (inboxName 1) k l.broker → Paced (inboxName 1) k l'.broker) :
    InPace (past ++ new) l' := by
  have hnew : framesSent (deedsOf 0 new) = [] := by
    refine List.filterMap_eq_nil_iff.2 fun d hd => ?_
    obtain ⟨q, hq, rfl⟩ := List.mem_map.1 hd
    exact hn q (List.mem_filter.1 hq).1
  have hsame : framesSent (deedsOf 0 (past ++ new)) = framesSent (deedsOf 0 past) := by
    rw [deedsOf_append, framesSent_append, hnew, List.append_nil]
  exact ⟨hsame ▸ h.balance, hsame ▸ hk _ h.paced⟩

theorem InPace.same (h : InPace past l)
    (hk : ∀ k, Paced (inboxName 1) k l.broker → Paced (inboxName 1) k l'.broker) :
    InPace (past ++ []) l' :=
  h.unsent (fun _ hq => by cases hq) hk

theorem InPace.lost (h : InPace past l) (f : Frame)
    (hk : ∀ k, Paced (inboxName 1) k l.broker → Paced (inboxName 1) k l'.broker) :
    InPace (past ++ [(0, .lost f)]) l' :=
  h.unsent (fun q hq => by rw [List.mem_singleton.1 hq]; rfl) hk

/-- A frame goes to the subscription. -/
theorem InPace.sent (h : InPace past l) {f : Frame}
    (hs : ∀ k, Paced (inboxName 1) k l.broker →
      f.debit ≤ k ∧ Paced (inboxName 1) (k - f.debit + f.credit) l'.broker) :
    InPace (past ++ [(0, .sent f)]) l' := by
  have hbal := h.balance
  obtain ⟨hle, hp⟩ := hs _ h.paced
  have hall : framesSent (deedsOf 0 (past ++ [(0, .sent f)])) =
      framesSent (deedsOf 0 past) ++ [f] := by
    rw [deedsOf_append, framesSent_append]
    rfl
  have hc : credits [f] = f.credit := List.sum_singleton
  have hd : debits [f] = f.debit := List.sum_singleton
  refine ⟨?_, ?_⟩
  · rw [hall, credits_append, debits_append, hc, hd]
    omega
  · rw [hall, credits_append, debits_append, hc, hd]
    have hk : credits (framesSent (deedsOf 0 past)) + f.credit -
        (debits (framesSent (deedsOf 0 past)) + f.debit) =
          credits (framesSent (deedsOf 0 past)) - debits (framesSent (deedsOf 0 past)) -
            f.debit + f.credit := by omega
    rw [hk]
    exact hp

/-- Whatever a move comes to, it keeps the pace. -/
theorem InPace.goes (h : InPace past l) {now : Nat} {ds : List (Nat × Deed)}
    (hg : l.Goes now ds l') : InPace (past ++ ds) l' := by
  cases hg with
  | queued ds l' quiet broker =>
    refine h.unsent (fun q hq => ?_) fun k hk => broker.symm ▸ hk
    have hnone := quiet q hq
    revert hnone
    cases q.2 <;> first | exact fun _ => rfl | exact fun hn => by cases hn
  | chore b work => exact h.same fun k hk => hk.work work
  | sent f rest agenda known => exact h.sent fun k hk => (hk.post agenda).1 ⟨rfl, known⟩
  | lost f rest agenda unknown =>
    exact h.lost f fun k hk =>
      (hk.post agenda).2 fun hn => Bool.false_ne_true (unknown.symm.trans hn.2)
  | shunned f rest agenda known =>
    exact h.lost f fun k hk => ((hk.post agenda).1 ⟨rfl, known⟩).2.forgotten k
  | dropped dest f rest agenda other =>
    exact h.same fun k hk => (hk.post agenda).2 fun hn => other hn.1
  | command c rest agenda next plain patient =>
    exact h.same fun k hk => hk.accept now agenda plain patient
  | timers agenda => exact h.same fun k hk => hk.fireTimers now agenda
  | ended => exact h.same fun _ => id

/-! ## Runs -/

/-- After these moves the broker has no subscription but one continuous consumer, if any, and no
frames came from elsewhere. -/
structure IsSole (x : Exchange) (ms : List Move) : Prop where
  calm : ∀ m ∈ ms, m.Calm
  size : (x.after ms).subs.size ≤ 1
  consumer : ∀ s, (x.after ms).subs[0]? = some s → ∃ c, s.purpose = .continuous c

theorem IsSole.before {ms : List Move} {m : Move} (h : IsSole x (ms ++ [m]))
    (ht : Tame false (x.after ms)) : IsSole x ms where
  calm := fun n hn => h.calm n (List.mem_append_left _ hn)
  size := by
    have hgrown := ((Since.refl ht).next m fun hc => by cases hc).grown
    have hsize := h.size
    rw [after_append] at hsize
    exact Nat.le_trans hgrown hsize
  consumer := fun s hs => by
    obtain ⟨hlt, _⟩ := Array.getElem?_eq_some_iff.1 hs
    have hgrown := ((Since.refl ht).next m fun hc => by cases hc).grown
    have hs' := Array.getElem?_eq_getElem (Nat.lt_of_lt_of_le hlt hgrown)
    obtain ⟨c, hc⟩ := h.consumer _ ((congrArg (·.subs[0]?) (after_append x ms [m])).trans hs')
    obtain ⟨d, hd⟩ := Option.isSome_iff_exists.1
      (continuous_before ht hs hs' (by rw [Purpose.continuous?_eq_some.2 hc]; rfl))
    exact ⟨d, Purpose.continuous?_eq_some.1 hd⟩

/-- All that became known is of the first subscription. -/
theorem deedsOf_zero (h : ∀ p ∈ past, p.1 < 1) :
    requestsOf past = requestsMade (deedsOf 0 past) := by
  have hall : past.filter (fun p => p.1 = 0) = past :=
    List.filter_eq_self.2 fun p hp => decide_eq_true (Nat.lt_one_iff.1 (h p hp))
  unfold requestsOf requestsMade deedsOf
  rw [hall, List.filterMap_map]
  rfl

variable {t : Transport} {keeps : Bool} {capacity : Nat} {ms : List Move}

theorem IsSole.alone (ht : IsNew t) (h : IsSole (.start t keeps capacity) ms)
    (hl : ((start t keeps capacity).after ms).transport = .loopback l) :
    Alone ((start t keeps capacity).after ms) l := by
  have hsince := since_start true ht keeps capacity ms fun _ => h.calm
  have hreq := requested_sublist ht keeps capacity ms hl
  rw [deedsOf_zero fun p hp => Nat.lt_of_lt_of_le (hsince.born p hp) h.size] at hreq
  refine ⟨hsince.toTame, hl, h.size, fun r hr => ?_, fun hz => ?_⟩
  · obtain ⟨q, hq, rfl⟩ := List.mem_map.1 (hreq.subset hr)
    obtain ⟨d, hd, hdq⟩ := List.mem_filterMap.1 hq
    have hpulled : d = .pulled q := by
      cases d <;> cases hdq
      rfl
    subst hpulled
    obtain ⟨p, hp, _⟩ := List.mem_map.1 hd
    have hpos := Nat.lt_of_le_of_lt (Nat.zero_le _) (hsince.born p (List.mem_filter.1 hp).1)
    have hs := Array.getElem?_eq_getElem hpos
    obtain ⟨f, _, hL⟩ := hsince.lane_of_sub hs
    obtain ⟨L₀, hfresh, hrun⟩ := hsince.fresh_run hL
    obtain ⟨c, hc⟩ := h.consumer _ hs
    have hwait : q.noWait = false :=
      Lane.noWait_of_pulled hfresh hrun (by rw [Purpose.continuous?_eq_some.2 hc]; rfl) hd
    exact hwait
  · have hnone : (start t keeps capacity).record ms = [] := by
      refine List.eq_nil_iff_forall_not_mem.2 fun p hp => ?_
      have hlt := hsince.born p hp
      rw [hz] at hlt
      exact Nat.not_lt_zero _ hlt
    rw [hnone] at hreq
    exact List.sublist_nil.1 hreq

theorem IsSole.inPace (ht : IsNew t) (h : IsSole (.start t keeps capacity) ms)
    (hl : ((start t keeps capacity).after ms).transport = .loopback l) :
    InPace ((start t keeps capacity).record ms) l := by
  induction ms using List.reverseRecOn generalizing l with
  | nil =>
    cases ht with
    | loopback limits alive =>
      cases hl
      exact ⟨Nat.le_refl 0, .start limits _⟩
    | scripted => cases hl
  | append_singleton ms m ih =>
    have hbefore := h.before (since_start false ht keeps capacity ms fun hc => by cases hc).toTame
    rw [after_append] at hl
    obtain ⟨l₀, hx⟩ := loopback_before (x := (start t keeps capacity).after ms) (m := m) hl
    have hpace := ih hbefore hx
    obtain ⟨l', hl', hgoes⟩ := (hbefore.alone ht hx).next hpace.paced m
    cases hl'.symm.trans hl
    rw [record_concat]
    exact hpace.goes hgoes

/-- One request at first, two for each message that was sent, and one for each timeout. -/
theorem IsSole.pullLog_le (ht : IsNew t) (h : IsSole (.start t keeps capacity) ms)
    (hl : ((start t keeps capacity).after ms).transport = .loopback l) :
    l.broker.pullLog.length ≤
      1 + 2 * (messagesOf (framesSent (deedsOf 0 ((start t keeps capacity).record ms)))).length +
        timeouts (framesSent (deedsOf 0 ((start t keeps capacity).record ms))) := by
  have hsince := since_start true ht keeps capacity ms fun _ => h.calm
  have hreq := (requested_sublist ht keeps capacity ms hl).length_le
  rw [deedsOf_zero fun p hp => Nat.lt_of_lt_of_le (hsince.born p hp) h.size,
    List.length_map] at hreq
  have hlog : l.broker.pullLog.length ≤ l.requested.length := by
    unfold Loopback.requested
    rw [List.length_append]
    exact Nat.le_add_right _ _
  have hmade : (requestsMade (deedsOf 0 ((start t keeps capacity).record ms))).length ≤
      1 + reactions (framesSent (deedsOf 0 ((start t keeps capacity).record ms))) := by
    cases hs : ((start t keeps capacity).after ms).subs[0]? with
    | none =>
      rw [deedsOf_eq_nil hsince.born (Array.getElem?_eq_none_iff.1 hs)]
      exact Nat.zero_le _
    | some s =>
      obtain ⟨c, hc⟩ := h.consumer s hs
      obtain ⟨f, _, hL⟩ := hsince.lane_of_sub hs
      obtain ⟨L₀, hfresh, hrun⟩ := hsince.fresh_run hL
      have hle := requestsMade_le ht keeps capacity ms hs
        (by rw [Purpose.continuous?_eq_some.2 hc]; rfl)
      exact Nat.le_trans hle (Nat.add_le_add_left (Lane.reactions_took_le hfresh hrun) 1)
  have hbalance := (h.inPace ht hl).balance
  have hreact := reactions_le (framesSent (deedsOf 0 ((start t keeps capacity).record ms)))
  rw [← credits_eq]
  omega

end Exchange

end DemandFlow
