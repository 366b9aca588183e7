import DemandFlow.Proofs.Exchange.Handed
import DemandFlow.Proofs.Pace.Broker
import DemandFlow.Proofs.Refill.Dealings

/-
  How many requests a consumer makes. Besides the first one it makes at most one for each frame
  that it took in and reacts to, and what it took in was sent to it. A broker knows of no requests
  but those that were made.
-/

namespace DemandFlow

/-- The requests that were recorded for any subscription. -/
def requestsOf (past : List (Nat × Deed)) : List PullRequest := past.filterMap fun p => p.2.pulled?

/-- The frames that a broker sent. -/
def framesSent (past : List Deed) : List Frame := past.filterMap Deed.sent?

/-- The frames that a consumer reacts to. -/
def reactions (fs : List Frame) : Nat := fs.countP Frame.reacts

theorem requestsOf_append (past new : List (Nat × Deed)) :
    requestsOf (past ++ new) = requestsOf past ++ requestsOf new := List.filterMap_append

theorem framesSent_append (past new : List Deed) :
    framesSent (past ++ new) = framesSent past ++ framesSent new := List.filterMap_append

theorem reactions_append (fs gs : List Frame) :
    reactions (fs ++ gs) = reactions fs + reactions gs := List.countP_append

/-- What a plan asks for may wait. -/
theorem RefillPlan.noWait_of_next? {o : ConsumeOptions} {d : Demand} {r : PullRequest}
    (h : (ofOptions o).next? d = some r) : r.noWait = false := by
  unfold next? at h
  split at h
  · cases h
    rfl
  · split at h
    · cases h
      rfl
    · cases h

namespace Lane

variable {L₀ L L' : Lane} {past new : List Deed}

/-- In a calm run frames come in from the broker only. -/
theorem framesEntered_step (step : Step true L new L') : framesEntered new = framesSent new := by
  cases step with
  | inject f loose reading => cases loose
  | take f rest now opened worker next =>
    obtain ⟨_, _, hentered, _⟩ := quiet_hears L.sub f
    have hsent : framesSent (L.sub.hears f) = [] := by
      refine List.filterMap_eq_nil_iff.2 fun d hd => ?_
      have hnone := List.filterMap_eq_nil_iff.1 hentered d hd
      cases d <;> first | rfl | cases hnone
    exact hentered.trans hsent.symm
  | _ => rfl

theorem framesEntered_run (run : Run true L₀ past L) : framesEntered past = framesSent past := by
  induction run with
  | nil => rfl
  | snoc _ step ih =>
    rw [framesEntered_append, framesSent_append, ih, framesEntered_step step]

/-- A consumer reacts to no more frames than were sent. -/
theorem reactions_took_le (fresh : L₀.IsFresh true) (run : Run true L₀ past L) :
    reactions (framesTook past) ≤ reactions (framesSent past) := by
  have hprefix := (takesIn_run (takesIn_fresh fresh) run).inOrder
  rw [framesEntered_run run] at hprefix
  exact hprefix.sublist.countP_le

/-- A request is recorded where the subscription wants it. -/
theorem wants_of_pulled {calm : Bool} (step : Step calm L new L') {r : PullRequest}
    (hr : .pulled r ∈ new) : L.sub.Wants r := by
  have hmade : r ∈ requestsMade new := List.mem_filterMap.2 ⟨_, hr, rfl⟩
  cases step with
  | pull q t due opened wants goes =>
    obtain rfl := List.mem_singleton.1 hmade
    exact wants
  | take f rest now opened worker next =>
    have hnone : requestsMade (.took f :: L.sub.hears f) = [] := by
      rw [← requestsMade_dealings]
      exact congrArg requestsMade (congrArg (Deed.took f :: ·) (Exchange.dealings_hears L.sub f))
    rw [hnone] at hmade
    cases hmade
  | _ => cases hmade

/-- The requests of a consumer may wait. -/
theorem noWait_of_pulled {calm : Bool} (fresh : L₀.IsFresh calm) (run : Run calm L₀ past L)
    (hp : L.sub.purpose.continuous?.isSome) {r : PullRequest} (hr : .pulled r ∈ past) :
    r.noWait = false := by
  induction run with
  | nil => cases hr
  | @snoc L L' _ _ run step ih =>
    have hbefore : L.sub.purpose.continuous?.isSome := by
      rw [Option.isSome_iff_ne_none] at hp ⊢
      exact fun hn => hp ((continuous?_of_alike step.alike).2 hn)
    rcases List.mem_append.1 hr with hr | hr
    · exact ih hbefore hr
    · obtain ⟨c, hc⟩ := Option.isSome_iff_exists.1 hbefore
      rw [Purpose.continuous?_eq_some] at hc
      have hplan := (start_of_fresh fresh (hc ▸ run.alike)).1
      have hwants := wants_of_pulled step hr
      unfold Subscription.Wants Continuous.refill? at hwants
      rw [hc] at hwants
      dsimp only at hwants
      split at hwants
      · exact RefillPlan.noWait_of_next? (hplan ▸ hwants)
      · cases hwants
      · cases hwants

end Lane

namespace Exchange

variable {x : Exchange} {past : List (Nat × Deed)} {i : Nat}

/-! ## At the broker -/

/-- What goes out is among what became known. -/
theorem Carries.sublist {y : Exchange} {ds : List (Nat × Deed)} {ps : List (String × PullRequest)}
    (h : Carries y ds ps) : (ps.map Prod.snd).Sublist (requestsOf ds) := by
  rcases h with rfl | ⟨j, s, r, _, hp, rfl⟩
  · exact List.nil_sublist _
  · exact List.singleton_sublist.2 (List.mem_filterMap.2 ⟨_, hp, rfl⟩)

/-- What a move hands to the transport becomes known by it. -/
theorem extends_next (x : Exchange) (m : Move) : ∃ ps : List (String × PullRequest),
    (ps.map Prod.snd).Sublist (requestsOf (x.deeds m)) ∧
      x.transport.Extends ps (x.next m).transport := by
  by_cases hm : ∃ now, m = .clock now
  · obtain ⟨now, rfl⟩ := hm
    exact ⟨[], List.nil_sublist _, (transport_ring x now).symm ▸ Transport.extends_refl _⟩
  · obtain ⟨ps, hc, hw⟩ := Works.next x m fun now he => hm ⟨now, he⟩
    exact ⟨ps, hc.sublist, hw.extends⟩

/-- A broker stays one. -/
theorem loopback_next {l : Loopback} (hl : x.transport = .loopback l) (m : Move) :
    ∃ l', (x.next m).transport = .loopback l' := by
  obtain ⟨ps, _, hext⟩ := extends_next x m
  rw [hl] at hext
  cases hy : (x.next m).transport with
  | loopback l' => exact ⟨l', rfl⟩
  | scripted sc =>
    rw [hy] at hext
    exact hext.elim

theorem loopback_after (x : Exchange) {l : Loopback} (hl : x.transport = .loopback l)
    (ms : List Move) : ∃ l', (x.after ms).transport = .loopback l' := by
  induction ms generalizing x l with
  | nil => exact ⟨l, hl⟩
  | cons m ms ih =>
    obtain ⟨l', hl'⟩ := loopback_next hl m
    exact ih (x.next m) hl'

theorem loopback_before {l : Loopback} {m : Move} (hl : (x.next m).transport = .loopback l) :
    ∃ l₀, x.transport = .loopback l₀ := by
  obtain ⟨ps, _, hext⟩ := extends_next x m
  rw [hl] at hext
  cases hx : x.transport with
  | loopback l₀ => exact ⟨l₀, rfl⟩
  | scripted sc =>
    rw [hx] at hext
    exact hext.elim

theorem requested_sublist {t : Transport} (ht : IsNew t) (keeps : Bool) (capacity : Nat)
    (ms : List Move) {l : Loopback}
    (hl : ((start t keeps capacity).after ms).transport = .loopback l) :
    l.requested.Sublist
      ((requestsOf ((start t keeps capacity).record ms)).map PullRequest.onWire) := by
  induction ms using List.reverseRecOn generalizing l with
  | nil =>
    cases ht with
    | loopback limits alive =>
      cases hl
      exact List.nil_sublist _
    | scripted => cases hl
  | append_singleton ms m ih =>
    rw [record_concat, requestsOf_append, List.map_append]
    rw [after_append] at hl
    have hnext : (((start t keeps capacity).after ms).next m).transport = .loopback l := hl
    obtain ⟨ps, hsub, hext⟩ := extends_next ((start t keeps capacity).after ms) m
    rw [hnext] at hext
    cases hx : ((start t keeps capacity).after ms).transport with
    | scripted sc =>
      rw [hx] at hext
      exact hext.elim
    | loopback l₀ =>
      rw [hx] at hext
      have hreq : l.requested = l₀.requested ++ ps.map fun p => p.2.onWire := hext
      rw [hreq]
      refine (ih hx).append ?_
      have hwire := hsub.map PullRequest.onWire
      rw [List.map_map] at hwire
      exact hwire

/-! ## Reactions -/

/-- A frame leads to one request at most, and only if the consumer reacts to it. -/
theorem requestsMade_frameDeeds_le (s : Subscription) (f : Frame) :
    (requestsMade (s.frameDeeds f)).length ≤ reactions [f] := by
  rw [requestsMade_frameDeeds]
  cases hf : f.reacts with
  | false =>
    rw [asks_of_not_reacts hf]
    exact Nat.zero_le _
  | true =>
    have hone : reactions [f] = 1 := by
      unfold reactions
      rw [List.countP_singleton, if_pos hf]
    rw [hone]
    cases s.asks f with
    | none => exact Nat.zero_le 1
    | some r => exact Nat.le_refl 1

/-- What is opened makes one request at most. -/
theorem requestsMade_opening_le (x : Exchange) (p : Purpose) (r : PullRequest) (i : Nat) :
    (requestsMade (deedsOf i (x.opening p r))).length ≤ 1 := by
  have hle : (x.opening p r).length ≤ 1 := by
    unfold opening
    split
    · exact Nat.le_refl 1
    · exact Nat.zero_le 1
  refine Nat.le_trans (List.length_filterMap_le ..) ?_
  unfold deedsOf
  rw [List.length_map]
  exact Nat.le_trans (List.length_filter_le ..) hle

/-- A consumer that is there makes no more requests in a move than it takes in frames to react
to. -/
theorem requestsMade_deeds_le {s : Subscription} (hs : x.subs[i]? = some s) {c : Continuous}
    (hp : s.purpose = .continuous c) (m : Move) :
    (requestsMade (deedsOf i (x.deeds m))).length ≤
      reactions (framesTook (deedsOf i (x.deeds m))) := by
  have hnone : dealings (deedsOf i (x.deeds m)) = [] →
      (requestsMade (deedsOf i (x.deeds m))).length ≤
        reactions (framesTook (deedsOf i (x.deeds m))) := by
    intro h
    rw [← requestsMade_dealings, h]
    exact Nat.zero_le _
  by_cases hm : m = .turn (.worker i)
  · subst hm
    rw [show x.deeds (.turn (.worker i)) = (x.workerDeeds i).map (i, ·) from rfl, deedsOf_self]
      at hnone ⊢
    rcases workerDeeds_cases x i with ⟨u, f, rest, _, hd, _⟩ | hd
    · rw [hd, framesTook_frameDeeds]
      exact requestsMade_frameDeeds_le u f
    · exact hnone hd
  · exact hnone (dealings_deeds hs (by rw [hp]; nofun) hm)

/-- Before a subscription is there it makes one request at most in a move. -/
theorem requestsMade_deeds_le_one (h : Tame false x) (hi : x.subs.size ≤ i) (m : Move) :
    (requestsMade (deedsOf i (x.deeds m))).length ≤ 1 := by
  cases hm : m.mayOpen with
  | false =>
    have hborn := ((Since.refl h).next m fun hc => by cases hc).born
    rw [size_next x hm, List.nil_append] at hborn
    rw [deedsOf_eq_nil hborn hi]
    exact Nat.zero_le 1
  | true =>
    cases m with
    | manual => exact Nat.zero_le 1
    | fetch st =>
      unfold deeds
      dsimp only
      split
      · exact Nat.zero_le 1
      · exact requestsMade_opening_le x _ _ i
    | consume o hd => exact requestsMade_opening_le x _ _ i
    | _ => cases hm

/-- Who consumes after a move did so before. -/
theorem continuous_before (h : Tame false x) {m : Move} {s s' : Subscription}
    (hs : x.subs[i]? = some s) (hs' : (x.next m).subs[i]? = some s')
    (hp : s'.purpose.continuous?.isSome) : s.purpose.continuous?.isSome := by
  have hone := (Since.refl h).next m fun hc => by cases hc
  obtain ⟨f, _, hL⟩ := h.lane_of_sub hs
  obtain ⟨L', hL', hrun⟩ := hone.run_of_lane hL
  cases hs'.symm.trans (lane_eq_some.1 hL').1
  have halike : Lane.Alike s.purpose L'.sub.purpose := hrun.alike
  rw [Option.isSome_iff_ne_none] at hp ⊢
  exact fun hn => hp ((Lane.continuous?_of_alike halike).2 hn)

/-- Besides the first request a consumer makes at most one for each frame that it reacts to. -/
theorem requestsMade_le {t : Transport} (ht : IsNew t) (keeps : Bool) (capacity : Nat)
    (ms : List Move) {s : Subscription}
    (hs : ((start t keeps capacity).after ms).subs[i]? = some s)
    (hp : s.purpose.continuous?.isSome) :
    (requestsMade (deedsOf i ((start t keeps capacity).record ms))).length ≤
      1 + reactions (framesTook (deedsOf i ((start t keeps capacity).record ms))) := by
  induction ms using List.reverseRecOn generalizing s with
  | nil => cases hs
  | append_singleton ms m ih =>
    have hsince := since_start false ht keeps capacity ms fun hc => by cases hc
    rw [after_append] at hs
    rw [record_concat, deedsOf_append, requestsMade_append, framesTook_append, reactions_append,
      List.length_append]
    cases hx : ((start t keeps capacity).after ms).subs[i]? with
    | none =>
      have hi := Array.getElem?_eq_none_iff.1 hx
      have hone := requestsMade_deeds_le_one hsince.toTame hi m
      rw [deedsOf_eq_nil hsince.born hi]
      exact Nat.le_trans (Nat.le_of_eq (Nat.zero_add _))
        (Nat.le_trans hone (Nat.le_add_right _ _))
    | some u =>
      have hu := continuous_before hsince.toTame hx hs hp
      obtain ⟨c, hc⟩ := Option.isSome_iff_exists.1 hu
      have hnow := requestsMade_deeds_le hx (Purpose.continuous?_eq_some.1 hc) m
      have hpast := ih hx hu
      omega

end Exchange

end DemandFlow
