import DemandFlow.Proofs.Pace.Requests
import DemandFlow.Proofs.Wake.Callers

/-
  What a fetch asks for. The request that goes out when it is opened is its only one: its worker
  asks for nothing, and nobody asks on its behalf. So it is in every run of turns, and no transport
  gets a request that nobody made.
-/

namespace DemandFlow

/-- The subscription is for a fetch. -/
def Purpose.isFetch : Purpose → Bool
  | .fetch _ _ => true
  | .manual | .continuous _ => false

theorem Lane.isFetch_of_alike {p q : Purpose} (h : Alike p q) : q.isFetch = p.isFetch := by
  cases p <;> cases q <;> first | rfl | exact h.elim

/-- The worker of a fetch asks for nothing. -/
theorem Subscription.asks_of_isFetch {s : Subscription} (h : s.purpose.isFetch = true)
    (f : Frame) : s.asks f = none := by
  unfold asks
  cases hp : s.purpose with
  | continuous c =>
    rw [hp] at h
    cases h
  | manual | fetch _ _ => rfl

namespace Exchange

variable {x : Exchange} {i : Nat} {s : Subscription}

/-! ## What becomes known -/

/-- What becomes known in a run of turns, each with the number of its subscription. -/
def news (x : Exchange) : List Move → List (Nat × Deed)
  | [] => []
  | m :: ms => x.deeds m ++ (x.follow m).news ms

theorem news_append (x : Exchange) (ms ns : List Move) :
    x.news (ms ++ ns) = x.news ms ++ (x.followed ms).news ns := by
  induction ms generalizing x with
  | nil => rfl
  | cons m ms ih =>
    have hrest := congrArg (x.deeds m ++ ·) (ih (x.follow m))
    exact hrest.trans (List.append_assoc _ _ _).symm

/-- One move more. -/
theorem news_concat (x : Exchange) (ms : List Move) (m : Move) :
    x.news (ms ++ [m]) = x.news ms ++ (x.followed ms).deeds m := by
  rw [news_append]
  exact congrArg (x.news ms ++ ·) (List.append_nil _)

theorem since_followed (h : Tame false x) (ms : List Move) :
    Since false x (x.news ms) (x.followed ms) := by
  induction ms using List.reverseRecOn with
  | nil => exact .refl h
  | append_singleton ms m ih =>
    rw [followed_append, news_concat]
    exact since_follow ih m nofun

/-- A subscription stays there, and is for a fetch as long as it is there. -/
theorem isFetch_followed (h : Tame false x) (hs : x.subs[i]? = some s) (ms : List Move) :
    ∃ u, (x.followed ms).subs[i]? = some u ∧ u.purpose.isFetch = s.purpose.isFetch := by
  obtain ⟨f, _, hL⟩ := h.lane_of_sub hs
  obtain ⟨L, hL', hrun⟩ := (since_followed h ms).run_of_lane hL
  exact ⟨L.sub, (lane_eq_some.1 hL').1, Lane.isFetch_of_alike hrun.alike⟩

/-! ## Requests -/

/-- Once a fetch is there it asks for nothing. -/
theorem requestsMade_deeds_of_isFetch (hs : x.subs[i]? = some s) (hp : s.purpose.isFetch = true)
    (m : Move) : requestsMade (deedsOf i (x.deeds m)) = [] := by
  have hmanual : s.purpose ≠ .manual := by
    intro he
    rw [he] at hp
    cases hp
  by_cases hm : m = .turn (.worker i)
  · subst hm
    rw [show x.deeds (.turn (.worker i)) = (x.workerDeeds i).map (i, ·) from rfl, deedsOf_self]
    rcases workerDeeds_cases x i with ⟨u, f, rest, ht, hd, _⟩ | hd
    · cases hs.symm.trans ht.sub
      rw [hd, requestsMade_frameDeeds, Subscription.asks_of_isFetch hp]
      rfl
    · rw [← requestsMade_dealings, hd]
      rfl
  · rw [← requestsMade_dealings, dealings_deeds hs hmanual hm]
    rfl

/-- In a run of turns a fetch asks once at most. -/
theorem requestsMade_news_le_one {t : Transport} (ht : IsNew t) (keeps : Bool) (capacity : Nat)
    (ms : List Move) (hs : ((start t keeps capacity).followed ms).subs[i]? = some s)
    (hp : s.purpose.isFetch = true) :
    (requestsMade (deedsOf i ((start t keeps capacity).news ms))).length ≤ 1 := by
  induction ms using List.reverseRecOn generalizing s with
  | nil => cases hs
  | append_singleton ms m ih =>
    have hsince := since_followed (tame_start ht keeps capacity) ms
    rw [followed_append] at hs
    rw [news_concat, deedsOf_append, requestsMade_append, List.length_append]
    cases hx : ((start t keeps capacity).followed ms).subs[i]? with
    | none =>
      have hi := Array.getElem?_eq_none_iff.1 hx
      rw [deedsOf_eq_nil hsince.born hi]
      exact Nat.le_trans (Nat.le_of_eq (Nat.zero_add _))
        (requestsMade_deeds_le_one hsince.toTame hi m)
    | some u =>
      obtain ⟨v, hv, hsame⟩ := isFetch_followed hsince.toTame hx [m]
      cases hs.symm.trans hv
      have hu : u.purpose.isFetch = true := hsame.symm.trans hp
      rw [requestsMade_deeds_of_isFetch hx hu]
      exact ih hx hu

theorem transport_follow (x : Exchange) (m : Move) :
    (x.follow m).transport = (x.next m).transport := by
  cases m with
  | turn t =>
    show (x.turn t).transport = (x.stepOf t).1.transport
    rcases turn_cases x t with ⟨_, he⟩ | ⟨_, he⟩ <;> rw [he]
  | _ => rfl

/-- What a run hands to the transport becomes known in it. -/
theorem extends_followed (x : Exchange) (ms : List Move) : ∃ ps : List (String × PullRequest),
    (ps.map Prod.snd).Sublist (requestsOf (x.news ms)) ∧
      x.transport.Extends ps (x.followed ms).transport := by
  induction ms generalizing x with
  | nil => exact ⟨[], List.nil_sublist _, Transport.extends_refl _⟩
  | cons m ms ih =>
    obtain ⟨ps, hps, hm⟩ := extends_next x m
    obtain ⟨qs, hqs, hms⟩ := ih (x.follow m)
    rw [← transport_follow] at hm
    refine ⟨ps ++ qs, ?_, hm.trans hms⟩
    rw [show x.news (m :: ms) = x.deeds m ++ (x.follow m).news ms from rfl, requestsOf_append,
      List.map_append]
    exact hps.append hqs

end Exchange

end DemandFlow
