import DemandFlow.Proofs.Lane.Owner

/-
  The ends of a subscription, as acts of its lane: the owner leaves it, stops its consumer or
  drops it, and its worker ends. Each of these shuts the subscription down; what is left to tell
  the transport asks for nothing.
-/

namespace DemandFlow.Exchange

variable {calm : Bool} {x₀ x y z : Exchange} {past : List (Nat × Deed)}

/-! ## The owner leaves -/

/-- Subscriptions of which one was left by its owner. -/
def leaves (i : Nat) (ss : Array Subscription) : Array Subscription :=
  ss.modify i Subscription.left

theorem core_close_of_claimed {i : Nat}
    (h : ∀ s, x.subs[i]? = some s → s.claimed = true) :
    (x.close i).core = { x.core with subs := leaves i x.core.subs } := by
  have hm : shutDown i x.core.subs = leaves i x.core.subs := by
    unfold shutDown leaves
    refine modify_congr fun s hs => ?_
    have hc : s.claimed = true := h s hs
    unfold Subscription.left Subscription.shut
    rw [← hc]
  rw [core_close, hm]

theorem core_close_claim (x : Exchange) (i : Nat) :
    ((x.close i).modifySub i fun s => { s with claimed := true }).core =
      { x.core with subs := leaves i x.core.subs } := by
  rw [core_modifySub, core_close]
  unfold shutDown leaves
  dsimp only
  rw [modify_modify]
  rfl

/-- What the subscription is once its tasks are told to end. -/
theorem sub_close {i : Nat} {s : Subscription} (h : (x.close i).subs[i]? = some s) :
    ∃ u : Subscription, x.subs[i]? = some u ∧ s = u.shut := by
  have hsubs : (x.close i).subs = shutDown i x.subs := congrArg Core.subs (core_close x i)
  rw [hsubs, shutDown, Array.getElem?_modify, if_pos rfl] at h
  obtain ⟨u, hu, rfl⟩ := Option.map_eq_some_iff.1 h
  exact ⟨u, hu, rfl⟩

theorem none_of_close {i : Nat} (h : (x.close i).subs[i]? = none) : x.subs[i]? = none := by
  have hsubs : (x.close i).subs = shutDown i x.subs := congrArg Core.subs (core_close x i)
  rw [hsubs, shutDown, Array.getElem?_modify, if_pos rfl] at h
  exact Option.map_eq_none_iff.1 h

/-- Who unsubscribes leaves, and may tell the transport. -/
theorem unsubscribe_cases (x : Exchange) (i : Nat) :
    ∃ y : Exchange, y.core = { x.core with subs := leaves i x.core.subs } ∧ y.heard = x.heard ∧
      (x.unsubscribe i = y ∨ ∃ inbox e, x.unsubscribe i = (y.release inbox).note e) := by
  unfold unsubscribe
  dsimp only
  cases hs : (x.close i).subs[i]? with
  | none =>
    refine ⟨_, core_close_of_claimed fun s hx => ?_, skips_heard.close x i, Or.inl rfl⟩
    rw [none_of_close hs] at hx
    cases hx
  | some s =>
    obtain ⟨u, hu, rfl⟩ := sub_close hs
    dsimp only
    split
    · rename_i hc
      refine ⟨_, core_close_of_claimed fun v hv => ?_, skips_heard.close x i, Or.inl rfl⟩
      rw [← Option.some.inj (hu.symm.trans hv)]
      exact hc
    · refine ⟨_, core_close_claim x i, ?_, Or.inr ⟨_, _, rfl⟩⟩
      exact (skips_heard.subs _ _).trans (skips_heard.close x i)

/-- So does who drops a subscription, and leaves the transport to a task of its own. -/
theorem dropSub_cases (x : Exchange) (i : Nat) (inside : Bool) :
    (x.dropSub i inside).core = { x.core with subs := leaves i x.core.subs } ∧
      (x.dropSub i inside).heard = x.heard := by
  refine ⟨?_, skips_heard.dropSub x i inside⟩
  unfold dropSub
  dsimp only
  cases hs : (x.close i).subs[i]? with
  | none =>
    refine core_close_of_claimed fun s hx => ?_
    rw [none_of_close hs] at hx
    cases hx
  | some s =>
    obtain ⟨u, hu, rfl⟩ := sub_close hs
    dsimp only
    split
    · rename_i hc
      refine core_close_of_claimed fun v hv => ?_
      rw [← Option.some.inj (hu.symm.trans hv)]
      exact hc
    · rw [core_wakeIf]
      exact core_close_claim x i

namespace Since

/-- One subscription changes quietly by a core that is known. -/
theorem modifySub_core (h : Since calm x₀ past x) {i : Nat} {g : Subscription → Subscription}
    (hc : y.core = { x.core with subs := x.core.subs.modify i g }) (hh : y.heard = x.heard)
    (hrun : ∀ L, x.lane i = some L → Lane.Run calm L [] { L with sub := g L.sub }) :
    Since calm x₀ past y := by
  have hs := h.modifySub_of [] hc hh hrun (fun _ hd => by cases hd) (fun hn => absurd rfl hn)
  rwa [List.map_nil, List.append_nil] at hs

theorem dropSub (h : Since calm x₀ past x) (i : Nat) (inside : Bool) :
    Since calm x₀ past (x.dropSub i inside) := by
  obtain ⟨hc, hh⟩ := dropSub_cases x i inside
  exact h.modifySub_core hc hh fun L _ => .single (.leave L)

/-- The owner leaves, perhaps after a change of the subscription that counts as one step with
it. -/
theorem unsubscribe_of (h : Since calm x₀ past x) {i : Nat} {g : Subscription → Subscription}
    (hz : z.core = { x.core with subs := x.core.subs.modify i g }) (hh : z.heard = x.heard)
    (hrun : ∀ L, x.lane i = some L → Lane.Run calm L [] { L with sub := (g L.sub).left }) :
    Since calm x₀ past (z.unsubscribe i) := by
  obtain ⟨y, hy, hyh, hcase⟩ := unsubscribe_cases z i
  have hcore : y.core = { x.core with subs := x.core.subs.modify i (Subscription.left ∘ g) } := by
    rw [hy, hz]
    unfold leaves
    dsimp only
    rw [modify_modify]
  have hs : Since calm x₀ past y := h.modifySub_core hcore (hyh.trans hh) hrun
  rcases hcase with he | ⟨inbox, e, he⟩
  · rw [he]
    exact hs
  · rw [he]
    exact (hs.release inbox).note e

theorem unsubscribe (h : Since calm x₀ past x) (i : Nat) :
    Since calm x₀ past (x.unsubscribe i) :=
  h.unsubscribe_of (g := id) (by rw [modify_id]) rfl fun L _ => .single (.leave L)

/-- The owner closes the consumer and leaves. -/
theorem stop (h : Since calm x₀ past x) (i : Nat) :
    Since calm x₀ past ((x.closeContinuous i).unsubscribe i) := by
  refine h.unsubscribe_of (g := Subscription.stopped) ?_ rfl fun L _ => .single (.stop L)
  unfold closeContinuous
  rw [core_modifySub]
  rfl

theorem farewell (h : Since calm x₀ past x) (i : Nat) : Since calm x₀ past (x.farewell i) := by
  unfold Exchange.farewell
  split
  · exact h
  · exact (h.release _).note _

theorem discard (h : Since calm x₀ past x) (i : Nat) (inside : Bool) :
    Since calm x₀ past (x.discard i inside) := by
  unfold Exchange.discard
  split
  · exact h.modifySub fun L _ => .line L L.sub.readers true
  · exact h.dropSub i inside

theorem dropOrphans (h : Since calm x₀ past x) : Since calm x₀ past x.dropOrphans := by
  unfold Exchange.dropOrphans
  refine List.foldlRecOn _ _ h fun y hy i _ => ?_
  split
  · split
    · exact hy.dropSub i true
    · exact hy
  · exact hy

end Since

/-! ## The worker ends -/

theorem core_endWorker_of {i : Nat} {s : Subscription} (hs : x.subs[i]? = some s) :
    (x.endWorker i).core = { x.core with
      feeds := x.core.feeds.modify s.feed Feed.abandon
      subs := x.core.subs.modify i Subscription.ended } := by
  have hsubs : (x.close i).subs = shutDown i x.subs := congrArg Core.subs (core_close x i)
  unfold endWorker
  dsimp only
  rw [hsubs, shutDown, Array.getElem?_modify, if_pos rfl, hs]
  dsimp only [Option.map_some]
  rw [core_wake, core_wakeLeavers, core_wakeAll, core_abandonFeed, core_note, core_modifySub,
    core_close]
  unfold shutDown
  dsimp only
  rw [modify_modify]
  rfl

theorem Since.endWorker (h : Since calm x₀ past x) {i : Nat} {s : Subscription}
    (hs : x.subs[i]? = some s) (hmay : ∀ L, x.lane i = some L → L.MayEnd) :
    Since calm x₀ past (x.endWorker i) := by
  have hfeed : s.feed = i := (h.subs i s hs).1
  have hc := core_endWorker_of hs
  rw [hfeed] at hc
  have hsince := h.alter [] hc (skips_heard.endWorker x i)
    (fun L hL => .single (.finish L (hmay L hL))) (fun _ hd => by cases hd)
    (fun hn => absurd rfl hn)
  rwa [List.map_nil, List.append_nil] at hsince

end DemandFlow.Exchange
