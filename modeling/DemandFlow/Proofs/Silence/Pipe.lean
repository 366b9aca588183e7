import DemandFlow.Proofs.Read.Pipeline

/-
  The ways from a feed to its reader that silence is measured on. Frames go from the feed to the
  worker; until the subscription is shut down, those that the worker has not taken in are in the
  feed. Alarms go from the worker through the queue to a reader, in the order in which the
  listener was told of them.
-/

namespace DemandFlow

/-! ## What deeds say -/

namespace Deed

/-- The frame that the worker took in. -/
def took? : Deed → Option Frame
  | .took f => some f
  | _ => none

/-- The silence that the listener was told of. -/
def silence? : Deed → Option Span
  | .told (.alarm _ d) => some d
  | _ => none

end Deed

/-- The silence that a delivery stands for. -/
def Delivery.silence? : Delivery → Option Span
  | .liveness d => some d
  | .message _ | .terminus _ | .error _ => none

/-- The frames that the worker took in. -/
def framesTook (past : List Deed) : List Frame := past.filterMap Deed.took?

/-- The silences that the listener was told of. -/
def silencesTold (past : List Deed) : List Span := past.filterMap Deed.silence?

/-- The silences that some deliveries stand for. -/
def silences (ds : List Delivery) : List Span := ds.filterMap Delivery.silence?

theorem framesTook_append (past new : List Deed) :
    framesTook (past ++ new) = framesTook past ++ framesTook new := List.filterMap_append

theorem silencesTold_append (past new : List Deed) :
    silencesTold (past ++ new) = silencesTold past ++ silencesTold new := List.filterMap_append

theorem silences_append (ds es : List Delivery) :
    silences (ds ++ es) = silences ds ++ silences es := List.filterMap_append

theorem silence?_of_image {f : Frame} {d : Delivery} (h : f.image = some d) :
    d.silence? = none := by
  have ha := Lane.isAwake_of_image h
  cases d with
  | liveness span => cases ha
  | _ => rfl

/-- From a frame nobody hears of a silence, and no frame comes of it. -/
theorem quiet_hears (s : Subscription) (f : Frame) :
    framesTook (s.hears f) = [] ∧ silencesTold (s.hears f) = [] ∧
      framesEntered (s.hears f) = [] ∧ deliveriesRead (s.hears f) = [] := by
  unfold Subscription.hears
  split
  · exact ⟨rfl, rfl, rfl, rfl⟩
  · exact ⟨rfl, rfl, rfl, rfl⟩
  · exact ⟨rfl, rfl, rfl, rfl⟩
  · split <;> exact ⟨rfl, rfl, rfl, rfl⟩
  · split <;> exact ⟨rfl, rfl, rfl, rfl⟩
  · exact ⟨rfl, rfl, rfl, rfl⟩
  · exact ⟨rfl, rfl, rfl, rfl⟩

namespace Lane

variable {calm : Bool} {L₀ L L' : Lane} {past new : List Deed}

/-! ## From the feed to the worker -/

/-- Frames are taken in as they came, and until the subscription is shut down those that were not
taken in are in the feed. -/
structure TakesIn (past : List Deed) (L : Lane) : Prop where
  inOrder : framesTook past <+: framesEntered past
  whole : L.sub.closed = false → L.feed.reading = true ∧
    framesEntered past = framesTook past ++ L.feed.frames.toList

/-- No frame comes in or is taken in. -/
theorem TakesIn.same (h : TakesIn past L) (ht : framesTook new = [])
    (he : framesEntered new = [])
    (hL : L'.sub.closed = false → L.sub.closed = false ∧ L'.feed.reading = L.feed.reading ∧
      L'.feed.frames = L.feed.frames) : TakesIn (past ++ new) L' := by
  constructor
  · rw [framesTook_append, framesEntered_append, ht, he, List.append_nil, List.append_nil]
    exact h.inOrder
  · intro hc
    obtain ⟨hopen, hreading, hframes⟩ := hL hc
    rw [framesTook_append, framesEntered_append, ht, he, List.append_nil, List.append_nil,
      hreading, hframes]
    exact h.whole hopen

/-- A frame comes into the feed. -/
theorem TakesIn.push (h : TakesIn past L) (f : Frame) (due : Due) (ht : framesTook new = [])
    (he : framesEntered new = [f]) :
    TakesIn (past ++ new) { L with feed := L.feed.push f, due := due } := by
  constructor
  · rw [framesTook_append, framesEntered_append, ht, List.append_nil]
    exact h.inOrder.trans (List.prefix_append _ _)
  · intro hc
    obtain ⟨hreading, hwhole⟩ := h.whole hc
    refine ⟨hreading, ?_⟩
    rw [framesTook_append, framesEntered_append, ht, he, hwhole, Feed.toList_push,
      List.append_nil, List.append_assoc]

theorem takesIn_step (step : Step calm L new L') (h : TakesIn past L) :
    TakesIn (past ++ new) L' := by
  cases step with
  | send f due reading fair requests => exact h.push f due rfl rfl
  | inject f loose reading => exact h.push f L.due rfl rfl
  | take f rest now opened worker next =>
    obtain ⟨htook, _, hentered, _⟩ := quiet_hears L.sub f
    have ht : framesTook (.took f :: L.sub.hears f) = [f] := congrArg (f :: ·) htook
    have he : framesEntered (.took f :: L.sub.hears f) = [] := hentered
    obtain ⟨hreading, hwhole⟩ := h.whole opened
    have hwhole' : framesEntered past = framesTook past ++ [f] ++ rest.toList := by
      rw [hwhole, Fifo.toList_of_pop? next, List.append_assoc]
      rfl
    constructor
    · rw [framesTook_append, framesEntered_append, ht, he, hwhole', List.append_nil]
      exact List.prefix_append _ _
    · intro _
      refine ⟨hreading, ?_⟩
      rw [framesTook_append, framesEntered_append, ht, he, hwhole', List.append_nil]
  | finish may => exact h.same rfl rfl fun hc => by cases hc
  | leave => exact h.same rfl rfl fun hc => by cases hc
  | stop => exact h.same rfl rfl fun hc => by cases hc
  | _ => exact h.same (L := L) rfl rfl fun hc => ⟨hc, rfl, rfl⟩

theorem takesIn_run (h : TakesIn [] L₀) (run : Run calm L₀ past L) : TakesIn past L := by
  induction run with
  | nil => exact h
  | snoc _ step ih => exact takesIn_step step ih

theorem takesIn_fresh (fresh : L₀.IsFresh calm) : TakesIn [] L₀ := by
  obtain ⟨_, _, _, hfeed⟩ := fresh.feed
  refine ⟨List.prefix_refl _, fun _ => ?_⟩
  rw [hfeed]
  exact ⟨rfl, rfl⟩

/-! ## From the worker to the reader -/

/-- The silences that were read or wait to be read are those that the listener was told of, in
order; until the subscription is shut down they are all of them. -/
structure PassesOn (past : List Deed) (L : Lane) : Prop where
  reads : L.sub.purpose.continuous? = none
  inOrder : silences (deliveriesRead past ++ L.sub.undelivered) <+: silencesTold past
  whole : L.sub.closed = false →
    silences (deliveriesRead past ++ L.sub.undelivered) = silencesTold past

theorem continuous?_of_alike {p q : Purpose} (h : Alike p q) :
    q.continuous? = none ↔ p.continuous? = none := by
  cases p <;> cases q <;> simp_all [Alike, Purpose.continuous?]

/-- What is read or waits to be read stands for the same silences as before. -/
theorem PassesOn.same (h : PassesOn past L) (step : Step calm L new L')
    (ht : silencesTold new = [])
    (hu : silences (deliveriesRead new ++ L'.sub.undelivered) = silences L.sub.undelivered)
    (hc : L'.sub.closed = false → L.sub.closed = false) : PassesOn (past ++ new) L' := by
  have hsame : silences (deliveriesRead (past ++ new) ++ L'.sub.undelivered) =
      silences (deliveriesRead past ++ L.sub.undelivered) := by
    rw [deliveriesRead_append, List.append_assoc, silences_append, hu, ← silences_append]
  refine ⟨(continuous?_of_alike step.alike).2 h.reads, ?_, fun hopen => ?_⟩
  · rw [hsame, silencesTold_append, ht, List.append_nil]
    exact h.inOrder
  · rw [hsame, silencesTold_append, ht, List.append_nil]
    exact h.whole (hc hopen)

theorem passesOn_step (step : Step calm L new L') (h : PassesOn past L) :
    PassesOn (past ++ new) L' := by
  have hstep := step
  cases step with
  | take f rest now opened worker next =>
    obtain ⟨_, htold, _, hread⟩ := quiet_hears L.sub f
    refine h.same hstep htold ?_ id
    have hread' : deliveriesRead (.took f :: L.sub.hears f) = [] := hread
    rw [hread', List.nil_append, undelivered_takes h.reads worker, silences_append]
    cases hi : f.image with
    | none => exact List.append_nil _
    | some d =>
      show _ ++ silences [d] = _
      unfold silences
      rw [List.filterMap_cons_none (silence?_of_image hi)]
      exact List.append_nil _
  | alarm d alarms opened worker =>
    have hundelivered := undelivered_alarmed h.reads worker alarms d
    have hwhole : silences (deliveriesRead (past ++ [.told (.alarm L.sub.inbox d)]) ++
        { L.sub with alarms := alarms, worker := L.sub.alarmed d : Subscription }.undelivered) =
          silencesTold (past ++ [.told (.alarm L.sub.inbox d)]) := by
      have hread : deliveriesRead [.told (.alarm L.sub.inbox d)] = [] := rfl
      rw [hundelivered, deliveriesRead_append, hread, List.append_nil, ← List.append_assoc,
        silences_append, h.whole opened, silencesTold_append]
      rfl
    exact ⟨h.reads, hwhole ▸ List.prefix_refl _, fun _ => hwhole⟩
  | enqueue d opened worker =>
    refine h.same hstep rfl ?_ id
    exact congrArg silences (Subscription.undelivered_enqueue worker)
  | finish may =>
    have hpart : L.sub.ended.undelivered <+: L.sub.undelivered := by
      unfold Subscription.undelivered
      exact List.prefix_append_right_inj _ |>.2 (List.nil_prefix)
    refine ⟨h.reads, ?_, fun hc => by cases hc⟩
    rw [List.append_nil]
    refine List.IsPrefix.trans ?_ h.inOrder
    exact ((List.prefix_append_right_inj _).2 hpart).filterMap _
  | read d rest next =>
    refine h.same hstep rfl ?_ id
    unfold Subscription.undelivered
    rw [Fifo.toList_of_pop? next]
    rfl
  | leave => exact h.same hstep rfl rfl fun hc => by cases hc
  | stop =>
    refine h.same hstep rfl ?_ fun hc => by cases hc
    have hstopped : L.sub.stopped.undelivered = L.sub.undelivered := by
      unfold Subscription.stopped
      split <;> rfl
    exact congrArg silences hstopped
  | _ => exact h.same hstep rfl rfl id

theorem passesOn_run (h : PassesOn [] L₀) (run : Run calm L₀ past L) : PassesOn past L := by
  induction run with
  | nil => exact h
  | snoc _ step ih => exact passesOn_step step ih

theorem passesOn_fresh (fresh : L₀.IsFresh calm) (hp : L₀.sub.purpose.continuous? = none) :
    PassesOn [] L₀ := by
  obtain ⟨_, _, _, _, _, hsub, _⟩ := fresh.sub
  refine ⟨hp, ?_, fun _ => ?_⟩ <;> rw [hsub]
  · exact List.prefix_refl _
  · rfl

end Lane

end DemandFlow
