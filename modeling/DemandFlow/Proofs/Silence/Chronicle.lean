import DemandFlow.Proofs.Lane.Account
import DemandFlow.Proofs.Silence.Turns

/-
  What a reader can conclude from a liveness error. The chronicle of a run keeps the instants at
  which frames entered the feeds, and for each alarm what was in the feed when it was raised. The
  silence is measured from the last frame that the worker took in. So an alarm is right about the
  frames that were taken in, and it is right about the feed exactly when no frame lay in it unread
  that had entered within the alarm period (`truthful_iff_unread`). While the queue of a slow
  reader is full its worker takes in nothing, and the alarm is raised over heartbeats that came in
  time (`fullQueue_untruthful`).
-/

namespace DemandFlow

open Exchange (Move Since IsNew)

/-! ## Alarms that were raised -/

/-- An alarm that was raised for a subscription. -/
structure Alert where
  sub : Nat
  instant : Nat
  period : Span
  silentFor : Span
  /-- The frames that had entered the feed, each with the instant at which it did. -/
  entered : List (Nat × Frame)
  /-- The frames that lay in the feed. -/
  waiting : List Frame

namespace Alert

/-- The frames that had been taken in, with the instants at which they entered. -/
def taken (a : Alert) : List (Nat × Frame) :=
  a.entered.take (a.entered.length - a.waiting.length)

/-- The frames that had not been taken in. -/
def unread (a : Alert) : List (Nat × Frame) :=
  a.entered.drop (a.entered.length - a.waiting.length)

/-- No frame had entered the feed within the alarm period. -/
def IsTruthful (a : Alert) : Prop := ∀ e ∈ a.entered, e.1 + a.period.nanos ≤ a.instant

instance (a : Alert) : Decidable a.IsTruthful :=
  inferInstanceAs (Decidable (∀ e ∈ a.entered, e.1 + a.period.nanos ≤ a.instant))

/-- The silence lasted for a period, what was not taken in lay in the feed, and of what was taken
in nothing had entered within the period. -/
structure IsSound (a : Alert) : Prop where
  silence : a.period.nanos ≤ a.silentFor.nanos
  unread : a.unread.map Prod.snd = a.waiting
  taken : ∀ e ∈ a.taken, e.1 + a.period.nanos ≤ a.instant

theorem IsSound.truthful_iff {a : Alert} (h : a.IsSound) :
    a.IsTruthful ↔ ∀ e ∈ a.unread, e.1 + a.period.nanos ≤ a.instant := by
  have hsplit : a.taken ++ a.unread = a.entered := List.take_append_drop _ _
  unfold IsTruthful
  rw [← hsplit]
  constructor
  · exact fun ht e he => ht e (List.mem_append_right _ he)
  · intro hu e he
    rcases List.mem_append.1 he with he | he
    · exact h.taken e he
    · exact hu e he

end Alert

/-- The silence that an answer reports. -/
def Answer.silence? : Answer → Option Span
  | .reading (.error (.liveness d)) => some d
  | _ => none

/-! ## Chronicles -/

/-- An exchange with what became known of its subscriptions and when, and the alarms that were
raised. -/
structure Chronicle where
  exchange : Exchange
  past : List (Nat × Nat × Deed)
  alerts : List Alert

namespace Chronicle

def start (x : Exchange) : Chronicle := ⟨x, [], []⟩

/-- What became known of one subscription. -/
def deedsOf (c : Chronicle) (i : Nat) : List Deed := DemandFlow.deedsOf i (c.past.map Prod.snd)

/-- The frames that entered the feed of a subscription, each with its instant. -/
def enteredBy (i : Nat) (past : List (Nat × Nat × Deed)) : List (Nat × Frame) :=
  past.filterMap fun p => if p.2.1 = i then p.2.2.entered?.map (p.1, ·) else none

/-- The alarms that were raised for one subscription. -/
def alertsOf (c : Chronicle) (i : Nat) : List Alert := c.alerts.filter fun a => a.sub = i

/-- An alarm that is raised now; the feed of a subscription has its number. -/
def alert (c : Chronicle) (r : Nat × Span × Span) : Alert where
  sub := r.1
  instant := c.exchange.now
  period := r.2.1
  silentFor := r.2.2
  entered := enteredBy r.1 c.past
  waiting := ((c.exchange.feeds[r.1]?).map fun f => f.frames.toList).getD []

def next (c : Chronicle) (m : Move) : Chronicle where
  exchange := c.exchange.next m
  past := c.past ++ (c.exchange.deeds m).map (c.exchange.now, ·)
  alerts := c.alerts ++ (c.exchange.raised m).map c.alert

/-- The chronicle after some moves. -/
def after (c : Chronicle) (ms : List Move) : Chronicle := ms.foldl next c

/-- No move sets the clock back. -/
def Forward (c : Chronicle) : List Move → Prop
  | [] => True
  | m :: ms => c.exchange.now ≤ (c.next m).exchange.now ∧ (c.next m).Forward ms

/-- It is decided move by move. -/
def decidableForward (c : Chronicle) : (ms : List Move) → Decidable (c.Forward ms)
  | [] => .isTrue trivial
  | m :: ms =>
    have := decidableForward (c.next m) ms
    inferInstanceAs (Decidable (_ ∧ _))

instance (c : Chronicle) (ms : List Move) : Decidable (c.Forward ms) := decidableForward c ms

variable {c : Chronicle} {i : Nat}

theorem enteredBy_append (i : Nat) (past new : List (Nat × Nat × Deed)) :
    enteredBy i (past ++ new) = enteredBy i past ++ enteredBy i new := List.filterMap_append

theorem map_enteredBy (i : Nat) (past : List (Nat × Nat × Deed)) :
    (enteredBy i past).map Prod.snd = framesEntered (DemandFlow.deedsOf i (past.map Prod.snd)) := by
  induction past with
  | nil => rfl
  | cons p ps ih =>
    obtain ⟨t, j, d⟩ := p
    have hcons : DemandFlow.deedsOf i (((t, j, d) :: ps).map Prod.snd) =
        DemandFlow.deedsOf i [(j, d)] ++ DemandFlow.deedsOf i (ps.map Prod.snd) :=
      deedsOf_append i [(j, d)] _
    rw [hcons, framesEntered_append, ← ih]
    by_cases hj : j = i
    · cases hd : d.entered? <;> simp [enteredBy, DemandFlow.deedsOf, framesEntered, hj, hd]
    · simp [enteredBy, DemandFlow.deedsOf, framesEntered, hj]

theorem instant_of_entered {t : Nat} {past : List (Nat × Nat × Deed)}
    (h : ∀ p ∈ past, p.1 ≤ t) : ∀ e ∈ enteredBy i past, e.1 ≤ t := by
  intro e he
  obtain ⟨p, hp, he⟩ := List.mem_filterMap.1 he
  split at he
  · obtain ⟨f, _, rfl⟩ := Option.map_eq_some_iff.1 he
    exact h p hp
  · cases he

theorem deedsOf_next (c : Chronicle) (m : Move) (i : Nat) :
    (c.next m).deedsOf i = c.deedsOf i ++ DemandFlow.deedsOf i (c.exchange.deeds m) := by
  unfold deedsOf next
  dsimp only
  rw [List.map_append, deedsOf_append, List.map_map]
  exact congrArg (fun ds => _ ++ DemandFlow.deedsOf i ds) (List.map_id _)

theorem silentFor_alertsOf_next (c : Chronicle) (m : Move) (i : Nat) :
    ((c.next m).alertsOf i).map Alert.silentFor =
      (c.alertsOf i).map Alert.silentFor ++ Exchange.silencesOf i (c.exchange.raised m) := by
  unfold alertsOf next Exchange.silencesOf
  dsimp only
  rw [List.filter_append, List.map_append, List.filter_map, List.map_map]
  rfl

/-! ## What a chronicle keeps -/

variable {t : Transport} {keeps : Bool} {capacity : Nat}

/-- What holds of every subscription of a chronicle. -/
structure Faithful (t : Transport) (keeps : Bool) (capacity : Nat) (c : Chronicle) : Prop where
  since : Since false (.start t keeps capacity) (c.past.map Prod.snd) c.exchange
  past : ∀ p ∈ c.past, p.1 ≤ c.exchange.now
  timely : ∀ (i : Nat) (s : Subscription), c.exchange.subs[i]? = some s →
    s.Timely c.exchange.now
  /-- Whatever was taken in had entered before the feed was last seen. -/
  seen : ∀ (i : Nat) (s : Subscription), c.exchange.subs[i]? = some s →
    ∀ e ∈ (enteredBy i c.past).take (framesTook (c.deedsOf i)).length,
      e.1 ≤ s.tracker.monitor.lastSeen
  /-- The alarms that were raised have been told or wait to be. -/
  told : ∀ (i : Nat) (s : Subscription), c.exchange.subs[i]? = some s →
    silencesTold (c.deedsOf i) ++ s.alarms = (c.alertsOf i).map Alert.silentFor
  born : ∀ a ∈ c.alerts, a.sub < c.exchange.subs.size
  sound : ∀ a ∈ c.alerts, a.IsSound

/-- What was taken in, and what is in the feed. -/
theorem Faithful.takesIn (h : Faithful t keeps capacity c) {i : Nat} {s : Subscription}
    (hs : c.exchange.subs[i]? = some s) : ∃ f, c.exchange.feeds[i]? = some f ∧
      Lane.TakesIn (c.deedsOf i) ⟨s, f, c.exchange.transport.due s.inbox⟩ := by
  obtain ⟨f, hf, hL⟩ := h.since.lane_of_sub hs
  obtain ⟨L₀, hfresh, hrun⟩ := h.since.fresh_run hL
  exact ⟨f, hf, Lane.takesIn_run (Lane.takesIn_fresh hfresh) hrun⟩

/-- An alarm that is raised is sound: the monitor is open, so the feed still holds what was not
taken in. -/
theorem Faithful.sound_alert (h : Faithful t keeps capacity c) {i : Nat} {p d : Span}
    (hr : c.exchange.raises? i = some (p, d)) : (c.alert (i, p, d)).IsSound := by
  obtain ⟨s, hs, _, _, hopen, hd, hlast⟩ := Exchange.raises?_eq_some hr
  have hc : s.closed = false := by
    cases hc : s.closed with
    | false => rfl
    | true => exact absurd ((h.timely i s hs).shut hc) (ne_true_of_eq_false hopen)
  obtain ⟨f, hf, htakes⟩ := h.takesIn hs
  obtain ⟨_, hwhole⟩ := htakes.whole hc
  dsimp only at hwhole
  have hmap : (enteredBy i c.past).map Prod.snd = framesTook (c.deedsOf i) ++ f.frames.toList :=
    (map_enteredBy i c.past).trans hwhole
  have hwaiting : (c.alert (i, p, d)).waiting = f.frames.toList := by
    unfold alert
    rw [hf]
    rfl
  have hlength : (enteredBy i c.past).length - f.frames.toList.length =
      (framesTook (c.deedsOf i)).length := by
    rw [← List.length_map (f := Prod.snd), hmap, List.length_append]
    omega
  have htaken : (c.alert (i, p, d)).taken =
      (enteredBy i c.past).take (framesTook (c.deedsOf i)).length := by
    unfold Alert.taken
    rw [hwaiting, ← hlength]
    rfl
  have hunread : (c.alert (i, p, d)).unread =
      (enteredBy i c.past).drop (framesTook (c.deedsOf i)).length := by
    unfold Alert.unread
    rw [hwaiting, ← hlength]
    rfl
  constructor
  · show p.nanos ≤ d.nanos
    omega
  · rw [hunread, hwaiting, List.map_drop, hmap, List.drop_left]
  · intro e he
    rw [htaken] at he
    have hle := h.seen i s hs e he
    show e.1 + p.nanos ≤ c.exchange.now
    omega

/-! ## Moves -/

/-- Nothing is known of a subscription before it is opened. -/
theorem Faithful.blank (h : Faithful t keeps capacity c) {i : Nat}
    (hi : c.exchange.subs.size ≤ i) : c.deedsOf i = [] ∧ c.alertsOf i = [] := by
  constructor
  · refine List.map_eq_nil_iff.2 (List.filter_eq_nil_iff.2 fun p hp => ?_)
    have := h.since.born p hp
    simp only [decide_eq_true_eq]
    omega
  · refine List.filter_eq_nil_iff.2 fun a ha => ?_
    have := h.born a ha
    simp only [decide_eq_true_eq]
    omega

/-- A frame that is taken in was seen just now; otherwise what was taken in stays the same. -/
theorem Faithful.seen_next (h : Faithful t keeps capacity c) {m : Move} {i : Nat}
    {s' : Subscription} (hs' : (c.next m).exchange.subs[i]? = some s') :
    ∀ e ∈ (enteredBy i (c.next m).past).take (framesTook ((c.next m).deedsOf i)).length,
      e.1 ≤ s'.tracker.monitor.lastSeen := by
  intro e he
  rw [deedsOf_next, framesTook_append] at he
  rcases c.exchange.passed_next m hs' with ⟨s, hs, hpass⟩ | ⟨hi, _, _, htook, _⟩
  · by_cases htook : framesTook (DemandFlow.deedsOf i (c.exchange.deeds m)) = []
    · obtain ⟨_, _, htakes⟩ := h.takesIn hs
      have hlength : (framesTook (c.deedsOf i)).length ≤ (enteredBy i c.past).length := by
        rw [← List.length_map (f := Prod.snd), map_enteredBy]
        exact htakes.inOrder.length_le
      have hpast : enteredBy i (c.next m).past = enteredBy i c.past ++
          enteredBy i ((c.exchange.deeds m).map (c.exchange.now, ·)) := enteredBy_append ..
      rw [htook, List.append_nil, hpast, List.take_append_of_le_length hlength] at he
      exact Nat.le_trans (h.seen i s hs e he) (hpass.lastSeen_le (h.timely i s hs))
    · rw [hpass.took htook]
      have hpast : ∀ p ∈ (c.next m).past, p.1 ≤ c.exchange.now := by
        intro p hp
        rcases List.mem_append.1 hp with hp | hp
        · exact h.past p hp
        · obtain ⟨q, _, rfl⟩ := List.mem_map.1 hp
          exact Nat.le_refl _
      exact instant_of_entered hpast e (List.mem_of_mem_take he)
  · rw [(h.blank hi).1, htook] at he
    cases he

theorem Faithful.next (h : Faithful t keeps capacity c) {m : Move}
    (hle : c.exchange.now ≤ (c.next m).exchange.now) : Faithful t keeps capacity (c.next m) := by
  have hsince : Since false (.start t keeps capacity) ((c.next m).past.map Prod.snd)
      (c.exchange.next m) := by
    have hnext := h.since.next m fun hc => by cases hc
    have hpast : (c.next m).past.map Prod.snd =
        c.past.map Prod.snd ++ c.exchange.deeds m := by
      unfold Chronicle.next
      dsimp only
      rw [List.map_append, List.map_map]
      exact congrArg (_ ++ ·) (List.map_id _)
    rwa [hpast]
  have hgrown : c.exchange.subs.size ≤ (c.exchange.next m).subs.size :=
    ((Since.refl h.since.toTame).next m fun hc => by cases hc).grown
  refine ⟨hsince, ?_, ?_, fun i s' hs' => h.seen_next hs', ?_, ?_, ?_⟩
  · intro p hp
    rcases List.mem_append.1 hp with hp | hp
    · exact Nat.le_trans (h.past p hp) hle
    · obtain ⟨q, _, rfl⟩ := List.mem_map.1 hp
      exact hle
  · intro i s' hs'
    rcases c.exchange.passed_next m hs' with ⟨s, hs, hpass⟩ | ⟨_, hyoung, _⟩
    · exact (hpass.timely (h.timely i s hs)).later hle
    · exact hyoung.timely.later hle
  · intro i s' hs'
    rw [deedsOf_next, silencesTold_append, silentFor_alertsOf_next]
    rcases c.exchange.passed_next m hs' with ⟨s, hs, hpass⟩ | ⟨hi, hyoung, htold, _, hnone⟩
    · rw [List.append_assoc, hpass.alarms, ← List.append_assoc, h.told i s hs]
    · obtain ⟨hdeeds, halerts⟩ := h.blank hi
      rw [hdeeds, halerts, htold, hnone, hyoung.alarms]
      rfl
  · intro a ha
    rcases List.mem_append.1 ha with ha | ha
    · exact Nat.lt_of_lt_of_le (h.born a ha) hgrown
    · obtain ⟨r, hr, rfl⟩ := List.mem_map.1 ha
      obtain ⟨s, hs, _⟩ := Exchange.raises?_eq_some (Exchange.raises?_of_raised hr)
      exact Nat.lt_of_lt_of_le (Array.getElem?_eq_some_iff.1 hs).1 hgrown
  · intro a ha
    rcases List.mem_append.1 ha with ha | ha
    · exact h.sound a ha
    · obtain ⟨r, hr, rfl⟩ := List.mem_map.1 ha
      exact h.sound_alert (Exchange.raises?_of_raised hr)

theorem Faithful.after (h : Faithful t keeps capacity c) {ms : List Move}
    (hms : c.Forward ms) : Faithful t keeps capacity (c.after ms) := by
  induction ms generalizing c with
  | nil => exact h
  | cons m ms ih => exact ih (h.next hms.1) hms.2

/-- The chronicle of an exchange that nobody has used yet. -/
theorem faithful_start (ht : IsNew t) (keeps : Bool) (capacity : Nat) :
    Faithful t keeps capacity (start (.start t keeps capacity)) where
  since := Since.refl (Exchange.tame_start ht keeps capacity)
  past := fun p hp => by cases hp
  timely := fun i s hs => by cases hs
  seen := fun i s hs => by cases hs
  told := fun i s hs => by cases hs
  born := fun a ha => by cases ha
  sound := fun a ha => by cases ha

/-! ## What readers learn -/

/-- The liveness errors that were read of a manual consumer or a fetch come from the first alarms
that were raised for it, in order. Each was raised after a silence of its period, and no frame had
entered the feed within that period exactly when this holds of the frames that lay in the feed
unread. -/
theorem truthful_iff_unread (ht : IsNew t) (keeps : Bool) (capacity : Nat) (ms : List Move)
    (hms : (start (.start t keeps capacity)).Forward ms) (i : Nat) (s : Subscription) :
    let c := (start (.start t keeps capacity)).after ms
    c.exchange.subs[i]? = some s → s.purpose.continuous? = none →
      ∃ behind, behind <+: c.alertsOf i ∧
        silences (deliveriesRead (c.deedsOf i)) = behind.map Alert.silentFor ∧
        ∀ a ∈ behind, a.period.nanos ≤ a.silentFor.nanos ∧ a.unread.map Prod.snd = a.waiting ∧
          (a.IsTruthful ↔ ∀ e ∈ a.unread, e.1 + a.period.nanos ≤ a.instant) := by
  intro c hs hp
  have hfaith : Faithful t keeps capacity c := (faithful_start ht keeps capacity).after hms
  obtain ⟨f, _, hL⟩ := hfaith.since.lane_of_sub hs
  obtain ⟨L₀, hfresh, hrun⟩ := hfaith.since.fresh_run hL
  have hp₀ := (Lane.continuous?_of_alike hrun.alike).1 hp
  have hpasses := Lane.passesOn_run (Lane.passesOn_fresh hfresh hp₀) hrun
  have hread : silences (deliveriesRead (c.deedsOf i)) <+:
      (c.alertsOf i).map Alert.silentFor := by
    rw [← hfaith.told i s hs]
    refine List.IsPrefix.trans ?_ (hpasses.inOrder.trans (List.prefix_append _ _))
    rw [silences_append]
    exact List.prefix_append _ _
  refine ⟨(c.alertsOf i).take (silences (deliveriesRead (c.deedsOf i))).length,
    List.take_prefix _ _, ?_, fun a ha => ?_⟩
  · rw [List.map_take]
    exact List.prefix_iff_eq_take.1 hread
  · have hsound := hfaith.sound a (List.mem_filter.1 (List.mem_of_mem_take ha)).1
    exact ⟨hsound.silence, hsound.unread, hsound.truthful_iff⟩

/-- A request for ten messages, with a heartbeat every 100 milliseconds. -/
def beatingPull : PullRequest.Draft :=
  ⟨10, 0, some (.ofSecs 5), some (.ofMillis 100), false⟩

/-- Two messages fill a queue of one and its worker. Two heartbeats come in after 100 and after
200 milliseconds, and after 300 an alarm is raised. Then three reads take what there is. -/
def fullQueue : List Move :=
  [Move.manual, .pull 0 (.draft beatingPull), .publish (.plain "a" ⟨#[1]⟩),
    .publish (.plain "a" ⟨#[2]⟩)] ++
  List.replicate 12 (Move.turn .broker) ++ List.replicate 4 (Move.turn (.worker 0)) ++
  Move.clock (Span.ofMillis 100).nanos :: List.replicate 4 (Move.turn .broker) ++
  Move.clock (Span.ofMillis 200).nanos :: List.replicate 4 (Move.turn .broker) ++
  [Move.clock (Span.ofMillis 300).nanos, .turn (.alarm 0)] ++
  [Move.read 0 .zero, .turn (.caller 0)] ++ List.replicate 6 (Move.turn (.worker 0)) ++
  [Move.read 0 .zero, .turn (.caller 1)] ++ List.replicate 6 (Move.turn (.worker 0)) ++
  [Move.read 0 .zero, .turn (.caller 2)]

/-- The alarm behind its liveness error was raised after a silence of its period. -/
theorem fullQueue_reads :
    let c := (start (.start (.loopback (.start .default true)) true 1)).after fullQueue
    ∃ behind, behind <+: c.alertsOf 0 ∧
      silences (deliveriesRead (c.deedsOf 0)) = behind.map Alert.silentFor ∧
      ∀ a ∈ behind, a.period.nanos ≤ a.silentFor.nanos ∧ a.unread.map Prod.snd = a.waiting ∧
        (a.IsTruthful ↔ ∀ e ∈ a.unread, e.1 + a.period.nanos ≤ a.instant) := by
  intro c
  have hc : (c.exchange.subs[0]?).map (fun s => s.purpose.isManual) = some true := by
    decide +kernel
  obtain ⟨s, hs, hp⟩ := Option.map_eq_some_iff.1 hc
  rw [Purpose.isManual_iff] at hp
  exact truthful_iff_unread (.loopback .default true) true 1 fullQueue (by decide +kernel) 0 s hs
    (congrArg Purpose.continuous? hp)

/-- The third read of a manual consumer on a broker reports a silence of three heartbeats, though
two heartbeats had entered the feed meanwhile. -/
theorem fullQueue_untruthful :
    let c := (start (.start (.loopback (.start .default true)) true 1)).after fullQueue
    (c.alertsOf 0).map (fun a => (a.period, a.silentFor, decide a.IsTruthful)) =
        [(.ofMillis 300, .ofMillis 300, false)] ∧
      (c.alertsOf 0).map (fun a => a.unread.map Prod.fst) =
        [[(Span.ofMillis 100).nanos, (Span.ofMillis 200).nanos]] ∧
      c.exchange.answers.filterMap (fun a => a.2.silence?) = [.ofMillis 300] := by
  decide +kernel

end Chronicle

end DemandFlow
