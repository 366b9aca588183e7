import DemandFlow.Proofs.Consume.Budget
import DemandFlow.Proofs.Consume.Simulation

/-
  What is true of a continuous consumer whenever all tasks wait. Without a byte budget its
  handler was called with every message that was published, in order, and its demand is between
  one message and a batch. With a byte budget the same holds of delivery unless it has stalled,
  which takes a message that is larger than a refill; and the accounts agree with the waiting
  pulls just when they have settled in excess what they dropped.
-/

namespace DemandFlow

open Broker (inboxName)
open RefillPlan (refillBytes)

theorem Timing.check_of_resolve {e h : Option Span} {expires heartbeat : Span}
    (hr : resolve e h = .ok (expires, heartbeat)) : check expires heartbeat = .ok () := by
  unfold resolve at hr
  dsimp only at hr
  split at hr
  · cases hr
  · split at hr
    · cases hr
    · rename_i hc
      cases hr
      exact hc

/-- A heartbeat that was accepted can be watched. -/
theorem Timing.times?_of_check {expires heartbeat : Span}
    (hc : check expires heartbeat = .ok ()) :
    (heartbeat.times? Monitor.multiplier).isSome = true := by
  have hle := (check_eq_ok_iff.1 hc).2.1
  have htop : mostHeartbeat.nanos * Monitor.multiplier ≤ Span.top := by decide
  have hbeat : heartbeat.nanos * Monitor.multiplier ≤ Span.top :=
    Nat.le_trans (Nat.mul_le_mul_right _ hle) htop
  exact Option.isSome_iff_exists.2 ⟨_, if_pos hbeat⟩

/-- The timing of options that were accepted was checked. -/
theorem ConsumeOptions.check_of_build {st : Settings} {o : ConsumeOptions}
    (h : st.build = .ok o) : Timing.check o.expires o.heartbeat = .ok () := by
  unfold Settings.build at h
  dsimp only at h
  split at h
  · split at h
    · cases hr : Timing.resolve st.expires st.heartbeat with
      | error f =>
        rw [hr] at h
        cases h
      | ok q =>
        rw [hr] at h
        cases h
        exact Timing.check_of_resolve hr
    · cases h
  · cases h

/-- The heartbeat of options that were accepted can be watched. -/
theorem ConsumeOptions.beats_of_build {st : Settings} {o : ConsumeOptions}
    (h : st.build = .ok o) : o.Beats := Timing.times?_of_check (check_of_build h)

namespace World

variable {st : ConsumeOptions.Settings} {o : ConsumeOptions} {limits : Broker.Limits}
  {h : Handler} {w : World} {a : Flow} {l : Loopback} {feed : Feed} {s : Subscription}

/-! ## What is seen of a flow -/

theorem demand_of_follows (hw : Follows o h w a l feed s) : w.demand = a.demand := by
  have hsub : w.exchange.subs[0]? = some s := sub_of_solo hw.solo
  unfold demand
  rw [hsub]
  exact hw.solo.demand

theorem isActive_of_follows (hw : Follows o h w a l feed s) : w.isActive = true := by
  have hsub : w.exchange.subs[0]? = some s := sub_of_solo hw.solo
  obtain ⟨n, hp⟩ := hw.solo.purpose
  unfold isActive
  rw [hsub, Option.map_some, hp]
  rfl

theorem waiting_of_follows (hw : Follows o h w a l feed s) : w.waiting = a.waiting := by
  have ht : w.exchange.transport = .loopback l := hw.solo.transport
  unfold waiting
  rw [ht]
  exact hw.solo.linked.waiting

theorem unread_of_follows (hw : Follows o h w a l feed s) : w.unread = a.unread := by
  have ht : w.exchange.transport = .loopback l := hw.solo.transport
  unfold unread
  rw [ht]
  dsimp only
  rw [hw.solo.linked.stream, hw.solo.linked.cursor, List.drop_left]

/-- After any moves a world stands for a flow that a consumer and its broker can come to. -/
theorem follows_after (hb : st.build = .ok o) (hfit : o.Fits) (hu : limits.Unlimited)
    (keepsNotices : Bool) (queueCapacity : Nat) (before : List Move) (h : Handler)
    (ms : List Move) :
    ∃ a l feed s, Flow.Reached (inboxName 1) (.ofOptions o) a ∧
      Follows o h ((start limits keepsNotices queueCapacity before o h).after ms) a l feed s := by
  have hbeats := ConsumeOptions.beats_of_build hb
  obtain ⟨b, hstart⟩ := mirrors_start hbeats hu keepsNotices queueCapacity before h
  obtain ⟨a, hr, l, feed, s, hf⟩ := mirrors_after hfit hbeats hstart ms
  exact ⟨a, l, feed, s, hr, hf⟩

/-- After each move the crew takes so many turns that then it rests. -/
def settled (ms : List Move) : List Move :=
  Exchange.rounds .turn (List.replicate 20 Exchange.crew).flatten ms

/-- A message of that many bytes is published. -/
def publishing (n : Nat) : Move := .publish (.plain "s" ⟨Array.replicate n 120⟩)

theorem unlimited_default : Broker.Limits.default.Unlimited := ⟨rfl, rfl, rfl, rfl⟩

/-! ## Without a byte budget -/

/-- The consumer is active, its handler was called with exactly the messages that were
published, each once and in order, and its demand is between one message and a batch. -/
structure Complete (o : ConsumeOptions) (h : Handler) (w : World) : Prop where
  active : w.isActive = true
  called : w.called = w.stored
  handled : w.exchange.handled.toList =
    (w.stored.filter fun m => (h.fails m).isNone).map fun m => (0, m)
  least : 1 ≤ w.demand.messages
  most : w.demand.messages ≤ o.batchSize

theorem complete_of_quiet (hb : st.build = .ok o) (hfit : o.Fits) (hz : o.batchBytes = 0)
    (hu : limits.Unlimited) (keepsNotices : Bool) (queueCapacity : Nat) (before : List Move)
    (h : Handler) (ms : List Move)
    (hq : ((start limits keepsNotices queueCapacity before o h).after ms).exchange.isQuiet = true) :
    Complete o h ((start limits keepsNotices queueCapacity before o h).after ms) := by
  obtain ⟨a, l, feed, s, hr, hf⟩ := follows_after hb hfit hu keepsNotices queueCapacity before h ms
  have hquiet := quiet_of_follows hf hq
  obtain ⟨_, hstored, hdone⟩ := Flow.ordered_quiet (Flow.ordered_of_reached hfit hr) hquiet
  have heven := Flow.even_of_reached hfit hz hr
  have hunread : a.unread = [] := by
    refine hdone.resolve_right fun hw => ?_
    -- demand is never lost, so a pull waits
    have hleast := heven.least
    have hexact := heven.exact
    have hnone : Broker.held (inboxName 1) [] = 0 := rfl
    rw [Flow.total_of_quiet hquiet, hw, hnone] at hexact
    omega
  have hcalled : messagesOf a.taken = a.stored := by
    rw [hstored, hunread, List.append_nil]
  have hdem := demand_of_follows hf
  refine ⟨isActive_of_follows hf, ?_, ?_, ?_, ?_⟩
  · unfold called
    rw [hf.taken, hf.stored]
    exact hcalled
  · rw [hf.stored, ← hcalled]
    exact hf.solo.handled
  · rw [hdem]
    exact heven.least
  · rw [hdem]
    exact heven.most

/-- A handler that fails at messages without a payload. -/
def picky : Handler := ⟨fun m => if m.payload.size = 0 then some .wordless else none, fun _ => none⟩

/-- Of two messages that wait on the stream one is taken in and one makes the handler fail; a
third one is published later. -/
theorem complete_backlog :
    let before := [publishing 41, publishing 0] ++ List.replicate 3 (.turn .broker)
    let ms := settled [.clock 1, publishing 41]
    let w := (start .default true Defaults.queueCapacity before .default picky).after ms
    w.exchange.isQuiet = true ∧ w.stored.length = 3 ∧ Complete .default picky w := by
  have hq : ((start .default true Defaults.queueCapacity
      ([publishing 41, publishing 0] ++ List.replicate 3 (.turn .broker)) .default picky).after
      (settled [.clock 1, publishing 41])).exchange.isQuiet = true := by
    decide +kernel
  exact ⟨hq, by decide +kernel, complete_of_quiet ConsumeOptions.build_none ⟨by decide, by decide⟩
    rfl unlimited_default true Defaults.queueCapacity _ picky _ hq⟩

/-! ## With a byte budget -/

/-- Batches of ten messages and a hundred bytes, refilled by halves. -/
def halves : ConsumeOptions :=
  ⟨10, 100, Defaults.expires, Span.ofSecs 15, 50, Nat.succ_pos 9, Nat.succ_pos 49,
    Nat.le_add_right 50 50⟩

theorem build_halves : { ConsumeOptions.Settings.none with
    batchSize := some 10, batchBytes := some 100 }.build = .ok halves := rfl

theorem fits_halves : halves.Fits := ⟨by decide, by decide⟩

/-- Nothing is outstanding, no pull waits, and the next message is larger than a refill. -/
structure Stalled (o : ConsumeOptions) (w : World) : Prop where
  demand : w.demand = .none
  waiting : w.waiting = []
  blocked : ∃ m ms, w.unread = m :: ms ∧ refillBytes o < m.size

theorem stalled_iff_of_follows (hf : Follows o h w a l feed s) :
    w.Stalled o ↔ Flow.Stalled o a := by
  have hd := demand_of_follows hf
  have hw := waiting_of_follows hf
  have hu := unread_of_follows hf
  refine ⟨fun hs => ⟨hd ▸ hs.demand, hw ▸ hs.waiting, ?_⟩,
    fun hs => ⟨hd.trans hs.demand, hw.trans hs.waiting, ?_⟩⟩
  · have hb := hs.blocked
    rw [hu] at hb
    exact hb
  · rw [hu]
    exact hs.blocked

/-- Delivery is complete unless it has stalled, which no run of messages that fit a refill
brings about. -/
theorem called_iff_not_stalled (hb : st.build = .ok o) (hfit : o.Fits) (hu : limits.Unlimited)
    (keepsNotices : Bool) (queueCapacity : Nat) (before : List Move) (h : Handler)
    (ms : List Move)
    (hq : ((start limits keepsNotices queueCapacity before o h).after ms).exchange.isQuiet = true) :
    let w := (start limits keepsNotices queueCapacity before o h).after ms
    w.isActive = true ∧ (w.called = w.stored ↔ ¬w.Stalled o) ∧
      ((∀ m ∈ w.stored, m.size ≤ refillBytes o) → w.called = w.stored) := by
  obtain ⟨a, l, feed, s, hr, hf⟩ := follows_after hb hfit hu keepsNotices queueCapacity before h ms
  have hquiet := quiet_of_follows hf hq
  have hiff := Flow.taken_iff_not_stalled hfit hr hquiet
  rw [← stalled_iff_of_follows hf, ← hf.taken, ← hf.stored] at hiff
  refine ⟨isActive_of_follows hf, hiff, fun hsizes => hiff.2 fun hstalled => ?_⟩
  obtain ⟨m, rest, hunread, hlt⟩ := hstalled.blocked
  obtain ⟨_, hstored, _⟩ := Flow.ordered_quiet (Flow.ordered_of_reached hfit hr) hquiet
  have hmem : m ∈ ((start limits keepsNotices queueCapacity before o h).after ms).stored := by
    rw [hf.stored, hstored, ← unread_of_follows hf, hunread]
    exact List.mem_append_right _ List.mem_cons_self
  exact absurd (hsizes m hmem) (Nat.not_le_of_lt hlt)

/-- Two messages of sixty bytes each, the second one after the first was taken in. -/
def twoSixties : List Move := settled [publishing 41, publishing 41]

/-- Both messages fit the budget, and the second one is never taken in. -/
theorem twoSixties_not_called :
    let w := (start .default true Defaults.queueCapacity [] halves .plain).after twoSixties
    (∃ st : ConsumeOptions.Settings, st.build = .ok halves) ∧ 0 < halves.batchBytes ∧
      w.exchange.isQuiet = true ∧ w.isActive = true ∧
      (∀ m ∈ w.stored, m.size ≤ halves.batchBytes) ∧ w.called ≠ w.stored :=
  ⟨⟨_, build_halves⟩, by decide +kernel⟩

theorem twoSixties_stalled :
    let w := (start .default true Defaults.queueCapacity [] halves .plain).after twoSixties
    w.exchange.isQuiet = true ∧ w.Stalled halves := by
  have hq : ((start .default true Defaults.queueCapacity [] halves .plain).after
      twoSixties).exchange.isQuiet = true := by
    decide +kernel
  obtain ⟨_, hiff, _⟩ := called_iff_not_stalled build_halves fits_halves unlimited_default true
    Defaults.queueCapacity [] .plain twoSixties hq
  refine ⟨hq, Classical.byContradiction fun hn => ?_⟩
  exact absurd (hiff.2 hn) (by decide +kernel)

/-- The accounts never say more than the waiting pulls, and as much just when they have settled
in excess what they dropped. -/
theorem pending_eq_held_iff (hb : st.build = .ok o) (hfit : o.Fits) (hu : limits.Unlimited)
    (keepsNotices : Bool) (queueCapacity : Nat) (before : List Move) (h : Handler)
    (ms : List Move)
    (hq : ((start limits keepsNotices queueCapacity before o h).after ms).exchange.isQuiet = true) :
    let w := (start limits keepsNotices queueCapacity before o h).after ms
    let t := Tally.ofFrames (.ofOptions o) w.taken
    w.isActive = true ∧ w.demand.messages ≤ Broker.held (inboxName 1) w.waiting ∧
      (w.demand.messages = Broker.held (inboxName 1) w.waiting ↔ t.dropped = t.excess) := by
  obtain ⟨a, l, feed, s, hr, hf⟩ := follows_after hb hfit hu keepsNotices queueCapacity before h ms
  obtain ⟨hsum, hle⟩ := Flow.messages_eq_held_iff hfit hr (quiet_of_follows hf hq)
  rw [← demand_of_follows hf, ← waiting_of_follows hf, ← hf.taken] at hsum
  rw [← demand_of_follows hf, ← waiting_of_follows hf] at hle
  dsimp only
  exact ⟨isActive_of_follows hf, hle, by omega⟩

/-- One message that takes up the whole budget. -/
def wholeBudget : List Move := settled [publishing 81]

/-- Two pulls wait for ten and for five messages, and the accounts say six. -/
theorem wholeBudget_understates :
    let w := (start .default true Defaults.queueCapacity [] halves .plain).after wholeBudget
    (∃ st : ConsumeOptions.Settings, st.build = .ok halves) ∧ 0 < halves.batchBytes ∧
      w.exchange.isQuiet = true ∧ w.isActive = true ∧
      w.demand.messages = 6 ∧ Broker.held (inboxName 1) w.waiting = 15 :=
  ⟨⟨_, build_halves⟩, by decide +kernel⟩

theorem wholeBudget_drops :
    let w := (start .default true Defaults.queueCapacity [] halves .plain).after wholeBudget
    let t := Tally.ofFrames (.ofOptions halves) w.taken
    w.exchange.isQuiet = true ∧ t.dropped ≠ t.excess := by
  have hq : ((start .default true Defaults.queueCapacity [] halves .plain).after
      wholeBudget).exchange.isQuiet = true := by
    decide +kernel
  obtain ⟨_, _, hiff⟩ := pending_eq_held_iff build_halves fits_halves unlimited_default true
    Defaults.queueCapacity [] .plain wholeBudget hq
  exact ⟨hq, fun he => absurd (hiff.2 he) (by decide +kernel)⟩

end World

end DemandFlow
