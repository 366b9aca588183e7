import DemandFlow.Intake
import DemandFlow.Tracker
import DemandFlow.Proofs.Frame.PendingCounts

/-
  What the accounts of a subscription do with their counts. A request adds its batch, held at
  the largest word; a frame settles messages and bytes, and closes the window when either runs
  out. `messages_add` and `messages_subtract` say exactly where the counter departs from plain
  addition and subtraction: at the top of the word, when the bytes run out before the messages,
  and when more is settled than was outstanding.
-/

namespace DemandFlow

/-- The counts of a request fit a word. -/
structure PullRequest.Fits (r : PullRequest) : Prop where
  batch : r.batch ≤ Count.top
  maxBytes : r.maxBytes ≤ Count.top

namespace PullRequest

theorem map_wireSpan_eq_iff {o : Option Span} :
    o.map wireSpan = o ↔ ∀ d, o = some d → d.nanos ≤ Count.top := by
  cases o with
  | none => exact iff_of_true rfl fun _ hd => nomatch hd
  | some d =>
    have hspan : wireSpan d = d ↔ d.nanos ≤ Count.top := by
      cases d with
      | mk n =>
        show (⟨min n Count.top⟩ : Span) = ⟨n⟩ ↔ n ≤ Count.top
        rw [Span.mk.injEq]
        omega
    rw [Option.map_some, Option.some.injEq, hspan]
    exact ⟨fun h _ hd => Option.some.inj hd ▸ h, fun h => h d rfl⟩

/-- A request goes out as it is exactly if its spans fit a word. -/
theorem onWire_eq_iff {r : PullRequest} : r.onWire = r ↔
    (∀ d, r.expires = some d → d.nanos ≤ Count.top) ∧
      ∀ d, r.heartbeat = some d → d.nanos ≤ Count.top := by
  rw [← map_wireSpan_eq_iff, ← map_wireSpan_eq_iff]
  cases r with
  | mk batch maxBytes expires heartbeat noWait =>
    unfold onWire
    simp only [mk.injEq, true_and, and_true]

theorem eq_of_nonzero? {d e : Span} (h : nonzero? (some d) = some e) : e = d := by
  unfold nonzero? at h
  split at h
  · cases h
  · exact (Option.some.inj h).symm

end PullRequest

namespace Frame

/-- The messages that a frame stands for: one for a message, and for a status the count in its
header, if it has one. -/
def weight : Frame → Nat
  | .message _ => 1
  | .status s => (s.headers.bind fun h => Status.countHeader h pendingMessagesKey).getD 0

/-- The messages and bytes that the accounts settle when they take in a frame. -/
def settles : Frame → Option (Nat × Nat)
  | .message m => some (1, m.size)
  | .status s => if s.isHeartbeat then none else s.pendingCounts

/-- The accounts settle as many messages as the frame stands for. -/
def Honest (f : Frame) : Prop := (f.settles.map Prod.fst).getD 0 = f.weight

theorem honest_message (m : Message) : Honest (.message m) := rfl

theorem weight_plain (code : Nat) (text : String) : weight (.status (.plain code text)) = 0 := rfl

theorem honest_plain (code : Nat) (text : String) : Honest (.status (.plain code text)) := by
  unfold Honest settles
  dsimp only
  split
  · rfl
  · rw [Status.pendingCounts_plain]; rfl

theorem weight_withHeaders (s : Status) {m : Nat} (b : Nat) (hm : m ≤ Count.top) :
    weight (.status (s.withHeaders (Status.pendingHeaders m b))) = m := by
  unfold weight Status.withHeaders
  dsimp only
  rw [Option.bind_some, Status.countHeader_pendingHeaders_messages b hm]
  rfl

theorem settles_withHeaders {s : Status} {m b : Nat} (hs : s.code ≠ Code.heartbeat)
    (hm : m ≤ Count.top) (hb : b ≤ Count.top) :
    settles (.status (s.withHeaders (Status.pendingHeaders m b))) = some (m, b) := by
  have hh : (s.withHeaders (Status.pendingHeaders m b)).isHeartbeat = false :=
    beq_eq_false_iff_ne.2 hs
  unfold settles
  dsimp only
  rw [hh, Status.pendingCounts_withHeaders hm hb]
  rfl

theorem honest_withHeaders {s : Status} {m b : Nat} (hs : s.code ≠ Code.heartbeat)
    (hm : m ≤ Count.top) (hb : b ≤ Count.top) :
    Honest (.status (s.withHeaders (Status.pendingHeaders m b))) := by
  unfold Honest
  rw [settles_withHeaders hs hm hb, weight_withHeaders s b hm]
  rfl

end Frame

namespace Demand

/-- The demand after a frame was taken in. -/
def take (d : Demand) (f : Frame) : Demand :=
  match f.settles with
  | .none => d
  | .some (messages, bytes) => d.subtract messages bytes

theorem demand_account (now : Nat) (f : Frame) (t : Tracker) :
    (t.account now f).demand = t.demand.take f := by
  cases f with
  | message m => rfl
  | status s =>
    unfold take Frame.settles Tracker.account
    dsimp only
    cases s.isHeartbeat with
    | true => rfl
    | false =>
      simp only [Bool.false_eq_true, if_false, Tracker.reconcile]
      cases s.pendingCounts with
      | none => rfl
      | some p => rfl

/-! ## Where the counter is not plain arithmetic -/

/-- The part of a batch that does not fit the counter. -/
def capped (d : Demand) (r : PullRequest) : Nat := d.messages + r.batch - Count.top

/-- The messages that are dropped because the bytes run out before them. -/
def lapsed (d : Demand) (messages bytes : Nat) : Nat :=
  if d.tracking ∧ d.bytes ≤ bytes then d.messages - messages else 0

/-- The messages that are settled though they were not outstanding. -/
def excess (d : Demand) (messages : Nat) : Nat := messages - d.messages

theorem messages_add (d : Demand) (r : PullRequest) :
    (d.add r).messages + d.capped r = d.messages + r.batch := by
  unfold add capped Count.add
  dsimp only
  omega

theorem messages_add_le (d : Demand) (r : PullRequest) :
    (d.add r).messages ≤ d.messages + r.batch := Nat.min_le_left _ _

theorem messages_closeIf (closed : Bool) (d : Demand) :
    (closeIf closed d).messages = if closed then 0 else d.messages := by
  cases closed <;> rfl

theorem messages_subtract_untracked {d : Demand} (h : d.tracking = false) (m b : Nat) :
    (d.subtract m b).messages = d.messages - m := by
  unfold subtract
  rw [h]
  simp only [Bool.false_eq_true, if_false, messages_closeIf, beq_iff_eq]
  split
  · omega
  · rfl

theorem messages_subtract_tracked {d : Demand} (h : d.tracking = true) (m b : Nat) :
    (d.subtract m b).messages = if d.bytes ≤ b then 0 else d.messages - m := by
  unfold subtract
  rw [h]
  simp only [if_true, messages_closeIf, Bool.or_eq_true, beq_iff_eq]
  split
  · split
    · rfl
    · omega
  · split
    · omega
    · rfl

theorem messages_subtract (d : Demand) (m b : Nat) :
    (d.subtract m b).messages + m + d.lapsed m b = d.messages + d.excess m := by
  unfold lapsed excess
  cases ht : d.tracking with
  | false =>
    rw [messages_subtract_untracked ht]
    simp only [Bool.false_eq_true, false_and, if_false]
    omega
  | true =>
    rw [messages_subtract_tracked ht]
    simp only [true_and]
    split <;> omega

/-- The messages that are dropped when a frame makes the bytes run out before them. -/
def lapsedBy (d : Demand) (f : Frame) : Nat := f.settles.elim 0 fun p => d.lapsed p.1 p.2

/-- The messages that a frame settles though they were not outstanding. -/
def excessBy (d : Demand) (f : Frame) : Nat := f.settles.elim 0 fun p => d.excess p.1

theorem messages_take {d : Demand} {f : Frame} (h : f.Honest) :
    (d.take f).messages + f.weight + d.lapsedBy f = d.messages + d.excessBy f := by
  unfold Frame.Honest at h
  unfold take lapsedBy excessBy
  cases hs : f.settles with
  | none =>
    rw [hs] at h
    have h0 : 0 = f.weight := h
    rw [← h0]
    rfl
  | some p =>
    rw [hs] at h
    have hp : p.1 = f.weight := h
    rw [← hp]
    exact messages_subtract d p.1 p.2

theorem messages_subtract_le (d : Demand) (m b : Nat) :
    (d.subtract m b).messages ≤ d.messages - m := by
  cases ht : d.tracking with
  | false => exact Nat.le_of_eq (messages_subtract_untracked ht m b)
  | true =>
    rw [messages_subtract_tracked ht]
    split <;> omega

theorem messages_take_le {d : Demand} {f : Frame} (h : f.Honest) :
    (d.take f).messages ≤ d.messages - f.weight := by
  unfold Frame.Honest at h
  unfold take
  cases hs : f.settles with
  | none =>
    rw [hs] at h
    have h0 : 0 = f.weight := h
    rw [← h0]
    exact Nat.le_refl _
  | some p =>
    rw [hs] at h
    have hp : p.1 = f.weight := h
    rw [← hp]
    exact messages_subtract_le d p.1 p.2

/-! ## Demand without a byte budget -/

/-- Nothing is known of bytes. -/
def IsUntracked (d : Demand) : Prop := d.bytes = 0 ∧ d.tracking = false

theorem isUntracked_none : none.IsUntracked := ⟨rfl, rfl⟩

theorem isUntracked_add {d : Demand} {r : PullRequest} (h : d.IsUntracked)
    (hr : r.maxBytes = 0) : (d.add r).IsUntracked := by
  unfold IsUntracked add
  dsimp only
  rw [h.1, hr]
  exact ⟨rfl, rfl⟩

theorem isUntracked_subtract {d : Demand} (h : d.IsUntracked) (m b : Nat) :
    (d.subtract m b).IsUntracked := by
  unfold subtract
  rw [h.2]
  simp only [Bool.false_eq_true, if_false]
  unfold closeIf
  split
  · exact isUntracked_none
  · exact ⟨h.1, rfl⟩

theorem isUntracked_take {d : Demand} (h : d.IsUntracked) (f : Frame) :
    (d.take f).IsUntracked := by
  unfold take
  cases f.settles with
  | none => exact h
  | some p => exact isUntracked_subtract h p.1 p.2

/-- Without a byte budget a frame takes off exactly what it stands for. -/
theorem messages_take_untracked {d : Demand} {f : Frame} (h : d.IsUntracked) (hf : f.Honest) :
    (d.take f).messages = d.messages - f.weight := by
  unfold Frame.Honest at hf
  unfold take
  cases hs : f.settles with
  | none =>
    rw [hs] at hf
    have h0 : 0 = f.weight := hf
    rw [← h0]
    rfl
  | some p =>
    rw [hs] at hf
    have hp : p.1 = f.weight := hf
    rw [← hp]
    exact messages_subtract_untracked h.2 p.1 p.2

/-! ## Closed windows -/

/-- What a request adds is outstanding. -/
theorem isExhausted_add (d : Demand) (r : PullRequest) : (d.add r).isExhausted = false := by
  have hpos := r.batch_pos
  have hne : (d.add r).messages ≠ 0 := by
    unfold add Count.add Count.top
    dsimp only
    omega
  unfold isExhausted
  rw [beq_false_of_ne hne]
  rfl

/-- Where no messages are outstanding, nothing is. -/
def IsWhole (d : Demand) : Prop := d.messages = 0 → d = none

theorem isWhole_add {d : Demand} {r : PullRequest} : (d.add r).IsWhole := by
  intro h
  have hb := r.batch_pos
  unfold add Count.add Count.top at h
  dsimp only at h
  omega

theorem isWhole_subtract (d : Demand) (m b : Nat) : (d.subtract m b).IsWhole := fun h =>
  subtract_isClosed (by rw [isClosed, h]; rfl)

theorem isWhole_take {d : Demand} (h : d.IsWhole) (f : Frame) : (d.take f).IsWhole := by
  unfold take
  cases f.settles with
  | none => exact h
  | some p => exact isWhole_subtract d p.1 p.2

end Demand

end DemandFlow
