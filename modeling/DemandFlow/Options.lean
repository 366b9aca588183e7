import DemandFlow.Pull.Request

/-
  Options of continuous consumption and of fetches. Settings that are not given take their
  defaults; the idle heartbeat is half of the expiry, but no longer than its maximum. Faults are
  reported in the order size, threshold, expiry, heartbeat.
-/

namespace DemandFlow

namespace Defaults

def batchSize : Nat := 500
def fetchMessages : Nat := 100
def expires : Span := Span.ofSecs 30
def threshold : Nat := 50
def queueCapacity : Nat := 256
def frameCapacity : Nat := 1024

end Defaults

namespace Timing

/-- The shortest expiry of a consumer's requests. -/
def leastExpires : Span := Span.ofSecs 1

/-- The longest idle heartbeat of a consumer's requests. -/
def mostHeartbeat : Span := Span.ofSecs 30

/-- The heartbeat as a percentage of the expiry, where none is given. -/
def heartbeatPercent : Nat := 50

/-- The heartbeat that goes with an expiry: the percentage is taken first and the hundredth of
it then, so that there is none when the product passes the longest span. -/
def derivedHeartbeat (expires : Span) : Option Span :=
  (expires.times? heartbeatPercent).map fun d => (d.part 100).shorter mostHeartbeat

def check (expires heartbeat : Span) : Except ConfigError Unit :=
  if expires.nanos < leastExpires.nanos then .error (.expiresTooShort leastExpires expires)
  else if mostHeartbeat.nanos < heartbeat.nanos then
    .error (.heartbeatTooLong mostHeartbeat heartbeat)
  else if (expires.part 2).nanos < heartbeat.nanos then
    .error (.heartbeatExceedsExpiry heartbeat expires)
  else .ok ()

/-- The expiry and heartbeat that settings lead to. -/
def resolve (expires heartbeat : Option Span) : Except Failure (Span × Span) :=
  let e := expires.getD Defaults.expires
  match heartbeat.or (derivedHeartbeat e) with
  | none => .error .overflow
  | some h =>
    match check e h with
    | .error c => .error (.ofConfig c)
    | .ok () => .ok (e, h)

theorem derivedHeartbeat_default :
    derivedHeartbeat Defaults.expires = some (Span.ofSecs 15) := by decide

theorem check_eq_ok_iff {e h : Span} :
    check e h = .ok () ↔
      leastExpires.nanos ≤ e.nanos ∧ h.nanos ≤ mostHeartbeat.nanos ∧
        h.nanos ≤ (e.part 2).nanos := by
  unfold check
  split
  · simp; omega
  · split
    · simp; omega
    · split
      · simp; omega
      · simp; omega

end Timing

/-- Options of continuous consumption. -/
structure ConsumeOptions where
  batchSize : Nat
  /-- Byte budget of a batch; zero means none. -/
  batchBytes : Nat
  expires : Span
  heartbeat : Span
  /-- Percentage of a batch that is consumed before a refill. -/
  threshold : Nat
  batchSize_pos : 0 < batchSize
  threshold_pos : 0 < threshold
  threshold_le : threshold ≤ 100

namespace ConsumeOptions

structure Settings where
  batchSize : Option Nat
  batchBytes : Option Nat
  expires : Option Span
  heartbeat : Option Span
  threshold : Option Nat

def Settings.none : Settings := ⟨.none, .none, .none, .none, .none⟩

def Settings.build (s : Settings) : Except Failure ConsumeOptions :=
  let size := s.batchSize.getD Defaults.batchSize
  let percent := s.threshold.getD Defaults.threshold
  if hs : 0 < size then
    if ht : 0 < percent ∧ percent ≤ 100 then
      match Timing.resolve s.expires s.heartbeat with
      | .error f => .error f
      | .ok (expires, heartbeat) =>
        .ok ⟨size, s.batchBytes.getD 0, expires, heartbeat, percent, hs, ht.1, ht.2⟩
    else .error (.ofConfig (.invalidThreshold percent))
  else .error (.ofConfig (.invalidBatchSize size))

/-- The options of empty settings. -/
def default : ConsumeOptions :=
  ⟨Defaults.batchSize, 0, Defaults.expires, Span.ofSecs 15, Defaults.threshold, by decide,
    by decide, by decide⟩

theorem build_none : Settings.none.build = .ok default := by rfl

end ConsumeOptions

/-- Options of a fetch. -/
structure FetchOptions where
  maxMessages : Nat
  /-- Byte budget of the fetch; zero means none. -/
  maxBytes : Nat
  expires : Span
  heartbeat : Span
  maxMessages_pos : 0 < maxMessages

namespace FetchOptions

structure Settings where
  maxMessages : Option Nat
  maxBytes : Option Nat
  expires : Option Span
  heartbeat : Option Span

def Settings.none : Settings := ⟨.none, .none, .none, .none⟩

/-- Settings that limit the messages only. -/
def Settings.ofMessages (n : Nat) : Settings := { Settings.none with maxMessages := some n }

/-- Settings that limit both bytes and messages. -/
def Settings.ofBytes (bytes n : Nat) : Settings :=
  { Settings.none with maxMessages := some n, maxBytes := some bytes }

def Settings.build (s : Settings) : Except Failure FetchOptions :=
  let most := s.maxMessages.getD Defaults.fetchMessages
  if h : 0 < most then
    match Timing.resolve s.expires s.heartbeat with
    | .error f => .error f
    | .ok (expires, heartbeat) => .ok ⟨most, s.maxBytes.getD 0, expires, heartbeat, h⟩
  else .error (.ofConfig (.invalidBatchSize most))

end FetchOptions

/-! ## Requests -/

/-- The request for `batch` messages and `bytes` bytes with given timing. -/
def PullRequest.timed (batch bytes : Nat) (expires heartbeat : Span) (h : 0 < batch) :
    PullRequest :=
  ⟨batch, bytes, PullRequest.nonzero? (some expires), PullRequest.nonzero? (some heartbeat),
    false, h, PullRequest.nonzero?_ne_zero _, PullRequest.nonzero?_ne_zero _⟩

/-- The full request with which consumption starts. -/
def ConsumeOptions.initial (o : ConsumeOptions) : PullRequest :=
  .timed o.batchSize o.batchBytes o.expires o.heartbeat o.batchSize_pos

/-- The one request of a fetch. -/
def FetchOptions.request (o : FetchOptions) : PullRequest :=
  .timed o.maxMessages o.maxBytes o.expires o.heartbeat o.maxMessages_pos

theorem PullRequest.timed_eq_build (batch bytes : Nat) (e h : Span) (hb : 0 < batch) :
    (PullRequest.Draft.mk batch bytes (some e) (some h) false).build =
      .ok (.timed batch bytes e h hb) := by
  simp [PullRequest.Draft.build, PullRequest.timed, hb]

end DemandFlow
