import DemandFlow.Options
import DemandFlow.Frame.Disposition

/-
  Pulls at the broker, and the limits that decide which pulls it takes on. A pull waits with what
  is left of its batch and of its byte budget; every status that ends it carries both back.
-/

namespace DemandFlow.Broker

/-- What a broker grants. -/
structure Limits where
  maxWaiting : Option Nat
  maxBatch : Option Nat
  maxBytes : Option Nat
  maxExpires : Option Span
  heartbeats : Bool
  frameCapacity : Nat
deriving DecidableEq

/-- No limits, heartbeats on. -/
def Limits.default : Limits := ⟨none, none, none, none, true, Defaults.frameCapacity⟩

/-- A pull that waits for messages. -/
structure WaitingPull where
  inbox : String
  messages : Nat
  bytes : Option Nat
  /-- Whether a message was handed out for it. -/
  begun : Bool
  expiresAt : Option Nat
  heartbeat : Option Span
  beatsAt : Option Nat
deriving DecidableEq

namespace WaitingPull

def ofRequest (inbox : String) (r : PullRequest) (now : Nat) (heartbeats : Bool) : WaitingPull :=
  let heartbeat := if heartbeats then r.heartbeat else none
  { inbox := inbox
    messages := r.batch
    bytes := if 0 < r.maxBytes then some r.maxBytes else none
    begun := false
    expiresAt := r.expires.map fun d => now + d.nanos
    heartbeat := heartbeat
    beatsAt := heartbeat.map fun d => now + d.nanos }

/-- The earlier of two instants, where either may be missing. -/
def earlier (a b : Option Nat) : Option Nat :=
  match a, b with
  | some x, some y => some (min x y)
  | some x, none => some x
  | none, b => b

theorem earlier_none_right (a : Option Nat) : earlier a none = a := by
  cases a <;> rfl

theorem earlier_le_left {a b : Option Nat} {x d : Nat} (ha : a = some x)
    (h : earlier a b = some d) : d ≤ x := by
  subst ha
  cases b with
  | none => cases h; exact Nat.le_refl _
  | some y => cases h; exact Nat.min_le_left _ _

theorem earlier_le_right {a b : Option Nat} {y d : Nat} (hb : b = some y)
    (h : earlier a b = some d) : d ≤ y := by
  subst hb
  cases a with
  | none => cases h; exact Nat.le_refl _
  | some x => cases h; exact Nat.min_le_right _ _

/-- When the pull next needs attention. -/
def deadline (p : WaitingPull) : Option Nat := earlier p.expiresAt p.beatsAt

/-- A closing status with the counts that are left. -/
def closing (p : WaitingPull) (code : Nat) (text : String) : Status :=
  (Status.plain code text).withHeaders (Status.pendingHeaders p.messages (p.bytes.getD 0))

/-- Whether a message of that size passes what is left of the byte budget. -/
def refuses (p : WaitingPull) (size : Nat) : Bool :=
  match p.bytes with
  | some left => decide (left < size)
  | none => false

/-- The pull after a message of that size was handed out for it at `now`. -/
def charged (p : WaitingPull) (size now : Nat) : WaitingPull :=
  { p with
    messages := p.messages - 1
    begun := true
    bytes := p.bytes.map (· - size)
    beatsAt :=
      match p.heartbeat with
      | some d => some (now + d.nanos)
      | none => p.beatsAt }

def isFilled (p : WaitingPull) : Bool := p.messages == 0

def isSpent (p : WaitingPull) : Bool := p.bytes == some 0

theorem messages_charged (p : WaitingPull) (size now : Nat) :
    (p.charged size now).messages = p.messages - 1 := rfl

theorem bytes_charged (p : WaitingPull) (size now : Nat) :
    (p.charged size now).bytes = p.bytes.map (· - size) := rfl

theorem inbox_charged (p : WaitingPull) (size now : Nat) :
    (p.charged size now).inbox = p.inbox := rfl

end WaitingPull

/-! ## Refusals -/

/-- The status that refuses a request: it carries all of its counts back. -/
def refusal (r : PullRequest) (code : Nat) (text : String) : Status :=
  (Status.plain code text).withHeaders (Status.pendingHeaders r.batch r.maxBytes)

/-- Whether a limit, if there is one, is passed. -/
def passes (limit : Option Nat) (n : Nat) : Option Nat := limit.filter (· < n)

/-- Why a broker with these limits and so many waiting pulls does not take on a request. Faults
are looked for in the order no-wait with heartbeat, batch, bytes, expiry, waiting pulls. -/
def Limits.refusal? (l : Limits) (waiting : Nat) (r : PullRequest) : Option Status :=
  if r.noWait && r.heartbeat.isSome then
    some (refusal r Code.badRequest StatusText.badRequest)
  else if let some most := passes l.maxBatch r.batch then
    some (refusal r Code.conflict s!"{StatusText.exceededMaxBatch} of {most}")
  else if let some most := passes l.maxBytes r.maxBytes then
    some (refusal r Code.conflict s!"{StatusText.exceededMaxBytes} of {most}")
  else if let some most := passes (l.maxExpires.map Span.nanos) ((r.expires.map Span.nanos).getD 0)
  then
    some (refusal r Code.conflict (StatusText.exceededMaxExpires ++ " of " ++ Span.text ⟨most⟩))
  else if !r.noWait && (l.maxWaiting.filter (· ≤ waiting)).isSome then
    some (refusal r Code.conflict StatusText.exceededMaxWaiting)
  else none

theorem refusal?_default (n : Nat) (r : PullRequest) :
    Limits.default.refusal? n r =
      if r.noWait && r.heartbeat.isSome then
        some (refusal r Code.badRequest StatusText.badRequest)
      else none := by
  unfold Limits.refusal?
  split
  · rfl
  · simp [Limits.default, passes]

end DemandFlow.Broker
