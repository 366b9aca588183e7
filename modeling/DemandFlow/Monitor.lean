import DemandFlow.Clock

/-
  Liveness of one feed. Every frame refreshes the instant at which the feed was last seen. While
  the monitor is armed and a period is set, one alarm is raised for each episode of silence that
  lasts for a period; the next frame opens a new episode. `look` is what the alarm task does when
  it looks at the monitor: stop, wait to be stirred, sleep until a deadline, or raise an alarm.
  It works out the deadline each time, and breaks down if the clock cannot name it.
-/

namespace DemandFlow

/-- State of a heartbeat monitor; `stirred` is set while there is news that the alarm task has
not looked at. -/
structure Monitor where
  lastSeen : Nat
  period : Option Span
  armed : Bool
  alarmed : Bool
  closed : Bool
  stirred : Bool
deriving DecidableEq

namespace Monitor

/-- An alarm is due after this many heartbeats without a frame. -/
def multiplier : Nat := 3

/-- A monitor that starts to watch at `now`. -/
def start (now : Nat) : Monitor := ⟨now, none, false, false, false, false⟩

/-- A frame came in. -/
def record (now : Nat) (m : Monitor) : Monitor :=
  { m with lastSeen := now, alarmed := false, stirred := true }

/-- The alarm period that goes with a heartbeat, or nothing when it passes the longest span. -/
def periodFor? : Option Span → Option (Option Span)
  | none => some none
  | some heartbeat => (heartbeat.times? multiplier).map some

/-- Set the alarm period; the alarm task hears nothing of it. -/
def configure (heartbeat : Option Span) (m : Monitor) : Option Monitor :=
  (periodFor? heartbeat).map fun p => { m with period := p }

/-- Begin an episode; without a period, or after the end, nothing happens. -/
def arm (now : Nat) (m : Monitor) : Monitor :=
  if m.period.isNone || m.closed then m
  else { m with armed := true, alarmed := false, lastSeen := now, stirred := true }

def disarm (m : Monitor) : Monitor := { m with armed := false, stirred := true }

/-- Disarm for good. -/
def shutdown (m : Monitor) : Monitor :=
  { m with armed := false, closed := true, stirred := true }

/-- When the alarm of the running episode is due, which may lie past the end of the clock. Only
`look` works it out. -/
def deadline (m : Monitor) : Option Nat :=
  if m.armed && !m.alarmed then m.period.map fun p => m.lastSeen + p.nanos else none

/-! ## The alarm task -/

/-- What the alarm task does next. -/
inductive Watch where
  | stop
  | wait
  | sleep (due : Nat)
  | alarm (silentFor : Span)
  | breakDown
deriving DecidableEq

def look (now : Nat) (m : Monitor) : Watch :=
  if m.closed then .stop
  else
    match m.deadline with
    | none => .wait
    | some due =>
      if clockEnd ≤ due then .breakDown
      else if now < due then .sleep due
      else .alarm ⟨now - m.lastSeen⟩

/-- The monitor once the alarm task has looked at it. -/
def seen (now : Nat) (m : Monitor) : Monitor :=
  match look now m with
  | .alarm _ => { m with alarmed := true, stirred := false }
  | _ => { m with stirred := false }

theorem deadline_eq_some_iff {m : Monitor} {due : Nat} :
    m.deadline = some due ↔
      m.armed = true ∧ m.alarmed = false ∧
        ∃ p, m.period = some p ∧ m.lastSeen + p.nanos = due := by
  unfold deadline
  cases m.armed <;> cases m.alarmed <;> cases m.period <;> simp

theorem deadline_of_alarmed {m : Monitor} (h : m.alarmed = true) : m.deadline = none := by
  simp [deadline, h]

/-- An alarm is raised only while the monitor is open and armed, and only for a silence of at
least the period. -/
theorem look_eq_alarm {now : Nat} {m : Monitor} {d : Span} (h : look now m = .alarm d) :
    m.closed = false ∧ m.armed = true ∧ d = ⟨now - m.lastSeen⟩ ∧
      ∃ p, m.period = some p ∧ m.lastSeen + p.nanos ≤ now := by
  unfold look at h
  split at h
  · cases h
  · rename_i hc
    split at h
    · cases h
    · rename_i due hd
      split at h
      · cases h
      split at h
      · cases h
      · rename_i hn
        obtain ⟨ha, _, p, hp, rfl⟩ := deadline_eq_some_iff.1 hd
        cases h
        exact ⟨by simpa using hc, ha, rfl, p, hp, by omega⟩

end Monitor

end DemandFlow
