import DemandFlow.Span

/-
  Instants: nanoseconds since the clock started. Sleepers wake on whole milliseconds, never
  before their instant and less than a millisecond after it. The clock keeps seconds in a signed
  64-bit word, so there are instants that it cannot name; a wait that would end at one of them
  lasts thirty years instead.
-/

namespace DemandFlow

/-- The first instant that the clock cannot name. -/
def clockEnd : Nat := (Count.top / 2 + 1) * Span.nanosPerSecond

/-- Nanoseconds rounded up to whole milliseconds, at which sleepers wake. -/
def wholeMillis (i : Nat) : Nat :=
  (i + (Span.nanosPerMilli - 1)) / Span.nanosPerMilli * Span.nanosPerMilli

theorem le_wholeMillis (i : Nat) : i ≤ wholeMillis i := by
  unfold wholeMillis Span.nanosPerMilli; omega

theorem wholeMillis_lt (i : Nat) : wholeMillis i < i + Span.nanosPerMilli := by
  unfold wholeMillis Span.nanosPerMilli; omega

/-- A whole millisecond is not before an instant exactly if it is not before this one. -/
theorem wholeMillis_le_mul {i n : Nat} :
    wholeMillis i ≤ n * Span.nanosPerMilli ↔ i ≤ n * Span.nanosPerMilli := by
  unfold wholeMillis Span.nanosPerMilli; omega

/-! ## Waiting -/

/-- Thirty years of 365 days. -/
def longWait : Span := .ofSecs (30 * 365 * 86400)

/-- How long a wait lasts that begins at `now`. -/
def waitSpan (now : Nat) (d : Span) : Span := if now + d.nanos < clockEnd then d else longWait

/-- When it is over. -/
def waitEnd (now : Nat) (d : Span) : Nat := now + (waitSpan now d).nanos

end DemandFlow
