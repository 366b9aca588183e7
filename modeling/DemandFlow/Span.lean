import DemandFlow.Count

/-
  Lengths of time, kept in whole nanoseconds. `Span.top` is the longest span that seconds in a
  64-bit word plus a fraction below one second can express; `times?` gives nothing when a
  product would pass it. `Span.text` is the short form used in messages: the largest unit that
  has a whole part, with the zeros at the end of its fraction left out.
-/

namespace DemandFlow

/-- A length of time. -/
structure Span where
  nanos : Nat
deriving DecidableEq, Inhabited

namespace Span

def nanosPerSecond : Nat := 1000000000

def nanosPerMilli : Nat := 1000000

/-- The longest span: 2^64 - 1 seconds and 999999999 nanoseconds. -/
def top : Nat := (Count.top + 1) * nanosPerSecond - 1

def zero : Span := ⟨0⟩

def ofSecs (s : Nat) : Span := ⟨s * nanosPerSecond⟩

def ofMillis (ms : Nat) : Span := ⟨ms * nanosPerMilli⟩

/-- The span of `s` seconds and `n` nanoseconds. -/
def ofParts (s n : Nat) : Span := ⟨s * nanosPerSecond + n⟩

/-- Whole seconds, and the nanoseconds above them. -/
def parts (d : Span) : Nat × Nat := (d.nanos / nanosPerSecond, d.nanos % nanosPerSecond)

def isZero (d : Span) : Bool := d.nanos == 0

/-- The span `k` times as long, or nothing when that passes `top`. -/
def times? (d : Span) (k : Nat) : Option Span :=
  if d.nanos * k ≤ top then some ⟨d.nanos * k⟩ else none

/-- One part of `k` equal ones, rounded down to whole nanoseconds. -/
def part (d : Span) (k : Nat) : Span := ⟨d.nanos / k⟩

def shorter (a b : Span) : Span := if a.nanos ≤ b.nanos then a else b

/-- The nanoseconds as one 64-bit word, held at the largest. -/
def wireNanos (d : Span) : Nat := min d.nanos Count.top

theorem ofParts_parts (d : Span) : ofParts d.parts.1 d.parts.2 = d := by
  cases d with
  | mk n =>
    simp only [ofParts, parts, mk.injEq]
    exact Nat.div_add_mod' n nanosPerSecond

theorem times?_eq_some {d e : Span} {k : Nat} :
    d.times? k = some e ↔ d.nanos * k ≤ top ∧ e.nanos = d.nanos * k := by
  unfold times?
  split
  · next h =>
    cases e
    simp only [Option.some.injEq, Span.mk.injEq]
    exact ⟨fun e => ⟨h, e.symm⟩, fun e => e.2.symm⟩
  · next h => simp [h]

theorem wireNanos_le (d : Span) : d.wireNanos ≤ Count.top := Nat.min_le_right _ _

/-! ## Text -/

/-- The digits of `n`, in at least `width` places. -/
def padded (width n : Nat) : List Char :=
  let ds := Nat.toDigits 10 n
  List.replicate (width - ds.length) '0' ++ ds

/-- A decimal fraction of `width` places without its last zeros, or nothing at all. -/
def fraction (width n : Nat) : String :=
  let ds := ((padded width n).reverse.dropWhile (· == '0')).reverse
  if ds.isEmpty then "" else String.ofList ('.' :: ds)

/-- The form used in messages: `0ns`, `1.5µs`, `10ms`, `1.000000001s`. -/
def text (d : Span) : String :=
  let n := d.nanos
  if n ≥ nanosPerSecond then
    toString (n / nanosPerSecond) ++ fraction 9 (n % nanosPerSecond) ++ "s"
  else if n ≥ nanosPerMilli then
    toString (n / nanosPerMilli) ++ fraction 6 (n % nanosPerMilli) ++ "ms"
  else if n ≥ 1000 then
    toString (n / 1000) ++ fraction 3 (n % 1000) ++ "µs"
  else toString n ++ "ns"

end Span

end DemandFlow
