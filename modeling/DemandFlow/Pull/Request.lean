import DemandFlow.Failure

/-
  Pull requests: demand for up to `batch` messages and, where `maxBytes` is not zero, for up to
  that many bytes. A `Draft` collects the settings; `Draft.build` refuses an empty batch and
  drops spans of zero, so that a request never expires at once and never beats without pause.
-/

namespace DemandFlow

/-- A request for messages. -/
structure PullRequest where
  batch : Nat
  /-- Byte budget; zero means none. -/
  maxBytes : Nat
  expires : Option Span
  heartbeat : Option Span
  noWait : Bool
  batch_pos : 0 < batch
  expires_ne_zero : expires ≠ some Span.zero
  heartbeat_ne_zero : heartbeat ≠ some Span.zero
deriving DecidableEq

namespace PullRequest

/-- Settings of a request that is still to be checked. -/
structure Draft where
  batch : Nat
  maxBytes : Nat
  expires : Option Span
  heartbeat : Option Span
  noWait : Bool
deriving DecidableEq

/-- The span, unless it is zero. -/
def nonzero? (d : Option Span) : Option Span := if d = some Span.zero then none else d

theorem nonzero?_ne_zero (d : Option Span) : nonzero? d ≠ some Span.zero := by
  unfold nonzero?
  split
  · simp
  · assumption

theorem none_ne_zero : (none : Option Span) ≠ some Span.zero := nofun

theorem nonzero?_of_ne {d : Option Span} (h : d ≠ some Span.zero) : nonzero? d = d := by
  simp [nonzero?, h]

namespace Draft

/-- A request for `n` messages with no other limit. -/
def ofBatch (n : Nat) : Draft := ⟨n, 0, none, none, false⟩

def build (d : Draft) : Except ConfigError PullRequest :=
  if h : 0 < d.batch then
    .ok ⟨d.batch, d.maxBytes, nonzero? d.expires, nonzero? d.heartbeat, d.noWait, h,
      nonzero?_ne_zero _, nonzero?_ne_zero _⟩
  else .error (.invalidBatchSize d.batch)

end Draft

/-- A request for `n` messages that waits for them. -/
def ofBatch (n : Nat) : Except ConfigError PullRequest := (Draft.ofBatch n).build

/-- A request for the messages that are there now, at most `n`. -/
def ofNoWait (n : Nat) : Except ConfigError PullRequest :=
  { Draft.ofBatch n with noWait := true }.build

def draft (r : PullRequest) : Draft := ⟨r.batch, r.maxBytes, r.expires, r.heartbeat, r.noWait⟩

theorem build_draft (r : PullRequest) : r.draft.build = .ok r := by
  cases r with
  | mk b m e h n hb he hh => simp [draft, Draft.build, hb, nonzero?_of_ne he, nonzero?_of_ne hh]

theorem build_eq_error_iff {d : Draft} {e : ConfigError} :
    d.build = .error e ↔ d.batch = 0 ∧ e = .invalidBatchSize 0 := by
  unfold Draft.build
  split
  · simp; omega
  · next h =>
    have h0 : d.batch = 0 := by omega
    simp [h0, eq_comm]

/-! ## The request on the wire -/

/-- A span whose nanoseconds are held at the largest word. -/
def wireSpan (d : Span) : Span := ⟨d.wireNanos⟩

theorem wireSpan_ne_zero {d : Option Span} (h : d ≠ some Span.zero) :
    d.map wireSpan ≠ some Span.zero := by
  cases d with
  | none => simp
  | some s =>
    cases s with
    | mk n =>
      have hn : n ≠ 0 := fun e => h (by subst e; rfl)
      simp only [Option.map_some, wireSpan, Span.wireNanos, Span.zero, ne_eq, Option.some.injEq,
        Span.mk.injEq, Count.top]
      omega

/-- The request that a reader of its body sees: spans are sent as nanoseconds in one word, so
longer ones arrive as the largest word. -/
def onWire (r : PullRequest) : PullRequest where
  batch := r.batch
  maxBytes := r.maxBytes
  expires := r.expires.map wireSpan
  heartbeat := r.heartbeat.map wireSpan
  noWait := r.noWait
  batch_pos := r.batch_pos
  expires_ne_zero := wireSpan_ne_zero r.expires_ne_zero
  heartbeat_ne_zero := wireSpan_ne_zero r.heartbeat_ne_zero

end PullRequest

end DemandFlow
