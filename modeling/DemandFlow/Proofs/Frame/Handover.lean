import DemandFlow.Broker.Waiting
import DemandFlow.Proofs.Frame.PendingCounts

/-
  Counts handed over from the broker to the accounts. The broker writes what a pull left
  unfulfilled into two headers, and the accounts read it back. `Status.Carries` says which counts a
  status carries without saying how they are read: both keys are there, and the first value of each
  spells a count that fits a word, with blanks around it at most. `pendingCounts_exact` says that
  these are the counts that are read, that nothing else is, and that whatever the broker closes or
  refuses a pull with carries the counts of that pull.
-/

namespace DemandFlow

/-! ## Headers that hold a count -/

namespace Headers

variable {h : Headers} {key v : String} {n : Nat}

/-- `v` is the value of the first entry with `key`. -/
def HasFirst (h : Headers) (key v : String) : Prop :=
  ∃ before after, h.entries = before ++ (key, v) :: after ∧ ∀ e ∈ before, e.1 ≠ key

theorem get?_eq_some_iff : h.get? key = some v ↔ h.HasFirst key v := by
  unfold get? HasFirst
  rw [Option.map_eq_some_iff]
  constructor
  · rintro ⟨⟨k, w⟩, hfind, rfl⟩
    obtain ⟨hk, before, after, hentries, hbefore⟩ := List.find?_eq_some_iff_append.1 hfind
    obtain rfl : k = key := eq_of_beq hk
    exact ⟨before, after, hentries, fun e he => by simpa using hbefore e he⟩
  · rintro ⟨before, after, hentries, hbefore⟩
    refine ⟨(key, v), List.find?_eq_some_iff_append.2 ⟨BEq.rfl, before, after, hentries, ?_⟩, rfl⟩
    exact fun e he => by simpa using hbefore e he

/-- The first value of `key`, without the blanks around it, spells the count `n`, which fits a
word. -/
def Holds (h : Headers) (key : String) (n : Nat) : Prop :=
  ∃ v core, h.HasFirst key v ∧ Text.Trims v.toList core ∧ Text.Spells core n ∧ n < 2 ^ 64

theorem countHeader_eq_some_iff : Status.countHeader h key = some n ↔ h.Holds key n := by
  unfold Status.countHeader Holds
  rw [Option.bind_eq_some_iff]
  constructor
  · rintro ⟨v, hv, hcount⟩
    exact ⟨v, _, get?_eq_some_iff.1 hv, Text.trims_trim _, Text.count?_eq_some_iff.1 hcount⟩
  · rintro ⟨v, core, hv, htrim, hspell⟩
    refine ⟨v, get?_eq_some_iff.2 hv, ?_⟩
    rw [Text.trim_eq_iff.2 htrim]
    exact Text.count?_eq_some_iff.2 hspell

end Headers

/-! ## Statuses that carry counts back -/

namespace Status

open Broker (WaitingPull refusal)

variable {s : Status} {m b : Nat}

/-- A status with headers that hold both counts. -/
def Carries (s : Status) (m b : Nat) : Prop :=
  ∃ h, s.headers = some h ∧ h.Holds pendingMessagesKey m ∧ h.Holds pendingBytesKey b

theorem pendingCounts_eq_some_iff : s.pendingCounts = some (m, b) ↔ s.Carries m b := by
  unfold pendingCounts Carries
  cases s.headers with
  | none => exact iff_of_false nofun fun ⟨_, h, _⟩ => nomatch h
  | some h =>
    simp only [Option.some.injEq, exists_eq_left', ← Headers.countHeader_eq_some_iff]
    cases countHeader h pendingMessagesKey with
    | none => exact iff_of_false nofun fun hc => nomatch hc.1
    | some messages =>
      cases countHeader h pendingBytesKey with
      | none => exact iff_of_false nofun fun hc => nomatch hc.2
      | some bytes => simp only [Option.some.injEq, Prod.mk.injEq]

theorem pendingCounts_eq_none_iff : s.pendingCounts = none ↔ ∀ m b, ¬s.Carries m b := by
  rw [Option.eq_none_iff_forall_ne_some]
  exact ⟨fun h m b hc => h (m, b) (pendingCounts_eq_some_iff.2 hc),
    fun h p hp => h p.1 p.2 (pendingCounts_eq_some_iff.1 hp)⟩

/-- A status gives back the counts that it carries and none if it carries none; and what the
broker closes or refuses a pull with gives back the counts of that pull. -/
theorem pendingCounts_exact :
    (∀ (s : Status) (m b : Nat), s.pendingCounts = some (m, b) ↔ s.Carries m b) ∧
    (∀ s : Status, s.pendingCounts = none ↔ ∀ m b, ¬s.Carries m b) ∧
    (∀ (p : WaitingPull) (code : Nat) (text : String),
      p.messages < 2 ^ 64 → p.bytes.getD 0 < 2 ^ 64 →
        (p.closing code text).pendingCounts = some (p.messages, p.bytes.getD 0)) ∧
    ∀ (r : PullRequest) (code : Nat) (text : String),
      r.batch < 2 ^ 64 → r.maxBytes < 2 ^ 64 →
        (refusal r code text).pendingCounts = some (r.batch, r.maxBytes) := by
  refine ⟨fun s m b => pendingCounts_eq_some_iff, fun s => pendingCounts_eq_none_iff, ?_, ?_⟩
  · intro p code text hm hb
    exact pendingCounts_withHeaders (Nat.le_of_lt_succ hm) (Nat.le_of_lt_succ hb)
  · intro r code text hm hb
    exact pendingCounts_withHeaders (Nat.le_of_lt_succ hm) (Nat.le_of_lt_succ hb)

/-- A pull that was filled, with the largest count of bytes left. -/
def filledPull : WaitingPull :=
  { WaitingPull.ofRequest "_INBOX.1" (.timed 1 Count.top (.ofSecs 30) (.ofSecs 15) Nat.one_pos) 0
      true with messages := 0 }

/-- The request for as much as a word can say. -/
def largestPull : PullRequest :=
  .timed Count.top Count.top (.ofSecs 30) (.ofSecs 15) Count.top_pos

theorem largestPull_exact :
    filledPull.messages < 2 ^ 64 ∧ filledPull.bytes.getD 0 < 2 ^ 64 ∧
      (filledPull.closing Code.requestTimeout StatusText.requestTimeout).pendingCounts =
        some (0, Count.top) ∧
      largestPull.batch < 2 ^ 64 ∧ largestPull.maxBytes < 2 ^ 64 ∧
      (refusal largestPull Code.conflict StatusText.exceededMaxWaiting).pendingCounts =
        some (Count.top, Count.top) :=
  ⟨by decide, by decide, pendingCounts_exact.2.2.1 filledPull _ _ (by decide) (by decide),
    by decide, by decide, pendingCounts_exact.2.2.2 largestPull _ _ (by decide) (by decide)⟩

/-- Blanks, a sign, leading zeros and later values of a key make no difference. -/
example : Status.pendingCounts ⟨Code.requestTimeout, "", some ⟨[(pendingBytesKey, "\u00a0+00"),
    (pendingMessagesKey, "18446744073709551615\t"), (pendingBytesKey, "7")]⟩⟩ =
      some (Count.top, 0) := by decide

/-- A count just above a word is not read. -/
example : Status.pendingCounts ⟨Code.requestTimeout, "", some ⟨[(pendingBytesKey, "0"),
    (pendingMessagesKey, "18446744073709551616")]⟩⟩ = none := by decide

end Status

end DemandFlow
