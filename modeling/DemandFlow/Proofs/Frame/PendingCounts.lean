import DemandFlow.Frame.Disposition
import DemandFlow.Proofs.Text.Spelling

/-
  Counts on their way through the headers of a status. Each is written under a key of its own and
  read back from the first value of that key, so a status with `pendingHeaders` gives back exactly
  the counts put into it, as long as they fit a word.
-/

namespace DemandFlow

namespace Status

theorem get?_pendingHeaders_messages (m b : Nat) :
    (pendingHeaders m b).get? pendingMessagesKey = some (toString m) := rfl

theorem get?_pendingHeaders_bytes (m b : Nat) :
    (pendingHeaders m b).get? pendingBytesKey = some (toString b) := by
  have hk : (pendingMessagesKey == pendingBytesKey) = false := by decide
  simp [pendingHeaders, Headers.get?, Headers.insert, Headers.empty, hk]

theorem countHeader_pendingHeaders_messages {m : Nat} (b : Nat) (h : m ≤ Count.top) :
    countHeader (pendingHeaders m b) pendingMessagesKey = some m := by
  rw [countHeader, get?_pendingHeaders_messages, Option.bind_some]
  exact Text.count?_toString h

theorem countHeader_pendingHeaders_bytes (m : Nat) {b : Nat} (h : b ≤ Count.top) :
    countHeader (pendingHeaders m b) pendingBytesKey = some b := by
  rw [countHeader, get?_pendingHeaders_bytes, Option.bind_some]
  exact Text.count?_toString h

/-- The counts that a status carries are read back exactly. -/
theorem pendingCounts_withHeaders {s : Status} {m b : Nat} (hm : m ≤ Count.top)
    (hb : b ≤ Count.top) : (s.withHeaders (pendingHeaders m b)).pendingCounts = some (m, b) := by
  unfold pendingCounts withHeaders
  dsimp only
  rw [countHeader_pendingHeaders_messages b hm, countHeader_pendingHeaders_bytes m hb]

end Status

end DemandFlow
