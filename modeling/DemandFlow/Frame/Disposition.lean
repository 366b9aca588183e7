import DemandFlow.Frame
import DemandFlow.Text.Blank
import DemandFlow.Text.Decimal

/-
  What a status means. A heartbeat only proves that the feed is alive. Any other status has one
  disposition: a terminus ends the batch, a warning is advice for the listener, an error is
  fatal for the pull. `Status.pendingCounts` reads the counts that a status carries back.
-/

namespace DemandFlow

namespace Code

def heartbeat : Nat := 100
def badRequest : Nat := 400
def notFound : Nat := 404
def requestTimeout : Nat := 408
def conflict : Nat := 409

end Code

namespace StatusText

def idleHeartbeat : String := "Idle Heartbeat"
def noMessages : String := "No Messages"
def requestTimeout : String := "Request Timeout"
def badRequest : String := "Bad Request"
def batchCompleted : String := "Batch Completed"
def messageTooLarge : String := "Message Size Exceeds MaxBytes"
def consumerDeleted : String := "Consumer Deleted"
def consumerPushBased : String := "Consumer is push based"
def exceededMaxWaiting : String := "Exceeded MaxWaiting"
def exceededMaxBatch : String := "Exceeded MaxRequestBatch"
def exceededMaxExpires : String := "Exceeded MaxRequestExpires"
def exceededMaxBytes : String := "Exceeded MaxRequestMaxBytes"

/-- The words that open every advisory conflict. -/
def advisoryOpening : String := "Exceeded Max"

end StatusText

/-- Header with the messages that a pull left unfulfilled. -/
def pendingMessagesKey : String := "Nats-Pending-Messages"

/-- Header with the bytes that a pull left unfulfilled. -/
def pendingBytesKey : String := "Nats-Pending-Bytes"

inductive Disposition where
  | terminus
  | warning
  | error
deriving DecidableEq

def Disposition.name : Disposition → String
  | .terminus => "terminus"
  | .warning => "warning"
  | .error => "error"

namespace Status

def isHeartbeat (s : Status) : Bool := s.code == Code.heartbeat

/-- Whether the text opens with `Exceeded Max`. -/
def isAdvisoryText (text : String) : Bool :=
  StatusText.advisoryOpening.toList.isPrefixOf text.toList

/-- The meaning of a status that is no heartbeat. -/
def disposition (s : Status) : Disposition :=
  if s.code = Code.notFound ∨ s.code = Code.requestTimeout then .terminus
  else if s.code = Code.conflict then
    if isAdvisoryText s.text then .warning
    else if s.text = StatusText.batchCompleted ∨ s.text = StatusText.messageTooLarge then
      .terminus
    else .error
  else .error

/-- Whether the pull ended because the next message alone passes its byte budget. -/
def isTooLarge (s : Status) : Bool :=
  s.code == Code.conflict && s.text == StatusText.messageTooLarge

/-- The value of the first header `key`, read as a count without the blanks around it. -/
def countHeader (h : Headers) (key : String) : Option Nat :=
  (h.get? key).bind fun v => Text.count? (Text.trim v.toList)

/-- Messages and bytes left unfulfilled, when both headers are there and well formed. -/
def pendingCounts (s : Status) : Option (Nat × Nat) :=
  match s.headers with
  | none => none
  | some h =>
    match countHeader h pendingMessagesKey, countHeader h pendingBytesKey with
    | some messages, some bytes => some (messages, bytes)
    | _, _ => none

/-- Headers that carry the counts back. -/
def pendingHeaders (messages bytes : Nat) : Headers :=
  (Headers.empty.insert pendingMessagesKey (toString messages)).insert pendingBytesKey
    (toString bytes)

theorem pendingCounts_plain (code : Nat) (text : String) :
    (plain code text).pendingCounts = none := rfl

theorem disposition_of_isTooLarge {s : Status} (h : s.isTooLarge = true) :
    s.disposition = .terminus := by
  simp only [isTooLarge, Bool.and_eq_true, beq_iff_eq] at h
  obtain ⟨hc, ht⟩ := h
  have ha : isAdvisoryText StatusText.messageTooLarge = false := by decide
  simp [disposition, hc, ht, ha, Code.conflict, Code.notFound, Code.requestTimeout]

end Status

end DemandFlow
