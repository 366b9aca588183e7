import DemandFlow.Frame.Headers

/-
  What a broker sends to a subscription: messages, which use up demand, and statuses, which
  report on a pull and may carry the counts that it left unfulfilled.
-/

namespace DemandFlow

/-- Payloads are equal when their bytes are. -/
instance decidableEqPayload : DecidableEq ByteArray := fun a b =>
  decidable_of_decidable_of_iff (p := a.data = b.data) ⟨ByteArray.ext, congrArg ByteArray.data⟩

/-- A message of the stream. -/
structure Message where
  subject : String
  payload : ByteArray
  headers : Option Headers
  replyTo : Option String
deriving DecidableEq, Inhabited

/-- A protocol status. -/
structure Status where
  code : Nat
  text : String
  headers : Option Headers
deriving DecidableEq, Inhabited

/-- One unit of a subscription's feed. -/
inductive Frame where
  | message (m : Message)
  | status (s : Status)
deriving DecidableEq

namespace Message

/-- A message without headers and reply subject. -/
def plain (subject : String) (payload : ByteArray) : Message := ⟨subject, payload, none, none⟩

def withReply (m : Message) (reply : String) : Message := { m with replyTo := some reply }

/-- The bytes that a message counts against a byte budget: subject, header block, payload and
reply subject. -/
def size (m : Message) : Nat :=
  m.subject.utf8ByteSize + (m.headers.map Headers.wireLength).getD 0 + m.payload.size
    + (m.replyTo.map String.utf8ByteSize).getD 0

theorem size_plain (s : String) (p : ByteArray) :
    (plain s p).size = s.utf8ByteSize + p.size := by
  simp [plain, size]

end Message

namespace Status

/-- A status without headers. -/
def plain (code : Nat) (text : String) : Status := ⟨code, text, none⟩

def withHeaders (s : Status) (h : Headers) : Status := { s with headers := some h }

end Status

end DemandFlow
