import DemandFlow.Exchange.Basic
import DemandFlow.Journal
import DemandFlow.Pull.Body

/-
  What the transport does when it is asked to: open a feed, carry a request, end a subscription,
  publish a message. A loopback turns each into a command for its broker and cannot once the
  broker is gone; a script fails when it was told to.
-/

namespace DemandFlow.Exchange

open Broker (Command)

/-- Hand a command to the broker; it is dropped when the broker is gone. -/
def send (x : Exchange) (c : Command) : Exchange × Bool :=
  match x.transport with
  | .loopback l =>
    if l.alive then
      ({ x with transport := .loopback { l with commands := l.commands.push c } }.wake .broker,
        true)
    else (x.note Journal.commandDropped, false)
  | .scripted _ => (x, false)

/-- Add a feed; its number is the old count of feeds. -/
def addFeed (x : Exchange) (inbox : String) (capacity : Nat) (reader : Option Nat) : Exchange :=
  { x with feeds := x.feeds.push (.start inbox capacity reader) }

/-- The sender of a feed is dropped. -/
def closeFeed (x : Exchange) (inbox : String) : Exchange :=
  match x.feedOf? inbox with
  | none => x
  | some i =>
    match x.feeds[i]? with
    | none => x
    | some f => (x.modifyFeed i Feed.shut).wakeAll (readerOf f)

/-- The reader of a feed is dropped; what it holds is lost. -/
def abandonFeed (x : Exchange) (i : Nat) : Exchange :=
  (x.modifyFeed i Feed.abandon).wakeHeldUp

/-- Open a feed for a subscription, or for nobody, which makes it a raw one. -/
def subscribe (x : Exchange) (reader : Option Nat) :
    Exchange × Except TransportError (Nat × String) :=
  let i := x.feeds.size
  match x.transport with
  | .loopback l =>
    let inbox := s!"_INBOX.loopback.{l.nextInbox}"
    let x := { x with transport := .loopback { l with nextInbox := l.nextInbox + 1 } }
    let (x, sent) := x.send (.register inbox)
    if sent then
      (x.addFeed inbox l.broker.limits.frameCapacity reader, .ok (i, inbox))
    else (x, .error .closed)
  | .scripted s =>
    match s.subscribeFault with
    | some e => (x, .error e)
    | none =>
      let inbox := s!"_INBOX.scripted.{s.nextInbox}"
      let x := { x with transport := .scripted { s with nextInbox := s.nextInbox + 1 } }
      (x.addFeed inbox Defaults.frameCapacity reader, .ok (i, inbox))

/-- Carry a request. A broker reads it from its body, where long spans are cut to a word. -/
def carry (x : Exchange) (inbox : String) (r : PullRequest) :
    Exchange × Except TransportError Unit :=
  match x.transport with
  | .loopback _ =>
    let x := x.note (Journal.pullEncoded inbox (Pull.encode r).utf8ByteSize)
    let (x, sent) := x.send (.pull inbox r.onWire)
    (x, if sent then .ok () else .error .closed)
  | .scripted s =>
    match s.publishFault with
    | some e => (x, .error e)
    | none =>
      ({ x with transport := .scripted { s with pulls := s.pulls ++ [(inbox, r)] } }, .ok ())

/-- End a subscription at the transport. -/
def release (x : Exchange) (inbox : String) : Exchange :=
  match x.transport with
  | .loopback _ => (x.send (.unsubscribe inbox)).1
  | .scripted s =>
    { x with transport := .scripted { s with released := s.released ++ [inbox] } }.closeFeed inbox

/-- The subject to which a stored message is acknowledged. -/
def ackSubject (sequence : Nat) : String := s!"$JS.ACK.loopback.{sequence}"

/-- Publish a message and give its sequence number. -/
def publish (x : Exchange) (m : Message) : Exchange × Nat :=
  match x.transport with
  | .loopback l =>
    let n := l.nextSequence
    let x := { x with transport := .loopback { l with nextSequence := n + 1 } }
    ((x.send (.publish (m.withReply (ackSubject n)))).1, n)
  | .scripted _ => (x, 0)

/-! ## Listening -/

def notify (x : Exchange) (n : Notice) : Exchange :=
  if x.keepsNotices then { x with notices := x.notices ++ [n] }
  else
    match n with
    | .warning inbox s => x.note (Journal.statusWarning inbox s)
    | .error inbox s => x.note (Journal.statusError inbox s)
    | .alarm inbox d => x.note (Journal.alarm inbox d)

end DemandFlow.Exchange
