import DemandFlow.Session.State

/-
  The steps on the transport: publishing, raw feeds and requests, frames put in by hand, a script
  told to fail, questions to the broker, and its end.
-/

namespace DemandFlow.Session.State

/-- The numbered messages of a series, each published at once. -/
def publishSeries (x : Exchange) (subject : String) (n pad : Nat) : Exchange × List Nat :=
  let tail := String.ofList (List.replicate pad 'x')
  let (x, ns) := (List.range n).foldl (fun (x, ns) k =>
    let payload := (s!"{subject}-{k}" ++ tail).toUTF8
    let (x, n) := x.publish (.plain subject payload)
    (x, n :: ns)) (x, [])
  (x, ns.reverse)

/-- Put frames into a feed as long as it takes them, and how many it took. -/
def feedFrames (x : Exchange) (i : Nat) (fs : List Frame) : Exchange × Nat :=
  fs.foldl (fun (x, n) f =>
    match x.feeds[i]? with
    | none => (x, n)
    | some feed =>
      if feed.reading && !feed.isFull then
        ((x.modifyFeed i (·.push f)).wakeAll (Exchange.readerOf feed), n + 1)
      else (x, n)) (x, 0)

/-- The feed that a script can still write under a name. -/
def openFeed? (s : State) (target : String) : Option Nat :=
  (s.exchange.feedAt? (s.inboxOf target)).bind fun (i, feed) =>
    if feed.writing then some i else none

/-- Nobody holds the broker any more: all consumers and raw feeds are dropped. -/
def letGo (s : State) : State :=
  let x := s.consumers.foldl (fun x c => x.discard c.2 true) s.exchange
  let x := s.raws.foldl (fun x c => x.abandonFeed c.2) x
  let x :=
    match x.transport with
    | .loopback l => { x with transport := .loopback { l with held := false } }.wake .broker
    | .scripted _ => x
  { s with exchange := x, consumers := [], raws := [] }

def configured (x : Exchange) : Reply :=
  match x.transport with
  | .loopback l => .limits l.broker.limits
  | .scripted _ => .nothing

/-- Tell a script how to fail from now on. -/
def faults (x : Exchange) (subscribe publish : Option TransportError) : Exchange :=
  match x.transport with
  | .loopback _ => x
  | .scripted s =>
    { x with
      transport := .scripted { s with subscribeFault := subscribe, publishFault := publish } }

def released (x : Exchange) : List String :=
  match x.transport with
  | .loopback _ => []
  | .scripted s => s.released

/-- The requests that reached the broker, or the script. -/
def pullLogStep (s : State) : State × Reply :=
  match s.exchange.transport with
  | .scripted t => s.settled s.exchange (.carried t.pulls)
  | .loopback _ =>
    let (x, a) := s.exchange.askPulls
    (s.put x, ofAnswer a)

/-- One step on the transport. -/
def transportStep (s : State) : TransportStep → State × Reply
  | .publish m =>
    let (x, n) := s.exchange.publish m
    s.settled x (.count n)
  | .publishMany subject n pad =>
    let (x, ns) := publishSeries s.exchange subject n pad
    s.settled x (.counts ns)
  | .inject target f => s.settled (s.exchange.send (.inject (s.inboxOf target) f)).1 .nothing
  | .heartbeat target =>
    let beat := Frame.status (.plain Code.heartbeat StatusText.idleHeartbeat)
    s.settled (s.exchange.send (.inject (s.inboxOf target) beat)).1 .nothing
  | .stats =>
    let (x, a) := s.exchange.askStats
    (s.put x, ofAnswer a)
  | .config => s.settled s.exchange (configured s.exchange)
  | .pullLog => s.pullLogStep
  | .subscribe id =>
    match s.exchange.subscribe none with
    | (x, .error e) => s.settled x (.failed (.ofTransport e))
    | (x, .ok (i, inbox)) => (s.keepRaw id i).settled x (.text inbox)
  | .rawPull target d =>
    match d.build with
    | .error e => s.settled s.exchange (.failed (.ofConfig e))
    | .ok r =>
      match s.exchange.carry (s.inboxOf target) r with
      | (x, .ok ()) => s.settled x (.text "ok")
      | (x, .error e) => s.settled x (.failed (.ofTransport e))
  | .rawUnsubscribe target => s.settled (s.exchange.release (s.inboxOf target)) .nothing
  | .feed target fs =>
    match s.openFeed? target with
    | none => s.settled s.exchange (.text "no feed")
    | some i =>
      let (x, n) := feedFrames s.exchange i fs
      s.settled x (.count n)
  | .closeFeed target =>
    match s.openFeed? target with
    | none => s.settled s.exchange (.flag false)
    | some _ => s.settled (s.exchange.closeFeed (s.inboxOf target)) (.flag true)
  | .fail subscribe publish => s.settled (faults s.exchange subscribe publish) .nothing
  | .unsubscribed => s.settled s.exchange (.texts (released s.exchange))
  | .closeBroker =>
    let s := s.letGo
    s.settled s.exchange .nothing

end DemandFlow.Session.State
