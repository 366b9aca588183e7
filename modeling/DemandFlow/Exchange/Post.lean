import DemandFlow.Exchange.Subscribe

/-
  The broker's task. It works off its agenda first, is held up while a feed is full, takes in
  commands when the agenda is empty and looks at its timers when there are no commands. It ends
  when nobody can send commands any more.
-/

namespace DemandFlow.Exchange

open Broker (Command)

/-- Put the loopback with a new broker in its place. -/
def setBroker (x : Exchange) (l : Loopback) (b : Broker.State) : Exchange :=
  { x with transport := .loopback { l with broker := b } }

/-- The feed of an inbox, with its number. -/
def feedAt? (x : Exchange) (inbox : String) : Option (Nat × Feed) :=
  (x.feedOf? inbox).bind fun i => x.feeds[i]?.map fun f => (i, f)

/-- Post a frame; `b` is the broker once that is done. A full feed holds everything up; a feed
that nobody reads makes the broker forget its inbox. -/
def post (x : Exchange) (l : Loopback) (b : Broker.State) (inbox : String) (f : Frame) :
    Exchange × Bool :=
  if b.knows inbox then
    match x.feedAt? inbox with
    | none => (x.setBroker l b, true)
    | some (i, feed) =>
      if feed.reading then
        if feed.isFull then (x.clearTimer .broker, false)
        else
          let x := x.setBroker l b
          ((x.modifyFeed i (·.push f)).wakeAll (readerOf feed), true)
      else
        ((((x.setBroker l (b.forget inbox)).note (Journal.feedClosed inbox)).closeFeed inbox), true)
  else ((x.setBroker l b).note (Journal.frameDropped inbox), true)

/-- What is logged when a command is taken in. -/
def commandNotes (b : Broker.State) : Command → List Log.Entry
  | .publish m => [Journal.messagePublished m]
  | .register inbox => [Journal.subscriptionRegistered inbox]
  | .pull inbox r =>
    if b.knows inbox then
      match b.limits.refusal? b.waiting.length r with
      | some s => [Journal.pullRefused inbox s]
      | none => []
    else [Journal.pullIgnored inbox]
  | .unsubscribe inbox => [Journal.subscriptionRemoved inbox]
  | .inject _ _ => []
  | .stats _ => []
  | .pullLog _ => []

/-- What a command does besides changing the broker: a feed is closed, or the one who asks gets
an answer. -/
def commandEffect (x : Exchange) (c : Command) : Exchange :=
  match c, x.transport with
  | .unsubscribe inbox, _ => x.closeFeed inbox
  | .stats asker, .loopback l =>
    (x.finish asker (.stats l.broker.stats)).wake (.caller asker)
  | .pullLog asker, .loopback l =>
    (x.finish asker (.pulls l.broker.pullLog)).wake (.caller asker)
  | _, _ => x

def modifyLoopback (x : Exchange) (f : Loopback → Loopback) : Exchange :=
  match x.transport with
  | .loopback l => { x with transport := .loopback (f l) }
  | .scripted _ => x

/-- Log that a command is taken in. -/
def noteCommand (x : Exchange) (c : Command) : Exchange :=
  match x.transport with
  | .loopback l => (commandNotes l.broker c).foldl note x
  | .scripted _ => x

/-- Take in a command; `rest` are those behind it. -/
def takeCommand (x : Exchange) (c : Command) (rest : Fifo Command) : Exchange :=
  let x := x.noteCommand c
  let now := x.now
  let x := x.modifyLoopback fun l => { l with commands := rest, broker := l.broker.accept now c }
  x.commandEffect c

/-- Whether someone besides the owners of handles may still send commands. -/
def hasSenders (x : Exchange) : Bool :=
  x.subs.any (fun s => decide (s.worker ≠ .ended)) || x.ready.any fun t =>
    match t with
    | .farewell _ => true
    | _ => false

/-- The broker ends; every feed loses its sender. -/
def endBroker (x : Exchange) (l : Loopback) : Exchange :=
  let x := { x.clearTimer .broker with transport := .loopback { l with alive := false } }
  let x := x.note (Journal.brokerStopped l.broker.stats.text)
  x.feeds.foldl (fun x f => x.closeFeed f.inbox) x

/-- Nothing is left to do: settle what is due, end, or sleep until the next deadline. -/
def idle (x : Exchange) (l : Loopback) : Exchange × Bool :=
  match l.broker.deadline with
  | some due =>
    if due ≤ x.now then (x.setBroker l (l.broker.fireTimers x.now), true)
    else if l.held || x.hasSenders then (x.setTimer .broker due, false)
    else (x.endBroker l, false)
  | none =>
    if l.held || x.hasSenders then (x.clearTimer .broker, false) else (x.endBroker l, false)

def brokerStep (x : Exchange) : Exchange × Bool :=
  match x.transport with
  | .scripted _ => (x, false)
  | .loopback l =>
    if l.alive then
      match l.broker.agenda with
      | _ :: _ =>
        match l.broker.work x.now with
        | (b, some (inbox, f)) => x.post l b inbox f
        | (b, none) => (x.setBroker l b, true)
      | [] =>
        match l.commands.pop? with
        | some (c, rest) => (x.takeCommand c rest, true)
        | none => x.idle l
    else (x, false)

end DemandFlow.Exchange
