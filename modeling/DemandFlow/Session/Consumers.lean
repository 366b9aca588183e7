import DemandFlow.Session.State

/-
  The steps that open, drive and drop consumers.
-/

namespace DemandFlow.Session.State

/-- A fetch gives all that is left of it, and is gone then. -/
def fetchRest (s : State) (id : String) (mode : FetchMode) : State × Reply :=
  s.withSub id fun i =>
    { s with consumers := s.consumers.filter fun c => c.1 != id }.called s.exchange (.fetch i mode)

def drainStep (s : State) (id : String) (grace : Span) : State × Reply :=
  s.withSub id fun i =>
    match s.exchange.beginDrain i grace with
    | (x, .error b) => s.settled x (.flag b)
    | (x, .ok a) => s.called x a

/-- The step of draining in the background; when there is nothing to drain, the answer is there
as soon as everything waits. -/
def drainBehindStep (s : State) (id : String) (grace : Span) (tag : String) : State × Reply :=
  s.withSub id fun i =>
    match s.exchange.beginDrain i grace with
    | (x, .error b) =>
      let (x, n) := x.callBehind .ask
      { s with tags := s.tags ++ [(n, tag)] }.settled (x.finish n (.flag b)) .nothing
    | (x, .ok a) => s.calledBehind x a tag

/-- One step with consumers. -/
def consumerStep (s : State) : ConsumerStep → State × Reply
  | .manual id =>
    let (x, r) := s.exchange.openManual
    s.opened id x r replyInbox
  | .pull id w =>
    s.withSub id fun i =>
      let (x, r) := s.exchange.pullFor i w
      s.settled x (ofResult r)
  | .next id timeout =>
    s.withSub id fun i => s.called s.exchange (.read i (s.exchange.dueIn timeout))
  | .nextBehind id timeout tag =>
    s.withSub id fun i => s.calledBehind s.exchange (.read i (s.exchange.dueIn timeout)) tag
  | .read id timeout =>
    s.withSub id fun i =>
      s.called s.exchange (.readAll i timeout (s.exchange.dueIn timeout) [])
  | .unsubscribe id =>
    s.withSub id fun i => s.called (s.exchange.unsubscribe i) (.leave i .done)
  | .fetch id settings =>
    let (x, r) := s.exchange.openFetch settings
    s.opened id x r replyInbox
  | .fetchAll settings =>
    match s.exchange.openFetch settings with
    | (x, .error e) => s.settled x (.failed e)
    | (x, .ok i) => s.called x (.fetch i (.batch []))
  | .fetchNext id => s.withSub id fun i => s.called s.exchange (.fetch i .one)
  | .fetchBatch id => s.fetchRest id (.batch [])
  | .fetchStream id => s.fetchRest id (.stream [])
  | .consume id settings h =>
    match settings.build with
    | .error e => s.settled s.exchange (.failed e)
    | .ok o =>
      let (x, r) := s.exchange.openContinuous o h
      s.opened id x r fun s i => .started (s.inbox i) o
  | .drain id grace => s.drainStep id grace
  | .drainBehind id grace tag => s.drainBehindStep id grace tag
  | .stop id =>
    s.withSub id fun i =>
      s.called ((s.exchange.closeContinuous i).unsubscribe i) (.leave i .done)
  | .waitHandled id n limit =>
    s.called s.exchange (.watch (s.sub? id) n (s.exchange.now + limit.nanos))
  | .drop id => s.dropped id true
  | .dropOutside id => s.dropped id false
  | .describe id =>
    let described := (s.sub? id).bind fun i => s.exchange.subs[i]?.map Exchange.describe
    s.settled s.exchange (.text (described.getD s.exchange.describeContext))

end DemandFlow.Session.State
