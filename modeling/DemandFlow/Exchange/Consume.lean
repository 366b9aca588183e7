import DemandFlow.Exchange.Run

/-
  Consumers on an exchange: manual ones, whose owner pulls and reads; fetches, which send one
  request when they start; continuous ones, which send a full request when they start. A consumer
  whose first request fails is dropped again.
-/

namespace DemandFlow.Exchange

/-- What the owner of a manual consumer asks for. -/
inductive Wish where
  | batch (n : Nat)
  | noWait (n : Nat)
  | within (n : Nat) (expires : Span)
  | draft (d : PullRequest.Draft)
deriving DecidableEq

/-- The request for a wish. A wish with a time limit needs one that is not zero. -/
def Wish.request : Wish → Except ConfigError PullRequest
  | .batch n => PullRequest.ofBatch n
  | .noWait n => PullRequest.ofNoWait n
  | .within n expires =>
    if expires.isZero then .error .missingTimeout
    else { PullRequest.Draft.ofBatch n with expires := some expires }.build
  | .draft d => d.build

def openManual (x : Exchange) : Exchange × Except Failure Nat := x.openSub .manual

/-- Pull for a manual consumer. -/
def pullFor (x : Exchange) (i : Nat) (w : Wish) : Exchange × Except Failure Unit :=
  match w.request with
  | .error e => (x, .error (.ofConfig e))
  | .ok r => x.pull i r

/-- Open a subscription with a first request. -/
def openWith (x : Exchange) (purpose : Purpose) (r : PullRequest) :
    Exchange × Except Failure Nat :=
  match x.openSub purpose with
  | (x, .error e) => (x, .error e)
  | (x, .ok i) =>
    match x.pull i r with
    | (x, .error e) => (x.dropSub i true, .error e)
    | (x, .ok ()) => (x, .ok i)

def openFetch (x : Exchange) (s : FetchOptions.Settings) : Exchange × Except Failure Nat :=
  match s.build with
  | .error e => (x, .error e)
  | .ok o => x.openWith (.fetch (.start o) (x.now + o.expires.nanos)) o.request

def openContinuous (x : Exchange) (o : ConsumeOptions) (h : Handler) :
    Exchange × Except Failure Nat :=
  match x.openWith (.continuous (.start o h)) o.initial with
  | (x, .error e) => (x, .error e)
  | (x, .ok i) =>
    let inbox := ((x.subs[i]?).map Subscription.inbox).getD ""
    (x.note (Journal.consumerStarted inbox o.batchSize o.batchBytes o.threshold), .ok i)

/-- Begin to drain a continuous consumer; one that is no longer active only says whether its
demand is exhausted. -/
def beginDrain (x : Exchange) (i : Nat) (grace : Span) : Exchange × Except Bool Activity :=
  match x.subs[i]? with
  | none => (x, .error false)
  | some s =>
    match s.purpose with
    | .continuous c =>
      match c.drain? with
      | none => (x, .error s.tracker.isExhausted)
      | some c =>
        let x := x.modifySub i fun s => { s with purpose := .continuous c }
        (x.note (Journal.consumerDraining s.inbox grace), .ok (.drain i (waitEnd x.now grace)))
    | _ => (x, .error false)

/-- Ask the broker for its figures; there are none when it is gone. -/
def askStats (x : Exchange) : Exchange × Option Answer :=
  match x.send (.stats x.nextCaller) with
  | (x, true) => x.call .ask
  | (x, false) => (x.settle stepFuel, some (.stats .zero))

/-- Ask the broker for the requests that it has seen. -/
def askPulls (x : Exchange) : Exchange × Option Answer :=
  match x.send (.pullLog x.nextCaller) with
  | (x, true) => x.call .ask
  | (x, false) => (x.settle stepFuel, some (.pulls []))

/-! ## Descriptions -/

/-- A subscription as descriptions show it. -/
def describe (s : Subscription) : String :=
  match s.purpose with
  | .continuous c =>
    "SimpleConsumer \x7b inbox: " ++ Text.quoted s.inbox ++ ", state: " ++ c.mode.text
      ++ ", pending: " ++ s.demand.text ++ ", .. \x7d"
  | _ =>
    "SubscriptionCore \x7b inbox: " ++ Text.quoted s.inbox ++ ", pending: " ++ s.demand.text
      ++ s!", closed: {s.closed}, .. \x7d"

/-- The exchange as descriptions show it to the owner of its consumers. -/
def describeContext (x : Exchange) : String :=
  "ConsumerContext \x7b config: SubscriptionConfig \x7b queue_capacity: "
    ++ toString x.queueCapacity ++ ", .. \x7d, .. \x7d"

end DemandFlow.Exchange
