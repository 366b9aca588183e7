import DemandFlow.Script
import DemandFlow.Session.Consumers
import DemandFlow.Session.Transport

/-
  Running a session: each step is taken, everything runs until it waits, raw feeds are emptied,
  and a report says what happened since the step before.
-/

namespace DemandFlow.Session.State

/-- One step, run until everything waits. -/
def act (s : State) (st : Step) : State × Reply :=
  match st with
  | .advance d => s.called s.exchange (.sleep (s.exchange.now + d.nanos))
  | .transport t => s.transportStep t
  | .consumer c => s.consumerStep c
  | .context => s.settled s.exchange (.capacity s.exchange.queueCapacity)
  | .recorded => s.settled s.exchange (.notices s.notices)
  | .assertCounter name expected =>
    s.settled s.exchange (.flag (s.exchange.counters.total name == expected))
  | .find _ => s.settled s.exchange .nothing

/-! ## Reports -/

/-- The kept entries with a text in them. -/
def foundIn (s : State) (needle : String) : List String :=
  (s.log.map Log.Entry.record).filter fun r => Log.mentions needle r

/-- Take everything out of a raw feed. -/
def emptyRaw (x : Exchange) (i : Nat) : Exchange × List Frame :=
  match x.feeds[i]? with
  | none => (x, [])
  | some feed =>
    let got := feed.frames.toList
    if got.isEmpty then (x, [])
    else ((x.modifyFeed i Feed.emptied).wakeHeldUp, got)

/-- Empty all raw feeds once. -/
def emptyOnce (raws : List (String × Nat)) (x : Exchange) : Exchange × List (String × Frame) :=
  raws.foldl (fun (x, got) raw =>
    let (x, frames) := emptyRaw x raw.2
    (x, got ++ frames.map fun f => (raw.1, f))) (x, [])

/-- Empty all raw feeds and let everything run, until nothing comes any more. -/
def emptyRaws (fuel : Nat) (raws : List (String × Nat)) (x : Exchange) :
    Exchange × List (String × Frame) :=
  match fuel with
  | 0 => (x, [])
  | fuel + 1 =>
    match emptyOnce raws x with
    | (x, []) => (x, [])
    | (x, got) =>
      let (x, more) := emptyRaws fuel raws (x.settle Exchange.stepFuel)
      (x, got ++ more)

def conditionOf (s : Subscription) : Condition :=
  match s.purpose with
  | .manual => .manual s.demand s.closed
  | .fetch f _ => .fetch s.demand f
  | .continuous c => .continuous s.demand c.mode

def conditions (s : State) : List (String × Condition) :=
  s.consumers.filterMap fun c => s.exchange.subs[c.2]?.map fun sub => (c.1, conditionOf sub)

/-- The name under which a subscription was opened. -/
def nameOf (s : State) (i : Nat) : String := (s.names.lookup i).getD ""

/-- Answers of calls in the background, with their tags. -/
def behind (s : State) : List (String × Answer) :=
  s.exchange.answers.filterMap fun a => (s.tags.lookup a.1).map fun tag => (tag, a.2)

/-- The exchange with nothing left to report. -/
def reported (x : Exchange) : Exchange :=
  { x with log := #[], notices := [], handled := #[], answers := [] }

def step (s : State) (st : Step) : State × Report :=
  let before := s.exchange.counters.pulls
  let (s, reply) := s.act st
  let (x, frames) := emptyRaws Exchange.stepFuel s.raws s.exchange
  let s := s.put x
  let s := { s with notices := s.notices ++ x.notices }
  let s := if s.keepsLog then { s with log := s.log ++ x.log.toList } else s
  let (s, found) :=
    match st with
    | .find needle => ({ s with log := [] }, s.foundIn needle)
    | _ => (s, [])
  let report : Report :=
    { reply := reply
      now := x.now
      frames := frames
      handled := x.handled.toList.map fun h => (s.nameOf h.1, h.2)
      notices := x.notices
      behind := s.behind
      log := x.log.toList
      found := found
      consumers := s.conditions
      counters := x.counters
      pulls := x.counters.pulls - before }
  (s.put (reported x), report)

def run (s : State) (steps : List Step) : List Report := reportsOf step s steps

end DemandFlow.Session.State
