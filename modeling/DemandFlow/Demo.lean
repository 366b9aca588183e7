import DemandFlow.Cli
import DemandFlow.Exchange.Consume

/-
  The demonstration: publish messages to a broker, consume them all with one continuous consumer
  while demand is refilled, report on the way, drain, and say what it took. Its output is the log
  down to `info`, then the totals if they are asked for.
-/

namespace DemandFlow.Demo

/-- What a run of the program leaves behind. -/
structure Outcome where
  exit : Nat
  output : List String
  complaint : Option String
deriving DecidableEq

/-! ## Lines -/

def origin : String := "pullwire"

def populated (n : Nat) : Log.Entry :=
  ⟨.info, origin, "stream populated", [("messages", .count n)]⟩

def received (label : String) (n : Nat) : Log.Entry :=
  ⟨.info, origin, "received messages", [("label", .plain label), ("count", .count n)]⟩

def startDraining : Log.Entry := ⟨.info, origin, "start draining", []⟩

def consumerClosed (drained : Bool) (s : Broker.Stats) : Log.Entry :=
  ⟨.info, origin, "consumer closed",
    [("drained", .flag drained), ("pull_requests", .count s.pullRequests),
     ("delivered", .count s.delivered)]⟩

/-- The reports of the handler: one after every so many messages. -/
def reports (every count : Nat) : List Log.Entry :=
  ((List.range count).map (· + 1)).filterMap fun seen =>
    if seen % every = 0 then some (received "handler" seen) else none

/-- An entry as a line of output. -/
def line (e : Log.Entry) : String := e.level.name.toUpper ++ " " ++ e.origin ++ ": " ++ e.record

/-- The lines of the entries that are urgent enough to be shown. -/
def shown (es : List Log.Entry) : List String :=
  (es.filter fun e => e.level.reaches .info).map line

/-! ## The run -/

/-- The subjects of the stream go round in a circle of this length. -/
def subjects : Nat := 16

def populate (n payloadSize : Nat) (x : Exchange) : Exchange :=
  let payload : ByteArray := ⟨Array.replicate payloadSize 0x78⟩
  (List.range n).foldl (fun x i => (x.publish (.plain s!"demo.{i % subjects}" payload)).1) x

/-- The entries that have been written, and the exchange without them. -/
def takeLog (x : Exchange) : List Log.Entry × Exchange := (x.log.toList, { x with log := #[] })

/-- Drain a consumer, and whether its demand ran out in time. -/
def drained (x : Exchange) (i : Nat) (grace : Span) : Exchange × Bool :=
  match x.beginDrain i grace with
  | (x, .error b) => (x, b)
  | (x, .ok a) =>
    match x.call a with
    | (x, some (.flag b)) => (x, b)
    | (x, _) => (x, false)

def stats (x : Exchange) : Exchange × Broker.Stats :=
  match x.askStats with
  | (x, some (.stats s)) => (x, s)
  | (x, _) => (x, .zero)

/-- The entries and totals of a run with options that are fit for use. -/
def consume (a : Cli.Arguments) (o : ConsumeOptions) : List Log.Entry × Counters :=
  let loopback := Transport.loopback (.start .default true)
  let x := Exchange.start loopback false Defaults.queueCapacity
  let x := populate a.messages a.payloadSize x
  match x.openContinuous o .plain with
  | (x, .error _) => (x.log.toList, x.counters)
  | (x, .ok i) =>
    let (started, x) := takeLog x
    let x := (x.call (.watch (some i) a.messages (x.now + Exchange.patience.nanos))).1
    let seen := x.handledOf (some i)
    let (consumed, x) := takeLog x
    let (x, isDrained) := drained x i (.ofMillis a.drainMs)
    let (closing, x) := takeLog x
    let final := received "final" (x.handledOf (some i))
    let (x, figures) := stats x
    (populated a.messages :: started ++ consumed ++ reports (max 1 a.reportEvery) seen
      ++ startDraining :: closing ++ [final, consumerClosed isDrained figures],
      x.counters)

/-- The options that the arguments ask for. -/
def optionsOf (a : Cli.Arguments) : Except Failure ConsumeOptions :=
  ConsumeOptions.Settings.build
    ⟨some a.batchSize, some a.batchBytes, some (.ofMillis a.expiresMs), none, some a.threshold⟩

/-- Why the program stops with an error. -/
def complaintOf : Failure → String
  | .error (.config e) => "Error: " ++ e.description
  | f => "Error: " ++ f.message

def refused (r : Cli.Refusal) : Outcome :=
  match r with
  | .displayHelp => ⟨0, Cli.helpLines, none⟩
  | .displayVersion => ⟨0, [Cli.versionText], none⟩
  | r => ⟨2, [], some ("error: " ++ r.name)⟩

def run (args : List String) : Outcome :=
  match Cli.parse args with
  | .error r => refused r
  | .ok a =>
    match optionsOf a with
    | .error f => ⟨1, [], some (complaintOf f)⟩
    | .ok o =>
      let (entries, counters) := consume a o
      ⟨0, shown entries ++ if a.metrics then counters.lines else [], none⟩

end DemandFlow.Demo
