import DemandFlow.Proofs.Broker.Portion
import DemandFlow.Proofs.Consume.Flow
import DemandFlow.Subscription

/-
  One fetch between a broker and its caller, without feeds, tasks and logs: the stream on both
  sides of the cursor, the one pull, frames and deliveries on their way, what the caller has got,
  and how far it is. `Step` says all that can happen at one instant; messages are published and
  time goes on from outside. Every step makes the errand lighter, so that none of them can go on
  for ever.
-/

namespace DemandFlow

open Broker (Command WaitingPull weigh publishedBy)

/-! ## What a fetch may return -/

namespace FetchOptions

/-- At most so many messages, and within the byte budget if there is one. -/
def Admits (o : FetchOptions) (ms : List Message) : Prop :=
  ms.length ≤ o.maxMessages ∧ (0 < o.maxBytes → weigh ms ≤ o.maxBytes)

/-- The longest prefix of the messages on offer that is admitted. -/
structure Longest (o : FetchOptions) (offered ms : List Message) : Prop where
  leads : ms <+: offered
  admits : o.Admits ms
  longest : ∀ ns, ns <+: offered → o.Admits ns → ns <+: ms

/-- There is only one longest prefix. -/
theorem Longest.unique {o : FetchOptions} {offered ms ns : List Message}
    (h : o.Longest offered ms) (h' : o.Longest offered ns) : ms = ns :=
  (h'.longest ms h.leads h.admits).eq_of_length
    (Nat.le_antisymm (h'.longest ms h.leads h.admits).length_le
      (h.longest ns h'.leads h'.admits).length_le)

/-- A limit is reached. -/
def Full (o : FetchOptions) (ms : List Message) : Prop :=
  o.maxMessages ≤ ms.length ∨ 0 < o.maxBytes ∧ o.maxBytes ≤ weigh ms

/-- A limit is reached, or the next message on offer passes the byte budget. -/
def Stuck (o : FetchOptions) (offered ms : List Message) : Prop :=
  o.Full ms ∨ ∃ m, ms ++ [m] <+: offered ∧ 0 < o.maxBytes ∧ o.maxBytes < weigh ms + m.size

variable {o : FetchOptions} {offered ms : List Message}

theorem Stuck.mono (h : o.Stuck offered ms) (more : List Message) :
    o.Stuck (offered ++ more) ms := by
  rcases h with h | ⟨m, hm, hb⟩
  · exact Or.inl h
  · exact Or.inr ⟨m, hm.trans (List.prefix_append _ _), hb⟩

/-- What is all there is, or cannot go on, is the longest that is admitted. -/
theorem longest_of_stuck (hl : ms <+: offered) (ha : o.Admits ms)
    (hs : ∀ m ∈ offered, 0 < m.size) (h : o.Stuck offered ms ∨ ms = offered) :
    o.Longest offered ms := by
  have hr : o.request.Longest offered ms := PullRequest.longest_of_stuck hl ha hs h
  exact ⟨hr.leads, hr.admits, hr.longest⟩

end FetchOptions

/-! ## What reaches the caller -/

/-- A delivery brings a message, or else the end of the batch. -/
def Delivery.brings : Delivery → Option Message
  | .message m => some m
  | .terminus _ | .error _ | .liveness _ => none

/-- The worker once it has taken in a frame that leads to this delivery, if to any. -/
def Worker.of : Option Delivery → Worker
  | some d => .holding d
  | none => .reading

/-- What a worker holds. -/
def Worker.holds : Worker → List Delivery
  | .holding d => [d]
  | .reading | .ended => []

theorem Worker.holds_of (d : Option Delivery) : (Worker.of d).holds = d.toList := by
  cases d <;> rfl

/-- The delivery that a frame leads to, if to any. -/
def Frame.delivery? (f : Frame) : Option Delivery := (Intake.ofFrame f).delivery?

/-! ## Errands -/

/-- What is fixed for one fetch. -/
structure Errand.Terms where
  options : FetchOptions
  inbox : String
  /-- The instant at which it starts. -/
  start : Nat
  /-- Messages that were handed out before. -/
  past : List Message
  /-- Requests that the broker took in before, the latest first. -/
  before : List PullRequest

namespace Errand.Terms

/-- The instant at which the fetch expires. -/
def due (T : Terms) : Nat := T.start + T.options.expires.nanos

/-- Its one request. -/
def request (T : Terms) : PullRequest := T.options.request

/-- The idle heartbeat that it asks for. -/
def beat (T : Terms) : Option Span := T.request.heartbeat

end Errand.Terms

/-- How far the caller is. -/
inductive Errand.Stage where
  | reading
  /-- The batch is complete, and the subscription is not over yet. -/
  | leaving
  | answered
deriving DecidableEq

structure Errand where
  now : Nat
  /-- Whether the broker knows the inbox. -/
  known : Bool
  /-- Messages that were handed out for the fetch. -/
  given : List Message
  /-- Messages of the stream behind the cursor. -/
  unread : List Message
  /-- The pull, while it waits. -/
  pull : Option WaitingPull
  /-- Frames that the broker still has to post. -/
  out : List Frame
  /-- Whether the broker will look at the stream again. -/
  handing : Bool
  /-- Commands that the broker has not taken in. -/
  queue : List Command
  received : List PullRequest
  /-- Frames in the feed. -/
  frames : List Frame
  worker : Worker
  deliveries : List Delivery
  /-- Whether the alarm task still runs. -/
  watching : Bool
  /-- When the monitor last saw a frame. -/
  seen : Nat
  /-- Messages that the caller has got. -/
  got : List Message
  stage : Errand.Stage
  /-- Messages that were unread at the start or published before the fetch expired. -/
  offered : List Message
  /-- Messages that were published later. -/
  late : List Message

namespace Errand

/-- A fetch that has sent its request to a broker with these messages unread and these commands
in line; the broker may be about to look at the stream. -/
def opening (T : Terms) (unread : List Message) (handing : Bool) (commands : List Command) :
    Errand where
  now := T.start
  known := false
  given := []
  unread := unread
  pull := none
  out := []
  handing := handing
  queue := commands ++ [.register T.inbox, .pull T.inbox T.request]
  received := T.before
  frames := []
  worker := .reading
  deliveries := []
  watching := true
  seen := T.start
  got := []
  stage := .reading
  offered := unread ++ publishedBy commands
  late := []

/-- The broker is between two commands. -/
def IsIdle (a : Errand) : Prop := a.out = [] ∧ a.handing = false

/-- The pull after a message was handed out for it, if it goes on to wait. -/
def kept (p : WaitingPull) : Option WaitingPull := if p.isFilled || p.isSpent then none else some p

/-- The batch is complete: the subscription is shut and the broker is told. -/
def leave (T : Terms) (a : Errand) : Errand :=
  { a with stage := .leaving, queue := a.queue ++ [.unsubscribe T.inbox] }

/-- What can happen at one instant, publications apart. -/
inductive Step (T : Terms) : Errand → Errand → Prop
  /-- The broker stores a message. -/
  | store (a : Errand) (m : Message) (rest : List Command) (idle : a.IsIdle)
    (next : a.queue = .publish m :: rest) :
    Step T a { a with queue := rest, unread := a.unread ++ [m], handing := true }
  | register (a : Errand) (rest : List Command) (idle : a.IsIdle)
    (next : a.queue = .register T.inbox :: rest) :
    Step T a { a with queue := rest, known := true }
  /-- The broker takes on the request. -/
  | grant (a : Errand) (rest : List Command) (idle : a.IsIdle)
    (next : a.queue = .pull T.inbox T.request :: rest) (known : a.known = true) :
    Step T a { a with
      queue := rest
      received := T.request :: a.received
      pull := some (.ofRequest T.inbox T.request a.now true)
      handing := true }
  /-- The broker drops the subscription. -/
  | forget (a : Errand) (rest : List Command) (idle : a.IsIdle)
    (next : a.queue = .unsubscribe T.inbox :: rest) :
    Step T a { a with queue := rest, known := false, pull := none }
  /-- There is nothing to hand out. -/
  | settle (a : Errand) (clear : a.out = []) (handing : a.handing = true)
    (done : a.unread = [] ∨ a.pull = none) :
    Step T a { a with handing := false }
  /-- The next message passes the budget of the pull. -/
  | refuse (a : Errand) (m : Message) (ms : List Message) (p : WaitingPull) (clear : a.out = [])
    (handing : a.handing = true) (message : a.unread = m :: ms) (pull : a.pull = some p)
    (refuses : p.refuses m.size = true) :
    Step T a { a with
      pull := none
      out := [.status (p.closing Code.conflict (Broker.State.stopText p))] }
  /-- The next message is handed out. -/
  | hand (a : Errand) (m : Message) (ms : List Message) (p : WaitingPull) (clear : a.out = [])
    (handing : a.handing = true) (message : a.unread = m :: ms) (pull : a.pull = some p)
    (takes : p.refuses m.size = false) :
    Step T a { a with
      given := a.given ++ [m]
      unread := ms
      pull := kept (p.charged m.size a.now)
      out := Broker.handedFrames (p.charged m.size a.now) m }
  /-- The pull expires or beats. -/
  | due (a : Errand) (p : WaitingPull) (f : Frame) (idle : a.IsIdle) (pull : a.pull = some p)
    (due : (Broker.State.due a.now p).1 = some f) :
    Step T a { a with pull := (Broker.State.due a.now p).2, out := [f] }
  /-- A frame is posted. -/
  | post (a : Errand) (f : Frame) (rest : List Frame) (next : a.out = f :: rest)
    (known : a.known = true) (worker : a.worker ≠ .ended) :
    Step T a { a with out := rest, frames := a.frames ++ [f] }
  /-- A frame is dropped, for the broker does not know the inbox. -/
  | drop (a : Errand) (f : Frame) (rest : List Frame) (next : a.out = f :: rest)
    (known : a.known = false) : Step T a { a with out := rest }
  /-- A frame finds nobody to read it, and the broker drops the subscription. -/
  | lose (a : Errand) (f : Frame) (rest : List Frame) (next : a.out = f :: rest)
    (known : a.known = true) (worker : a.worker = .ended) :
    Step T a { a with out := rest, known := false, pull := none }
  /-- The worker takes in a frame. -/
  | take (a : Errand) (f : Frame) (rest : List Frame) (stage : a.stage = .reading)
    (worker : a.worker = .reading) (next : a.frames = f :: rest) :
    Step T a { a with frames := rest, worker := .of f.delivery?, seen := a.now }
  /-- The worker puts what it holds into the queue. -/
  | enqueue (a : Errand) (d : Delivery) (stage : a.stage = .reading)
    (worker : a.worker = .holding d) :
    Step T a { a with deliveries := a.deliveries ++ [d], worker := .reading }
  /-- The worker ends, and its feed with it. -/
  | quit (a : Errand) (stage : a.stage ≠ .reading) (worker : a.worker ≠ .ended) :
    Step T a { a with worker := .ended, frames := [] }
  /-- The alarm task ends. -/
  | rest (a : Errand) (watching : a.watching = true) : Step T a { a with watching := false }
  /-- The caller gets a message. -/
  | read (a : Errand) (m : Message) (rest : List Delivery) (stage : a.stage = .reading)
    (goesOn : ¬T.options.Full a.got) (next : a.deliveries = .message m :: rest) :
    Step T a { a with deliveries := rest, got := a.got ++ [m] }
  /-- The caller has reached a limit. -/
  | full (a : Errand) (stage : a.stage = .reading) (full : T.options.Full a.got) :
    Step T a (a.leave T)
  /-- The caller is told that the batch is over. -/
  | ended (a : Errand) (s : Status) (rest : List Delivery) (stage : a.stage = .reading)
    (goesOn : ¬T.options.Full a.got) (next : a.deliveries = .terminus s :: rest) :
    Step T a ({ a with deliveries := rest }.leave T)
  /-- The time of the caller is over. -/
  | expire (a : Errand) (stage : a.stage = .reading) (none : a.deliveries = [])
    (late : T.due ≤ a.now) : Step T a (a.leave T)
  /-- Both tasks of the subscription have ended. -/
  | answer (a : Errand) (stage : a.stage = .leaving) (worker : a.worker = .ended)
    (watching : a.watching = false) : Step T a { a with stage := .answered }

/-- No time passes, and nothing is published. -/
theorem Step.fixed {T : Terms} {a b : Errand} (h : Step T a b) :
    b.now = a.now ∧ b.offered = a.offered := by
  cases h <;> exact ⟨rfl, rfl⟩

/-- A message is published, as it is stored. -/
def publish (T : Terms) (a : Errand) (m : Message) : Errand :=
  if a.now < T.due then { a with queue := a.queue ++ [.publish m], offered := a.offered ++ [m] }
  else { a with queue := a.queue ++ [.publish m], late := a.late ++ [m] }

/-- Time goes on. -/
def tick (a : Errand) (now : Nat) : Errand := { a with now := now }

/-! ## Weights -/

/-- What a command can still lead to. -/
def charge : Command → Nat
  | .publish _ => 11
  | .pull _ _ => 7
  | .register _ | .unsubscribe _ | .inject _ _ | .stats _ | .pullLog _ => 1

/-- What a pull can still lead to at this instant. -/
def burden (now : Nat) (p : WaitingPull) : Nat :=
  if (Broker.State.due now p).1.isSome then 10 else 5

/-- What a worker still has to do. -/
def workLeft : Worker → Nat
  | .reading => 1
  | .holding _ => 3
  | .ended => 0

/-- What the caller still has to do. -/
def Stage.burden : Stage → Nat
  | .reading => 3
  | .leaving => 1
  | .answered => 0

/-- The steps that are left, counted generously: a message is handed out, posted, taken in, put
into the queue and read. -/
def weight (a : Errand) : Nat :=
  (a.queue.map charge).sum + 9 * a.unread.length + a.pull.elim 0 (burden a.now) +
    4 * a.out.length + a.handing.toNat + 3 * a.frames.length + workLeft a.worker +
    a.deliveries.length + a.watching.toNat + Stage.burden a.stage

end Errand

end DemandFlow
