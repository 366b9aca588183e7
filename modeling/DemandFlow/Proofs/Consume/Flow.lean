import DemandFlow.Consumer.Refill
import DemandFlow.Proofs.Frame.Kinds
import Mathlib.Logic.Relation

/-
  The flow between one continuous consumer and its broker, without feeds, tasks and clocks: the
  stream on both sides of the cursor, the pulls that wait, frames on their way, commands in line,
  the demand of the consumer, and a record of what was stored and what was taken in. `Step` says
  all that can happen to it; instants are left open. What a run keeps is shown on flows first.
-/

namespace DemandFlow

open Broker (Command Chore WaitingPull asked held posted carried)

/-! ## Messages among frames and commands -/

/-- The messages among some frames. -/
def messagesOf (fs : List Frame) : List Message := fs.filterMap Frame.message?

theorem messagesOf_append (fs gs : List Frame) :
    messagesOf (fs ++ gs) = messagesOf fs ++ messagesOf gs := List.filterMap_append

namespace Broker

/-- The message that a command publishes. -/
def Command.message? : Command → Option Message
  | .publish m => some m
  | .register _ | .pull _ _ | .unsubscribe _ | .inject _ _ | .stats _ | .pullLog _ => none

/-- The messages that some commands publish. -/
def publishedBy (cs : List Command) : List Message := cs.filterMap Command.message?

theorem publishedBy_append (cs ds : List Command) :
    publishedBy (cs ++ ds) = publishedBy cs ++ publishedBy ds := List.filterMap_append

theorem publishedBy_publish (ms : List Message) : publishedBy (ms.map Command.publish) = ms := by
  induction ms with
  | nil => rfl
  | cons m ms ih => exact congrArg (m :: ·) ih

/-- The frames for a message that is handed out for a pull, of which `p` is left. -/
def handedFrames (p : WaitingPull) (m : Message) : List Frame :=
  .message m ::
    if p.isSpent && !p.isFilled then
      [.status (p.closing Code.conflict StatusText.batchCompleted)]
    else []

theorem handed_eq_map (p : WaitingPull) (m : Message) :
    State.handed p m = (handedFrames p m).map (Chore.post p.inbox) := by
  unfold State.handed handedFrames
  split
  · rfl
  · rfl

/-- The posts of what is due, where all pulls are for one inbox. -/
theorem posts_due {inbox : String} {ps : List WaitingPull} (h : ∀ p ∈ ps, p.inbox = inbox)
    (now : Nat) :
    (ps.filterMap fun p => (State.due now p).1.map (Chore.post p.inbox)) =
      (ps.filterMap fun p => (State.due now p).1).map (Chore.post inbox) := by
  induction ps with
  | nil => rfl
  | cons p ps ih =>
    have hp := h p List.mem_cons_self
    have hps := ih fun q hq => h q (List.mem_cons_of_mem _ hq)
    rw [List.filterMap_cons, List.filterMap_cons, hps, hp]
    cases (State.due now p).1 with
    | none => rfl
    | some f => rfl

/-- What posts to an inbox bring is what their frames stand for. -/
theorem posted_map (inbox : String) (fs : List Frame) :
    posted inbox (fs.map (Chore.post inbox)) = carried fs := by
  induction fs with
  | nil => rfl
  | cons f fs ih =>
    rw [List.map_cons, posted_cons, carried_cons, ih]
    exact congrArg (· + carried fs) (if_pos rfl)

/-- A pull goes on to wait unless its messages or its bytes have run out. -/
def goesOn (p : WaitingPull) : List WaitingPull := if p.isFilled || p.isSpent then [] else [p]

end Broker

/-- The request that consumption sends after a frame was taken in and demand `d` is left. -/
def RefillPlan.after (plan : RefillPlan) (d : Demand) (f : Frame) : Option PullRequest :=
  if f.reacts then plan.next? d else none

/-! ## Flows -/

structure Flow where
  /-- Messages of the stream that were handed out. -/
  given : List Message
  /-- Messages of the stream that were not. -/
  unread : List Message
  waiting : List WaitingPull
  /-- Frames that the broker still has to post. -/
  out : List Frame
  /-- Whether the broker will look at the stream again. -/
  handing : Bool
  /-- Commands that the broker has not taken in. -/
  queue : List Command
  /-- Frames in the feed. -/
  frames : List Frame
  demand : Demand
  /-- All messages that were published, as they are stored. -/
  stored : List Message
  /-- All frames that the consumer took in. -/
  taken : List Frame

namespace Flow

/-- A consumer that has sent its first request. Of the messages that were published before, some
are on the stream, perhaps with the broker about to look at it, and some are still in line. -/
def start (inbox : String) (plan : RefillPlan) (unread : List Message) (handing : Bool)
    (ms : List Message) : Flow where
  given := []
  unread := unread
  waiting := []
  out := []
  handing := handing
  queue := ms.map Command.publish ++ [.pull inbox plan.initial.onWire]
  frames := []
  demand := .add .none plan.initial
  stored := unread ++ ms
  taken := []

/-- The demand with a request added, if there is one. -/
def plus (d : Demand) (r : Option PullRequest) : Demand := r.elim d d.add

/-- The command for a request, if there is one. -/
def sent (inbox : String) (r : Option PullRequest) : List Command :=
  (r.map fun r => Command.pull inbox r.onWire).toList

/-- The consumer takes in the first frame. Its handler may publish, and it may ask for more. -/
def manage (inbox : String) (plan : RefillPlan) (a : Flow) (f : Frame) (rest : List Frame)
    (ms : List Message) : Flow :=
  let r := plan.after (a.demand.take f) f
  { a with
    frames := rest
    demand := plus (a.demand.take f) r
    queue := a.queue ++ (ms.map Command.publish ++ sent inbox r)
    stored := a.stored ++ ms
    taken := a.taken ++ [f] }

/-- The broker is between two commands. -/
def IsIdle (a : Flow) : Prop := a.out = [] ∧ a.handing = false

/-- A step of anyone but the consumer. -/
inductive Transit (inbox : String) : Flow → Flow → Prop
  /-- A message is published. -/
  | publish (a : Flow) (m : Message) :
    Transit inbox a { a with queue := a.queue ++ [.publish m], stored := a.stored ++ [m] }
  /-- The broker stores a message. -/
  | store (a : Flow) (m : Message) (rest : List Command) (idle : a.IsIdle)
    (next : a.queue = .publish m :: rest) :
    Transit inbox a { a with queue := rest, unread := a.unread ++ [m], handing := true }
  /-- The broker takes on a request. -/
  | grant (a : Flow) (r : PullRequest) (rest : List Command) (now : Nat) (beats : Bool)
    (idle : a.IsIdle) (next : a.queue = .pull inbox r :: rest) :
    Transit inbox a { a with
      queue := rest
      waiting := a.waiting ++ [.ofRequest inbox r now beats]
      handing := true }
  /-- A frame is posted. -/
  | post (a : Flow) (f : Frame) (rest : List Frame) (next : a.out = f :: rest) :
    Transit inbox a { a with out := rest, frames := a.frames ++ [f] }
  /-- There is nothing to hand out. -/
  | settle (a : Flow) (clear : a.out = []) (done : a.unread = [] ∨ a.waiting = []) :
    Transit inbox a { a with handing := false }
  /-- The next message passes the budget of the first pull. -/
  | refuse (a : Flow) (m : Message) (ms : List Message) (p : WaitingPull) (ps : List WaitingPull)
    (clear : a.out = []) (handing : a.handing = true) (message : a.unread = m :: ms)
    (pull : a.waiting = p :: ps) (refuses : p.refuses m.size = true) :
    Transit inbox a { a with
      waiting := ps
      out := [.status (p.closing Code.conflict (Broker.State.stopText p))] }
  /-- The next message is handed out for the first pull. -/
  | hand (a : Flow) (m : Message) (ms : List Message) (p : WaitingPull) (ps : List WaitingPull)
    (now : Nat) (clear : a.out = []) (handing : a.handing = true) (message : a.unread = m :: ms)
    (pull : a.waiting = p :: ps) (takes : p.refuses m.size = false) :
    Transit inbox a { a with
      given := a.given ++ [m]
      unread := ms
      waiting := Broker.goesOn (p.charged m.size now) ++ ps
      out := Broker.handedFrames (p.charged m.size now) m }
  /-- The broker settles what is due. -/
  | timers (a : Flow) (now : Nat) (idle : a.IsIdle) :
    Transit inbox a { a with
      waiting := a.waiting.filterMap fun p => (Broker.State.due now p).2
      out := a.waiting.filterMap fun p => (Broker.State.due now p).1 }

/-- A step of a flow. -/
inductive Step (inbox : String) (plan : RefillPlan) : Flow → Flow → Prop
  | transit {a b : Flow} (h : Transit inbox a b) : Step inbox plan a b
  /-- The consumer takes in a frame; only a message makes its handler publish. -/
  | manage (a : Flow) (f : Frame) (rest : List Frame) (ms : List Message)
    (next : a.frames = f :: rest) (quiet : f.message? = none → ms = []) :
    Step inbox plan a (a.manage inbox plan f rest ms)

/-- The flows that a consumer and its broker can come to. -/
inductive Reached (inbox : String) (plan : RefillPlan) : Flow → Prop
  | start (unread : List Message) (handing : Bool) (ms : List Message) :
    Reached inbox plan (.start inbox plan unread handing ms)
  | next {a b : Flow} (reached : Reached inbox plan a) (step : Step inbox plan a b) :
    Reached inbox plan b

/-- The frames that are on their way, the next one first. -/
def flying (a : Flow) : List Frame := a.frames ++ a.out

/-- The messages that are on their way: asked for, held by pulls, or carried by frames. -/
def total (inbox : String) (a : Flow) : Nat :=
  asked inbox a.queue + held inbox a.waiting + carried a.flying

end Flow

end DemandFlow
