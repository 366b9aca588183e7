import DemandFlow.Broker.Waiting

/-
  The broker: one stream, a cursor that all subscriptions share, and the pulls that wait in order
  of arrival. A command is taken in as a list of chores, and the chores are worked off one by
  one: a frame is posted to an inbox, the stream is handed out, a pull that does not wait is
  ended. Posting can be held up by a full feed, so it is left to the caller of `work`.
-/

namespace DemandFlow.Broker

/-- What a broker is asked to do; the two questions name the one who asks. -/
inductive Command where
  | publish (m : Message)
  | register (inbox : String)
  | pull (inbox : String) (r : PullRequest)
  | unsubscribe (inbox : String)
  | inject (inbox : String) (f : Frame)
  | stats (asker : Nat)
  | pullLog (asker : Nat)
deriving DecidableEq

/-- A piece of work that is still to be done. -/
inductive Chore where
  | post (inbox : String) (f : Frame)
  | handOut
  | endNoWait (inbox : String)
deriving DecidableEq

structure Stats where
  published : Nat
  delivered : Nat
  pullRequests : Nat
  waiting : Nat
deriving DecidableEq

def Stats.zero : Stats := ⟨0, 0, 0, 0⟩

/-- The figures as the last log entry of a broker shows them. -/
def Stats.text (s : Stats) : String :=
  s!"BrokerStats \x7b published: {s.published}, delivered: {s.delivered}, "
    ++ s!"pull_requests: {s.pullRequests}, waiting: {s.waiting} \x7d"

structure State where
  limits : Limits
  stream : Array Message
  cursor : Nat
  /-- Inboxes of the subscriptions that are registered. -/
  inboxes : List String
  waiting : List WaitingPull
  /-- Every request that reached the broker, the latest first. -/
  received : List PullRequest
  delivered : Nat
  agenda : List Chore

namespace State

def start (l : Limits) : State := ⟨l, #[], 0, [], [], [], 0, []⟩

def knows (b : State) (inbox : String) : Bool := b.inboxes.contains inbox

def stats (b : State) : Stats :=
  ⟨b.stream.size, b.delivered, b.received.length, b.waiting.length⟩

/-- The requests in order of arrival. -/
def pullLog (b : State) : List PullRequest := b.received.reverse

/-- Put chores in front of all others. -/
def first (b : State) (cs : List Chore) : State := { b with agenda := cs ++ b.agenda }

/-- Drop a subscription together with its pulls. -/
def forget (b : State) (inbox : String) : State :=
  { b with
    inboxes := b.inboxes.filter (· != inbox)
    waiting := b.waiting.filter fun p => p.inbox != inbox }

/-! ## Commands -/

/-- Take on a request, or refuse it. A request for an inbox that nobody registered is only
remembered. -/
def request (now : Nat) (inbox : String) (r : PullRequest) (b : State) : State :=
  let b := { b with received := r :: b.received }
  if b.knows inbox then
    match b.limits.refusal? b.waiting.length r with
    | some s => b.first [.post inbox (.status s)]
    | none =>
      let pull := WaitingPull.ofRequest inbox r now b.limits.heartbeats
      { b with waiting := b.waiting ++ [pull] }.first
        (if r.noWait then [.handOut, .endNoWait inbox] else [.handOut])
  else b

def accept (now : Nat) (c : Command) (b : State) : State :=
  match c with
  | .publish m => { b with stream := b.stream.push m }.first [.handOut]
  | .register inbox => { b with inboxes := inbox :: b.inboxes.filter (· != inbox) }
  | .pull inbox r => b.request now inbox r
  | .unsubscribe inbox => b.forget inbox
  | .inject inbox f => b.first [.post inbox f]
  | .stats _ => b
  | .pullLog _ => b

/-! ## Chores -/

/-- The status that ends a pull whose budget cannot take the next message. -/
def stopText (p : WaitingPull) : String :=
  if p.begun then StatusText.batchCompleted else StatusText.messageTooLarge

/-- The posts for a message that is handed out: the message, and the closing status when it
spends the byte budget without filling the batch. -/
def handed (p : WaitingPull) (m : Message) : List Chore :=
  .post p.inbox (.message m) ::
    if p.isSpent && !p.isFilled then
      [.post p.inbox (.status (p.closing Code.conflict StatusText.batchCompleted))]
    else []

/-- Hand out the message at the cursor to the pull that has waited longest, or end that pull
when the message passes its budget; then go on with handing out. -/
def handOut (now : Nat) (b : State) : State :=
  match b.stream[b.cursor]?, b.waiting with
  | some m, p :: rest =>
    if p.refuses m.size then
      { b with waiting := rest }.first
        [.post p.inbox (.status (p.closing Code.conflict (stopText p))), .handOut]
    else
      let q := p.charged m.size now
      { b with
        cursor := b.cursor + 1
        delivered := b.delivered + 1
        waiting := if q.isFilled || q.isSpent then rest else q :: rest }.first
        (handed q m ++ [Chore.handOut])
  | _, _ => b

/-- Remove the last pull of an inbox, if it has one. -/
def removeLast (inbox : String) : List WaitingPull → Option (WaitingPull × List WaitingPull)
  | [] => none
  | p :: rest =>
    match removeLast inbox rest with
    | some (q, rest) => some (q, p :: rest)
    | none => if p.inbox == inbox then some (p, rest) else none

/-- End the pull that was taken on last for an inbox. -/
def endNoWait (inbox : String) (b : State) : State :=
  match removeLast inbox b.waiting with
  | none => b
  | some (p, rest) =>
    { b with waiting := rest }.first
      [.post inbox (.status (p.closing Code.notFound StatusText.noMessages))]

/-- Do the first chore that is no post; a post is handed over with the broker that is left
once it is done. -/
def work (now : Nat) (b : State) : State × Option (String × Frame) :=
  match b.agenda with
  | [] => (b, none)
  | .post inbox f :: rest => ({ b with agenda := rest }, some (inbox, f))
  | .handOut :: rest => ({ b with agenda := rest }.handOut now, none)
  | .endNoWait inbox :: rest => ({ b with agenda := rest }.endNoWait inbox, none)

/-! ## Timers -/

/-- What becomes of one pull at `now`: the frame that is due, and the pull if it still waits. -/
def due (now : Nat) (p : WaitingPull) : Option Frame × Option WaitingPull :=
  if (p.expiresAt.filter (· ≤ now)).isSome then
    (some (.status (p.closing Code.requestTimeout StatusText.requestTimeout)), none)
  else
    match p.beatsAt.filter (· ≤ now), p.heartbeat with
    | some _, some d =>
      (some (.status (.plain Code.heartbeat StatusText.idleHeartbeat)),
        some { p with beatsAt := some (now + d.nanos) })
    | _, _ => (none, some p)

/-- Settle everything that is due at `now`. -/
def fireTimers (now : Nat) (b : State) : State :=
  { b with waiting := b.waiting.filterMap fun p => (due now p).2 }.first
    (b.waiting.filterMap fun p => (due now p).1.map (Chore.post p.inbox))

/-- When the broker next has something to do by itself. -/
def deadline (b : State) : Option Nat :=
  b.waiting.foldl (fun d p => WaitingPull.earlier d p.deadline) none

/-! ## First facts -/

theorem stats_start (l : Limits) : (start l).stats = Stats.zero := rfl

theorem knows_forget (b : State) (inbox : String) : (b.forget inbox).knows inbox = false := by
  simp [knows, forget]

theorem stream_handOut (now : Nat) (b : State) : (b.handOut now).stream = b.stream := by
  unfold handOut
  split
  · split <;> rfl
  · rfl

theorem handOut_of_end {now : Nat} {b : State} (h : b.stream.size ≤ b.cursor) :
    b.handOut now = b := by
  unfold handOut
  rw [Array.getElem?_eq_none h]

theorem handOut_of_idle {now : Nat} {b : State} (h : b.waiting = []) : b.handOut now = b := by
  unfold handOut
  rw [h]
  split <;> simp_all

theorem removeLast_eq_none_iff {inbox : String} {ps : List WaitingPull} :
    removeLast inbox ps = none ↔ ∀ p ∈ ps, p.inbox ≠ inbox := by
  induction ps with
  | nil => simp [removeLast]
  | cons p rest ih =>
    unfold removeLast
    split
    · rename_i h
      simp only [reduceCtorEq, false_iff]
      intro hall
      rw [ih.2 fun q hq => hall q (List.mem_cons_of_mem _ hq)] at h
      cases h
    · rename_i h
      by_cases hp : p.inbox = inbox
      · simp [hp]
      · simp only [beq_iff_eq, hp, if_false, true_iff]
        intro q hq
        rcases List.mem_cons.1 hq with rfl | hq
        · exact hp
        · exact ih.1 h q hq

end State

end DemandFlow.Broker
