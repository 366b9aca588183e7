import DemandFlow.Exchange.Consume
import DemandFlow.Proofs.Consume.Order
import DemandFlow.Proofs.Exchange.Moves
import DemandFlow.Proofs.Lane.Run

/-
  Runs of an exchange with any number of consumers, on a broker or on a script, in which the
  owners of consumers, publishers, tasks and the clock come in any order. The record of a run
  keeps, beside the exchange, what becomes known of each subscription. Calls stand in line like
  any task; a task may look at its affairs at any time, whether it stands in line or not.
-/

namespace DemandFlow.Exchange

/-! ## Moves -/

/-- What can happen next. -/
inductive Move where
  | manual
  | fetch (s : FetchOptions.Settings)
  | consume (o : ConsumeOptions) (h : Handler)
  /-- The owner of a manual consumer asks for messages. -/
  | pull (sub : Nat) (w : Wish)
  | read (sub : Nat) (timeout : Span)
  | readAll (sub : Nat) (timeout : Span)
  /-- The messages of a fetch are asked for. -/
  | collect (sub : Nat) (mode : FetchMode)
  | drain (sub : Nat) (grace : Span)
  | stop (sub : Nat)
  | unsubscribe (sub : Nat)
  | discard (sub : Nat) (inside : Bool)
  | dropOrphans
  | publish (m : Message)
  /-- The broker has no owner any more. -/
  | letGo
  /-- The broker is asked to put a frame into a feed. -/
  | slip (inbox : String) (f : Frame)
  /-- A frame is put into the feed of a subscription, as long as that takes it. -/
  | feed (sub : Nat) (f : Frame)
  | closeFeed (inbox : String)
  /-- A script is told how to fail from now on. -/
  | fail (subscribe publish : Option TransportError)
  | clock (now : Nat)
  /-- The broker looks at its timers although commands wait. -/
  | timers
  /-- A task makes one step. -/
  | turn (t : Task)

/-- The broker has no owner any more; it ends when nobody else can send commands. -/
def letGo (x : Exchange) : Exchange :=
  (x.modifyLoopback fun l => { l with held := false }).wake .broker

/-- A script is told how to fail from now on. -/
def fail (x : Exchange) (subscribe publish : Option TransportError) : Exchange :=
  match x.transport with
  | .loopback _ => x
  | .scripted s =>
    { x with
      transport := .scripted { s with subscribeFault := subscribe, publishFault := publish } }

/-- A frame is put into a feed that takes it. -/
def feedFrame (x : Exchange) (i : Nat) (f : Frame) : Exchange :=
  match x.feeds[i]? with
  | none => x
  | some feed =>
    if feed.reading && !feed.isFull then
      (x.modifyFeed i (·.push f)).wakeAll (readerOf feed)
    else x

/-- The owner of a manual consumer asks for messages; other consumers have no such call. -/
def pullBy (x : Exchange) (i : Nat) (w : Wish) : Exchange :=
  match x.subs[i]? with
  | some { purpose := .manual, .. } => (x.pullFor i w).1
  | _ => x

/-- A drain that has something to wait for goes on in the background. -/
def drainBehind (x : Exchange) (i : Nat) (grace : Span) : Exchange :=
  match x.beginDrain i grace with
  | (x, .ok a) => (x.callBehind a).1
  | (x, .error _) => x

def next (x : Exchange) : Move → Exchange
  | .manual => x.openManual.1
  | .fetch s => (x.openFetch s).1
  | .consume o h => (x.openContinuous o h).1
  | .pull i w => x.pullBy i w
  | .read i timeout => (x.callBehind (.read i (x.dueIn timeout))).1
  | .readAll i timeout => (x.callBehind (.readAll i timeout (x.dueIn timeout) [])).1
  | .collect i mode => (x.callBehind (.fetch i mode)).1
  | .drain i grace => x.drainBehind i grace
  | .stop i => (((x.closeContinuous i).unsubscribe i).callBehind (.leave i .done)).1
  | .unsubscribe i => ((x.unsubscribe i).callBehind (.leave i .done)).1
  | .discard i inside => x.discard i inside
  | .dropOrphans => x.dropOrphans
  | .publish m => (x.publish m).1
  | .letGo => x.letGo
  | .slip inbox f => (x.send (.inject inbox f)).1
  | .feed i f => x.feedFrame i f
  | .closeFeed inbox => x.closeFeed inbox
  | .fail subscribe publish => x.fail subscribe publish
  | .clock now => x.ring now
  | .timers => x.fire 0
  | .turn t => (x.stepOf t).1

/-- The exchange after some moves. -/
def after (x : Exchange) (ms : List Move) : Exchange := ms.foldl next x

/-- A move by which no frame comes into a feed from elsewhere, with counts that fit a word. -/
def Move.Calm : Move → Prop
  | .slip _ _ | .feed _ _ => False
  | .pull _ w => ∀ r, w.request = .ok r → r.Fits
  | .fetch s => ∀ o, s.build = .ok o → o.request.Fits
  | .consume o _ => o.Fits
  | _ => True

/-! ## The record -/

/-- The request with which a subscription opens, if it opens. -/
def opening (x : Exchange) (p : Purpose) (r : PullRequest) : List (Nat × Deed) :=
  match (x.openSub p).2 with
  | .ok i => [(i, .pulled r)]
  | .error _ => []

/-- The frame that the broker sends or drops in its next step. -/
def sends (x : Exchange) : List (Nat × Deed) :=
  match x.transport with
  | .scripted _ => []
  | .loopback l =>
    match l.alive, l.broker.work x.now with
    | true, (b, some (inbox, f)) =>
      match x.feedAt? inbox with
      | some (i, feed) =>
        if b.knows inbox && feed.reading then if feed.isFull then [] else [(i, .sent f)]
        else [(i, .lost f)]
      | none => []
    | _, _ => []

/-- What becomes known when a worker reads. -/
def readDeeds (x : Exchange) (s : Subscription) : List Deed :=
  match (x.feeds[s.feed]?).map fun feed => (feed.frames.pop?, feed.writing) with
  | none => []
  | some (some (f, _), _) => s.frameDeeds f
  | some (none, true) =>
    match s.alarms with
    | [] => []
    | d :: _ => [.told (.alarm s.inbox d)]
  | some (none, false) => []

def workerDeeds (x : Exchange) (i : Nat) : List Deed :=
  match x.subs[i]? with
  | none => []
  | some s => if s.closed = false ∧ s.worker = .reading then x.readDeeds s else []

/-- What a look at the queue lets a reader know. -/
def Look.deeds : Look → List Deed
  | .taken d => [.read d]
  | .late => [.read none]
  | .waiting => []

def callerDeeds (x : Exchange) (id : Nat) : List (Nat × Deed) :=
  match (x.callers.find? fun c => c.id = id).map Caller.activity with
  | some (.read i due) | some (.readAll i _ due _) =>
    match x.subs[i]? with
    | none => []
    | some s => (x.look id i s due).2.deeds.map (i, ·)
  | some (.fetch i _) =>
    match x.subs[i]? with
    | some { purpose := .fetch f due, .. } =>
      if f.finished || f.isFull then []
      else ((x.subs[i]?).map fun s => (x.look id i s (some due)).2.deeds.map (i, ·)).getD []
    | _ => []
  | some (.leave i (.flag b)) =>
    match x.subs[i]? with
    | none => []
    | some s => if s.isOver then [(i, .drained b)] else []
  | _ => []

def turnDeeds (x : Exchange) : Task → List (Nat × Deed)
  | .broker => x.sends
  | .worker i => (x.workerDeeds i).map (i, ·)
  | .caller id => x.callerDeeds id
  | .alarm _ | .farewell _ => []

/-- What becomes known by a move. -/
def deeds (x : Exchange) : Move → List (Nat × Deed)
  | .fetch s =>
    match s.build with
    | .error _ => []
    | .ok o => x.opening (.fetch (.start o) (x.now + o.expires.nanos)) o.request
  | .consume o h => x.opening (.continuous (.start o h)) o.initial
  | .pull i w =>
    match x.subs[i]?, w.request with
    | some { purpose := .manual, closed := false, .. }, .ok r => [(i, .pulled r)]
    | _, _ => []
  | .drain i grace =>
    match x.subs[i]?, (x.beginDrain i grace).2 with
    | some _, .error b => [(i, .drained b)]
    | _, _ => []
  | .feed i f =>
    match x.feeds[i]? with
    | some feed => if feed.reading && !feed.isFull then [(i, .injected f)] else []
    | none => []
  | .turn t => x.turnDeeds t
  | _ => []

/-- What becomes known in a run, each with the number of its subscription. -/
def record (x : Exchange) : List Move → List (Nat × Deed)
  | [] => []
  | m :: ms => x.deeds m ++ (x.next m).record ms

theorem after_append (x : Exchange) (ms ns : List Move) :
    x.after (ms ++ ns) = (x.after ms).after ns := List.foldl_append

theorem record_append (x : Exchange) (ms ns : List Move) :
    x.record (ms ++ ns) = x.record ms ++ (x.after ms).record ns := by
  induction ms generalizing x with
  | nil => rfl
  | cons m ms ih =>
    have hrest := congrArg (x.deeds m ++ ·) (ih (x.next m))
    exact hrest.trans (List.append_assoc _ _ _).symm

/-- One move more. -/
theorem record_concat (x : Exchange) (ms : List Move) (m : Move) :
    x.record (ms ++ [m]) = x.record ms ++ (x.after ms).deeds m := by
  rw [record_append]
  exact congrArg _ (List.append_nil _)

/-- Whose deed it is: what a move may let become known of a subscription. -/
inductive Arises (x : Exchange) : Move → Nat × Deed → Prop where
  /-- A subscription opens with a request. -/
  | opened {m : Move} (r : PullRequest) : Arises x m (x.subs.size, .pulled r)
  | asked {i : Nat} {w : Wish} {s : Subscription} (hs : x.subs[i]? = some s)
      (hp : s.purpose = .manual) (r : PullRequest) : Arises x (.pull i w) (i, .pulled r)
  | refused (i : Nat) (grace : Span) (b : Bool) : Arises x (.drain i grace) (i, .drained b)
  | injected (i : Nat) (f : Frame) : Arises x (.feed i f) (i, .injected f)
  | sent (i : Nat) (f : Frame) : Arises x (.turn .broker) (i, .sent f)
  | lost (i : Nat) (f : Frame) : Arises x (.turn .broker) (i, .lost f)
  | worked {i : Nat} {d : Deed} (hd : d ∈ x.workerDeeds i) : Arises x (.turn (.worker i)) (i, d)
  | read (id i : Nat) (d : Option Delivery) : Arises x (.turn (.caller id)) (i, .read d)
  | drained (id i : Nat) (b : Bool) : Arises x (.turn (.caller id)) (i, .drained b)

section Arises

variable {x : Exchange} {q : Nat × Deed}

theorem arises_of_opening {m : Move} {p : Purpose} {r : PullRequest} (h : q ∈ x.opening p r) :
    Arises x m q := by
  unfold opening at h
  split at h
  · rename_i i hi
    rw [List.mem_singleton.1 h, eq_size_of_openSub hi]
    exact .opened r
  · cases h

theorem arises_of_sends (h : q ∈ x.sends) : Arises x (.turn .broker) q := by
  unfold sends at h
  split at h
  · cases h
  · split at h
    · split at h
      · split at h
        · split at h
          · cases h
          · rw [List.mem_singleton.1 h]
            exact .sent _ _
        · rw [List.mem_singleton.1 h]
          exact .lost _ _
      · cases h
    · cases h

theorem arises_of_look {id i : Nat} {k : Look} (h : q ∈ k.deeds.map (i, ·)) :
    Arises x (.turn (.caller id)) q := by
  obtain ⟨d, hd, rfl⟩ := List.mem_map.1 h
  cases k with
  | taken | late =>
    rw [List.mem_singleton.1 hd]
    exact .read _ _ _
  | waiting => cases hd

theorem arises_of_callerDeeds {id : Nat} (h : q ∈ x.callerDeeds id) :
    Arises x (.turn (.caller id)) q := by
  unfold callerDeeds at h
  split at h
  · split at h
    · cases h
    · exact arises_of_look h
  · split at h
    · cases h
    · exact arises_of_look h
  · split at h
    · split at h
      · cases h
      · rename_i hs _
        rw [hs] at h
        exact arises_of_look h
    · cases h
  · split at h
    · cases h
    · split at h
      · rw [List.mem_singleton.1 h]
        exact .drained _ _ _
      · cases h
  · cases h

theorem arises_of_mem {m : Move} (h : q ∈ x.deeds m) : Arises x m q := by
  cases m with
  | fetch s =>
    unfold deeds at h
    dsimp only at h
    split at h
    · cases h
    · exact arises_of_opening h
  | consume o hd => exact arises_of_opening h
  | pull i w =>
    unfold deeds at h
    dsimp only at h
    split at h
    · rename_i hs _
      rw [List.mem_singleton.1 h]
      exact .asked hs rfl _
    · cases h
  | drain i grace =>
    unfold deeds at h
    dsimp only at h
    split at h
    · rw [List.mem_singleton.1 h]
      exact .refused _ _ _
    · cases h
  | feed i f =>
    unfold deeds at h
    dsimp only at h
    split at h
    · split at h
      · rw [List.mem_singleton.1 h]
        exact .injected _ _
      · cases h
    · cases h
  | turn t =>
    cases t with
    | broker => exact arises_of_sends h
    | worker i =>
      obtain ⟨d, hd, rfl⟩ := List.mem_map.1 h
      exact .worked hd
    | caller id => exact arises_of_callerDeeds h
    | alarm i | farewell i => cases h
  | _ => cases h

end Arises

end DemandFlow.Exchange

namespace DemandFlow

/-- What became known of one subscription. -/
def deedsOf (i : Nat) (past : List (Nat × Deed)) : List Deed :=
  (past.filter fun p => p.1 = i).map Prod.snd

theorem deedsOf_append (i : Nat) (past new : List (Nat × Deed)) :
    deedsOf i (past ++ new) = deedsOf i past ++ deedsOf i new := by
  simp [deedsOf]

/-- What nobody has a number for did nothing. -/
theorem deedsOf_eq_nil {i n : Nat} {new : List (Nat × Deed)} (h : ∀ p ∈ new, p.1 < n)
    (hi : n ≤ i) : deedsOf i new = [] := by
  refine List.map_eq_nil_iff.2 (List.filter_eq_nil_iff.2 fun p hp hd => ?_)
  have hlt := h p hp
  have heq : p.1 = i := of_decide_eq_true hd
  omega

theorem deedsOf_self (i : Nat) (ds : List Deed) : deedsOf i (ds.map (i, ·)) = ds := by
  unfold deedsOf
  rw [List.filter_eq_self.2]
  · rw [List.map_map]
    exact List.map_id ds
  · intro p hp
    obtain ⟨d, _, rfl⟩ := List.mem_map.1 hp
    simp

theorem deedsOf_other {i j : Nat} (h : j ≠ i) (ds : List Deed) :
    deedsOf j (ds.map (i, ·)) = [] := by
  unfold deedsOf
  rw [List.filter_eq_nil_iff.2]
  · rfl
  · intro p hp
    obtain ⟨d, _, rfl⟩ := List.mem_map.1 hp
    simpa using fun e : i = j => h e.symm

end DemandFlow
