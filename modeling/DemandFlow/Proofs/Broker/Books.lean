import DemandFlow.Proofs.Broker.Steps

/-
  The books of a broker. An `Event` is what moves a broker: a command or the timers, each once
  all chores are done, or the next chore. Beside the broker runs a record of what the broker does
  for each pull: every pull on a registered inbox has a number and a ticket, the queue shows the
  waiting pulls with their numbers, and the letters are what was sent for the pulls, in order of
  time. The broker does not read the books. That the queue is the broker's, and that the letters
  are the frames that it hands over, is `Tied`; that numbers, tickets and mail go together is
  `Orderly`.
-/

namespace DemandFlow.Broker

/-! ## Events -/

/-- What moves a broker. A chore that hands a frame to a feed that is `gone` makes the broker
forget its inbox. -/
inductive Event where
  | command (now : Nat) (c : Command)
  | timers (now : Nat)
  | chore (now : Nat) (gone : Bool)

namespace State

/-- The broker once a frame was handed to the feed of an inbox. -/
def told (b : State) (inbox : String) (gone : Bool) : State :=
  if gone && b.knows inbox then b.forget inbox else b

/-- Commands and timers have to wait until all chores are done. -/
def react (b : State) : Event → State
  | .command now c => if b.agenda.isEmpty then b.accept now c else b
  | .timers now => if b.agenda.isEmpty then b.fireTimers now else b
  | .chore now gone =>
    match b.work now with
    | (b, none) => b
    | (b, some (inbox, _)) => b.told inbox gone

/-- The frame that an event hands over, with its inbox. -/
def handsOver (b : State) : Event → List (String × Frame)
  | .command _ _ | .timers _ => []
  | .chore now _ => (b.work now).2.toList

end State

/-! ## Chores that are posts -/

def Chore.isPost : Chore → Bool
  | .post _ _ => true
  | .handOut | .endNoWait _ => false

def Chore.post? : Chore → Option (String × Frame)
  | .post inbox f => some (inbox, f)
  | .handOut | .endNoWait _ => none

/-- The frames that are still to be posted. -/
def posts (cs : List Chore) : List (String × Frame) := cs.filterMap Chore.post?

/-- Posts stand before all other chores. -/
def Tidy (cs : List Chore) : Prop := cs.Pairwise fun c d => d.isPost = true → c.isPost = true

theorem posts_append (cs ds : List Chore) : posts (cs ++ ds) = posts cs ++ posts ds :=
  List.filterMap_append

theorem posts_eq_nil {cs : List Chore} (h : ∀ c ∈ cs, c.isPost = false) : posts cs = [] := by
  refine List.filterMap_eq_nil_iff.2 fun c hc => ?_
  have := h c hc
  cases c <;> simp_all [Chore.isPost, Chore.post?]

theorem not_post_of_tidy {c : Chore} {cs : List Chore} (h : Tidy (c :: cs))
    (hc : c.isPost = false) : ∀ d ∈ cs, d.isPost = false := by
  intro d hd
  have := (List.pairwise_cons.1 h).1 d hd
  simp_all

theorem tidy_of_not_post {cs : List Chore} (h : ∀ c ∈ cs, c.isPost = false) : Tidy cs :=
  List.pairwise_of_forall_mem_list fun _ _ d hd hp => by simp [h d hd] at hp

theorem tidy_posts_append {cs ds : List Chore} (hc : ∀ c ∈ cs, c.isPost = true) (hd : Tidy ds) :
    Tidy (cs ++ ds) := by
  refine List.pairwise_append.2 ⟨?_, hd, fun c hm _ _ _ => hc c hm⟩
  exact List.pairwise_of_forall_mem_list fun c hm _ _ _ => hc c hm

/-! ## What becomes of a pull -/

/-- What is sent for a pull. -/
inductive Mail where
  | message (m : Message)
  | refusal (s : Status)
  | closing (s : Status)
  | beat (s : Status)

namespace Mail

def frame : Mail → Frame
  | .message m => .message m
  | .refusal s => .status s
  | .closing s => .status s
  | .beat s => .status s

def isBeat : Mail → Bool
  | .beat _ => true
  | .message _ | .refusal _ | .closing _ => false

end Mail

/-- The pull that is left, if it still waits, and what is sent for it. -/
structure Fate where
  left : Option WaitingPull
  mail : List Mail

namespace Fate

def stay (p : WaitingPull) : Fate := ⟨some p, []⟩

def ended (code : Nat) (text : String) (p : WaitingPull) : Fate :=
  ⟨none, [.closing (p.closing code text)]⟩

/-- A message is handed out for the pull, which ends when it is filled or has spent its bytes. -/
def served (now : Nat) (m : Message) (p : WaitingPull) : Fate :=
  let q := p.charged m.size now
  ⟨if q.isFilled || q.isSpent then none else some q,
    .message m ::
      if q.isSpent && !q.isFilled then
        [.closing (q.closing Code.conflict StatusText.batchCompleted)]
      else []⟩

/-- The pull is the first in line for a message. -/
def offered (now : Nat) (m : Message) (p : WaitingPull) : Fate :=
  if p.refuses m.size then ended Code.conflict (State.stopText p) p else served now m p

/-- The timers look at the pull. -/
def timed (now : Nat) (p : WaitingPull) : Fate :=
  match State.due now p with
  | (some (.status s), none) => ⟨none, [.closing s]⟩
  | (some (.status s), some q) => ⟨some q, [.beat s]⟩
  | (_, q) => ⟨q, []⟩

/-- The pull with number `n` meets its fate and all others stay. -/
def only (n : Nat) (f : WaitingPull → Fate) (k : Nat) (p : WaitingPull) : Fate :=
  if k = n then f p else stay p

end Fate

/-! ## Books -/

/-- A pull that reached the broker on a registered inbox. -/
structure Ticket where
  inbox : String
  request : PullRequest
  /-- Whether the inbox was forgotten since. -/
  forgotten : Bool

/-- What is sent: for the pull with a number, or slipped in. -/
inductive Letter where
  | mail (pull : Nat) (inbox : String) (m : Mail)
  | injected (inbox : String) (f : Frame)

def Letter.post : Letter → String × Frame
  | .mail _ inbox m => (inbox, m.frame)
  | .injected inbox f => (inbox, f)

def Letter.chore (l : Letter) : Chore := .post l.post.1 l.post.2

theorem posts_chores (ls : List Letter) : posts (ls.map Letter.chore) = ls.map Letter.post := by
  induction ls with
  | nil => rfl
  | cons l ls ih =>
    rw [List.map_cons, List.map_cons, ← ih]
    rfl

/-- A pull's number is its place among the tickets. -/
structure Books where
  tickets : List Ticket
  queue : List (Nat × WaitingPull)
  letters : List Letter

namespace Books

def empty : Books := ⟨[], [], []⟩

/-- Every waiting pull meets its fate. -/
def settle (f : Nat → WaitingPull → Fate) (k : Books) : Books :=
  { k with
    queue := k.queue.filterMap fun e => (f e.1 e.2).left.map fun q => (e.1, q)
    letters := k.letters ++
      k.queue.flatMap fun e => (f e.1 e.2).mail.map fun m => .mail e.1 e.2.inbox m }

def issue (inbox : String) (r : PullRequest) (k : Books) : Books :=
  { k with tickets := k.tickets ++ [⟨inbox, r, false⟩] }

/-- A pull that is refused gets a number all the same. -/
def refuse (inbox : String) (r : PullRequest) (s : Status) (k : Books) : Books :=
  { k.issue inbox r with letters := k.letters ++ [.mail k.tickets.length inbox (.refusal s)] }

def accept (inbox : String) (r : PullRequest) (p : WaitingPull) (k : Books) : Books :=
  { k.issue inbox r with queue := k.queue ++ [(k.tickets.length, p)] }

/-- An inbox is forgotten. -/
def strike (inbox : String) (k : Books) : Books :=
  { k with
    tickets := k.tickets.map fun t => if t.inbox = inbox then { t with forgotten := true } else t
    queue := k.queue.filter fun e => e.2.inbox != inbox }

def inject (inbox : String) (f : Frame) (k : Books) : Books :=
  { k with letters := k.letters ++ [.injected inbox f] }

def writeCommand (b : State) (now : Nat) (k : Books) : Command → Books
  | .pull inbox r =>
    if b.knows inbox then
      match b.limits.refusal? b.waiting.length r with
      | some s => k.refuse inbox r s
      | none => k.accept inbox r (.ofRequest inbox r now b.limits.heartbeats)
    else k
  | .unsubscribe inbox => k.strike inbox
  | .inject inbox f => k.inject inbox f
  | .publish _ | .register _ | .stats _ | .pullLog _ => k

/-- The last waiting pull of an inbox, with its number. -/
def lastOf (inbox : String) (k : Books) : Option (Nat × WaitingPull) :=
  (k.queue.filter fun e => e.2.inbox == inbox).getLast?

def writeChore (b : State) (now : Nat) (gone : Bool) (k : Books) : Books :=
  match b.agenda with
  | [] => k
  | .post inbox _ :: _ => if gone && b.knows inbox then k.strike inbox else k
  | .handOut :: _ =>
    match b.stream[b.cursor]?, k.queue with
    | some m, e :: _ => k.settle (Fate.only e.1 (Fate.offered now m))
    | _, _ => k
  | .endNoWait inbox :: _ =>
    match k.lastOf inbox with
    | some e => k.settle (Fate.only e.1 (Fate.ended Code.notFound StatusText.noMessages))
    | none => k

/-- Write down what an event does to the pulls of a broker. -/
def write (b : State) (k : Books) : Event → Books
  | .command now c => if b.agenda.isEmpty then k.writeCommand b now c else k
  | .timers now => if b.agenda.isEmpty then k.settle fun _ p => Fate.timed now p else k
  | .chore now gone => k.writeChore b now gone

end Books

/-! ## Histories -/

/-- A broker with its books and with everything that it has handed over to feeds. -/
structure History where
  broker : State
  books : Books
  sent : List (String × Frame)

namespace History

def start (l : Limits) : History := ⟨.start l, .empty, []⟩

def next (x : History) (e : Event) : History :=
  ⟨x.broker.react e, x.books.write x.broker e, x.sent ++ x.broker.handsOver e⟩

/-- The history of a broker with these limits after some events. -/
def after (l : Limits) (es : List Event) : History := es.foldl next (start l)

theorem after_append (l : Limits) (es fs : List Event) :
    after l (es ++ fs) = fs.foldl next (after l es) := List.foldl_append

/-- The broker goes its way without the books. -/
theorem broker_foldl (x : History) (es : List Event) :
    (es.foldl next x).broker = es.foldl State.react x.broker := by
  induction es generalizing x with
  | nil => rfl
  | cons e es ih => exact ih (x.next e)

/-- The queue is the broker's, and the letters are what was handed over and then what is still to
be posted. -/
structure Tied (x : History) : Prop where
  queue : x.books.queue.map Prod.snd = x.broker.waiting
  tidy : Tidy x.broker.agenda
  letters : x.books.letters.map Letter.post = x.sent ++ posts x.broker.agenda

end History

/-! ## Laws of the books -/

namespace Books

/-- Numbers go up along the queue; whoever waits has a valid ticket, and nobody without a ticket
gets mail. -/
structure Orderly (k : Books) : Prop where
  numbered : k.queue.Pairwise fun d e => d.1 < e.1
  queued : ∀ e ∈ k.queue, ∃ t, k.tickets[e.1]? = some t ∧ t.inbox = e.2.inbox ∧ t.forgotten = false
  mailed : ∀ n inbox m, .mail n inbox m ∈ k.letters → n < k.tickets.length

theorem lt_of_queued {k : Books} (h : k.Orderly) {e : Nat × WaitingPull} (he : e ∈ k.queue) :
    e.1 < k.tickets.length := by
  obtain ⟨t, ht, _⟩ := h.queued e he
  exact (List.getElem?_eq_some_iff.1 ht).1

section Settle

variable {n : Nat} {f : WaitingPull → Fate} {es : List (Nat × WaitingPull)}

theorem filterMap_only (h : ∀ e ∈ es, e.1 ≠ n) :
    es.filterMap (fun e => (Fate.only n f e.1 e.2).left.map fun q => (e.1, q)) = es := by
  induction es with
  | nil => rfl
  | cons e es ih =>
    have he := h e List.mem_cons_self
    have hes := ih fun d hd => h d (List.mem_cons_of_mem _ hd)
    rw [List.filterMap_cons, hes]
    simp [Fate.only, he, Fate.stay]

theorem flatMap_only (h : ∀ e ∈ es, e.1 ≠ n) :
    es.flatMap (fun e => (Fate.only n f e.1 e.2).mail.map fun m =>
      Letter.mail e.1 e.2.inbox m) = [] := by
  refine List.flatMap_eq_nil_iff.2 fun e he => ?_
  simp [Fate.only, h e he, Fate.stay]

/-- What becomes of one pull in the queue touches no other. -/
theorem settle_only {k : Books} (h : k.Orderly) {p : WaitingPull} {xs ys : List (Nat × WaitingPull)}
    (hq : k.queue = xs ++ (n, p) :: ys) :
    (k.settle (Fate.only n f)).queue =
        xs ++ (((f p).left.map fun q => (n, q)).toList ++ ys) ∧
      (k.settle (Fate.only n f)).letters = k.letters ++ (f p).mail.map (.mail n p.inbox) := by
  have hp := h.numbered
  rw [hq, List.pairwise_append] at hp
  obtain ⟨_, hys, hxs⟩ := hp
  have hx : ∀ e ∈ xs, e.1 ≠ n := fun e he => Nat.ne_of_lt (hxs e he (n, p) List.mem_cons_self)
  have hy : ∀ e ∈ ys, e.1 ≠ n := fun e he =>
    Nat.ne_of_gt ((List.pairwise_cons.1 hys).1 e he)
  have hn : Fate.only n f n p = f p := if_pos rfl
  constructor
  · show k.queue.filterMap _ = _
    rw [hq, List.filterMap_append, List.filterMap_cons, filterMap_only hx, filterMap_only hy, hn]
    cases (f p).left <;> rfl
  · show k.letters ++ k.queue.flatMap _ = _
    rw [hq, List.flatMap_append, List.flatMap_cons, flatMap_only hx, flatMap_only hy, hn]
    simp

end Settle

theorem queue_strike (inbox : String) (k : Books) :
    (k.strike inbox).queue.map Prod.snd =
      (k.queue.map Prod.snd).filter fun p => p.inbox != inbox := by
  rw [List.filter_map]
  rfl

theorem lastOf_eq_none {k : Books} {inbox : String} (h : ∀ e ∈ k.queue, e.2.inbox ≠ inbox) :
    k.lastOf inbox = none := by
  unfold lastOf
  rw [List.filter_eq_nil_iff.2 fun e he => by simpa using h e he]
  rfl

theorem lastOf_eq_some {k : Books} {inbox : String} {e : Nat × WaitingPull}
    {xs ys : List (Nat × WaitingPull)} (hq : k.queue = xs ++ e :: ys) (he : e.2.inbox = inbox)
    (h : ∀ d ∈ ys, d.2.inbox ≠ inbox) : k.lastOf inbox = some e := by
  have hys : ys.filter (fun d => d.2.inbox == inbox) = [] :=
    List.filter_eq_nil_iff.2 fun d hd => by simpa using h d hd
  unfold lastOf
  rw [hq, List.filter_append, List.filter_cons_of_pos (by simpa using he), hys,
    List.getLast?_append]
  rfl

end Books

end DemandFlow.Broker
