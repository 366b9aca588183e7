import DemandFlow.Proofs.Fetch.Errand

/-
  What holds throughout an errand. The stream, the commands in line and what was handed out make
  up what was offered, in order; as long as the caller reads, what it has got and what is on its
  way to it are what was handed out, with the end of the batch behind it once the pull has ended;
  and when it leaves, it has got the longest batch that is admitted. Nothing is left to come when
  the fetch expires, and the broker beats often enough to keep the monitor quiet.
-/

namespace DemandFlow

open Broker (Command WaitingPull weigh publishedBy)

/-- Options whose spans fit the wire, whose alarm period is a span, and whose budget is a word. -/
structure FetchOptions.Timed (o : FetchOptions) : Prop where
  expires_pos : 0 < o.expires.nanos
  expires_le : o.expires.nanos ≤ Count.top
  heartbeat_le : o.heartbeat.nanos ≤ Count.top
  period : (o.heartbeat.times? Monitor.multiplier).isSome = true
  maxBytes_le : o.maxBytes ≤ Count.top

/-- A delivery that does not make a fetch fail. -/
def Delivery.IsFair : Delivery → Prop
  | .message _ | .terminus _ => True
  | .error _ | .liveness _ => False

/-! ## The frames of a fetch -/

namespace Frame

theorem delivery?_message (m : Message) : (Frame.message m).delivery? = some (.message m) := rfl

theorem delivery?_beat :
    (Frame.status (.plain Code.heartbeat StatusText.idleHeartbeat)).delivery? = none := by rfl

theorem delivery?_terminus {s : Status} (hb : s.isHeartbeat = false)
    (hd : s.disposition = .terminus) : (Frame.status s).delivery? = some (.terminus s) := by
  unfold delivery? Intake.ofFrame Intake.ofStatus
  dsimp only
  rw [if_neg (ne_true_of_eq_false hb), hd]
  rfl

end Frame

namespace Broker

theorem delivery?_timeout (p : WaitingPull) :
    (Frame.status (p.closing Code.requestTimeout StatusText.requestTimeout)).delivery? =
      some (.terminus (p.closing Code.requestTimeout StatusText.requestTimeout)) :=
  Frame.delivery?_terminus rfl (disposition_closing_timeout p _)

theorem delivery?_completed (p : WaitingPull) :
    (Frame.status (p.closing Code.conflict StatusText.batchCompleted)).delivery? =
      some (.terminus (p.closing Code.conflict StatusText.batchCompleted)) :=
  Frame.delivery?_terminus rfl (disposition_closing_completed p)

theorem delivery?_stop (p : WaitingPull) :
    (Frame.status (p.closing Code.conflict (State.stopText p))).delivery? =
      some (.terminus (p.closing Code.conflict (State.stopText p))) := by
  unfold State.stopText
  split
  · exact delivery?_completed p
  · exact Frame.delivery?_terminus rfl
      (Status.disposition_of_isTooLarge (isTooLarge_closing_tooLarge p))

/-- A pull that is due expires, or beats and is due again after a heartbeat. -/
theorem due_some {now : Nat} {p : WaitingPull} {f : Frame} (h : (State.due now p).1 = some f) :
    (f = .status (p.closing Code.requestTimeout StatusText.requestTimeout) ∧
      (State.due now p).2 = none ∧ ∃ t, p.expiresAt = some t ∧ t ≤ now) ∨
    (f = .status (.plain Code.heartbeat StatusText.idleHeartbeat) ∧
      ∃ d, p.heartbeat = some d ∧
        (State.due now p).2 = some { p with beatsAt := some (now + d.nanos) }) := by
  unfold State.due at h ⊢
  split
  · rename_i he
    rw [if_pos he] at h
    obtain ⟨t, ht⟩ := Option.isSome_iff_exists.1 he
    obtain ⟨ht, hle⟩ := Option.filter_eq_some_iff.1 ht
    exact Or.inl ⟨(Option.some.inj h).symm, rfl, t, ht, of_decide_eq_true hle⟩
  · rename_i he
    rw [if_neg he] at h
    split
    · rename_i b d hb hd
      rw [hb, hd] at h
      exact Or.inr ⟨(Option.some.inj h).symm, d, hd, rfl⟩
    · rename_i hno
      split at h
      · rename_i b d hb hd
        exact absurd hd (hno b d hb)
      · cases h

end Broker

namespace Errand

variable {T : Terms} {a b : Errand}

/-- The deliveries on their way to the caller, the next one first. -/
def arriving (a : Errand) : List Delivery :=
  a.deliveries ++ a.worker.holds ++ (a.frames ++ a.out).filterMap Frame.delivery?

/-- The commands in line that publish nothing. -/
def calls (a : Errand) : List Command := a.queue.filter fun c => c.message?.isNone

/-- The batch is as long as it can become. -/
def IsOver (T : Terms) (a : Errand) : Prop :=
  T.options.Stuck a.offered a.given ∨ T.due ≤ a.now ∧ a.given = a.offered

/-- The pull has what is left of the limits, and is watched by the clock. -/
structure Waits (T : Terms) (a : Errand) (p : WaitingPull) : Prop where
  messages : p.messages + a.given.length = T.options.maxMessages
  messages_pos : 0 < p.messages
  bytes : p.bytes = if 0 < T.options.maxBytes then some (T.options.maxBytes - weigh a.given)
    else none
  bytes_pos : 0 < T.options.maxBytes → weigh a.given < T.options.maxBytes
  inbox : p.inbox = T.inbox
  expires : p.expiresAt = some T.due
  heartbeat : p.heartbeat = T.beat
  beats : ∀ d, T.beat = some d → ∃ t, p.beatsAt = some t ∧ t ≤ a.now + d.nanos
  still : T.beat = none → p.beatsAt = none

/-- The broker has taken in the request. -/
structure Granted (T : Terms) (a : Errand) : Prop where
  known : a.known = true
  calls : a.calls = []
  received : a.received = T.request :: T.before

/-- The request is still in line, and nothing has happened since the start. -/
structure Asked (T : Terms) (a : Errand) : Prop where
  given : a.given = []
  pull : a.pull = none
  received : a.received = T.before
  calls : a.known = false ∧ a.calls = [.register T.inbox, .pull T.inbox T.request] ∨
    a.known = true ∧ a.calls = [.pull T.inbox T.request]
  now : a.now = T.start
  seen : a.seen = a.now

/-- How the request stands, with the end of the batch if the broker has signalled it. -/
inductive Standing (T : Terms) (a : Errand) : List (Option Message) → Prop
  | asked (asked : Asked T a) : Standing T a []
  | waits (p : WaitingPull) (pull : a.pull = some p) (granted : Granted T a) : Standing T a []
  | filled (pull : a.pull = none) (full : a.given.length = T.options.maxMessages)
    (granted : Granted T a) : Standing T a []
  | stopped (pull : a.pull = none) (isOver : IsOver T a) (granted : Granted T a) :
    Standing T a [none]

/-- The caller reads. -/
structure Reads (T : Terms) (a : Errand) (stop : List (Option Message)) : Prop where
  standing : Standing T a stop
  arrives : a.got.map some ++ a.arriving.map Delivery.brings = a.given.map some ++ stop
  fair : ∀ d ∈ a.arriving, d.IsFair
  worker : a.worker ≠ .ended
  early : a.now ≤ T.due
  alert : ∀ d, T.beat = some d → a.now ≤ a.seen + d.nanos
  /-- The next beat is in time, unless a frame is on its way. -/
  beats : ∀ p d t, a.pull = some p → T.beat = some d → p.beatsAt = some t →
    t ≤ a.seen + d.nanos ∨ a.frames ++ a.out ≠ []
  /-- Nothing is left to come when the fetch expires. -/
  ready : T.due ≤ a.now →
    a.got = a.given ∧ publishedBy a.queue = [] ∧ (a.unread = [] ∨ a.pull = none)

/-- The caller has its batch. -/
structure Leaves (T : Terms) (a : Errand) : Prop where
  got : a.got = a.given
  isOver : IsOver T a
  received : a.received = T.request :: T.before
  calls : ∀ c ∈ a.calls, c = .unsubscribe T.inbox
  known : a.known = true → .unsubscribe T.inbox ∈ a.calls
  /-- The pull is gone, or there is nothing that could be handed out for it. -/
  calm : a.pull = none ∨
    a.now = T.due ∧ a.unread = [] ∧ publishedBy a.queue = [] ∧ a.known = true
  early : a.stage = .leaving → a.now ≤ T.due

/-- What holds throughout an errand. -/
structure Sound (T : Terms) (a : Errand) : Prop where
  order : a.given ++ a.unread ++ publishedBy a.queue = a.offered ++ a.late
  timely : a.late = [] ∨ T.due < a.now
  leads : a.given <+: a.offered
  sizes : ∀ m ∈ a.offered, 0 < m.size
  admits : T.options.Admits a.given
  caught : a.handing = true ∨ a.unread = [] ∨ a.pull = none
  pull : ∀ p, a.pull = some p → Waits T a p
  reads : a.stage = .reading → ∃ stop, Reads T a stop
  leaves : a.stage ≠ .reading → Leaves T a

/-! ## Small facts -/

theorem calls_publish {m : Message} {rest : List Command} (h : a.queue = .publish m :: rest) :
    a.calls = { a with queue := rest }.calls := by
  unfold calls
  rw [h]
  rfl

theorem calls_cons {c : Command} {rest : List Command} (h : a.queue = c :: rest)
    (hc : c.message? = none) : a.calls = c :: { a with queue := rest }.calls := by
  unfold calls
  rw [h]
  exact List.filter_cons_of_pos (by rw [hc]; rfl)

theorem Granted.of_same (h : Granted T a) (hk : b.known = a.known) (hc : b.calls = a.calls)
    (hr : b.received = a.received) : Granted T b :=
  ⟨hk.trans h.known, hc.trans h.calls, hr.trans h.received⟩

theorem Standing.of_same {stop : List (Option Message)} (h : Standing T a stop)
    (hg : b.given = a.given) (hp : b.pull = a.pull) (ho : IsOver T a → IsOver T b)
    (hr : b.received = a.received) (hk : b.known = a.known) (hc : b.calls = a.calls)
    (hn : b.now = a.now) (hs : a.seen = a.now → b.seen = a.now) : Standing T b stop := by
  cases h with
  | asked asked =>
    exact .asked ⟨hg.trans asked.given, hp.trans asked.pull, hr.trans asked.received,
      by rw [hk, hc]; exact asked.calls, hn.trans asked.now, (hs asked.seen).trans hn.symm⟩
  | waits p pull granted => exact .waits p (hp.trans pull) (granted.of_same hk hc hr)
  | filled pull full granted =>
    exact .filled (hp.trans pull) (by rw [hg]; exact full) (granted.of_same hk hc hr)
  | stopped pull isOver granted =>
    exact .stopped (hp.trans pull) (ho isOver) (granted.of_same hk hc hr)

theorem Waits.of_same {p : WaitingPull} (h : Waits T a p) (hg : b.given = a.given)
    (hn : b.now = a.now) : Waits T b p :=
  { h with
    messages := by rw [hg]; exact h.messages
    bytes := by rw [hg]; exact h.bytes
    bytes_pos := by rw [hg]; exact h.bytes_pos
    beats := by rw [hn]; exact h.beats }

/-- Only a pull that waits can get messages. -/
theorem Standing.of_pull {stop : List (Option Message)} {p : WaitingPull}
    (h : Standing T a stop) (hp : a.pull = some p) : stop = [] ∧ Granted T a := by
  cases h with
  | waits q pull granted => exact ⟨rfl, granted⟩
  | asked asked =>
    have pull := asked.pull
    rw [hp] at pull
    cases pull
  | filled pull | stopped pull =>
    rw [hp] at pull
    cases pull

/-- Before the request is taken in, and only then, a caller that reads has calls in line. -/
theorem Standing.of_call {stop : List (Option Message)} {c : Command} (h : Standing T a stop)
    (hc : c ∈ a.calls) : stop = [] ∧ Asked T a := by
  cases h with
  | asked asked => exact ⟨rfl, asked⟩
  | waits _ _ granted | filled _ _ granted | stopped _ _ granted =>
    rw [granted.calls] at hc
    cases hc

/-- A pull that waits has its messages in sight of no limit. -/
theorem Waits.not_full {p : WaitingPull} (h : Waits T a p) : ¬T.options.Full a.given := by
  rintro (hf | ⟨hb, hf⟩)
  · have := h.messages
    have := h.messages_pos
    omega
  · have := h.bytes_pos hb
    omega

/-! ## The broker takes in commands -/

theorem Sound.store (h : Sound T a) {m : Message} {rest : List Command}
    (next : a.queue = .publish m :: rest) :
    Sound T { a with queue := rest, unread := a.unread ++ [m], handing := true } := by
  have hcalls := calls_publish next
  have hpub : publishedBy a.queue = m :: publishedBy rest := by rw [next]; rfl
  have horder := h.order
  rw [hpub] at horder
  refine { h with
    order := by simpa using horder
    caught := Or.inl rfl
    pull := fun p hp => (h.pull p hp).of_same rfl rfl
    reads := fun hs => ?_
    leaves := fun hs => ?_ }
  · obtain ⟨stop, hr⟩ := h.reads hs
    refine ⟨stop, { hr with
      standing := hr.standing.of_same rfl rfl id rfl rfl hcalls.symm rfl id
      ready := fun hd => ?_ }⟩
    have hnone := (hr.ready hd).2.1
    rw [hpub] at hnone
    cases hnone
  · have hl := h.leaves hs
    refine { hl with
      calls := fun c hc => hl.calls c (by rw [hcalls]; exact hc)
      known := fun hk => (congrArg (Command.unsubscribe T.inbox ∈ ·) hcalls).mp (hl.known hk)
      calm := Or.inl (hl.calm.resolve_right fun hc => ?_) }
    rw [hpub] at hc
    cases hc.2.2.1

theorem Sound.register (h : Sound T a) {rest : List Command}
    (next : a.queue = .register T.inbox :: rest) :
    Sound T { a with queue := rest, known := true } := by
  have hcalls := calls_cons next rfl
  have hin : Command.register T.inbox ∈ a.calls := by rw [hcalls]; exact List.mem_cons_self
  have hpub : publishedBy a.queue = publishedBy rest := by rw [next]; rfl
  refine { h with
    order := by rw [← hpub]; exact h.order
    pull := fun p hp => (h.pull p hp).of_same rfl rfl
    reads := fun hs => ?_
    leaves := fun hs => by cases (h.leaves hs).calls _ hin }
  obtain ⟨stop, hr⟩ := h.reads hs
  obtain ⟨rfl, ha⟩ := hr.standing.of_call hin
  refine ⟨[], { hr with
    standing := .asked { ha with calls := Or.inr ⟨rfl, ?_⟩ }
    ready := fun hd => by rw [← hpub]; exact hr.ready hd }⟩
  have hc := ha.calls
  rw [hcalls] at hc
  rcases hc with ⟨_, hc⟩ | ⟨_, hc⟩
  · exact (List.cons.inj hc).2
  · cases (List.cons.inj hc).1

theorem waits_granted (ho : T.options.Timed) (hg : a.given = []) (hn : a.now = T.start) :
    Waits T a (.ofRequest T.inbox T.request a.now true) := by
  have hexp : T.request.expires = some T.options.expires :=
    PullRequest.nonzero?_of_ne fun e => by
      have := ho.expires_pos
      rw [Option.some.inj e] at this
      exact absurd this (Nat.lt_irrefl 0)
  have hpos := T.options.maxMessages_pos
  refine ⟨?_, hpos, ?_, ?_, rfl, ?_, rfl, ?_, ?_⟩
  · rw [hg]
    rfl
  · rw [hg]
    exact rfl
  · intro hb
    rw [hg]
    exact hb
  · show T.request.expires.map _ = _
    rw [hexp, hn]
    rfl
  · intro d hd
    refine ⟨a.now + d.nanos, ?_, Nat.le_refl _⟩
    show T.beat.map _ = _
    rw [hd]
    rfl
  · intro hd
    show T.beat.map _ = _
    rw [hd]
    rfl

theorem Sound.grant (ho : T.options.Timed) (h : Sound T a) {rest : List Command}
    (next : a.queue = .pull T.inbox T.request :: rest) : Sound T { a with
      queue := rest
      received := T.request :: a.received
      pull := some (.ofRequest T.inbox T.request a.now true)
      handing := true } := by
  have hcalls := calls_cons next rfl
  have hin : Command.pull T.inbox T.request ∈ a.calls := by rw [hcalls]; exact List.mem_cons_self
  have hpub : publishedBy a.queue = publishedBy rest := by rw [next]; rfl
  by_cases hs : a.stage = .reading
  · obtain ⟨stop, hr⟩ := h.reads hs
    obtain ⟨rfl, ha⟩ := hr.standing.of_call hin
    obtain ⟨hk, hc⟩ : a.known = true ∧ { a with queue := rest }.calls = [] := by
      have hc := ha.calls
      rw [hcalls] at hc
      rcases hc with ⟨_, hc⟩ | ⟨hk, hc⟩
      · cases (List.cons.inj hc).1
      · exact ⟨hk, (List.cons.inj hc).2⟩
    have hw := waits_granted ho ha.given ha.now
    refine { h with
      order := by rw [← hpub]; exact h.order
      caught := Or.inl rfl
      pull := fun p hp => by
        obtain rfl := Option.some.inj hp
        exact hw.of_same rfl rfl
      reads := fun _ => ⟨[], { hr with
        standing := .waits _ rfl ⟨hk, hc, congrArg _ ha.received⟩
        beats := fun p d t hp hd ht => Or.inl ?_
        ready := fun hd => ?_ }⟩
      leaves := fun hn => absurd hs hn }
    · obtain rfl := Option.some.inj hp
      obtain ⟨t', ht', hle⟩ := hw.beats d hd
      obtain rfl := Option.some.inj (ht.symm.trans ht')
      show t ≤ a.seen + d.nanos
      rw [ha.seen]
      exact hle
    · have hpos := ho.expires_pos
      have hd' : T.start + T.options.expires.nanos ≤ a.now := hd
      have := ha.now
      omega
  · cases (h.leaves hs).calls _ hin

theorem Sound.forget (h : Sound T a) {rest : List Command}
    (next : a.queue = .unsubscribe T.inbox :: rest) :
    Sound T { a with queue := rest, known := false, pull := none } := by
  have hcalls := calls_cons next rfl
  have hin : Command.unsubscribe T.inbox ∈ a.calls := by rw [hcalls]; exact List.mem_cons_self
  have hpub : publishedBy a.queue = publishedBy rest := by rw [next]; rfl
  refine { h with
    order := by rw [← hpub]; exact h.order
    caught := Or.inr (Or.inr rfl)
    pull := fun p hp => by cases hp
    reads := fun hs => ?_
    leaves := fun hs => ?_ }
  · obtain ⟨stop, hr⟩ := h.reads hs
    have hc := (hr.standing.of_call hin).2.calls
    rw [hcalls] at hc
    rcases hc with ⟨_, hc⟩ | ⟨_, hc⟩
    · cases (List.cons.inj hc).1
    · cases (List.cons.inj hc).1
  · have hl := h.leaves hs
    exact { hl with
      calls := fun c hc => hl.calls c (by rw [hcalls]; exact List.mem_cons_of_mem _ hc)
      known := fun hk => by cases hk
      calm := Or.inl rfl }

/-! ## The broker hands out -/

theorem Sound.settle (h : Sound T a) (done : a.unread = [] ∨ a.pull = none) :
    Sound T { a with handing := false } :=
  { h with
    caught := Or.inr done
    pull := fun p hp => (h.pull p hp).of_same rfl rfl
    reads := fun hs => by
      obtain ⟨stop, hr⟩ := h.reads hs
      exact ⟨stop, { hr with standing := hr.standing.of_same rfl rfl id rfl rfl rfl rfl id }⟩
    leaves := fun hs => { h.leaves hs with } }

/-- A message can only be handed out to a caller that reads, and not any more when it expires. -/
theorem Sound.reads_of_message (h : Sound T a) {m : Message} {ms : List Message}
    {p : WaitingPull} (hm : a.unread = m :: ms) (hp : a.pull = some p) :
    a.stage = .reading ∧ Reads T a [] ∧ Granted T a ∧ a.now < T.due := by
  have hs : a.stage = .reading := by
    by_contra hs
    rcases (h.leaves hs).calm with hc | ⟨_, hc, _⟩
    · rw [hp] at hc
      cases hc
    · rw [hm] at hc
      cases hc
  obtain ⟨stop, hr⟩ := h.reads hs
  obtain ⟨rfl, hg⟩ := hr.standing.of_pull hp
  refine ⟨hs, hr, hg, Nat.lt_of_not_le fun hd => ?_⟩
  rcases (hr.ready hd).2.2 with hc | hc
  · rw [hm] at hc
    cases hc
  · rw [hp] at hc
    cases hc

/-- What is handed out next was on offer. -/
theorem Sound.leads_snoc (h : Sound T a) {m : Message} {ms : List Message}
    (hm : a.unread = m :: ms) (hd : a.now < T.due) : a.given ++ [m] <+: a.offered := by
  have horder := h.order
  rw [h.timely.resolve_right (by omega), hm, List.append_nil] at horder
  exact ⟨ms ++ publishedBy a.queue, by rw [← horder]; simp⟩

theorem Waits.refuses_iff {p : WaitingPull} (h : Waits T a p) {n : Nat} :
    p.refuses n = true ↔ 0 < T.options.maxBytes ∧ T.options.maxBytes < weigh a.given + n := by
  unfold WaitingPull.refuses
  rw [h.bytes]
  by_cases hb : 0 < T.options.maxBytes
  · have := h.bytes_pos hb
    rw [if_pos hb]
    simp only [decide_eq_true_eq, hb, true_and]
    omega
  · rw [if_neg hb]
    simp [hb]

/-- Frames that the broker is about to post bring their deliveries behind all others. -/
theorem Reads.posting (h : Reads T a []) (clear : a.out = []) {fs : List Frame}
    {ds : List Delivery} (hds : fs.filterMap Frame.delivery? = ds) (hfair : ∀ d ∈ ds, d.IsFair) :
    a.got.map some ++ { a with out := fs }.arriving.map Delivery.brings =
        a.given.map some ++ ds.map Delivery.brings ∧
      ∀ d ∈ { a with out := fs }.arriving, d.IsFair := by
  have harr : { a with out := fs }.arriving = a.arriving ++ ds := by
    unfold arriving
    rw [clear, List.append_nil, List.filterMap_append, hds, ← List.append_assoc]
  have he := h.arrives
  rw [List.append_nil] at he
  refine ⟨by rw [harr, List.map_append, ← List.append_assoc, he], fun d hd => ?_⟩
  rw [harr] at hd
  rcases List.mem_append.1 hd with hd | hd
  · exact h.fair d hd
  · exact hfair d hd

theorem Reads.posting_one (h : Reads T a []) (clear : a.out = []) {f : Frame}
    {d : Option Delivery} (hf : f.delivery? = d) (hfair : ∀ e ∈ d.toList, e.IsFair) :
    a.got.map some ++ { a with out := [f] }.arriving.map Delivery.brings =
        a.given.map some ++ d.toList.map Delivery.brings ∧
      ∀ e ∈ { a with out := [f] }.arriving, e.IsFair := by
  refine h.posting clear ?_ hfair
  rw [← hf]
  unfold List.filterMap
  cases f.delivery? <;> rfl

theorem Sound.refuse (h : Sound T a) {m : Message} {ms : List Message} {p : WaitingPull}
    (clear : a.out = []) (message : a.unread = m :: ms) (pull : a.pull = some p)
    (refuses : p.refuses m.size = true) : Sound T { a with
      pull := none
      out := [.status (p.closing Code.conflict (Broker.State.stopText p))] } := by
  obtain ⟨hs, hr, hg, hd⟩ := h.reads_of_message message pull
  obtain ⟨hb, hbig⟩ := (h.pull p pull).refuses_iff.1 refuses
  have hstuck : T.options.Stuck a.offered a.given :=
    Or.inr ⟨m, h.leads_snoc message hd, hb, hbig⟩
  obtain ⟨harr, hfair⟩ := hr.posting_one clear (Broker.delivery?_stop p) fun d hd => by
      rw [List.mem_singleton.1 hd]
      exact trivial
  exact { h with
    caught := Or.inr (Or.inr rfl)
    pull := fun q hq => by cases hq
    reads := fun _ => ⟨[none], { hr with
      standing := .stopped rfl (Or.inl hstuck) (hg.of_same rfl rfl rfl)
      arrives := harr
      fair := hfair
      beats := fun q d t hq => by cases hq
      ready := fun hd' => absurd hd' (Nat.not_le_of_lt hd) }⟩
    leaves := fun hn => absurd hs hn }

theorem Waits.isFilled_iff {p : WaitingPull} (h : Waits T a p) (n : Nat) :
    (p.charged n a.now).isFilled = true ↔ a.given.length + 1 = T.options.maxMessages := by
  have := h.messages
  have := h.messages_pos
  unfold WaitingPull.isFilled
  rw [WaitingPull.messages_charged, beq_iff_eq]
  omega

theorem Waits.isSpent_iff {p : WaitingPull} (h : Waits T a p) {n : Nat}
    (ht : p.refuses n = false) :
    (p.charged n a.now).isSpent = true ↔
      0 < T.options.maxBytes ∧ weigh a.given + n = T.options.maxBytes := by
  have hr := not_congr (h.refuses_iff (n := n))
  rw [ht] at hr
  unfold WaitingPull.isSpent
  rw [WaitingPull.bytes_charged, h.bytes, beq_iff_eq]
  by_cases hb : 0 < T.options.maxBytes
  · have := h.bytes_pos hb
    have := hr.1 Bool.false_ne_true
    rw [if_pos hb, Option.map_some, Option.some.injEq]
    omega
  · rw [if_neg hb]
    simp [hb]

/-- The pull that goes on to wait after a message was handed out. -/
theorem Waits.charged {p : WaitingPull} (h : Waits T a p) {m : Message}
    (ht : p.refuses m.size = false) (hf : (p.charged m.size a.now).isFilled = false)
    (hs : (p.charged m.size a.now).isSpent = false) (hg : b.given = a.given ++ [m])
    (hn : b.now = a.now) : Waits T b (p.charged m.size a.now) := by
  have hr := not_congr (h.refuses_iff (n := m.size))
  have hf' := not_congr (h.isFilled_iff m.size)
  have hs' := not_congr (h.isSpent_iff ht)
  rw [ht] at hr
  rw [hf] at hf'
  rw [hs] at hs'
  have hfit := hr.1 Bool.false_ne_true
  have hleft := hf'.1 Bool.false_ne_true
  have hroom := hs'.1 Bool.false_ne_true
  have hmsg := h.messages
  have hpos := h.messages_pos
  have hlen : b.given.length = a.given.length + 1 := by rw [hg, List.length_append]; rfl
  have hweigh : weigh b.given = weigh a.given + m.size := by rw [hg, Broker.weigh_snoc]
  refine ⟨?_, ?_, ?_, ?_, h.inbox, h.expires, h.heartbeat, ?_, ?_⟩
  · rw [hlen, WaitingPull.messages_charged]
    omega
  · rw [WaitingPull.messages_charged]
    omega
  · rw [WaitingPull.bytes_charged, h.bytes, hweigh]
    split
    · rw [Option.map_some, Nat.sub_sub]
    · rfl
  · intro hb
    have := h.bytes_pos hb
    omega
  · intro d hd
    refine ⟨a.now + d.nanos, ?_, by rw [hn]⟩
    unfold WaitingPull.charged
    rw [h.heartbeat, hd]
  · intro hd
    unfold WaitingPull.charged
    rw [h.heartbeat, hd]
    exact h.still hd

/-- What follows a message that was handed out: the end of the batch, if the budget is spent
without filling the batch. -/
def ending (p : WaitingPull) : List Delivery :=
  if p.isSpent && !p.isFilled then [.terminus (p.closing Code.conflict StatusText.batchCompleted)]
  else []

theorem isFair_ending (p : WaitingPull) : ∀ d ∈ ending p, d.IsFair := by
  intro d hd
  unfold ending at hd
  split at hd
  · rw [List.mem_singleton.1 hd]
    exact trivial
  · cases hd

theorem delivery?_handed (p : WaitingPull) (m : Message) :
    (Broker.handedFrames p m).filterMap Frame.delivery? = .message m :: ending p := by
  unfold Broker.handedFrames ending
  split
  · rw [List.filterMap_cons, Frame.delivery?_message]
    exact congrArg (_ :: ·) (congrArg Option.toList (Broker.delivery?_completed p))
  · rfl

theorem kept_eq_some {p q : WaitingPull} (h : kept p = some q) :
    p.isFilled = false ∧ p.isSpent = false ∧ q = p := by
  unfold kept at h
  split at h
  · cases h
  · rename_i hn
    rw [Bool.or_eq_true, not_or, Bool.not_eq_true, Bool.not_eq_true] at hn
    exact ⟨hn.1, hn.2, (Option.some.inj h).symm⟩

/-- A message fills the batch, uses the budget up, or leaves the pull waiting. -/
theorem Standing.handed {p : WaitingPull} (hw : Waits T a p) (hg : Granted T a) {m : Message}
    {ms : List Message} (takes : p.refuses m.size = false) : Standing T { a with
      given := a.given ++ [m]
      unread := ms
      pull := kept (p.charged m.size a.now)
      out := Broker.handedFrames (p.charged m.size a.now) m }
      ((ending (p.charged m.size a.now)).map Delivery.brings) := by
  have hfilled := hw.isFilled_iff m.size
  have hspent := hw.isSpent_iff takes
  unfold ending
  cases hf : (p.charged m.size a.now).isFilled with
  | true =>
    have hnone : kept (p.charged m.size a.now) = none := if_pos (by rw [hf]; rfl)
    rw [Bool.not_true, Bool.and_false, if_neg Bool.false_ne_true]
    refine .filled hnone ?_ (hg.of_same rfl rfl rfl)
    exact (List.length_append).trans (hfilled.1 hf)
  | false =>
    cases hsp : (p.charged m.size a.now).isSpent with
    | true =>
      have hnone : kept (p.charged m.size a.now) = none := if_pos (by rw [hsp, hf]; rfl)
      obtain ⟨hb, hfull⟩ := hspent.1 hsp
      refine .stopped hnone (Or.inl (Or.inl (Or.inr ⟨hb, ?_⟩))) (hg.of_same rfl rfl rfl)
      exact Nat.le_of_eq (hfull.symm.trans (Broker.weigh_snoc _ _).symm)
    | false =>
      exact .waits _ (if_neg (by rw [hsp, hf]; exact Bool.false_ne_true))
        (hg.of_same rfl rfl rfl)

theorem Sound.hand (h : Sound T a) {m : Message} {ms : List Message} {p : WaitingPull}
    (clear : a.out = []) (handing : a.handing = true) (message : a.unread = m :: ms)
    (pull : a.pull = some p) (takes : p.refuses m.size = false) : Sound T { a with
      given := a.given ++ [m]
      unread := ms
      pull := kept (p.charged m.size a.now)
      out := Broker.handedFrames (p.charged m.size a.now) m } := by
  obtain ⟨hs, hr, hg, hd⟩ := h.reads_of_message message pull
  have hw := h.pull p pull
  have hlead := h.leads_snoc message hd
  have hfits : ¬(0 < T.options.maxBytes ∧ T.options.maxBytes < weigh a.given + m.size) := by
    rw [← hw.refuses_iff, takes]
    exact Bool.false_ne_true
  have hmsg := hw.messages
  have hpos := hw.messages_pos
  obtain ⟨harr, hfair⟩ := hr.posting clear (delivery?_handed (p.charged m.size a.now) m)
    (List.forall_mem_cons.2 ⟨trivial, isFair_ending _⟩)
  refine { h with
    order := ?_
    leads := hlead
    admits := ⟨?_, fun hb => ?_⟩
    caught := Or.inl handing
    pull := fun q hq => ?_
    reads := fun _ => ⟨_, { hr with
      standing := .handed hw hg takes
      arrives := ?_
      fair := hfair
      beats := fun q d t _ _ _ => Or.inr fun hnil => ?_
      ready := fun hd' => absurd hd' (Nat.not_le_of_lt hd) }⟩
    leaves := fun hn => absurd hs hn }
  · rw [← h.order, message, List.append_assoc a.given [m] ms]
    rfl
  · rw [List.length_append, List.length_singleton]
    omega
  · rw [Broker.weigh_snoc]
    omega
  · obtain ⟨hf, hsp, rfl⟩ := kept_eq_some hq
    exact hw.charged takes hf hsp rfl rfl
  · refine harr.trans ?_
    rw [List.map_cons, List.map_append, List.append_assoc]
    rfl
  · cases (List.append_eq_nil_iff.1 hnil).2

/-- A broker with nothing to do has handed out all there was for the pull. -/
theorem Sound.unread_of_idle (h : Sound T a) {p : WaitingPull} (idle : a.IsIdle)
    (pull : a.pull = some p) : a.unread = [] := by
  rcases h.caught with hc | hc | hc
  · rw [idle.2] at hc
    cases hc
  · exact hc
  · rw [pull] at hc
    cases hc

/-- The pull expires with everything handed out. -/
theorem Sound.pullExpires (h : Sound T a) {p : WaitingPull} (idle : a.IsIdle)
    (pull : a.pull = some p) (late : T.due ≤ a.now) : Sound T { a with
      pull := none
      out := [.status (p.closing Code.requestTimeout StatusText.requestTimeout)] } := by
  have hunread := h.unread_of_idle idle pull
  refine { h with
    caught := Or.inr (Or.inr rfl)
    pull := fun q hq => by cases hq
    reads := fun hs => ?_
    leaves := fun hs => { h.leaves hs with calm := Or.inl rfl } }
  obtain ⟨stop, hr⟩ := h.reads hs
  obtain ⟨rfl, hg⟩ := hr.standing.of_pull pull
  obtain ⟨hgot, hpub, _⟩ := hr.ready late
  have hall : a.given = a.offered := by
    have horder := h.order
    have hearly := hr.early
    rw [hunread, hpub, h.timely.resolve_right (by omega), List.append_nil, List.append_nil,
      List.append_nil] at horder
    exact horder
  obtain ⟨harr, hfair⟩ := hr.posting_one idle.1 (Broker.delivery?_timeout p) fun d hd => by
      rw [List.mem_singleton.1 hd]
      exact trivial
  exact ⟨[none], { hr with
    standing := .stopped rfl (Or.inr ⟨late, hall⟩) (hg.of_same rfl rfl rfl)
    arrives := harr
    fair := hfair
    beats := fun q d t hq => by cases hq
    ready := fun _ => ⟨hgot, hpub, Or.inr rfl⟩ }⟩

/-- The pull beats, and its next beat is put off. -/
theorem Sound.pullBeats (h : Sound T a) {p : WaitingPull} {d : Span} (idle : a.IsIdle)
    (pull : a.pull = some p) (beats : p.heartbeat = some d) : Sound T { a with
      pull := some { p with beatsAt := some (a.now + d.nanos) }
      out := [.status (.plain Code.heartbeat StatusText.idleHeartbeat)] } := by
  have hw := h.pull p pull
  have hunread := h.unread_of_idle idle pull
  have hbeat := hw.heartbeat.symm.trans beats
  have hw' : Waits T a { p with beatsAt := some (a.now + d.nanos) } :=
    { hw with
      beats := fun d' hd' => by
        obtain rfl := Option.some.inj (hbeat.symm.trans hd')
        exact ⟨_, rfl, Nat.le_refl _⟩
      still := fun hnone => by
        rw [hnone] at hbeat
        cases hbeat }
  refine { h with
    caught := Or.inr (Or.inl hunread)
    pull := fun q hq => by
      obtain rfl := Option.some.inj hq
      exact hw'.of_same rfl rfl
    reads := fun hs => ?_
    leaves := fun hs => ?_ }
  · obtain ⟨stop, hr⟩ := h.reads hs
    obtain ⟨rfl, hg⟩ := hr.standing.of_pull pull
    obtain ⟨harr, hfair⟩ := hr.posting_one idle.1 Frame.delivery?_beat fun d hd => by cases hd
    exact ⟨[], { hr with
      standing := .waits _ rfl (hg.of_same rfl rfl rfl)
      arrives := harr
      fair := hfair
      beats := fun q d t _ _ _ => Or.inr fun hnil => by
        cases (List.append_eq_nil_iff.1 hnil).2
      ready := fun hd => ⟨(hr.ready hd).1, (hr.ready hd).2.1, Or.inl hunread⟩ }⟩
  · have hl := h.leaves hs
    refine { hl with calm := Or.inr (hl.calm.resolve_left fun hc => ?_) }
    rw [pull] at hc
    cases hc

/-- A pull that is due expires or beats. -/
theorem Sound.due (h : Sound T a) {p : WaitingPull} {f : Frame} (idle : a.IsIdle)
    (pull : a.pull = some p) (due : (Broker.State.due a.now p).1 = some f) :
    Sound T { a with pull := (Broker.State.due a.now p).2, out := [f] } := by
  rcases Broker.due_some due with ⟨rfl, hgone, t, ht, hle⟩ | ⟨rfl, d, hd, hstay⟩
  · obtain rfl := Option.some.inj ((h.pull p pull).expires.symm.trans ht)
    rw [hgone]
    exact h.pullExpires idle pull hle
  · rw [hstay]
    exact h.pullBeats idle pull hd

/-! ## The broker posts -/

theorem Sound.post (h : Sound T a) {f : Frame} {rest : List Frame} (next : a.out = f :: rest) :
    Sound T { a with out := rest, frames := a.frames ++ [f] } := by
  have harr : { a with out := rest, frames := a.frames ++ [f] }.arriving = a.arriving := by
    unfold arriving
    rw [next, List.append_assoc a.frames]
    rfl
  refine { h with
    pull := fun p hp => (h.pull p hp).of_same rfl rfl
    reads := fun hs => ?_
    leaves := fun hs => { h.leaves hs with } }
  obtain ⟨stop, hr⟩ := h.reads hs
  refine ⟨stop, { hr with
    standing := hr.standing.of_same rfl rfl id rfl rfl rfl rfl id
    arrives := by rw [harr]; exact hr.arrives
    fair := by rw [harr]; exact hr.fair
    beats := fun p d t _ _ _ => Or.inr fun hnil => ?_ }⟩
  cases (List.append_eq_nil_iff.1 (List.append_eq_nil_iff.1 hnil).1).2

/-- Before the inbox is registered there is nothing to post that would reach the caller. -/
theorem Sound.drop (h : Sound T a) {f : Frame} {rest : List Frame} (next : a.out = f :: rest)
    (known : a.known = false) : Sound T { a with out := rest } := by
  refine { h with
    pull := fun p hp => (h.pull p hp).of_same rfl rfl
    reads := fun hs => ?_
    leaves := fun hs => { h.leaves hs with } }
  obtain ⟨stop, hr⟩ := h.reads hs
  have hne : ∀ {P : Prop}, Granted T a → P := fun hg => by
    have hk := hg.known
    rw [known] at hk
    cases hk
  cases hr.standing with
  | asked asked =>
    have harr : a.arriving = [] := by
      have he := hr.arrives
      rw [asked.given] at he
      exact List.map_eq_nil_iff.1 (List.append_eq_nil_iff.1 he).2
    have harr' : { a with out := rest }.arriving = [] := by
      unfold arriving at harr ⊢
      rw [next, List.filterMap_append] at harr
      rw [List.filterMap_append]
      simp only [List.append_eq_nil_iff, List.filterMap_cons] at harr ⊢
      refine ⟨harr.1, harr.2.1, ?_⟩
      cases hf : f.delivery? with
      | none => simpa [hf] using harr.2.2
      | some d => simp [hf] at harr
    exact ⟨[], { hr with
      standing := .asked { asked with }
      arrives := by
        have he := hr.arrives
        rw [harr] at he
        rw [harr']
        exact he
      fair := by
        rw [harr']
        exact fun d hd => by cases hd
      beats := fun p d t hp => by
        rw [asked.pull] at hp
        cases hp }⟩
  | waits _ _ granted => exact hne granted
  | filled _ _ granted => exact hne granted
  | stopped _ _ granted => exact hne granted

theorem Sound.lose (h : Sound T a) {rest : List Frame} (worker : a.worker = .ended) :
    Sound T { a with out := rest, known := false, pull := none } :=
  { h with
    caught := Or.inr (Or.inr rfl)
    pull := fun p hp => by cases hp
    reads := fun hs => by
      obtain ⟨stop, hr⟩ := h.reads hs
      exact absurd worker hr.worker
    leaves := fun hs => { h.leaves hs with
      known := fun hk => by cases hk
      calm := Or.inl rfl } }

end Errand

end DemandFlow
