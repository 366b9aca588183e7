import DemandFlow.Proofs.Broker.Shape

/-
  A broker that works off its chores, one at each instant of a list, while some feeds are gone:
  the broker that is left, and the frames that it hands over, in order. So many instants as the
  burden says are enough for all chores (`agenda_workOff`), and more change nothing. What is to
  be posted is handed over in the end, and each message that is handed over has moved the cursor.
-/

namespace DemandFlow.Broker

namespace State

/-- Whether the next chore is a post to a feed that is gone. -/
def fails (gone : String → Bool) (b : State) : Bool :=
  match b.agenda with
  | .post inbox _ :: _ => gone inbox
  | _ => false

/-- The next chore, done at `t`. -/
def chore (gone : String → Bool) (t : Nat) (b : State) : Event := .chore t (b.fails gone)

/-- The broker that is left when a chore was done at each of these instants, and all that it has
handed over. -/
def workOff (gone : String → Bool) : List Nat → State → State × List (String × Frame)
  | [], b => (b, [])
  | t :: ts, b =>
    let done := (b.react (b.chore gone t)).workOff gone ts
    (done.1, b.handsOver (b.chore gone t) ++ done.2)

variable {gone : String → Bool} {t : Nat} {ts : List Nat} {b : State}

theorem workOff_cons (gone : String → Bool) (t : Nat) (ts : List Nat) (b : State) :
    b.workOff gone (t :: ts) = (((b.react (b.chore gone t)).workOff gone ts).1,
      b.handsOver (b.chore gone t) ++ ((b.react (b.chore gone t)).workOff gone ts).2) := rfl

theorem workOff_append (ts us : List Nat) (b : State) : b.workOff gone (ts ++ us) =
    (((b.workOff gone ts).1.workOff gone us).1,
      (b.workOff gone ts).2 ++ ((b.workOff gone ts).1.workOff gone us).2) := by
  induction ts generalizing b with
  | nil => rfl
  | cons t ts ih => rw [List.cons_append, workOff_cons, workOff_cons, ih, List.append_assoc]

/-- What each chore keeps, together with what was handed over so far, all of them keep. -/
theorem workOff_induction {P : State → List (String × Frame) → Prop}
    (hP : ∀ b out t, P b out →
      P (b.react (b.chore gone t)) (out ++ b.handsOver (b.chore gone t)))
    (ts : List Nat) (out : List (String × Frame)) (h : P b out) :
    P (b.workOff gone ts).1 (out ++ (b.workOff gone ts).2) := by
  induction ts generalizing b out with
  | nil => rwa [workOff, List.append_nil]
  | cons t ts ih =>
    rw [workOff_cons, ← List.append_assoc]
    exact ih _ (hP b out t h)

theorem Shaped.workOff (h : b.Shaped) (gone : String → Bool) (ts : List Nat) :
    (b.workOff gone ts).1.Shaped :=
  workOff_induction (P := fun y _ => y.Shaped) (fun y _ t h => h.react (y.chore gone t)) ts
    [] h

/-- A command is taken in by a broker that has no chores. -/
theorem react_command_of_rest (ha : b.agenda = []) (now : Nat) (c : Command) :
    b.react (.command now c) = b.accept now c := if_pos (List.isEmpty_iff.2 ha)

/-! ## One chore -/

section Heads

variable {rest : List Chore}

theorem chore_post (gone : String → Bool) (t : Nat) {inbox : String} {f : Frame}
    (ha : b.agenda = .post inbox f :: rest) :
    b.react (b.chore gone t) = ({ b with agenda := rest } : State).told inbox (gone inbox) ∧
      b.handsOver (b.chore gone t) = [(inbox, f)] := by
  unfold react handsOver chore fails work
  rw [ha]
  exact ⟨rfl, rfl⟩

theorem chore_handOut (gone : String → Bool) (t : Nat) (ha : b.agenda = .handOut :: rest) :
    b.react (b.chore gone t) = ({ b with agenda := rest } : State).handOut t ∧
      b.handsOver (b.chore gone t) = [] := by
  unfold react handsOver chore work
  rw [ha]
  exact ⟨rfl, rfl⟩

theorem chore_endNoWait (gone : String → Bool) (t : Nat) {inbox : String}
    (ha : b.agenda = .endNoWait inbox :: rest) :
    b.react (b.chore gone t) = ({ b with agenda := rest } : State).endNoWait inbox ∧
      b.handsOver (b.chore gone t) = [] := by
  unfold react handsOver chore work
  rw [ha]
  exact ⟨rfl, rfl⟩

/-- Handing out where there is nothing to do. -/
theorem chore_first_handOut (gone : String → Bool) (he : b.handOut t = b) :
    (b.first [.handOut]).react ((b.first [.handOut]).chore gone t) = b ∧
      (b.first [.handOut]).handsOver ((b.first [.handOut]).chore gone t) = [] := by
  obtain ⟨hr, hh⟩ := chore_handOut (b := b.first [.handOut]) gone t rfl
  exact ⟨hr.trans he, hh⟩

/-- A frame for a feed that is open. -/
theorem chore_first_post (t : Nat) {inbox : String} (ho : gone inbox = false) (f : Frame) :
    (b.first [.post inbox f]).react ((b.first [.post inbox f]).chore gone t) = b ∧
      (b.first [.post inbox f]).handsOver ((b.first [.post inbox f]).chore gone t) =
        [(inbox, f)] := by
  obtain ⟨hr, hh⟩ := chore_post (b := b.first [.post inbox f]) gone t rfl
  rw [ho] at hr
  exact ⟨hr, hh⟩

variable (gone) in
/-- A frame for a feed that is gone: the broker finds out. -/
theorem chore_first_lost (t : Nat) {inbox : String} (hg : gone inbox = true)
    (hk : b.knows inbox = true) (f : Frame) :
    (b.first [.post inbox f]).react ((b.first [.post inbox f]).chore gone t) = b.forget inbox ∧
      (b.first [.post inbox f]).handsOver ((b.first [.post inbox f]).chore gone t) =
        [(inbox, f)] := by
  obtain ⟨hr, hh⟩ := chore_post (b := b.first [.post inbox f]) gone t rfl
  refine ⟨hr.trans ?_, hh⟩
  unfold told
  rw [if_pos]
  · rfl
  · rw [hg, Bool.true_and]
    exact hk

theorem chore_rest (gone : String → Bool) (t : Nat) (ha : b.agenda = []) :
    b.react (b.chore gone t) = b ∧ b.handsOver (b.chore gone t) = [] := by
  unfold react handsOver chore work
  rw [ha]
  exact ⟨rfl, rfl⟩

end Heads

/-- The next chore: there is none, a frame is posted, the stream is handed out, or a pull that
does not wait is ended. -/
theorem chore_cases (gone : String → Bool) (t : Nat) (b : State) :
    (b.agenda = [] ∧ b.react (b.chore gone t) = b ∧ b.handsOver (b.chore gone t) = []) ∨
    (∃ inbox f rest, b.agenda = .post inbox f :: rest ∧
      b.react (b.chore gone t) = ({ b with agenda := rest } : State).told inbox (gone inbox) ∧
      b.handsOver (b.chore gone t) = [(inbox, f)]) ∨
    (∃ rest, b.agenda = .handOut :: rest ∧
      b.react (b.chore gone t) = ({ b with agenda := rest } : State).handOut t ∧
      b.handsOver (b.chore gone t) = []) ∨
    (∃ inbox rest, b.agenda = .endNoWait inbox :: rest ∧
      b.react (b.chore gone t) = ({ b with agenda := rest } : State).endNoWait inbox ∧
      b.handsOver (b.chore gone t) = []) := by
  cases ha : b.agenda with
  | nil => exact Or.inl ⟨rfl, chore_rest gone t ha⟩
  | cons c rest =>
    refine Or.inr ?_
    cases c with
    | post inbox f => exact Or.inl ⟨inbox, f, rest, rfl, chore_post gone t ha⟩
    | handOut => exact Or.inr (Or.inl ⟨rest, rfl, chore_handOut gone t ha⟩)
    | endNoWait inbox => exact Or.inr (Or.inr ⟨inbox, rest, rfl, chore_endNoWait gone t ha⟩)

/-! ## The end of all chores -/

theorem workOff_of_rest (ha : b.agenda = []) (ts : List Nat) : b.workOff gone ts = (b, []) := by
  induction ts with
  | nil => rfl
  | cons t ts ih =>
    obtain ⟨hr, hh⟩ := chore_rest gone t ha
    rw [workOff_cons, hr, hh, ih]
    rfl

/-- As many instants as the burden says are enough. -/
theorem agenda_workOff (h : b.burden ≤ ts.length) : (b.workOff gone ts).1.agenda = [] := by
  induction ts generalizing b with
  | nil =>
    refine List.length_eq_zero_iff.1 (Nat.eq_zero_of_le_zero (Nat.le_trans ?_ h))
    exact Nat.le_trans (Nat.le_add_right _ _) (Nat.le_add_right _ _)
  | cons t ts ih =>
    by_cases ha : b.agenda = []
    · rw [workOff_of_rest ha]
      exact ha
    · have hlt := burden_chore ha t (b.fails gone)
      refine ih (b := b.react (b.chore gone t)) (Nat.le_of_lt_succ (Nat.lt_of_lt_of_le hlt ?_))
      rwa [List.length_cons] at h

/-- All ways to come to rest by one chore after another at one instant lead to the same end. -/
theorem workOff_replicate {m n : Nat}
    (hm : (b.workOff gone (List.replicate m t)).1.agenda = [])
    (hn : (b.workOff gone (List.replicate n t)).1.agenda = []) :
    b.workOff gone (List.replicate m t) = b.workOff gone (List.replicate n t) := by
  have longer : ∀ {m n : Nat}, (b.workOff gone (List.replicate m t)).1.agenda = [] → m ≤ n →
      b.workOff gone (List.replicate n t) = b.workOff gone (List.replicate m t) := by
    intro m n hm hle
    obtain ⟨k, rfl⟩ := Nat.exists_eq_add_of_le hle
    rw [← List.replicate_append_replicate, workOff_append, workOff_of_rest hm, List.append_nil]
  rcases Nat.le_total m n with hle | hle
  · exact (longer hm hle).symm
  · exact longer hn hle

/-- All chores are done where some are done first and then the rest. -/
theorem workOff_burden {k : Nat} {y : State} {out : List (String × Frame)}
    (h : b.workOff gone (List.replicate k t) = (y, out)) :
    b.workOff gone (List.replicate b.burden t) =
      ((y.workOff gone (List.replicate y.burden t)).1,
        out ++ (y.workOff gone (List.replicate y.burden t)).2) := by
  have hlong : b.workOff gone (List.replicate (k + y.burden) t) =
      ((y.workOff gone (List.replicate y.burden t)).1,
        out ++ (y.workOff gone (List.replicate y.burden t)).2) := by
    rw [← List.replicate_append_replicate, workOff_append, h]
  rw [← hlong]
  refine workOff_replicate (agenda_workOff (Nat.le_of_eq List.length_replicate.symm)) ?_
  rw [hlong]
  exact agenda_workOff (Nat.le_of_eq List.length_replicate.symm)

/-- All is done in one chore where that one leaves none. -/
theorem workOff_one (hr : (b.react (b.chore gone t)).agenda = []) :
    b.workOff gone (List.replicate b.burden t) =
      (b.react (b.chore gone t), b.handsOver (b.chore gone t)) := by
  have hone : b.workOff gone (List.replicate 1 t) =
      (b.react (b.chore gone t), b.handsOver (b.chore gone t)) := by
    rw [List.replicate_one, workOff_cons]
    exact Prod.ext rfl (List.append_nil _)
  rw [workOff_burden hone, workOff_of_rest hr, List.append_nil]

/-! ## Frames that go out -/

/-- What is to be posted stays to be posted until it is handed over. -/
theorem mem_posts_chore {q : String × Frame} (hq : q ∈ posts b.agenda) :
    q ∈ posts (b.react (b.chore gone t)).agenda ∨ q ∈ b.handsOver (b.chore gone t) := by
  rcases chore_cases gone t b with ⟨ha, _, _⟩ | ⟨inbox, f, rest, ha, hb, ho⟩ | ⟨rest, ha, hb, _⟩ |
    ⟨inbox, rest, ha, hb, _⟩
  · rw [ha] at hq
    cases hq
  · rw [ha] at hq
    rcases List.mem_cons.1 hq with rfl | hq
    · exact Or.inr (ho ▸ List.mem_singleton.2 rfl)
    · rw [hb]
      unfold told
      split <;> exact Or.inl hq
  · rw [ha] at hq
    have hq : q ∈ posts rest := hq
    rw [hb]
    rcases handOut_cases t { b with agenda := rest } with ⟨he, _⟩ | ⟨m, p, ps, _, _, _, he⟩ |
      ⟨m, p, ps, _, _, _, he⟩ <;> rw [he]
    · exact Or.inl hq
    · exact Or.inl (by rw [first, posts_append]; exact List.mem_append_right _ hq)
    · exact Or.inl (by rw [first, posts_append]; exact List.mem_append_right _ hq)
  · rw [ha] at hq
    have hq : q ∈ posts rest := hq
    rw [hb]
    rcases endNoWait_cases inbox { b with agenda := rest } with ⟨he, _⟩ |
      ⟨p, xs, ys, _, _, _, he⟩ <;> rw [he]
    · exact Or.inl hq
    · exact Or.inl (by rw [first, posts_append]; exact List.mem_append_right _ hq)

theorem mem_workOff_of_posts (ha : (b.workOff gone ts).1.agenda = []) {q : String × Frame}
    (hq : q ∈ posts b.agenda) : q ∈ (b.workOff gone ts).2 := by
  induction ts generalizing b with
  | nil =>
    rw [workOff] at ha
    rw [ha] at hq
    cases hq
  | cons t ts ih =>
    rw [workOff_cons]
    rcases mem_posts_chore hq with hp | hp
    · exact List.mem_append_right _ (ih ha hp)
    · exact List.mem_append_left _ hp

end State

end DemandFlow.Broker
