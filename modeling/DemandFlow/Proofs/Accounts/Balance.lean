import DemandFlow.Proofs.Demand.Window
import Mathlib.Algebra.GroupWithZero.Nat

/-
  The two sides of the demand of one subscription: what its accounts say is outstanding, and
  what is on its way (asked for, held by the broker, or carried by frames). The accounts never
  say more, save for requests that were added and could not go out; without byte budgets and
  below the largest word the two sides are equal, save for the same requests.
-/

namespace DemandFlow

/-- A request whose alarm period can be set, so that it goes out. -/
def PullRequest.GoesOut (r : PullRequest) : Prop := Monitor.periodFor? r.heartbeat ≠ none

instance (r : PullRequest) : Decidable r.GoesOut :=
  inferInstanceAs (Decidable (_ ≠ none))

namespace Accounts

/-- The messages that some requests ask for. -/
def wanted (rs : List PullRequest) : Nat := (rs.map PullRequest.batch).sum

/-- The messages that requests ask for that did not go out. -/
def stranded (rs : List PullRequest) : Nat :=
  wanted (rs.filter fun r => decide ¬r.GoesOut)

theorem wanted_cons (r : PullRequest) (rs : List PullRequest) :
    wanted (r :: rs) = r.batch + wanted rs := by
  simp only [wanted, List.map_cons, List.sum_cons]

theorem stranded_cons_of_goesOut {r : PullRequest} (h : r.GoesOut) (rs : List PullRequest) :
    stranded (r :: rs) = stranded rs := by
  unfold stranded
  rw [List.filter_cons_of_neg (by simpa using h)]

theorem stranded_cons_of_not {r : PullRequest} (h : ¬r.GoesOut) (rs : List PullRequest) :
    stranded (r :: rs) = r.batch + stranded rs := by
  unfold stranded
  rw [List.filter_cons_of_pos (by simpa using h), wanted_cons]

/-- Where every request goes out nothing is stranded. -/
theorem stranded_eq_zero {rs : List PullRequest} (h : ∀ r ∈ rs, r.GoesOut) :
    stranded rs = 0 := by
  unfold stranded
  have he : rs.filter (fun r => decide ¬r.GoesOut) = [] :=
    List.filter_eq_nil_iff.2 fun r hr => by simpa using h r hr
  rw [he]
  rfl

/-- No request has a byte budget, and all of them together fit a word. -/
structure Simple (rs : List PullRequest) : Prop where
  unbudgeted : ∀ r ∈ rs, r.maxBytes = 0
  fits : wanted rs ≤ Count.top

/-- Demand beside what is on its way, after the requests `rs`. -/
structure Balanced (rs : List PullRequest) (d : Demand) (onWay : Nat) : Prop where
  most : d.messages ≤ onWay + stranded rs
  exact : Simple rs →
    d.IsUntracked ∧ d.messages = onWay + stranded rs ∧ d.messages ≤ wanted rs

theorem simple_of_cons {r : PullRequest} {rs : List PullRequest} (h : Simple (r :: rs)) :
    Simple rs := by
  have hw := h.fits
  rw [wanted_cons] at hw
  exact ⟨fun q hq => h.unbudgeted q (List.mem_cons_of_mem _ hq), by omega⟩

theorem balanced_start : Balanced [] .none 0 :=
  ⟨Nat.le_refl _, fun _ => ⟨Demand.isUntracked_none, rfl, Nat.le_refl _⟩⟩

/-- A request is added on the one side; on the other it is asked for, or stranded. -/
theorem balanced_add {rs : List PullRequest} {d : Demand} {n n' : Nat} {r : PullRequest}
    (h : Balanced rs d n) (hn : n' + stranded (r :: rs) = n + stranded rs + r.batch) :
    Balanced (r :: rs) (d.add r) n' := by
  have hle := Demand.messages_add_le d r
  have hm := h.most
  refine ⟨by omega, fun hs => ?_⟩
  obtain ⟨hu, he, hw⟩ := h.exact (simple_of_cons hs)
  have hfit : d.messages + r.batch ≤ Count.top := by
    have hw' := hs.fits
    rw [wanted_cons] at hw'
    omega
  have hadd : (d.add r).messages = d.messages + r.batch := Count.add_of_le hfit
  refine ⟨Demand.isUntracked_add hu (hs.unbudgeted r List.mem_cons_self), ?_, ?_⟩
  · rw [hadd]
    omega
  · rw [hadd, wanted_cons]
    omega

theorem balanced_issue {rs : List PullRequest} {d : Demand} {n : Nat} {r : PullRequest}
    (h : Balanced rs d n) (hr : r.GoesOut) : Balanced (r :: rs) (d.add r) (n + r.batch) :=
  balanced_add h (by rw [stranded_cons_of_goesOut hr]; omega)

theorem balanced_strand {rs : List PullRequest} {d : Demand} {n : Nat} {r : PullRequest}
    (h : Balanced rs d n) (hr : ¬r.GoesOut) : Balanced (r :: rs) (d.add r) n :=
  balanced_add h (by rw [stranded_cons_of_not hr]; omega)

/-- A frame that arrives is settled. -/
theorem balanced_take {rs : List PullRequest} {d : Demand} {n : Nat} {f : Frame}
    (h : Balanced rs d (f.weight + n)) (hf : f.Honest) : Balanced rs (d.take f) n := by
  have hle := Demand.messages_take_le (d := d) hf
  have hm := h.most
  refine ⟨by omega, fun hs => ?_⟩
  obtain ⟨hu, he, hw⟩ := h.exact hs
  have ht := Demand.messages_take_untracked hu hf
  exact ⟨Demand.isUntracked_take hu f, by omega, by omega⟩

end Accounts

end DemandFlow
