/-
  First-in first-out queues. `toList` shows the items in the order in which they leave; `push`
  adds at its end and `pop?` takes its head.
-/

namespace DemandFlow

/-- A queue: items about to leave in order, and the later ones with the newest first. -/
structure Fifo (α : Type) where
  front : List α
  back : List α
deriving DecidableEq

namespace Fifo

variable {α : Type}

def empty : Fifo α := ⟨[], []⟩

def toList (q : Fifo α) : List α := q.front ++ q.back.reverse

def push (q : Fifo α) (a : α) : Fifo α := ⟨q.front, a :: q.back⟩

/-- The head and the queue behind it. -/
def pop? (q : Fifo α) : Option (α × Fifo α) :=
  match q.front with
  | a :: rest => some (a, ⟨rest, q.back⟩)
  | [] =>
    match q.back.reverse with
    | [] => none
    | a :: rest => some (a, ⟨rest, []⟩)

def isEmpty (q : Fifo α) : Bool := q.front.isEmpty && q.back.isEmpty

def size (q : Fifo α) : Nat := q.front.length + q.back.length

theorem toList_empty : (empty : Fifo α).toList = [] := rfl

theorem toList_push (q : Fifo α) (a : α) : (q.push a).toList = q.toList ++ [a] := by
  simp [toList, push]

theorem mem_push {q : Fifo α} {a b : α} : b ∈ (q.push a).toList ↔ b ∈ q.toList ∨ b = a := by
  rw [toList_push, List.mem_append, List.mem_singleton]

theorem length_toList (q : Fifo α) : q.toList.length = q.size := by
  simp [toList, size]

theorem pop?_eq_none_iff {q : Fifo α} : q.pop? = none ↔ q.toList = [] := by
  cases q with
  | mk front back =>
    cases front with
    | cons a rest => simp [pop?, toList]
    | nil =>
      cases h : back.reverse with
      | nil => simp [pop?, toList, h]
      | cons a rest => simp [pop?, toList, h]

theorem toList_of_pop? {q r : Fifo α} {a : α} (h : q.pop? = some (a, r)) :
    q.toList = a :: r.toList := by
  cases q with
  | mk front back =>
    cases front with
    | cons b rest =>
      simp only [pop?, Option.some.injEq, Prod.mk.injEq] at h
      obtain ⟨rfl, rfl⟩ := h
      simp [toList]
    | nil =>
      cases hb : back.reverse with
      | nil => simp [pop?, hb] at h
      | cons b rest =>
        simp only [pop?, hb, Option.some.injEq, Prod.mk.injEq] at h
        obtain ⟨rfl, rfl⟩ := h
        simp [toList, hb]

end Fifo

end DemandFlow
