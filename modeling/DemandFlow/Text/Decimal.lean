import DemandFlow.Count

/-
  Counts read from decimal text. A count is an optional plus sign and at least one ASCII digit,
  with a value that fits the word it is read into; nothing else may stand around it.
-/

namespace DemandFlow.Text

/-- The value of a digit, for the ten ASCII digits only. -/
def digit? (c : Char) : Option Nat :=
  if '0' ≤ c ∧ c ≤ '9' then some (c.toNat - '0'.toNat) else none

/-- The value of a run of digits read after a value `acc`, or nothing if one is no digit. -/
def digitsFrom? (acc : Nat) : List Char → Option Nat
  | [] => some acc
  | c :: cs =>
    match digit? c with
    | some d => digitsFrom? (acc * 10 + d) cs
    | none => none

/-- The value of a run of at least one digit. -/
def digits? : List Char → Option Nat
  | [] => none
  | c :: cs => digitsFrom? 0 (c :: cs)

/-- The count that `cs` spells, if it is at most `limit`. -/
def boundedCount? (limit : Nat) (cs : List Char) : Option Nat :=
  let body := match cs with
    | '+' :: rest => rest
    | _ => cs
  (digits? body).filter (· ≤ limit)

/-- The count that `cs` spells, if it fits a 64-bit word. -/
def count? (cs : List Char) : Option Nat := boundedCount? Count.top cs

/-- A count read through a signed word: a minus sign is allowed, but only before zero. -/
def signedCount? (limit : Nat) (cs : List Char) : Option Nat :=
  match cs with
  | '-' :: rest => (digits? rest).filter (· == 0)
  | _ => boundedCount? limit cs

theorem digits?_nil : digits? [] = none := rfl

theorem boundedCount?_le {limit n : Nat} {cs : List Char} (h : boundedCount? limit cs = some n) :
    n ≤ limit := by
  simp only [boundedCount?, Option.filter_eq_some_iff, decide_eq_true_eq] at h
  exact h.2

theorem count?_le {n : Nat} {cs : List Char} (h : count? cs = some n) : n ≤ Count.top :=
  boundedCount?_le h

end DemandFlow.Text
