import DemandFlow.Frame.Disposition

/-
  Running totals: pulls that went out, messages and statuses that were taken in, and heartbeat
  alarms. Statuses are counted by disposition under one name.
-/

namespace DemandFlow

structure Counters where
  pulls : Nat
  messages : Nat
  terminus : Nat
  warning : Nat
  error : Nat
  alarms : Nat
deriving DecidableEq

namespace Counters

def start : Counters := ⟨0, 0, 0, 0, 0, 0⟩

def addPull (c : Counters) : Counters := { c with pulls := c.pulls + 1 }

def addMessage (c : Counters) : Counters := { c with messages := c.messages + 1 }

def addAlarm (c : Counters) : Counters := { c with alarms := c.alarms + 1 }

def addStatus (c : Counters) : Disposition → Counters
  | .terminus => { c with terminus := c.terminus + 1 }
  | .warning => { c with warning := c.warning + 1 }
  | .error => { c with error := c.error + 1 }

/-- Statuses of any disposition. -/
def statuses (c : Counters) : Nat := c.terminus + c.warning + c.error

theorem statuses_addStatus (c : Counters) (d : Disposition) :
    (c.addStatus d).statuses = c.statuses + 1 := by
  cases d <;> simp only [addStatus, statuses] <;> omega

/-! ## Names -/

def pullsName : String := "pullwire_pull_requests_total"
def messagesName : String := "pullwire_messages_total"
def statusesName : String := "pullwire_status_total"
def alarmsName : String := "pullwire_heartbeat_alarms_total"

/-- The total under a name; a name that nobody uses has the total zero. -/
def total (c : Counters) (name : String) : Nat :=
  if name = pullsName then c.pulls
  else if name = messagesName then c.messages
  else if name = statusesName then c.statuses
  else if name = alarmsName then c.alarms
  else 0

/-- One total in the text form of metrics, with its label if it has one. -/
def sampleLine (name label : String) (n : Nat) : String := name ++ label ++ " " ++ toString n

/-- The lines of the totals under one name, if any of them was ever raised. -/
def family (name : String) (samples : List (String × Nat)) : List String :=
  let raised := samples.filter fun s => s.2 ≠ 0
  if raised.isEmpty then []
  else ("# TYPE " ++ name ++ " counter") :: raised.map fun s => sampleLine name s.1 s.2

def dispositionLabel (d : Disposition) : String :=
  "\x7bdisposition=\x22" ++ d.name ++ "\x22\x7d"

/-- All totals that were ever raised, as lines of text. -/
def lines (c : Counters) : List String :=
  family alarmsName [("", c.alarms)]
    ++ family messagesName [("", c.messages)]
    ++ family pullsName [("", c.pulls)]
    ++ family statusesName
      [(dispositionLabel .error, c.error), (dispositionLabel .terminus, c.terminus),
       (dispositionLabel .warning, c.warning)]

theorem lines_start : start.lines = [] := by
  simp [lines, family, start]

end Counters

end DemandFlow
