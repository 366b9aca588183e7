import DemandFlow.Span
import DemandFlow.Text.Quoted

/-
  Log entries. An entry has a level, the part of the program that wrote it, a fixed text and
  named fields in the order in which they are shown. In a record, text that is given as it is
  stands between quotes, and what is shown in a form of its own stands bare.
-/

namespace DemandFlow.Log

inductive Level where
  | error
  | warn
  | info
  | debug
  | trace
deriving DecidableEq

namespace Level

def name : Level → String
  | .error => "error"
  | .warn => "warn"
  | .info => "info"
  | .debug => "debug"
  | .trace => "trace"

/-- Zero for the most urgent level. -/
def rank : Level → Nat
  | .error => 0
  | .warn => 1
  | .info => 2
  | .debug => 3
  | .trace => 4

/-- Whether an entry of level `l` is kept when entries down to `least` are asked for. -/
def reaches (l least : Level) : Bool := l.rank ≤ least.rank

end Level

/-- The value of a field. -/
inductive Value where
  | plain (s : String)
  | shown (s : String)
  | count (n : Nat)
  | flag (b : Bool)
deriving DecidableEq

/-- A value as a record shows it. -/
def Value.text : Value → String
  | .plain s => Text.quoted s
  | .shown s => s
  | .count n => toString n
  | .flag b => toString b

/-- One log entry. -/
structure Entry where
  level : Level
  origin : String
  message : String
  fields : List (String × Value)
deriving DecidableEq

/-- The entry as one line: its text, then each field. -/
def Entry.record (e : Entry) : String :=
  e.message ++ String.join (e.fields.map fun f => " " ++ f.1 ++ "=" ++ f.2.text)

/-- Whether a text stands somewhere in another. -/
def isInfix (needle : List Char) : List Char → Bool
  | [] => needle.isEmpty
  | c :: cs => needle.isPrefixOf (c :: cs) || isInfix needle cs

def mentions (needle text : String) : Bool := isInfix needle.toList text.toList

theorem Entry.record_of_no_fields (l : Level) (o m : String) :
    Entry.record ⟨l, o, m, []⟩ = m := by
  simp [Entry.record]

theorem Level.reaches_refl (l : Level) : l.reaches l = true := by
  simp [Level.reaches]

end DemandFlow.Log
