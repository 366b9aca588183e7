/-
  Headers of messages and statuses: key and value pairs in the order in which they were given,
  where a key may come more than once.
-/

namespace DemandFlow

structure Headers where
  entries : List (String × String)
deriving DecidableEq, Inhabited

namespace Headers

def empty : Headers := ⟨[]⟩

/-- Append a value; values that the key has already stay. -/
def insert (h : Headers) (key value : String) : Headers := ⟨h.entries ++ [(key, value)]⟩

/-- The first value of `key`, upper and lower case kept apart. -/
def get? (h : Headers) (key : String) : Option String :=
  (h.entries.find? fun e => e.1 == key).map (·.2)

def size (h : Headers) : Nat := h.entries.length

def isEmpty (h : Headers) : Bool := h.entries.isEmpty

/-- The line that opens a header block. -/
def versionLine : String := "NATS/1.0\r\n"

/-- The bytes of one entry: the key, a colon, the value and a line end. -/
def lineLength (e : String × String) : Nat := e.1.utf8ByteSize + 1 + e.2.utf8ByteSize + 2

/-- The bytes of all entries. -/
def linesLength : List (String × String) → Nat
  | [] => 0
  | e :: es => lineLength e + linesLength es

theorem linesLength_append (es fs : List (String × String)) :
    linesLength (es ++ fs) = linesLength es + linesLength fs := by
  induction es with
  | nil => simp [linesLength]
  | cons e es ih => simp only [List.cons_append, linesLength, ih]; omega

/-- The bytes of the header block: nothing for no entries, else the version line, a line for
each entry and a line end. -/
def wireLength (h : Headers) : Nat :=
  if h.entries.isEmpty then 0
  else versionLine.utf8ByteSize + linesLength h.entries + 2

theorem wireLength_empty : empty.wireLength = 0 := rfl

theorem entries_insert (h : Headers) (k v : String) :
    (h.insert k v).entries = h.entries ++ [(k, v)] := rfl

theorem get?_empty (k : String) : empty.get? k = none := rfl

/-- A key keeps its first value when more are appended. -/
theorem get?_insert_of_some {h : Headers} {k v w : String} {k' : String}
    (hk : h.get? k = some v) : (h.insert k' w).get? k = some v := by
  unfold get? at *
  rw [entries_insert, List.find?_append]
  cases hf : h.entries.find? (fun e => e.1 == k) with
  | none => simp [hf] at hk
  | some e => simpa [hf] using hk

end Headers

end DemandFlow
