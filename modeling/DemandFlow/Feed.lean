import DemandFlow.Fifo
import DemandFlow.Frame

/-
  The way of frames from a broker to one inbox. It holds a bounded number of frames; its writer
  and its reader can each be gone while the other is still there.
-/

namespace DemandFlow

structure Feed where
  inbox : String
  frames : Fifo Frame
  capacity : Nat
  /-- Whether someone still reads it. -/
  reading : Bool
  /-- Whether the broker still writes it. -/
  writing : Bool
  /-- The subscription whose worker reads it; a raw feed has none. -/
  reader : Option Nat

namespace Feed

/-- An empty feed; it holds at least one frame, whatever is asked for. -/
def start (inbox : String) (capacity : Nat) (reader : Option Nat) : Feed :=
  ⟨inbox, .empty, max 1 capacity, true, true, reader⟩

def isFull (f : Feed) : Bool := f.capacity ≤ f.frames.size

def push (f : Feed) (a : Frame) : Feed := { f with frames := f.frames.push a }

/-- The feed without its writer; what it holds can still be read. -/
def shut (f : Feed) : Feed := { f with writing := false }

/-- The feed without its reader; what it holds is lost. -/
def abandon (f : Feed) : Feed := { f with reading := false, frames := .empty }

/-- The feed once all frames were taken out. -/
def emptied (f : Feed) : Feed := { f with frames := .empty }

theorem isFull_start (inbox : String) (capacity : Nat) (reader : Option Nat) :
    (start inbox capacity reader).isFull = false := by
  have h : (Fifo.empty : Fifo Frame).size = 0 := rfl
  simp only [isFull, start, h, decide_eq_false_iff_not]
  omega

theorem toList_push (f : Feed) (a : Frame) :
    (f.push a).frames.toList = f.frames.toList ++ [a] := Fifo.toList_push _ _

end Feed

end DemandFlow
